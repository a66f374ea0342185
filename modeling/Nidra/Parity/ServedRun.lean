import Nidra.Features.AnyOrder
import Nidra.Features.RetriedClose

/-
  This file runs the features worker over the windows of a
  tenant, in the order of time, and states what it reads when
  a window is closed: the peers and edges of that window, the
  peers of all windows before, and the edges of the window
  one step before.

  Key definitions include:
    * `Arrival`, `Batch`, `Batch.serve`, `serveAll`
    * `Batch.Kept`
    * `ServedRun`
    * `Reading`

  Main declarations:
    * `reading_atClose`, `Served.serve`
    * `Splits.served`
    * `ServedRun.kept_of_brief`
-/

namespace Nidra

namespace Parity

open Features

set_option linter.unusedSectionVars false

variable {𝕜 : Type}
variable [Field 𝕜] [LinearOrder 𝕜] [FloorRing 𝕜]
variable [ExpLog 𝕜]

------------------------------------------------------------
-- Runs
------------------------------------------------------------

/- An event and the time at which it is folded in. -/
structure Arrival (𝕜 : Type) where
  fold : Fold 𝕜
  time : ℚ

/- The events of one window and the time it is closed. -/
structure Batch (𝕜 : Type) where
  windowTs : ℤ
  arrivals : List (Arrival 𝕜)
  closeTime : ℚ

/- Fold one event in. -/
def arrive
    (windowTs : ℤ)
    (w : World 𝕜)
    (a : Arrival 𝕜) : World 𝕜 :=
  (w.wait a.time).accumulate a.fold.event windowTs
    a.fold.reading

/- The state in which a window is closed. -/
def Batch.atClose
    (b : Batch 𝕜)
    (w : World 𝕜) : World 𝕜 :=
  (b.arrivals.foldl (arrive b.windowTs) w).wait
    b.closeTime

section Served

variable (cfg : FeaturesConfig)
variable (tenantId : String)

/- The events of a window are folded in and it is closed. -/
def Batch.serve
    (w : World 𝕜)
    (b : Batch 𝕜) : World 𝕜 :=
  (b.atClose w).closed cfg tenantId b.windowTs

/- Windows, one after the other. -/
def serveAll
    (w : World 𝕜)
    (batches : List (Batch 𝕜)) : World 𝕜 :=
  batches.foldl (Batch.serve cfg tenantId) w

/- No key that the fold of an event reads has expired. -/
structure FoldKept
    (w : World 𝕜)
    (windowTs : ℤ)
    (event : RawEvent 𝕜) : Prop where
  hash :
    w.windows.Kept w.now
      (event.tenantId, event.srcIp, windowTs)
  hosts : w.hosts.Kept w.now (event.tenantId, windowTs)
  graph : w.graphs.Kept w.now (event.tenantId, windowTs)

/- No key that the close of a window reads has expired. -/
structure CloseKept
    (w : World 𝕜)
    (windowTs : ℤ) : Prop where
  hosts : w.hosts.Kept w.now (tenantId, windowTs)
  graph : w.graphs.Kept w.now (tenantId, windowTs)
  previous :
    w.graphs.Kept w.now
      (tenantId, windowTs - cfg.windowDelta)
  hash :
    ∀ host ∈ w.hostsOf tenantId windowTs,
      w.windows.Kept w.now (tenantId, host, windowTs)
  peers :
    ∀ host ∈ w.hostsOf tenantId windowTs,
      w.peers.Kept w.now (tenantId, host)

/- No key that is read for a window has expired. -/
def Batch.Kept
    (w : World 𝕜)
    (b : Batch 𝕜) : Prop :=
  AllAlong (arrive b.windowTs)
      (fun w a =>
        FoldKept (w.wait a.time) b.windowTs a.fold.event)
      w b.arrivals ∧
    CloseKept cfg tenantId (b.atClose w) b.windowTs

/- Nothing is stored of a tenant. -/
structure Untouched (w : World 𝕜) : Prop where
  hosts : ∀ ts, w.hosts.written (tenantId, ts) = none
  graphs : ∀ ts, w.graphs.written (tenantId, ts) = none
  windows :
    ∀ host ts, w.windows.written (tenantId, host, ts) = none
  peers : ∀ host, w.peers.written (tenantId, host) = none

/- A host is named by an address: no edge separator in it. -/
structure Address (host : String) : Prop where
  nonempty : host ≠ ""
  plain : '>' ∉ host.toList

/-
  Windows of flow edges of a tenant, in the order of time,
  from the first one on.
-/
structure ServedRun (𝕜 : Type)
    [Field 𝕜] [LinearOrder 𝕜] [FloorRing 𝕜] [ExpLog 𝕜]
    (cfg : FeaturesConfig)
    (tenantId : String) where
  start : World 𝕜
  untouched : Untouched tenantId start
  batches : List (Batch 𝕜)
  aligned :
    ∀ b ∈ batches, cfg.windowDelta ∣ b.windowTs
  increasing :
    batches.Pairwise (fun b b' => b.windowTs < b'.windowTs)
  tenant :
    ∀ b ∈ batches, ∀ a ∈ b.arrivals,
      a.fold.event.tenantId = tenantId
  source :
    ∀ b ∈ batches, ∀ a ∈ b.arrivals,
      Address a.fold.event.srcIp
  destination :
    ∀ b ∈ batches, ∀ a ∈ b.arrivals,
      a.fold.event.dstIp ≠ ""

end Served

variable {cfg : FeaturesConfig}
variable {tenantId : String}

/- Nothing that the run reads has expired. -/
def ServedRun.Kept
    (run : ServedRun 𝕜 cfg tenantId) : Prop :=
  AllAlong (Batch.serve cfg tenantId)
    (Batch.Kept cfg tenantId) run.start run.batches

/- The destinations of a host among some events. -/
def destinationsIn
    (arrivals : List (Arrival 𝕜))
    (host : String) : Finset String :=
  ((arrivals.filter
    (fun a => a.fold.event.srcIp = host)).map
      (fun a => a.fold.event.dstIp)).toFinset

theorem mem_destinationsIn
    {arrivals : List (Arrival 𝕜)}
    {host peer : String} :
    peer ∈ destinationsIn arrivals host ↔
      ∃ a ∈ arrivals,
        a.fold.event.srcIp = host ∧
          a.fold.event.dstIp = peer := by
  simp [destinationsIn, and_assoc]

------------------------------------------------------------
-- Edges and destinations of a hash
------------------------------------------------------------

theorem parseEdge_edgeField
    {src dst : String}
    (hSrc : Address src)
    (hDst : dst ≠ "") :
    parseEdge (edgeField src dst) = some (src, dst) := by
  have hChars :
      (edgeField src dst).toList =
        src.toList ++ '>' :: dst.toList := by
    simp [edgeField]
  have hKeep :
      ∀ c ∈ src.toList, decide (c ≠ '>') = true := by
    intro c hC
    rw [decide_eq_true_eq]
    rintro rfl
    exact hSrc.plain hC
  unfold parseEdge
  simp only
  rw [hChars, List.dropWhile_append_of_pos hKeep,
    List.takeWhile_append_of_pos hKeep]
  simp [hSrc.nonempty, hDst]

/- Flags are bumped under scalars only. -/
theorem dstIp_mem_foldl
    {flags : List TcpFlag}
    {step :
      Tally (WindowField 𝕜) 𝕜 → TcpFlag →
        Tally (WindowField 𝕜) 𝕜}
    (hStep :
      ∀ inc flag, step inc flag = inc ∨
        ∃ amount,
          step inc flag = inc.bump (.scalar (.flag flag)) amount)
    (inc : Tally (WindowField 𝕜) 𝕜)
    (ip : String) :
    .dstIp ip ∈ (flags.foldl step inc).keys ↔
      .dstIp ip ∈ inc.keys := by
  induction flags generalizing inc with
  | nil => rfl
  | cons flag flags ih =>
      rw [List.foldl_cons, ih]
      rcases hStep inc flag with hSame | ⟨amount, hBump⟩
      · rw [hSame]
      · rw [hBump]
        simp

theorem dstIp_mem_flowIncrements
    (inc : Tally (WindowField 𝕜) 𝕜)
    (fields : FlowField → Option 𝕜)
    (ip : String) :
    .dstIp ip ∈ (flowIncrements inc fields).keys ↔
      .dstIp ip ∈ inc.keys := by
  unfold flowIncrements
  simp only [Tally.mem_keys_bump, reduceCtorEq, false_or]
  rw [dstIp_mem_foldl]
  · simp
  · intro inc flag
    split
    · exact Or.inl rfl
    · exact Or.inr ⟨_, rfl⟩

theorem dstIp_mem_bumpPresent
    {inc : Tally (WindowField 𝕜) 𝕜}
    {value : Option 𝕜}
    {f : 𝕜 → Tally (WindowField 𝕜) 𝕜 →
      Tally (WindowField 𝕜) 𝕜}
    {ip : String}
    (hF :
      ∀ x inc, .dstIp ip ∈ (f x inc).keys ↔
        .dstIp ip ∈ inc.keys) :
    .dstIp ip ∈ (bumpPresent inc value f).keys ↔
      .dstIp ip ∈ inc.keys := by
  cases value with
  | none => rfl
  | some x => exact hF x inc

theorem dstIp_mem_packetIncrements
    (inc : Tally (WindowField 𝕜) 𝕜)
    (fields : PacketField → Option 𝕜)
    (ip : String) :
    .dstIp ip ∈ (packetIncrements inc fields).keys ↔
      .dstIp ip ∈ inc.keys := by
  have hOptional :
      ∀ (keep : Prop) [Decidable keep]
        (inc : Tally (WindowField 𝕜) 𝕜) (name : Counter),
        .dstIp ip ∈
            (if keep then inc
              else inc.bump (.scalar name) 1).keys ↔
          .dstIp ip ∈ inc.keys := by
    intro keep _ inc name
    split
    · rfl
    · simp
  unfold packetIncrements
  simp only [hOptional]
  rw [dstIp_mem_bumpPresent (by simp), hOptional,
    dstIp_mem_bumpPresent (by simp),
    dstIp_mem_bumpPresent (by simp)]
  simp only [Tally.mem_keys_bump, reduceCtorEq, false_or]
  rw [dstIp_mem_foldl]
  · simp
  · intro inc flag
    split
    · exact Or.inl rfl
    · exact Or.inr ⟨_, rfl⟩

/- An event adds its destination, and no other. -/
theorem dstIp_mem_eventIncrements
    {event : RawEvent 𝕜}
    (hDst : event.dstIp ≠ "")
    (ip : String) :
    .dstIp ip ∈ (eventIncrements event).keys ↔
      event.dstIp = ip := by
  unfold eventIncrements
  simp only [if_neg hDst]
  cases event.measurements with
  | flow fields =>
      simp only [dstIp_mem_flowIncrements]
      cases event.dstPort <;> simp [eq_comm]
  | packet fields =>
      simp only [dstIp_mem_packetIncrements]
      cases event.dstPort <;> simp [eq_comm]

/- The destinations of a hash are those of its fields. -/
theorem mem_peers_fromHash
    (hash : Tally (WindowField 𝕜) 𝕜)
    (ip : String) :
    ip ∈
        (WindowAccumulator.fromHash
          hash).dstIp.keys.toFinset ↔
      .dstIp ip ∈ hash.keys := by
  rw [List.mem_toFinset, Tally.mem_keys_iff,
    Tally.mem_keys_iff]
  have hLookup :=
    WindowAccumulator.lookup_fromHash hash (.dstIp ip)
  unfold WindowAccumulator.lookup at hLookup
  rw [← hLookup]

------------------------------------------------------------
-- Folding the events of a window
------------------------------------------------------------

/-
  Some events of a window were folded in: its hashes, hosts
  and edges are theirs, and nothing else was written.
-/
structure Folding
    (tenantId : String)
    (before w : World 𝕜)
    (windowTs : ℤ)
    (seen : List (Arrival 𝕜)) : Prop where
  hash :
    ∀ host ip,
      .dstIp ip ∈
          ((w.windows.written
            (tenantId, host, windowTs)).getD .empty).keys ↔
        ip ∈ destinationsIn seen host
  hosts :
    ∀ host,
      host ∈ (w.hosts.written (tenantId, windowTs)).getD ∅ ↔
        ∃ a ∈ seen, a.fold.event.srcIp = host
  graph :
    ∀ field,
      field ∈
          ((w.graphs.written
            (tenantId, windowTs)).getD .empty).keys ↔
        ∃ a ∈ seen,
          edgeField a.fold.event.srcIp a.fold.event.dstIp =
            field
  peers : w.peers = before.peers
  otherHashes :
    ∀ host ts, ts ≠ windowTs →
      w.windows.written (tenantId, host, ts) =
        before.windows.written (tenantId, host, ts)
  otherHosts :
    ∀ ts, ts ≠ windowTs →
      w.hosts.written (tenantId, ts) =
        before.hosts.written (tenantId, ts)
  otherGraphs :
    ∀ ts, ts ≠ windowTs →
      w.graphs.written (tenantId, ts) =
        before.graphs.written (tenantId, ts)

namespace Folding

variable {before w : World 𝕜}
variable {windowTs : ℤ}
variable {seen : List (Arrival 𝕜)}

/- Before the first event nothing is stored of the window. -/
theorem first
    (hHashes :
      ∀ host,
        w.windows.written (tenantId, host, windowTs) = none)
    (hHosts : w.hosts.written (tenantId, windowTs) = none)
    (hGraph : w.graphs.written (tenantId, windowTs) = none) :
    Folding tenantId w w windowTs [] := by
  refine
    { hash := ?_
      hosts := ?_
      graph := ?_
      peers := rfl
      otherHashes := fun _ _ _ => rfl
      otherHosts := fun _ _ => rfl
      otherGraphs := fun _ _ => rfl }
  · intro host ip
    rw [hHashes host]
    simp [destinationsIn]
  · intro host
    rw [hHosts]
    simp
  · intro field
    rw [hGraph]
    simp

/- One more event is folded in. -/
theorem arrive
    (hFolding : Folding tenantId before w windowTs seen)
    {a : Arrival 𝕜}
    (hTenant : a.fold.event.tenantId = tenantId)
    (hDst : a.fold.event.dstIp ≠ "")
    (hKept :
      FoldKept (w.wait a.time) windowTs a.fold.event) :
    Folding tenantId before (arrive windowTs w a) windowTs
      (seen ++ [a]) := by
  subst hTenant
  have hHashKept := hKept.hash
  have hHostsKept := hKept.hosts
  have hGraphKept := hKept.graph
  unfold TtlStore.Kept at hHashKept hHostsKept hGraphKept
  refine
    { hash := ?_
      hosts := ?_
      graph := ?_
      peers := hFolding.peers
      otherHashes := ?_
      otherHosts := ?_
      otherGraphs := ?_ }
  · intro host ip
    have hOld := hFolding.hash host ip
    rw [mem_destinationsIn] at hOld ⊢
    unfold Parity.arrive World.accumulate
    by_cases hHost : host = a.fold.event.srcIp
    · subst hHost
      simp only [TtlStore.written_renew_self,
        Option.getD_some]
      rw [Tally.mem_keys_merge, hHashKept,
        dstIp_mem_eventIncrements hDst]
      have hWait :
          (w.wait a.time).windows = w.windows := rfl
      rw [hWait, hOld]
      simp only [List.mem_append, List.mem_singleton]
      constructor
      · rintro (⟨b, hB, hBoth⟩ | hIp)
        · exact ⟨b, Or.inl hB, hBoth⟩
        · exact ⟨a, Or.inr rfl, rfl, hIp⟩
      · rintro ⟨b, hB | rfl, hBoth⟩
        · exact Or.inl ⟨b, hB, hBoth⟩
        · exact Or.inr hBoth.2
    · have hKey :
          (a.fold.event.tenantId, host, windowTs) ≠
            (a.fold.event.tenantId, a.fold.event.srcIp,
              windowTs) := by
        intro hEq
        simp only [Prod.mk.injEq, true_and, and_true] at hEq
        exact hHost hEq
      simp only [TtlStore.written_renew_ne _ _ _ _ hKey]
      refine hOld.trans ?_
      simp only [List.mem_append, List.mem_singleton]
      constructor
      · rintro ⟨b, hB, hBoth⟩
        exact ⟨b, Or.inl hB, hBoth⟩
      · rintro ⟨b, hB | rfl, hBoth⟩
        · exact ⟨b, hB, hBoth⟩
        · exact absurd hBoth.1.symm hHost
  · intro host
    unfold Parity.arrive World.accumulate
    simp only [TtlStore.written_renew_self, Option.getD_some,
      Finset.mem_insert, hHostsKept]
    have hOld := hFolding.hosts host
    have hWait : (w.wait a.time).hosts = w.hosts := rfl
    rw [hWait, hOld]
    simp only [List.mem_append, List.mem_singleton]
    constructor
    · rintro (rfl | ⟨b, hB, hHost⟩)
      · exact ⟨a, Or.inr rfl, rfl⟩
      · exact ⟨b, Or.inl hB, hHost⟩
    · rintro ⟨b, hB | rfl, hHost⟩
      · exact Or.inr ⟨b, hB, hHost⟩
      · exact Or.inl hHost.symm
  · intro field
    unfold Parity.arrive World.accumulate
    simp only [if_neg hDst, TtlStore.written_renew_self,
      Option.getD_some, Tally.mem_keys_bump, hGraphKept]
    have hOld := hFolding.graph field
    have hWait : (w.wait a.time).graphs = w.graphs := rfl
    rw [hWait, hOld]
    simp only [List.mem_append, List.mem_singleton]
    constructor
    · rintro (rfl | ⟨b, hB, hEdge⟩)
      · exact ⟨a, Or.inr rfl, rfl⟩
      · exact ⟨b, Or.inl hB, hEdge⟩
    · rintro ⟨b, hB | rfl, hEdge⟩
      · exact Or.inr ⟨b, hB, hEdge⟩
      · exact Or.inl hEdge.symm
  · intro host ts hTs
    have hKey :
        (a.fold.event.tenantId, host, ts) ≠
          (a.fold.event.tenantId, a.fold.event.srcIp,
            windowTs) := by
      intro hEq
      simp only [Prod.mk.injEq, true_and] at hEq
      exact hTs hEq.2
    refine Eq.trans ?_ (hFolding.otherHashes host ts hTs)
    exact TtlStore.written_renew_ne _ _ _ _ hKey
  · intro ts hTs
    have hKey :
        (a.fold.event.tenantId, ts) ≠
          (a.fold.event.tenantId, windowTs) := by
      intro hEq
      exact hTs (congrArg Prod.snd hEq)
    refine Eq.trans ?_ (hFolding.otherHosts ts hTs)
    exact TtlStore.written_renew_ne _ _ _ _ hKey
  · intro ts hTs
    have hKey :
        (a.fold.event.tenantId, ts) ≠
          (a.fold.event.tenantId, windowTs) := by
      intro hEq
      exact hTs (congrArg Prod.snd hEq)
    refine Eq.trans ?_ (hFolding.otherGraphs ts hTs)
    unfold Parity.arrive World.accumulate
    simp only [if_neg hDst]
    exact TtlStore.written_renew_ne _ _ _ _ hKey

/- All events of a window are folded in. -/
theorem foldl
    (hFolding : Folding tenantId before w windowTs seen)
    {arrivals : List (Arrival 𝕜)}
    (hTenant :
      ∀ a ∈ arrivals, a.fold.event.tenantId = tenantId)
    (hDst : ∀ a ∈ arrivals, a.fold.event.dstIp ≠ "")
    (hKept :
      AllAlong (Parity.arrive windowTs)
        (fun w a =>
          FoldKept (w.wait a.time) windowTs a.fold.event)
        w arrivals) :
    Folding tenantId before
      (arrivals.foldl (Parity.arrive windowTs) w) windowTs
      (seen ++ arrivals) := by
  induction arrivals generalizing w seen with
  | nil => simpa using hFolding
  | cons a arrivals ih =>
      rcases List.forall_mem_cons.mp hTenant with
        ⟨hFirst, hRest⟩
      rcases List.forall_mem_cons.mp hDst with
        ⟨hFirstDst, hRestDst⟩
      have hNext :=
        ih (hFolding.arrive hFirst hFirstDst hKept.1) hRest
          hRestDst hKept.2
      rw [List.append_assoc] at hNext
      exact hNext

/- Waiting writes nothing. -/
theorem wait
    (hFolding : Folding tenantId before w windowTs seen)
    (time : ℚ) :
    Folding tenantId before (w.wait time) windowTs seen :=
  { hash := hFolding.hash
    hosts := hFolding.hosts
    graph := hFolding.graph
    peers := hFolding.peers
    otherHashes := hFolding.otherHashes
    otherHosts := hFolding.otherHosts
    otherGraphs := hFolding.otherGraphs }

end Folding

------------------------------------------------------------
-- What a close writes
------------------------------------------------------------

section After

variable (cfg : FeaturesConfig)
variable (tenantId : String)
variable (windowTs : ℤ)

/- A close discards the graph before its own, and no other. -/
theorem graphs_after
    (w : World 𝕜)
    (acts : List (CloseAct 𝕜))
    {ts : ℤ}
    (hTs : ts ≠ windowTs - cfg.windowDelta) :
    (w.after cfg tenantId windowTs acts).graphs.written
        (tenantId, ts) =
      w.graphs.written (tenantId, ts) := by
  have hKey :
      (tenantId, ts) ≠
        (tenantId, windowTs - cfg.windowDelta) := by
    intro hEq
    exact hTs (congrArg Prod.snd hEq)
  induction acts generalizing w with
  | nil => rfl
  | cons act acts ih =>
      refine (ih (act.apply cfg tenantId windowTs w)).trans ?_
      cases act with
      | discardedGraph =>
          exact TtlStore.written_delete_ne _ hKey
      | _ => rfl

/- A close discards the hosts and hashes of its window. -/
theorem accumulators_after
    (w : World 𝕜)
    (acts : List (CloseAct 𝕜))
    {ts : ℤ}
    (hTs : ts ≠ windowTs) :
    (w.after cfg tenantId windowTs acts).hosts.written
          (tenantId, ts) =
        w.hosts.written (tenantId, ts) ∧
      ∀ host,
        (w.after cfg tenantId windowTs acts).windows.written
            (tenantId, host, ts) =
          w.windows.written (tenantId, host, ts) := by
  induction acts generalizing w with
  | nil => exact ⟨rfl, fun _ => rfl⟩
  | cons act acts ih =>
      rcases ih (act.apply cfg tenantId windowTs w) with
        ⟨hHosts, hHashes⟩
      have hStep :
          (act.apply cfg tenantId windowTs w).hosts.written
                (tenantId, ts) =
              w.hosts.written (tenantId, ts) ∧
            ∀ host,
              (act.apply cfg tenantId windowTs
                  w).windows.written (tenantId, host, ts) =
                w.windows.written (tenantId, host, ts) := by
        cases act with
        | discardedWindow hosts =>
            constructor
            · apply TtlStore.written_delete_ne
              intro hEq
              exact hTs (congrArg Prod.snd hEq)
            · intro host
              have hFold :
                  hosts.foldl
                      (fun windows other =>
                        windows.delete
                          (tenantId, other, windowTs))
                      w.windows =
                    (hosts.map (fun other =>
                      (tenantId, other, windowTs))).foldl
                        TtlStore.delete w.windows := by
                rw [List.foldl_map]
              simp only [CloseAct.apply]
              rw [hFold]
              apply TtlStore.written_foldl_delete_ne
              intro hMem
              rcases List.mem_map.mp hMem with ⟨_, _, hEq⟩
              simp only [Prod.mk.injEq, true_and] at hEq
              exact hTs hEq.2.symm
        | _ => exact ⟨rfl, fun _ => rfl⟩
      exact
        ⟨hHosts.trans hStep.1,
          fun host => (hHashes host).trans (hStep.2 host)⟩

/- The peers of a host that no act adds to stay. -/
theorem peers_after_of_none
    (w : World 𝕜)
    {acts : List (CloseAct 𝕜)}
    {host : String}
    (hNone :
      ∀ peers fresh, .addedPeers host peers fresh ∉ acts) :
    (w.after cfg tenantId windowTs acts).peers.written
        (tenantId, host) =
      w.peers.written (tenantId, host) := by
  induction acts generalizing w with
  | nil => rfl
  | cons act acts ih =>
      have hRest :
          ∀ peers fresh, .addedPeers host peers fresh ∉ acts :=
        fun peers fresh hMem =>
          hNone peers fresh (List.mem_cons_of_mem _ hMem)
      refine
        (ih (act.apply cfg tenantId windowTs w) hRest).trans ?_
      cases act with
      | addedPeers other peers fresh =>
          have hKey :
              (tenantId, host) ≠ (tenantId, other) := by
            intro hEq
            have hHost := congrArg Prod.snd hEq
            simp only at hHost
            subst hHost
            exact hNone peers fresh List.mem_cons_self
          exact TtlStore.written_put_ne _ _ _ hKey
      | renewedPeers other =>
          exact TtlStore.written_expire _ _ _ _ _
      | _ => rfl

/- The peers of a host gain those that the acts add. -/
theorem peers_after
    (w : World 𝕜)
    (acts : List (CloseAct 𝕜))
    {host : String}
    (hKept : w.peers.Kept w.now (tenantId, host))
    (ip : String) :
    ip ∈
        ((w.after cfg tenantId windowTs acts).peers.written
          (tenantId, host)).getD ∅ ↔
      ip ∈ (w.peers.written (tenantId, host)).getD ∅ ∨
        ∃ peers fresh,
          .addedPeers host peers fresh ∈ acts ∧
            ip ∈ peers := by
  induction acts generalizing w with
  | nil => simp [World.after]
  | cons act acts ih =>
      let next := act.apply cfg tenantId windowTs w
      have hStep :
          next.peers.Kept next.now (tenantId, host) ∧
            (ip ∈ (next.peers.written
                (tenantId, host)).getD ∅ ↔
              ip ∈ (w.peers.written
                  (tenantId, host)).getD ∅ ∨
                ∃ peers fresh,
                  CloseAct.addedPeers host peers fresh = act ∧
                    ip ∈ peers) := by
        unfold TtlStore.Kept at hKept ⊢
        cases act with
        | addedPeers other peers fresh =>
            by_cases hHost : host = other
            · subst hHost
              simp only [next, CloseAct.apply,
                TtlStore.get_put_self,
                TtlStore.written_put_self, hKept]
              simp
            · have hKey :
                  (tenantId, host) ≠ (tenantId, other) := by
                intro hEq
                exact hHost (congrArg Prod.snd hEq)
              simp only [next, CloseAct.apply,
                TtlStore.get_put_ne _ _ _ _ hKey,
                TtlStore.written_put_ne _ _ _ hKey, hKept]
              simp [hHost]
        | renewedPeers other =>
            simp only [next, CloseAct.apply,
              TtlStore.written_expire]
            rw [TtlStore.get_expire_now _ (peersTtlS_later _),
              hKept]
            simp
        | _ => simpa [next, CloseAct.apply] using hKept
      refine (ih next hStep.1).trans ?_
      rw [hStep.2]
      simp only [List.mem_cons]
      constructor
      · rintro ((hOld | ⟨peers, fresh, hAct, hIp⟩) |
          ⟨peers, fresh, hAct, hIp⟩)
        · exact Or.inl hOld
        · exact Or.inr ⟨peers, fresh, Or.inl hAct, hIp⟩
        · exact Or.inr ⟨peers, fresh, Or.inr hAct, hIp⟩
      · rintro (hOld | ⟨peers, fresh, hAct | hAct, hIp⟩)
        · exact Or.inl (Or.inl hOld)
        · exact Or.inl (Or.inr ⟨peers, fresh, hAct, hIp⟩)
        · exact Or.inr ⟨peers, fresh, hAct, hIp⟩

/- Peers are added to listed hosts, as they were read. -/
theorem listed_of_addedPeers
    (w : World 𝕜)
    {host : String}
    {peers : Finset String}
    {fresh : ℕ}
    (hAct :
      .addedPeers host peers fresh ∈
        closeScript cfg tenantId windowTs w) :
    host ∈ w.hostsOf tenantId windowTs ∧
      peers = (w.hostView tenantId host windowTs).peers := by
  have hEmit :
      .addedPeers host peers fresh ∈
        emitScript cfg tenantId windowTs w := by
    rcases List.mem_append.mp hAct with hEmit | hDiscard
    · exact hEmit
    · exfalso
      unfold discardScript at hDiscard
      split at hDiscard
      · simp at hDiscard
      · split at hDiscard <;> simp at hDiscard
  refine
    ⟨?_, (addedPeers_emitScript cfg tenantId windowTs w
      hEmit).1⟩
  unfold emitScript hostsScript at hEmit
  rcases List.mem_append.mp hEmit with hLooked | hEmit
  · simp at hLooked
  · rcases List.mem_flatMap.mp hEmit with
      ⟨other, hOther, hAct⟩
    -- The script of a host adds to its own peers.
    by_cases hHost : host = other
    · rw [hHost]
      exact hOther
    · have hSpares :=
        spares_hostScript cfg tenantId windowTs _ _ hHost _
          hAct
      exact absurd rfl hSpares

/- A close adds the destinations of every listed host. -/
theorem addedPeers_closeScript
    (w : World 𝕜)
    (host ip : String) :
    (∃ peers fresh,
        CloseAct.addedPeers host peers fresh ∈
            closeScript cfg tenantId windowTs w ∧
          ip ∈ peers) ↔
      host ∈ w.hostsOf tenantId windowTs ∧
        ip ∈ (w.hostView tenantId host windowTs).peers := by
  constructor
  · rintro ⟨peers, fresh, hAct, hIp⟩
    rcases listed_of_addedPeers cfg tenantId windowTs w hAct
      with ⟨hHost, rfl⟩
    exact ⟨hHost, hIp⟩
  · rintro ⟨hHost, hIp⟩
    refine
      ⟨(w.hostView tenantId host windowTs).peers,
        (w.hostView tenantId host windowTs).fresh, ?_, hIp⟩
    have hSome :
        (w.hostView tenantId host windowTs).peers ≠ ∅ :=
      Finset.ne_empty_of_mem hIp
    unfold closeScript emitScript hostsScript
    apply List.mem_append_left
    apply List.mem_append_right
    refine List.mem_flatMap.mpr ⟨host, hHost, ?_⟩
    unfold hostScript windowScript
    apply List.mem_append_right
    apply List.mem_append_left
    apply List.mem_append_left
    apply List.mem_append_right
    unfold peersScript
    rw [if_neg hSome]
    simp

end After

------------------------------------------------------------
-- What is read when a window is closed
------------------------------------------------------------

/-
  After some windows the peers of a host are all of its
  destinations, the last window's graph is kept, and nothing
  is stored of a later window.
-/
structure Served
    (tenantId : String)
    (done : List (Batch 𝕜))
    (w : World 𝕜) : Prop where
  peers :
    ∀ host ip,
      ip ∈ (w.peers.written (tenantId, host)).getD ∅ ↔
        ∃ b ∈ done, ip ∈ destinationsIn b.arrivals host
  last :
    ∀ b ∈ done.getLast?, ∀ field,
      field ∈
          ((w.graphs.written
            (tenantId, b.windowTs)).getD .empty).keys ↔
        ∃ a ∈ b.arrivals,
          edgeField a.fold.event.srcIp a.fold.event.dstIp =
            field
  graphs :
    ∀ ts, (∀ b ∈ done, b.windowTs < ts) →
      w.graphs.written (tenantId, ts) = none
  hosts :
    ∀ ts, (∀ b ∈ done, b.windowTs < ts) →
      w.hosts.written (tenantId, ts) = none
  hashes :
    ∀ host ts, (∀ b ∈ done, b.windowTs < ts) →
      w.windows.written (tenantId, host, ts) = none

theorem Served.first
    {w : World 𝕜}
    (hUntouched : Untouched tenantId w) :
    Served tenantId [] w := by
  refine
    { peers := ?_
      last := ?_
      graphs := fun ts _ => hUntouched.graphs ts
      hosts := fun ts _ => hUntouched.hosts ts
      hashes := fun host ts _ => hUntouched.windows host ts }
  · intro host ip
    rw [hUntouched.peers host]
    simp
  · intro b hLast
    cases hLast

/- The batch comes after all those that are done. -/
structure Follows
    (cfg : FeaturesConfig)
    (tenantId : String)
    (done : List (Batch 𝕜))
    (b : Batch 𝕜) : Prop where
  sorted :
    (done ++ [b]).Pairwise
      (fun b b' => b.windowTs < b'.windowTs)
  aligned :
    ∀ b' ∈ done ++ [b], cfg.windowDelta ∣ b'.windowTs
  tenant :
    ∀ b' ∈ done ++ [b], ∀ a ∈ b'.arrivals,
      a.fold.event.tenantId = tenantId
  source :
    ∀ b' ∈ done ++ [b], ∀ a ∈ b'.arrivals,
      Address a.fold.event.srcIp
  destination :
    ∀ b' ∈ done ++ [b], ∀ a ∈ b'.arrivals,
      a.fold.event.dstIp ≠ ""

namespace Follows

variable {done : List (Batch 𝕜)}
variable {b : Batch 𝕜}

theorem before
    (hFollows : Follows cfg tenantId done b) :
    ∀ b' ∈ done, b'.windowTs < b.windowTs :=
  fun b' hB =>
    (List.pairwise_append.mp hFollows.sorted).2.2 b' hB b
      List.mem_cons_self

theorem self_mem : b ∈ done ++ [b] :=
  List.mem_append_right _ List.mem_cons_self

/- A window one step before is the last one done. -/
theorem last_of_step
    (hFollows : Follows cfg tenantId done b)
    {b' : Batch 𝕜}
    (hB : b' ∈ done)
    (hTs : b'.windowTs = b.windowTs - cfg.windowDelta) :
    done.getLast? = some b' := by
  rcases List.append_of_mem hB with ⟨front, back, rfl⟩
  cases back with
  | nil => simp
  | cons next back =>
      exfalso
      -- A window in between would be too close to both.
      have hNext :
          next ∈ front ++ b' :: next :: back := by simp
      have hLater : b'.windowTs < next.windowTs := by
        have hSorted :=
          (List.pairwise_append.mp hFollows.sorted).1
        have hTail :=
          (List.pairwise_append.mp hSorted).2.1
        exact
          List.rel_of_pairwise_cons hTail List.mem_cons_self
      have hEarlier := hFollows.before next hNext
      rcases hFollows.aligned next
          (List.mem_append_left _ hNext) with ⟨i, hI⟩
      rcases hFollows.aligned b self_mem with ⟨j, hJ⟩
      have hPos := cfg.windowDelta_pos
      rw [hTs, hI, hJ] at hLater
      rw [hI, hJ] at hEarlier
      have hLess : i < j :=
        lt_of_mul_lt_mul_left hEarlier hPos.le
      have hMul :
          cfg.windowDelta * i ≤ cfg.windowDelta * (j - 1) :=
        mul_le_mul_of_nonneg_left (by omega) hPos.le
      rw [mul_sub, mul_one] at hMul
      omega

end Follows

/- What the close of a window reads, from the run's edges. -/
structure Reading
    (cfg : FeaturesConfig)
    (tenantId : String)
    (done : List (Batch 𝕜))
    (b : Batch 𝕜)
    (w : World 𝕜) : Prop where
  hosts :
    ∀ host,
      host ∈ w.hostsOf tenantId b.windowTs ↔
        ∃ a ∈ b.arrivals, a.fold.event.srcIp = host
  peers :
    ∀ host ∈ w.hostsOf tenantId b.windowTs,
      (w.hostView tenantId host b.windowTs).peers =
        destinationsIn b.arrivals host
  known :
    ∀ host ∈ w.hostsOf tenantId b.windowTs, ∀ ip,
      ip ∈ (w.hostView tenantId host b.windowTs).known ↔
        ∃ b' ∈ done, ip ∈ destinationsIn b'.arrivals host
  graph :
    ∀ src dst,
      (src, dst) ∈ w.edgesOf tenantId b.windowTs ↔
        dst ∈ destinationsIn b.arrivals src
  previous :
    ∀ src dst,
      (src, dst) ∈
          w.edgesOf tenantId
            (b.windowTs - cfg.windowDelta) ↔
        ∃ b' ∈ done,
          b'.windowTs = b.windowTs - cfg.windowDelta ∧
            dst ∈ destinationsIn b'.arrivals src

/- Edges are read back from their fields. -/
theorem mem_filterMap_parseEdge
    {fields : List String}
    {arrivals : List (Arrival 𝕜)}
    (hSource :
      ∀ a ∈ arrivals, Address a.fold.event.srcIp)
    (hDestination :
      ∀ a ∈ arrivals, a.fold.event.dstIp ≠ "")
    (hFields :
      ∀ field, field ∈ fields ↔
        ∃ a ∈ arrivals,
          edgeField a.fold.event.srcIp a.fold.event.dstIp =
            field)
    (src dst : String) :
    (src, dst) ∈ fields.filterMap parseEdge ↔
      dst ∈ destinationsIn arrivals src := by
  rw [List.mem_filterMap, mem_destinationsIn]
  constructor
  · rintro ⟨field, hField, hParse⟩
    rcases (hFields field).mp hField with ⟨a, hA, rfl⟩
    rw [parseEdge_edgeField (hSource a hA)
      (hDestination a hA)] at hParse
    cases hParse
    exact ⟨a, hA, rfl, rfl⟩
  · rintro ⟨a, hA, rfl, rfl⟩
    exact
      ⟨_, (hFields _).mpr ⟨a, hA, rfl⟩,
        parseEdge_edgeField (hSource a hA)
          (hDestination a hA)⟩

section Serve

variable {done : List (Batch 𝕜)}
variable {b : Batch 𝕜}
variable {w : World 𝕜}
variable (hServed : Served tenantId done w)
variable (hFollows : Follows cfg tenantId done b)
variable (hKept : Batch.Kept cfg tenantId w b)
include hServed hFollows hKept

/- The events of the window were folded into nothing. -/
theorem folding_atClose :
    Folding tenantId w (b.atClose w) b.windowTs
      b.arrivals := by
  have hBefore := hFollows.before
  have hFirst :
      Folding tenantId w w b.windowTs [] :=
    Folding.first
      (fun host =>
        hServed.hashes host b.windowTs hBefore)
      (hServed.hosts b.windowTs hBefore)
      (hServed.graphs b.windowTs hBefore)
  have hAll :=
    hFirst.foldl (hFollows.tenant b Follows.self_mem)
      (hFollows.destination b Follows.self_mem) hKept.1
  exact hAll.wait b.closeTime

theorem reading_atClose :
    Reading cfg tenantId done b (b.atClose w) := by
  have hFolding := folding_atClose hServed hFollows hKept
  have hClose := hKept.2
  have hHosts :
      ∀ host,
        host ∈ (b.atClose w).hostsOf tenantId b.windowTs ↔
          ∃ a ∈ b.arrivals, a.fold.event.srcIp = host := by
    intro host
    unfold World.hostsOf
    rw [Finset.mem_sort, ← hFolding.hosts host]
    have hGet := hClose.hosts
    unfold TtlStore.Kept at hGet
    rw [hGet]
  refine
    { hosts := hHosts
      peers := ?_
      known := ?_
      graph := ?_
      previous := ?_ }
  · intro host hHost
    ext ip
    rw [← hFolding.hash host ip]
    unfold HostView.peers
    rw [mem_peers_fromHash]
    have hGet := hClose.hash host hHost
    unfold TtlStore.Kept at hGet
    simp only [World.hostView, World.hashOf, hGet]
  · intro host hHost ip
    have hGet := hClose.peers host hHost
    unfold TtlStore.Kept at hGet
    simp only [World.hostView]
    rw [hGet, hFolding.peers]
    exact hServed.peers host ip
  · intro src dst
    unfold World.edgesOf
    have hGet := hClose.graph
    unfold TtlStore.Kept at hGet
    rw [hGet]
    exact
      mem_filterMap_parseEdge
        (hFollows.source b Follows.self_mem)
        (hFollows.destination b Follows.self_mem)
        hFolding.graph src dst
  · intro src dst
    have hPos := cfg.windowDelta_pos
    unfold World.edgesOf
    have hGet := hClose.previous
    unfold TtlStore.Kept at hGet
    rw [hGet, hFolding.otherGraphs _ (by omega)]
    by_cases hStep :
        ∃ b' ∈ done,
          b'.windowTs = b.windowTs - cfg.windowDelta
    · rcases hStep with ⟨b', hB, hTs⟩
      have hLast := hFollows.last_of_step hB hTs
      have hMem := List.mem_append_left [b] hB
      have hFields := hServed.last b' hLast
      rw [hTs] at hFields
      rw [mem_filterMap_parseEdge (hFollows.source b' hMem)
        (hFollows.destination b' hMem) hFields]
      constructor
      · intro hDst
        exact ⟨b', hB, hTs, hDst⟩
      · rintro ⟨other, hOther, hOtherTs, hDst⟩
        have hSame :=
          hFollows.last_of_step hOther hOtherTs
        rw [hLast] at hSame
        cases hSame
        exact hDst
    · have hNone :
          w.graphs.written
              (tenantId, b.windowTs - cfg.windowDelta) =
            none := by
        apply hServed.graphs
        intro b' hB
        have hLess := hFollows.before b' hB
        rcases hFollows.aligned b'
            (List.mem_append_left _ hB) with ⟨i, hI⟩
        rcases hFollows.aligned b Follows.self_mem with
          ⟨j, hJ⟩
        have hNe :
            b'.windowTs ≠ b.windowTs - cfg.windowDelta :=
          fun hEq => hStep ⟨b', hB, hEq⟩
        rw [hI, hJ] at hLess
        have hIndex : i < j :=
          lt_of_mul_lt_mul_left hLess hPos.le
        have hMul :
            cfg.windowDelta * i ≤
              cfg.windowDelta * (j - 1) :=
          mul_le_mul_of_nonneg_left (by omega) hPos.le
        rw [mul_sub, mul_one] at hMul
        rw [hI, hJ] at hNe ⊢
        omega
      rw [hNone]
      constructor
      · intro hMem
        simp at hMem
      · rintro ⟨b', hB, hTs, _⟩
        exact absurd ⟨b', hB, hTs⟩ hStep

/- The next window is served. -/
theorem Served.serve :
    Served tenantId (done ++ [b])
      (Batch.serve cfg tenantId w b) := by
  have hFolding := folding_atClose hServed hFollows hKept
  have hReading := reading_atClose hServed hFollows hKept
  have hPos := cfg.windowDelta_pos
  have hLater :
      ∀ ts, (∀ b' ∈ done ++ [b], b'.windowTs < ts) →
        b.windowTs < ts ∧ ∀ b' ∈ done, b'.windowTs < ts :=
    fun ts hAll =>
      ⟨hAll b Follows.self_mem,
        fun b' hB => hAll b' (List.mem_append_left _ hB)⟩
  unfold Batch.serve
  rw [closed_eq]
  refine
    { peers := ?_
      last := ?_
      graphs := ?_
      hosts := ?_
      hashes := ?_ }
  · intro host ip
    have hDone :
        (∃ b' ∈ done ++ [b],
            ip ∈ destinationsIn b'.arrivals host) ↔
          (∃ b' ∈ done,
              ip ∈ destinationsIn b'.arrivals host) ∨
            ip ∈ destinationsIn b.arrivals host := by
      simp only [List.mem_append, List.mem_singleton,
        or_and_right, exists_or, exists_eq_left]
    rw [hDone, ← hServed.peers host ip]
    by_cases hHost :
        host ∈ (b.atClose w).hostsOf tenantId b.windowTs
    · rw [peers_after cfg tenantId b.windowTs _ _
        (hKept.2.peers host hHost), addedPeers_closeScript,
        hFolding.peers, hReading.peers host hHost]
      simp only [hHost, true_and]
    · have hNoPeer :
          ip ∉ destinationsIn b.arrivals host := by
        intro hIp
        rcases mem_destinationsIn.mp hIp with
          ⟨a, hA, hSrc, _⟩
        exact hHost ((hReading.hosts host).mpr ⟨a, hA, hSrc⟩)
      rw [peers_after_of_none, hFolding.peers]
      · simp only [hNoPeer, or_false]
      · intro peers fresh hAct
        exact
          hHost
            (listed_of_addedPeers cfg tenantId b.windowTs _
              hAct).1
  · intro b' hLast field
    rw [List.getLast?_append_cons] at hLast
    simp only [List.getLast?_singleton, Option.mem_def,
      Option.some.injEq] at hLast
    subst hLast
    rw [graphs_after cfg tenantId _ _ _ (by omega)]
    exact hFolding.graph field
  · intro ts hTs
    rcases hLater ts hTs with ⟨hOwn, hOld⟩
    rw [graphs_after cfg tenantId _ _ _ (by omega),
      hFolding.otherGraphs ts hOwn.ne']
    exact hServed.graphs ts hOld
  · intro ts hTs
    rcases hLater ts hTs with ⟨hOwn, hOld⟩
    rw [(accumulators_after cfg tenantId b.windowTs _ _
      hOwn.ne').1, hFolding.otherHosts ts hOwn.ne']
    exact hServed.hosts ts hOld
  · intro host ts hTs
    rcases hLater ts hTs with ⟨hOwn, hOld⟩
    rw [(accumulators_after cfg tenantId b.windowTs _ _
      hOwn.ne').2 host,
      hFolding.otherHashes host ts hOwn.ne']
    exact hServed.hashes host ts hOld

end Serve

------------------------------------------------------------
-- The vectors of a close
------------------------------------------------------------

/- A close publishes one vector for each listed host. -/
theorem published_closed
    (cfg : FeaturesConfig)
    (tenantId : String)
    (w : World 𝕜)
    (windowTs : ℤ)
    (vector : StateVector 𝕜) :
    (.published vector ∈
          putOut w (w.closed cfg tenantId windowTs) ∧
        vector.windowTs = windowTs) ↔
      vector.hostId ∈ w.hostsOf tenantId windowTs ∧
        vector =
          closeVector cfg tenantId windowTs w vector.hostId
            windowTs := by
  have hPublished :
      .published vector ∈
          putOut w (w.closed cfg tenantId windowTs) ↔
        .published vector ∈
          closeScript cfg tenantId windowTs w := by
    unfold putOut
    rw [closed_eq, log_after, List.drop_left,
      ← mem_publishedBy]
    simp
  rw [hPublished]
  constructor
  · rintro ⟨hAct, hTs⟩
    have hEmit :=
      putsOut_closeScript cfg tenantId windowTs hAct
        (Or.inr rfl)
    have hVector :=
      vector_of_emitted cfg tenantId windowTs hEmit
        (Or.inr rfl)
    rw [hTs] at hVector
    refine ⟨?_, hVector⟩
    unfold emitScript hostsScript at hEmit
    rcases List.mem_append.mp hEmit with hLooked | hEmit
    · simp at hLooked
    · rcases List.mem_flatMap.mp hEmit with
        ⟨host, hHost, hAct⟩
      rcases putsOut_hostScript cfg tenantId windowTs hAct
        (Or.inr rfl) with ⟨_, _, hEq⟩ | hEq
      · rw [hEq]
        exact hHost
      · rw [hEq]
        exact hHost
  · rintro ⟨hHost, hVector⟩
    rcases published_emitScript cfg tenantId w hHost with
      ⟨other, hAct, _, hId, hTs⟩
    have hOther :=
      vector_of_emitted cfg tenantId windowTs hAct
        (Or.inr rfl)
    rw [hId, hTs, ← hVector] at hOther
    rw [← hOther]
    exact ⟨List.mem_append_left _ hAct, hTs⟩

------------------------------------------------------------
-- The windows of a run
------------------------------------------------------------

/- A window of a run with those before and after it. -/
structure Splits
    (run : ServedRun 𝕜 cfg tenantId)
    (done : List (Batch 𝕜))
    (b : Batch 𝕜)
    (rest : List (Batch 𝕜)) : Prop where
  batches : run.batches = done ++ b :: rest

namespace Splits

variable {run : ServedRun 𝕜 cfg tenantId}
variable {done rest : List (Batch 𝕜)}
variable {b : Batch 𝕜}

theorem mem
    (hSplit : Splits run done b rest) :
    ∀ b' ∈ done ++ [b], b' ∈ run.batches := by
  intro b' hB
  rw [hSplit.batches]
  simp only [List.mem_append, List.mem_cons] at hB ⊢
  tauto

theorem follows
    (hSplit : Splits run done b rest) :
    Follows cfg tenantId done b := by
  have hSorted := run.increasing
  rw [hSplit.batches, List.append_cons] at hSorted
  exact
    { sorted := (List.pairwise_append.mp hSorted).1
      aligned := fun b' hB => run.aligned b' (hSplit.mem b' hB)
      tenant := fun b' hB => run.tenant b' (hSplit.mem b' hB)
      source := fun b' hB => run.source b' (hSplit.mem b' hB)
      destination := fun b' hB =>
        run.destination b' (hSplit.mem b' hB) }

/- The windows before are those that are done. -/
theorem mem_done_iff
    (hSplit : Splits run done b rest)
    {b' : Batch 𝕜} :
    b' ∈ done ↔
      b' ∈ run.batches ∧ b'.windowTs < b.windowTs := by
  constructor
  · intro hB
    exact
      ⟨hSplit.mem b' (List.mem_append_left _ hB),
        hSplit.follows.before b' hB⟩
  · rintro ⟨hB, hLess⟩
    rw [hSplit.batches, List.mem_append, List.mem_cons] at hB
    rcases hB with hDone | rfl | hRest
    · exact hDone
    · exact absurd hLess (lt_irrefl _)
    · have hSorted := run.increasing
      rw [hSplit.batches] at hSorted
      have hTail := (List.pairwise_append.mp hSorted).2.1
      have hMore := List.rel_of_pairwise_cons hTail hRest
      omega

/- One window of a run has a time. -/
theorem eq_of_windowTs
    (hSplit : Splits run done b rest)
    {b' : Batch 𝕜}
    (hB : b' ∈ run.batches)
    (hTs : b'.windowTs = b.windowTs) :
    b' = b := by
  have hSorted := run.increasing
  rw [hSplit.batches] at hB hSorted
  rcases List.pairwise_append.mp hSorted with
    ⟨_, hTail, hAcross⟩
  rcases List.mem_append.mp hB with hDone | hLater
  · have hLess := hAcross b' hDone b List.mem_cons_self
    omega
  · rcases List.mem_cons.mp hLater with rfl | hRest
    · rfl
    · have hMore := List.rel_of_pairwise_cons hTail hRest
      omega

/- What the state is when the window is closed. -/
theorem served
    (hSplit : Splits run done b rest)
    (hKept : run.Kept) :
    Served tenantId done
        (serveAll cfg tenantId run.start done) ∧
      Batch.Kept cfg tenantId
        (serveAll cfg tenantId run.start done) b := by
  induction done using List.reverseRecOn generalizing b rest
    with
  | nil =>
      unfold ServedRun.Kept at hKept
      rw [hSplit.batches] at hKept
      exact ⟨Served.first run.untouched, hKept.1⟩
  | append_singleton done b₀ ih =>
      have hEarlier :
          Splits run done b₀ (b :: rest) := by
        constructor
        rw [hSplit.batches]
        simp
      rcases ih hEarlier with ⟨hServed, hKept₀⟩
      have hNext := hServed.serve hEarlier.follows hKept₀
      have hState :
          serveAll cfg tenantId run.start (done ++ [b₀]) =
            Batch.serve cfg tenantId
              (serveAll cfg tenantId run.start done) b₀ := by
        simp [serveAll]
      rw [hState]
      refine ⟨hNext, ?_⟩
      unfold ServedRun.Kept at hKept
      rw [hSplit.batches, allAlong_append] at hKept
      have hHere := hKept.2.1
      rw [← hState]
      exact hHere

end Splits

------------------------------------------------------------
-- A run within the hour
------------------------------------------------------------

/- Nothing that is stored expires up to a time. -/
structure Lasting
    (last : ℚ)
    (w : World 𝕜) : Prop where
  now : w.now ≤ last
  recent : last < w.now + windowTtlS
  hosts : w.hosts.Lasts last
  windows : w.windows.Lasts last
  graphs : w.graphs.Lasts last
  peers : w.peers.Lasts last

namespace Lasting

variable {last : ℚ}
variable {w : World 𝕜}

theorem wait
    (hLasting : Lasting last w)
    {time : ℚ}
    (hTime : time ≤ last) :
    Lasting last (w.wait time) :=
  { now := max_le hLasting.now hTime
    recent :=
      lt_of_lt_of_le hLasting.recent
        (add_le_add_left (le_max_left _ _) _)
    hosts := hLasting.hosts
    windows := hLasting.windows
    graphs := hLasting.graphs
    peers := hLasting.peers }

theorem accumulate
    (hLasting : Lasting last w)
    (event : RawEvent 𝕜)
    (windowTs : ℤ)
    (reading : ℚ) :
    Lasting last (w.accumulate event windowTs reading) := by
  refine
    { now := hLasting.now
      recent := hLasting.recent
      hosts := hLasting.hosts.renew hLasting.recent _ _
      windows := hLasting.windows.renew hLasting.recent _ _
      graphs := ?_
      peers := hLasting.peers }
  unfold World.accumulate
  simp only
  split
  · exact hLasting.graphs
  · exact hLasting.graphs.renew hLasting.recent _ _

theorem arrive
    (hLasting : Lasting last w)
    (windowTs : ℤ)
    {a : Arrival 𝕜}
    (hTime : a.time ≤ last) :
    Lasting last (Parity.arrive windowTs w a) :=
  (hLasting.wait hTime).accumulate _ _ _

/- The peers last longer than a window does. -/
theorem windowTtlS_le_peersTtlS : windowTtlS ≤ peersTtlS := by
  norm_num [windowTtlS, peersTtlS]

theorem apply
    (hLasting : Lasting last w)
    (windowTs : ℤ)
    (act : CloseAct 𝕜) :
    Lasting last (act.apply cfg tenantId windowTs w) := by
  rcases hLasting with
    ⟨hNow, hRecent, hHosts, hWindows, hGraphs, hPeers⟩
  cases act with
  | addedPeers host peers fresh =>
      exact
        ⟨hNow, hRecent, hHosts, hWindows, hGraphs,
          hPeers.put _ _ _⟩
  | renewedPeers host =>
      have hLonger :=
        lt_of_lt_of_le hRecent
          (add_le_add_right windowTtlS_le_peersTtlS w.now)
      exact
        ⟨hNow, hRecent, hHosts, hWindows, hGraphs,
          hPeers.expire hLonger _⟩
  | discardedWindow hosts =>
      have hLeft :=
        hWindows.foldl_delete
          (fun host => (tenantId, host, windowTs)) hosts
      exact
        ⟨hNow, hRecent, hHosts.delete _, hLeft, hGraphs, hPeers⟩
  | discardedGraph =>
      exact
        ⟨hNow, hRecent, hHosts, hWindows, hGraphs.delete _,
          hPeers⟩
  | _ =>
      exact ⟨hNow, hRecent, hHosts, hWindows, hGraphs, hPeers⟩

theorem closed
    (hLasting : Lasting last w)
    (windowTs : ℤ) :
    Lasting last (w.closed cfg tenantId windowTs) := by
  rw [closed_eq]
  unfold World.after
  exact
    List.foldlRecOn _ _ hLasting
      (fun w hStep act _ => hStep.apply windowTs act)

/- The events of a window are folded in before then. -/
theorem foldl
    {b : Batch 𝕜}
    {arrivals : List (Arrival 𝕜)}
    (hLasting : Lasting last w)
    (hTimes : ∀ a ∈ arrivals, a.time ≤ last) :
    AllAlong (Parity.arrive b.windowTs)
        (fun w a =>
          FoldKept (w.wait a.time) b.windowTs a.fold.event)
        w arrivals ∧
      Lasting last
        (arrivals.foldl (Parity.arrive b.windowTs) w) := by
  induction arrivals generalizing w with
  | nil => exact ⟨trivial, hLasting⟩
  | cons a arrivals ih =>
      rcases List.forall_mem_cons.mp hTimes with
        ⟨hFirst, hRest⟩
      have hWait := hLasting.wait hFirst
      have hNext :=
        ih (hLasting.arrive b.windowTs hFirst) hRest
      refine ⟨⟨?_, hNext.1⟩, hNext.2⟩
      exact
        { hash := hWait.windows.kept hWait.now _
          hosts := hWait.hosts.kept hWait.now _
          graph := hWait.graphs.kept hWait.now _ }

theorem closeKept
    (hLasting : Lasting last w)
    (windowTs : ℤ) :
    CloseKept cfg tenantId w windowTs :=
  { hosts := hLasting.hosts.kept hLasting.now _
    graph := hLasting.graphs.kept hLasting.now _
    previous := hLasting.graphs.kept hLasting.now _
    hash := fun _ _ => hLasting.windows.kept hLasting.now _
    peers := fun _ _ => hLasting.peers.kept hLasting.now _ }

theorem serve
    (hLasting : Lasting last w)
    {b : Batch 𝕜}
    (hTimes : ∀ a ∈ b.arrivals, a.time ≤ last)
    (hClose : b.closeTime ≤ last) :
    Batch.Kept cfg tenantId w b ∧
      Lasting last (Batch.serve cfg tenantId w b) := by
  rcases hLasting.foldl (b := b) hTimes with
    ⟨hFolds, hFolded⟩
  have hAtClose := hFolded.wait hClose
  exact
    ⟨⟨hFolds, hAtClose.closeKept b.windowTs⟩,
      hAtClose.closed b.windowTs⟩

end Lasting

/- A run that is over within the hour reads what it wrote. -/
theorem ServedRun.kept_of_brief
    {run : ServedRun 𝕜 cfg tenantId}
    {last : ℚ}
    (hStart : Lasting last run.start)
    (hTimes :
      ∀ b ∈ run.batches,
        (∀ a ∈ b.arrivals, a.time ≤ last) ∧
          b.closeTime ≤ last) :
    run.Kept := by
  unfold ServedRun.Kept
  generalize run.start = w at hStart
  generalize run.batches = batches at hTimes
  induction batches generalizing w with
  | nil => trivial
  | cons b batches ih =>
      rcases List.forall_mem_cons.mp hTimes with
        ⟨hFirst, hRest⟩
      have hServe :
          Batch.Kept cfg tenantId w b ∧
            Lasting last (Batch.serve cfg tenantId w b) :=
        hStart.serve hFirst.1 hFirst.2
      exact ⟨hServe.1, ih _ hServe.2 hRest⟩

end Parity

end Nidra
