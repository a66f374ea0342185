import Nidra.Features.OnceOnly

/-
  This file states what a close of a window does, effect by
  effect: what it reads at its start decides all that it
  saves, publishes and remembers, since the effects on one
  host change nothing that is read for another.

  Key definitions include:
    * `HostView`, `World.hostView`, `World.hostsOf`
    * `CloseAct`, `CloseAct.apply`, `World.after`
    * `publishedBy`, `savedBy`
    * `hostVector`, `hostScript`
    * `emitScript`, `discardScript`

  Main declarations:
    * `trace_emitHost`
    * `trace_closeWindow`
-/

namespace Nidra

namespace Features

set_option linter.unusedSectionVars false

variable {𝕜 : Type}

------------------------------------------------------------
-- What a close reads
------------------------------------------------------------

/- The hosts that are listed in a window, in order. -/
def World.hostsOf
    (w : World 𝕜)
    (tenantId : String)
    (windowTs : ℤ) : List String :=
  ((w.hosts.get w.now (tenantId, windowTs)).getD ∅).sort
    (· ≤ ·)

/- The counters of a host in a window. -/
def World.hashOf
    (w : World 𝕜)
    (tenantId host : String)
    (windowTs : ℤ) : Tally (WindowField 𝕜) 𝕜 :=
  (w.windows.get w.now (tenantId, host, windowTs)).getD .empty

/- The edges of the host graph of a window. -/
def World.edgesOf
    (w : World 𝕜)
    (tenantId : String)
    (windowTs : ℤ) : List (String × String) :=
  ((w.graphs.get w.now
    (tenantId, windowTs)).getD .empty).keys.filterMap parseEdge

/-
  What is read for one host: the window that it put out last,
  the values tracked before, its counters and its peers.
-/
structure HostView (𝕜 : Type) where
  lastTs : Option ℤ
  history : List (Tracked 𝕜)
  hash : Tally (WindowField 𝕜) 𝕜
  known : Finset String

def World.hostView
    (w : World 𝕜)
    (tenantId host : String)
    (windowTs : ℤ) : HostView 𝕜 :=
  let record := w.prev.get w.now (tenantId, host)
  { lastTs := record.map HostHistory.lastTs
    history := (record.map HostHistory.history).getD []
    hash := w.hashOf tenantId host windowTs
    known := (w.peers.get w.now (tenantId, host)).getD ∅ }

------------------------------------------------------------
-- Acts
------------------------------------------------------------

/-
  One effect of a close. Peers are added together with how
  many of them are new.
-/
inductive CloseAct (𝕜 : Type) where
  | looked
  | saved (vector : StateVector 𝕜)
  | published (vector : StateVector 𝕜)
  | addedPeers
      (host : String)
      (peers : Finset String)
      (fresh : ℕ)
  | renewedPeers (host : String)
  | remembered
      (host : String)
      (record : HostHistory 𝕜)
  | renewedHistory (host : String)
  | discardedWindow (hosts : List String)
  | discardedGraph
  | cleared

section Scripts

variable (cfg : FeaturesConfig)
variable (tenantId : String)
variable (windowTs : ℤ)

/- What an effect changes. -/
def CloseAct.apply :
    CloseAct 𝕜 → World 𝕜 → World 𝕜
  | .looked, w => w
  | .saved vector, w =>
      { w with stored := saveRow w.stored vector }
  | .published vector, w =>
      { w with log := w.log ++ [.published vector] }
  | .addedPeers host peers _, w =>
      { w with
        peers :=
          w.peers.put w.now (tenantId, host)
            ((w.peers.get w.now (tenantId, host)).getD ∅ ∪
              peers) }
  | .renewedPeers host, w =>
      { w with
        peers :=
          w.peers.expire w.now peersTtlS (tenantId, host) }
  | .remembered host record, w =>
      { w with
        prev := w.prev.put w.now (tenantId, host) record }
  | .renewedHistory host, w =>
      { w with
        prev :=
          w.prev.expire w.now peersTtlS (tenantId, host) }
  | .discardedWindow hosts, w =>
      { w with
        windows :=
          hosts.foldl
            (fun windows host =>
              windows.delete (tenantId, host, windowTs))
            w.windows
        hosts := w.hosts.delete (tenantId, windowTs) }
  | .discardedGraph, w =>
      { w with
        graphs :=
          w.graphs.delete
            (tenantId, windowTs - cfg.windowDelta) }
  | .cleared, w =>
      { w with opened := w.opened.delete tenantId }

/- The state after some acts. -/
def World.after
    (w : World 𝕜)
    (acts : List (CloseAct 𝕜)) : World 𝕜 :=
  acts.foldl
    (fun w act => act.apply cfg tenantId windowTs w) w

theorem applyAll_map
    (w : World 𝕜)
    (acts : List (CloseAct 𝕜)) :
    Program.applyAll w
        (acts.map (CloseAct.apply cfg tenantId windowTs)) =
      w.after cfg tenantId windowTs acts := by
  unfold Program.applyAll World.after
  rw [List.foldl_map]

/- Closing takes no time. -/
theorem now_after
    (w : World 𝕜)
    (acts : List (CloseAct 𝕜)) :
    (w.after cfg tenantId windowTs acts).now = w.now := by
  induction acts generalizing w with
  | nil => rfl
  | cons act acts ih =>
      refine (ih (act.apply cfg tenantId windowTs w)).trans ?_
      cases act <;> rfl

------------------------------------------------------------
-- What an act leaves
------------------------------------------------------------

/- An act on the vectors, the peers or the history. -/
def CloseAct.emits : CloseAct 𝕜 → Bool
  | .looked => true
  | .saved _ => true
  | .published _ => true
  | .addedPeers _ _ _ => true
  | .renewedPeers _ => true
  | .remembered _ _ => true
  | .renewedHistory _ => true
  | .discardedWindow _ => false
  | .discardedGraph => false
  | .cleared => false

/- The accumulators and the open window are the same. -/
structure SameWindows (w w' : World 𝕜) : Prop where
  now : w'.now = w.now
  opened : w'.opened = w.opened
  hosts : w'.hosts = w.hosts
  windows : w'.windows = w.windows
  graphs : w'.graphs = w.graphs

theorem SameWindows.refl
    (w : World 𝕜) :
    SameWindows w w :=
  { now := rfl
    opened := rfl
    hosts := rfl
    windows := rfl
    graphs := rfl }

theorem SameWindows.trans
    {w₁ w₂ w₃ : World 𝕜}
    (hFirst : SameWindows w₁ w₂)
    (hSecond : SameWindows w₂ w₃) :
    SameWindows w₁ w₃ :=
  { now := hSecond.now.trans hFirst.now
    opened := hSecond.opened.trans hFirst.opened
    hosts := hSecond.hosts.trans hFirst.hosts
    windows := hSecond.windows.trans hFirst.windows
    graphs := hSecond.graphs.trans hFirst.graphs }

theorem sameWindows_apply
    (w : World 𝕜)
    {act : CloseAct 𝕜}
    (hEmits : act.emits = true) :
    SameWindows w (act.apply cfg tenantId windowTs w) := by
  cases act with
  | discardedWindow _ => cases hEmits
  | discardedGraph => cases hEmits
  | cleared => cases hEmits
  | looked => exact SameWindows.refl w
  | saved _ => exact ⟨rfl, rfl, rfl, rfl, rfl⟩
  | published _ => exact ⟨rfl, rfl, rfl, rfl, rfl⟩
  | addedPeers _ _ _ => exact ⟨rfl, rfl, rfl, rfl, rfl⟩
  | renewedPeers _ => exact ⟨rfl, rfl, rfl, rfl, rfl⟩
  | remembered _ _ => exact ⟨rfl, rfl, rfl, rfl, rfl⟩
  | renewedHistory _ => exact ⟨rfl, rfl, rfl, rfl, rfl⟩

theorem sameWindows_after
    (w : World 𝕜)
    {acts : List (CloseAct 𝕜)}
    (hEmits : ∀ act ∈ acts, act.emits = true) :
    SameWindows w (w.after cfg tenantId windowTs acts) := by
  induction acts generalizing w with
  | nil => exact SameWindows.refl w
  | cons act acts ih =>
      rcases List.forall_mem_cons.mp hEmits with
        ⟨hFirst, hRest⟩
      exact
        (sameWindows_apply cfg tenantId windowTs w
          hFirst).trans (ih _ hRest)

/- An act that leaves what is read for a host. -/
def CloseAct.spares
    (other : String) : CloseAct 𝕜 → Prop
  | .looked => True
  | .saved _ => True
  | .published _ => True
  | .addedPeers host _ _ => other ≠ host
  | .renewedPeers host => other ≠ host
  | .remembered host _ => other ≠ host
  | .renewedHistory host => other ≠ host
  | .discardedWindow _ => False
  | .discardedGraph => True
  | .cleared => True

theorem hostView_apply
    (w : World 𝕜)
    {other : String}
    {act : CloseAct 𝕜}
    (hSpares : act.spares other) :
    (act.apply cfg tenantId windowTs w).hostView tenantId
        other windowTs =
      w.hostView tenantId other windowTs := by
  have hKey :
      ∀ host, other ≠ host →
        (tenantId, other) ≠ (tenantId, host) := by
    intro host hNe hEq
    exact hNe (congrArg Prod.snd hEq)
  cases act with
  | looked => rfl
  | saved _ => rfl
  | published _ => rfl
  | addedPeers host _ _ =>
      have hNe := hKey host hSpares
      simp [CloseAct.apply, World.hostView, World.hashOf,
        TtlStore.get_put_ne _ _ _ _ hNe]
  | renewedPeers host =>
      have hNe := hKey host hSpares
      simp [CloseAct.apply, World.hostView, World.hashOf,
        TtlStore.get_expire_ne _ _ _ _ hNe]
  | remembered host _ =>
      have hNe := hKey host hSpares
      simp [CloseAct.apply, World.hostView, World.hashOf,
        TtlStore.get_put_ne _ _ _ _ hNe]
  | renewedHistory host =>
      have hNe := hKey host hSpares
      simp [CloseAct.apply, World.hostView, World.hashOf,
        TtlStore.get_expire_ne _ _ _ _ hNe]
  | discardedWindow _ => cases hSpares
  | discardedGraph => rfl
  | cleared => rfl

theorem hostView_after
    (w : World 𝕜)
    {other : String}
    {acts : List (CloseAct 𝕜)}
    (hSpares : ∀ act ∈ acts, act.spares other) :
    (w.after cfg tenantId windowTs acts).hostView tenantId
        other windowTs =
      w.hostView tenantId other windowTs := by
  induction acts generalizing w with
  | nil => rfl
  | cons act acts ih =>
      rcases List.forall_mem_cons.mp hSpares with
        ⟨hFirst, hRest⟩
      exact
        (ih _ hRest).trans
          (hostView_apply cfg tenantId windowTs w hFirst)

------------------------------------------------------------
-- What acts put out
------------------------------------------------------------

def CloseAct.publishedVector :
    CloseAct 𝕜 → Option (StateVector 𝕜)
  | .published vector => some vector
  | _ => none

def CloseAct.savedVector :
    CloseAct 𝕜 → Option (StateVector 𝕜)
  | .saved vector => some vector
  | _ => none

/- The vectors that acts publish, in their order. -/
def publishedBy
    (acts : List (CloseAct 𝕜)) : List (StateVector 𝕜) :=
  acts.filterMap CloseAct.publishedVector

/- The vectors that acts save, in their order. -/
def savedBy
    (acts : List (CloseAct 𝕜)) : List (StateVector 𝕜) :=
  acts.filterMap CloseAct.savedVector

theorem mem_publishedBy
    {acts : List (CloseAct 𝕜)}
    {vector : StateVector 𝕜} :
    vector ∈ publishedBy acts ↔ .published vector ∈ acts := by
  unfold publishedBy
  rw [List.mem_filterMap]
  constructor
  · intro hSome
    rcases hSome with ⟨act, hAct, hVector⟩
    unfold CloseAct.publishedVector at hVector
    split at hVector
    · cases hVector
      exact hAct
    · cases hVector
  · intro hAct
    exact ⟨_, hAct, rfl⟩

theorem mem_savedBy
    {acts : List (CloseAct 𝕜)}
    {vector : StateVector 𝕜} :
    vector ∈ savedBy acts ↔ .saved vector ∈ acts := by
  unfold savedBy
  rw [List.mem_filterMap]
  constructor
  · intro hSome
    rcases hSome with ⟨act, hAct, hVector⟩
    unfold CloseAct.savedVector at hVector
    split at hVector
    · cases hVector
      exact hAct
    · cases hVector
  · intro hAct
    exact ⟨_, hAct, rfl⟩

theorem log_after
    (w : World 𝕜)
    (acts : List (CloseAct 𝕜)) :
    (w.after cfg tenantId windowTs acts).log =
      w.log ++ (publishedBy acts).map .published := by
  induction acts generalizing w with
  | nil => simp [World.after, publishedBy]
  | cons act acts ih =>
      have hRest := ih (act.apply cfg tenantId windowTs w)
      unfold World.after at hRest ⊢
      rw [List.foldl_cons, hRest]
      cases act with
      | published vector =>
          simp [CloseAct.apply, publishedBy,
            CloseAct.publishedVector]
      | _ => rfl

theorem stored_after
    (w : World 𝕜)
    (acts : List (CloseAct 𝕜)) :
    (w.after cfg tenantId windowTs acts).stored =
      (savedBy acts).foldl saveRow w.stored := by
  induction acts generalizing w with
  | nil => rfl
  | cons act acts ih =>
      have hRest := ih (act.apply cfg tenantId windowTs w)
      unfold World.after at hRest ⊢
      rw [List.foldl_cons, hRest]
      cases act <;> rfl

end Scripts

------------------------------------------------------------
-- The script of a host
------------------------------------------------------------

section Emission

variable [Field 𝕜] [LinearOrder 𝕜] [FloorRing 𝕜]
variable [ExpLog 𝕜]
variable (cfg : FeaturesConfig)
variable (tenantId : String)
variable (windowTs : ℤ)
variable (graph previous : WindowGraph)

/- Save and publish a vector. -/
def publishScript
    (vector : StateVector 𝕜) : List (CloseAct 𝕜) :=
  if cfg.storeWired then [.saved vector, .published vector]
  else [.published vector]

/- The zero row of a silent window. -/
def zeroVector
    (host : String)
    (silentTs : ℤ) : StateVector 𝕜 :=
  { tenantId := tenantId
    hostId := host
    windowTs := silentTs
    features := zeroFeatures }

/- The silent windows that are put out before this one. -/
def silentBefore
    (lastTs : Option ℤ) : List ℤ :=
  match lastTs with
  | none => []
  | some lastTs => filledWindows cfg lastTs windowTs

/- The values tracked after some silent windows. -/
def silentHistory
    (windows : List ℤ)
    (history : List (Tracked 𝕜)) : List (Tracked 𝕜) :=
  windows.foldl
    (fun history _ => trimHistory (history ++ [silentTracked]))
    history

/- The values tracked when this window is computed. -/
def historyBefore
    (lastTs : Option ℤ)
    (history : List (Tracked 𝕜)) : List (Tracked 𝕜) :=
  match lastTs with
  | none => history
  | some lastTs =>
      let gap := gapWindows cfg lastTs windowTs
      if gap ≤ 0 then history
      else if cfg.maxGapWindows < gap then []
      else
        silentHistory (silentWindows cfg lastTs windowTs)
          history

namespace HostView

/- The destinations of a host in its window. -/
def peers (view : HostView 𝕜) : Finset String :=
  (WindowAccumulator.fromHash
    view.hash).dstIp.keys.toFinset

/- How many of them are new. -/
def fresh (view : HostView 𝕜) : ℕ :=
  (view.peers \ view.known).card

end HostView

/- The vector of a host, from what is read for it. -/
def windowVector
    (host : String)
    (view : HostView 𝕜)
    (history : List (Tracked 𝕜)) : StateVector 𝕜 :=
  { tenantId := tenantId
    hostId := host
    windowTs := windowTs
    features :=
      computeFeatures (WindowAccumulator.fromHash view.hash)
        host graph previous view.fresh history
        cfg.elevatedFanout cfg.degreeCap }

def hostVector
    (host : String)
    (view : HostView 𝕜) : StateVector 𝕜 :=
  windowVector cfg tenantId windowTs graph previous host view
    (historyBefore cfg windowTs view.lastTs view.history)

/- Record the peers of a host. -/
def peersScript
    (host : String)
    (view : HostView 𝕜) : List (CloseAct 𝕜) :=
  if view.peers = ∅ then [.renewedPeers host]
  else
    [.looked, .addedPeers host view.peers view.fresh,
      .renewedPeers host]

/- What is remembered of a vector. -/
def recordOf
    (vector : StateVector 𝕜)
    (history : List (Tracked 𝕜)) : HostHistory 𝕜 :=
  { lastTs := windowTs
    history :=
      trimHistory
        (trimHistory
          (history ++ [trackedValues vector.features])) }

/- Compute, publish and remember one window of a host. -/
def windowScript
    (host : String)
    (view : HostView 𝕜)
    (history : List (Tracked 𝕜)) : List (CloseAct 𝕜) :=
  let vector :=
    windowVector cfg tenantId windowTs graph previous host
      view history
  [.looked] ++ peersScript host view ++
    publishScript cfg vector ++
    [.remembered host (recordOf windowTs vector history),
      .renewedHistory host]

/- The zero rows of silent windows. -/
def silentScript
    (host : String)
    (windows : List ℤ) : List (CloseAct 𝕜) :=
  windows.flatMap (fun silentTs =>
    publishScript cfg (zeroVector tenantId host silentTs))

/- All that is done for a host. -/
def hostScript
    (host : String)
    (view : HostView 𝕜) : List (CloseAct 𝕜) :=
  [.looked] ++
    silentScript cfg tenantId host
      (silentBefore cfg windowTs view.lastTs) ++
    windowScript cfg tenantId windowTs graph previous host
      view
      (historyBefore cfg windowTs view.lastTs view.history)

------------------------------------------------------------
-- What the scripts change
------------------------------------------------------------

/- Vectors of this host alone are saved and published. -/
theorem mem_publishScript
    {vector : StateVector 𝕜}
    {act : CloseAct 𝕜}
    (hAct : act ∈ publishScript cfg vector) :
    act = .saved vector ∧ cfg.storeWired = true ∨
      act = .published vector := by
  unfold publishScript at hAct
  split at hAct
  · next hWired =>
      rcases List.mem_cons.mp hAct with rfl | hAct
      · exact Or.inl ⟨rfl, hWired⟩
      · exact Or.inr (List.mem_singleton.mp hAct)
  · exact Or.inr (List.mem_singleton.mp hAct)

theorem spares_publishScript
    {vector : StateVector 𝕜}
    {act : CloseAct 𝕜}
    (hAct : act ∈ publishScript cfg vector)
    (other : String) :
    act.spares other := by
  rcases mem_publishScript cfg hAct with ⟨rfl, _⟩ | rfl
  · trivial
  · trivial

theorem spares_silentScript
    (host : String)
    (windows : List ℤ)
    {act : CloseAct 𝕜}
    (hAct : act ∈ silentScript cfg tenantId host windows)
    (other : String) :
    act.spares other := by
  rcases List.mem_flatMap.mp hAct with ⟨_, _, hAct⟩
  exact spares_publishScript cfg hAct other

theorem spares_peersScript
    {host other : String}
    (hNe : other ≠ host)
    (view : HostView 𝕜)
    {act : CloseAct 𝕜}
    (hAct : act ∈ peersScript host view) :
    act.spares other := by
  unfold peersScript at hAct
  split at hAct
  · rw [List.mem_singleton.mp hAct]
    exact hNe
  · simp only [List.mem_cons, List.not_mem_nil, or_false]
      at hAct
    rcases hAct with rfl | rfl | rfl
    · trivial
    · exact hNe
    · exact hNe

/- What is done for a host leaves what others are read for. -/
theorem spares_hostScript
    {host other : String}
    (hNe : other ≠ host)
    (view : HostView 𝕜)
    {act : CloseAct 𝕜}
    (hAct :
      act ∈
        hostScript cfg tenantId windowTs graph previous host
          view) :
    act.spares other := by
  unfold hostScript windowScript at hAct
  simp only [List.mem_append, List.mem_cons,
    List.not_mem_nil, or_false] at hAct
  rcases hAct with (rfl | hAct) |
    (((rfl | hAct) | hAct) | rfl | rfl)
  · trivial
  · exact spares_silentScript cfg tenantId host _ hAct other
  · trivial
  · exact spares_peersScript hNe view hAct
  · exact spares_publishScript cfg hAct other
  · exact hNe
  · exact hNe

/- A host is not discarded while it is emitted. -/
theorem emits_hostScript
    (host : String)
    (view : HostView 𝕜)
    {act : CloseAct 𝕜}
    (hAct :
      act ∈
        hostScript cfg tenantId windowTs graph previous host
          view) :
    act.emits = true := by
  unfold hostScript windowScript peersScript at hAct
  simp only [List.mem_append, List.mem_cons,
    List.not_mem_nil, or_false] at hAct
  rcases hAct with (rfl | hAct) |
    (((rfl | hAct) | hAct) | rfl | rfl)
  · rfl
  · rcases List.mem_flatMap.mp hAct with ⟨_, _, hAct⟩
    rcases mem_publishScript cfg hAct with ⟨rfl, _⟩ | rfl
    · rfl
    · rfl
  · rfl
  · split at hAct
    · rw [List.mem_singleton.mp hAct]
      rfl
    · simp only [List.mem_cons, List.not_mem_nil, or_false]
        at hAct
      rcases hAct with rfl | rfl | rfl <;> rfl
  · rcases mem_publishScript cfg hAct with ⟨rfl, _⟩ | rfl
    · rfl
    · rfl
  · rfl
  · rfl

------------------------------------------------------------
-- The script of a window
------------------------------------------------------------

/- All that is done for some hosts. -/
def hostsScript
    (w : World 𝕜)
    (hosts : List String) : List (CloseAct 𝕜) :=
  hosts.flatMap (fun host =>
    hostScript cfg tenantId windowTs graph previous host
      (w.hostView tenantId host windowTs))

/- All that is done before the window is discarded. -/
def emitScript (w : World 𝕜) : List (CloseAct 𝕜) :=
  [.looked, .looked, .looked] ++
    hostsScript cfg tenantId windowTs
      (WindowGraph.fromEdges (w.edgesOf tenantId windowTs))
      (WindowGraph.fromEdges
        (w.edgesOf tenantId (windowTs - cfg.windowDelta)))
      w (w.hostsOf tenantId windowTs)

/- All that is done to discard it. -/
def discardScript (w : World 𝕜) : List (CloseAct 𝕜) :=
  [.discardedWindow (w.hostsOf tenantId windowTs),
      .discardedGraph, .looked] ++
    match w.opened.get w.now tenantId with
    | none => []
    | some marker =>
        if marker.windowTs ≠ windowTs then [] else [.cleared]

/- Everything that a close does. -/
def closeScript (w : World 𝕜) : List (CloseAct 𝕜) :=
  emitScript cfg tenantId windowTs w ++
    discardScript tenantId windowTs w

theorem hostsOf_nodup
    (w : World 𝕜) :
    (w.hostsOf tenantId windowTs).Nodup :=
  Finset.sort_nodup _ _

theorem emits_emitScript
    (w : World 𝕜)
    {act : CloseAct 𝕜}
    (hAct : act ∈ emitScript cfg tenantId windowTs w) :
    act.emits = true := by
  unfold emitScript at hAct
  rcases List.mem_append.mp hAct with hLooked | hAct
  · simp only [List.mem_cons, List.not_mem_nil, or_false,
      or_self] at hLooked
    rw [hLooked]
    rfl
  · rcases List.mem_flatMap.mp hAct with ⟨host, _, hAct⟩
    exact
      emits_hostScript cfg tenantId windowTs _ _ host _ hAct

/- The peers that are added are those read for the host. -/
theorem addedPeers_emitScript
    (w : World 𝕜)
    {host : String}
    {peers : Finset String}
    {fresh : ℕ}
    (hAct :
      .addedPeers host peers fresh ∈
        emitScript cfg tenantId windowTs w) :
    peers = (w.hostView tenantId host windowTs).peers ∧
      fresh = (w.hostView tenantId host windowTs).fresh := by
  unfold emitScript hostsScript at hAct
  simp only [List.mem_append, List.mem_cons, reduceCtorEq,
    List.not_mem_nil, or_false, false_or, List.mem_flatMap]
    at hAct
  rcases hAct with ⟨other, _, hAct⟩
  unfold hostScript windowScript at hAct
  simp only [List.mem_append, List.mem_cons, reduceCtorEq,
    List.not_mem_nil, or_false, false_or] at hAct
  rcases hAct with hSilent | hPeers | hPublish
  · rcases List.mem_flatMap.mp hSilent with ⟨_, _, hSilent⟩
    rcases mem_publishScript cfg hSilent with ⟨hEq, _⟩ | hEq
    · cases hEq
    · cases hEq
  · unfold peersScript at hPeers
    split at hPeers
    · cases List.mem_singleton.mp hPeers
    · simp only [List.mem_cons, reduceCtorEq,
        CloseAct.addedPeers.injEq, List.not_mem_nil,
        or_false, false_or] at hPeers
      rcases hPeers with ⟨rfl, rfl, rfl⟩
      exact ⟨rfl, rfl⟩
  · rcases mem_publishScript cfg hPublish with ⟨hEq, _⟩ | hEq
    · cases hEq
    · cases hEq

------------------------------------------------------------
-- The programs follow their scripts
------------------------------------------------------------

theorem trace_publish
    (w : World 𝕜)
    (host : String)
    (ts : ℤ)
    (features : FeatureVector 𝕜) :
    (publish cfg tenantId host ts features).trace w =
      (publishScript cfg
        { tenantId := tenantId
          hostId := host
          windowTs := ts
          features := features }).map
            (CloseAct.apply cfg tenantId windowTs) := by
  unfold publish publishScript
  cases cfg.storeWired <;> rfl

theorem eval_publish
    (w : World 𝕜)
    (host : String)
    (ts : ℤ)
    (features : FeatureVector 𝕜) :
    (publish cfg tenantId host ts features).eval w =
      { tenantId := tenantId
        hostId := host
        windowTs := ts
        features := features } := by
  unfold publish
  cases cfg.storeWired <;> rfl

theorem trace_publishSilent
    (w : World 𝕜)
    (host : String)
    (windows : List ℤ)
    (history : List (Tracked 𝕜)) :
    (publishSilent cfg tenantId host windows
        history).trace w =
      (silentScript cfg tenantId host windows).map
        (CloseAct.apply cfg tenantId windowTs) := by
  induction windows generalizing w history with
  | nil => rfl
  | cons silentTs rest ih =>
      simp only [publishSilent, Program.trace_bind,
        Program.trace_pure, List.append_nil, ih,
        trace_publish cfg tenantId windowTs, silentScript,
        List.flatMap_cons, List.map_append]
      rfl

theorem eval_publishSilent
    (w : World 𝕜)
    (host : String)
    (windows : List ℤ)
    (history : List (Tracked 𝕜)) :
    ((publishSilent cfg tenantId host windows
        history).eval w).1 =
      silentHistory windows history := by
  induction windows generalizing w history with
  | nil => rfl
  | cons silentTs rest ih =>
      simp only [publishSilent, Program.eval_bind,
        Program.eval_pure, ih]
      rfl

theorem trace_fillSince
    (w : World 𝕜)
    (host : String)
    (lastTs : Option ℤ)
    (history : List (Tracked 𝕜)) :
    (fillSince cfg tenantId host lastTs windowTs
        history).trace w =
      (silentScript cfg tenantId host
        (silentBefore cfg windowTs lastTs)).map
          (CloseAct.apply cfg tenantId windowTs) := by
  cases lastTs with
  | none => rfl
  | some lastTs =>
      simp only [fillSince, fillGap, silentBefore,
        filledWindows]
      split
      · rfl
      · split
        · rfl
        · exact
            trace_publishSilent cfg tenantId windowTs w host
              _ history

theorem eval_fillSince
    (w : World 𝕜)
    (host : String)
    (lastTs : Option ℤ)
    (history : List (Tracked 𝕜)) :
    ((fillSince cfg tenantId host lastTs windowTs
        history).eval w).1 =
      historyBefore cfg windowTs lastTs history := by
  cases lastTs with
  | none => rfl
  | some lastTs =>
      simp only [fillSince, fillGap, historyBefore]
      split
      · rfl
      · split
        · rfl
        · exact
            eval_publishSilent cfg tenantId w host _ history

theorem trace_recordPeers
    (w : World 𝕜)
    (host : String) :
    (recordPeers tenantId host
        (w.hostView tenantId host windowTs).peers).trace w =
      (peersScript host
        (w.hostView tenantId host windowTs)).map
          (CloseAct.apply cfg tenantId windowTs) := by
  unfold recordPeers peersScript
  split
  · rfl
  · rfl

theorem eval_recordPeers
    (w : World 𝕜)
    (host : String) :
    (recordPeers tenantId host
        (w.hostView tenantId host windowTs).peers).eval w =
      (w.hostView tenantId host windowTs).fresh := by
  unfold recordPeers HostView.fresh
  split
  · next hNone =>
      rw [hNone, Finset.empty_sdiff]
      rfl
  · rfl

theorem trace_emitWindow
    (w : World 𝕜)
    (host : String)
    (history : List (Tracked 𝕜)) :
    (emitWindow cfg tenantId host windowTs graph previous
        history).trace w =
      (windowScript cfg tenantId windowTs graph previous host
        (w.hostView tenantId host windowTs) history).map
          (CloseAct.apply cfg tenantId windowTs) := by
  have hPeers :
      (WindowAccumulator.fromHash
        ((w.windows.get w.now
          (tenantId, host, windowTs)).getD
            .empty)).dstIp.keys.toFinset =
        (w.hostView tenantId host windowTs).peers := rfl
  simp only [emitWindow, Program.trace_bind, readWindow,
    Program.trace_read, Program.eval_read, Program.exec_read,
    Program.trace_pure, writeHistory, Program.trace_write,
    trace_publish cfg tenantId windowTs, eval_publish,
    windowScript, List.map_append, List.append_nil, hPeers,
    trace_recordPeers cfg tenantId windowTs,
    eval_recordPeers, List.append_assoc]
  rfl

theorem trace_emitHost
    (w : World 𝕜)
    (host : String) :
    (emitHost cfg tenantId host windowTs graph
        previous).trace w =
      (hostScript cfg tenantId windowTs graph previous host
        (w.hostView tenantId host windowTs)).map
          (CloseAct.apply cfg tenantId windowTs) := by
  have hRead :
      (readHistory tenantId host).eval w =
        ((w.hostView tenantId host windowTs).lastTs,
          (w.hostView tenantId host windowTs).history) := by
    simp only [readHistory, Program.eval_read,
      World.hostView]
    cases w.prev.get w.now (tenantId, host) with
    | none => rfl
    | some record => rfl
  have hFilled :
      (fillSince cfg tenantId host
          (w.hostView tenantId host windowTs).lastTs windowTs
          (w.hostView tenantId host windowTs).history).exec w =
        w.after cfg tenantId windowTs
          (silentScript cfg tenantId host
            (silentBefore cfg windowTs
              (w.hostView tenantId host windowTs).lastTs)) := by
    rw [Program.exec_eq_applyAll,
      trace_fillSince cfg tenantId windowTs, applyAll_map]
  have hView :
      (w.after cfg tenantId windowTs
          (silentScript cfg tenantId host
            (silentBefore cfg windowTs
              (w.hostView tenantId host
                windowTs).lastTs))).hostView tenantId host
                  windowTs =
        w.hostView tenantId host windowTs := by
    apply hostView_after
    intro act hAct
    exact spares_silentScript cfg tenantId host _ hAct host
  simp only [emitHost, Program.trace_bind,
    Program.trace_pure, List.append_nil, hRead,
    trace_fillSince cfg tenantId windowTs,
    eval_fillSince cfg tenantId windowTs, trace_emitWindow]
  have hExec : (readHistory tenantId host).exec w = w := rfl
  rw [hExec, hFilled, hView]
  simp only [hostScript, List.map_append, List.append_assoc]
  rfl

/- Hosts are emitted one after the other. -/
theorem trace_emitHosts
    (w : World 𝕜)
    {hosts : List String}
    (hNodup : hosts.Nodup) :
    (emitHosts cfg tenantId windowTs graph previous
        hosts).trace w =
      (hostsScript cfg tenantId windowTs graph previous w
        hosts).map (CloseAct.apply cfg tenantId windowTs) := by
  induction hosts generalizing w with
  | nil => rfl
  | cons host rest ih =>
      rcases List.nodup_cons.mp hNodup with ⟨hNew, hRest⟩
      have hExec :
          (emitHost cfg tenantId host windowTs graph
              previous).exec w =
            w.after cfg tenantId windowTs
              (hostScript cfg tenantId windowTs graph
                previous host
                (w.hostView tenantId host windowTs)) := by
        rw [Program.exec_eq_applyAll, trace_emitHost,
          applyAll_map]
      have hViews :
          hostsScript cfg tenantId windowTs graph previous
              ((emitHost cfg tenantId host windowTs graph
                previous).exec w) rest =
            hostsScript cfg tenantId windowTs graph previous
              w rest := by
        unfold hostsScript
        apply List.flatMap_congr
        intro other hOther
        have hNe : other ≠ host := by
          rintro rfl
          exact hNew hOther
        rw [hExec, hostView_after]
        intro act hAct
        exact
          spares_hostScript cfg tenantId windowTs graph
            previous hNe _ hAct
      simp only [emitHosts, Program.trace_bind,
        Program.trace_pure, List.append_nil, trace_emitHost,
        ih _ hRest, hViews]
      simp only [hostsScript, List.flatMap_cons,
        List.map_append]

/- Clearing the marker does nothing for another window. -/
theorem trace_clearOpen
    (w : World 𝕜) :
    (clearOpen tenantId windowTs).trace w =
      (CloseAct.looked ::
        (match w.opened.get w.now tenantId with
        | none => []
        | some marker =>
            if marker.windowTs ≠ windowTs then []
            else [.cleared])).map
              (CloseAct.apply cfg tenantId windowTs) := by
  simp only [clearOpen, readOpen, Program.trace_bind,
    Program.trace_read, Program.eval_read, Program.exec_read]
  cases w.opened.get w.now tenantId with
  | none => rfl
  | some marker =>
      dsimp only
      split
      · rfl
      · rfl

/- A close follows its script. -/
theorem trace_closeWindow
    (w : World 𝕜) :
    (closeWindow cfg tenantId windowTs).trace w =
      (closeScript cfg tenantId windowTs w).map
        (CloseAct.apply cfg tenantId windowTs) := by
  let graph :=
    WindowGraph.fromEdges (w.edgesOf tenantId windowTs)
  let previous :=
    WindowGraph.fromEdges
      (w.edgesOf tenantId (windowTs - cfg.windowDelta))
  let hosts := w.hostsOf tenantId windowTs
  let script :=
    hostsScript cfg tenantId windowTs graph previous w hosts
  have hTrace :=
    trace_emitHosts cfg tenantId windowTs graph previous w
      (hostsOf_nodup tenantId windowTs w)
  have hExec :
      (emitHosts cfg tenantId windowTs graph previous
          hosts).exec w =
        w.after cfg tenantId windowTs script := by
    rw [Program.exec_eq_applyAll, hTrace, applyAll_map]
  have hSame :
      SameWindows w (w.after cfg tenantId windowTs script) := by
    apply sameWindows_after
    intro act hAct
    apply emits_emitScript cfg tenantId windowTs w
    exact List.mem_append_right _ hAct
  have hClear :
      (clearOpen tenantId windowTs).trace
          ((discardGraph tenantId
            (windowTs - cfg.windowDelta)).exec
            ((discardWindow tenantId windowTs hosts).exec
              (w.after cfg tenantId windowTs script))) =
        (clearOpen tenantId windowTs).trace w := by
    rw [trace_clearOpen cfg, trace_clearOpen cfg]
    simp only [discardGraph, discardWindow,
      Program.exec_write, hSame.opened, hSame.now]
  have hClose :
      (closeWindow cfg tenantId windowTs).trace w =
        [id, id, id] ++
          ((emitHosts cfg tenantId windowTs graph previous
            hosts).trace w ++
          ((discardWindow tenantId windowTs hosts).trace
            ((emitHosts cfg tenantId windowTs graph previous
              hosts).exec w) ++
          ((discardGraph tenantId
            (windowTs - cfg.windowDelta)).trace
              ((discardWindow tenantId windowTs hosts).exec
                ((emitHosts cfg tenantId windowTs graph
                  previous hosts).exec w)) ++
          (clearOpen tenantId windowTs).trace
            ((discardGraph tenantId
              (windowTs - cfg.windowDelta)).exec
              ((discardWindow tenantId windowTs hosts).exec
                ((emitHosts cfg tenantId windowTs graph
                  previous hosts).exec w)))))) := by
    simp only [closeWindow, Program.trace_bind,
      Program.trace_pure, List.append_nil]
    rfl
  rw [hClose, hExec, hClear, hTrace, trace_clearOpen cfg]
  simp only [closeScript, emitScript, discardScript,
    List.map_append, List.map_cons, discardWindow,
    discardGraph, Program.trace_write, List.cons_append,
    List.nil_append]
  rfl

end Emission

end Features

end Nidra
