import Nidra.Features.Intake

/-
  This file states when every event of a stream counts once
  in its window, and proves that it does in every run in
  which no attempt fails between the fold and the ack, no
  event is outstanding when its window is passed, and nothing
  expires before its window is closed.

  Key definitions include:
    * `share`, `windowTotal`, `CountedOnce`
    * `AckedBefore`, `AckedIn`, `Unexpired`, `Orderly`
    * `Counting`

  Main declarations:
    * `Counting.carry`, `Counting.close`, `Counting.fold`
    * `Counting.countedOnce`
    * `countedOnce_of_orderly`
-/

namespace Nidra

namespace Features

set_option linter.unusedSectionVars false

variable {𝕜 : Type}
variable [Field 𝕜] [LinearOrder 𝕜] [FloorRing 𝕜]
variable [ExpLog 𝕜]
variable (cfg : FeaturesConfig)
variable (tenantId : String)
variable (stream : List (RawEvent 𝕜))

------------------------------------------------------------
-- What a window should count
------------------------------------------------------------

/- The window of an event. -/
def windowOf (event : RawEvent 𝕜) : ℤ :=
  align event.ts cfg.windowDelta

/- What an event adds to a field of a host in a window. -/
def share
    (host : String)
    (windowTs : ℤ)
    (field : WindowField 𝕜)
    (event : RawEvent 𝕜) : 𝕜 :=
  if event.srcIp = host ∧ windowOf cfg event = windowTs then
    (eventIncrements event).count field
  else 0

/- The sum over the messages of the stream, each once. -/
def windowTotal
    (host : String)
    (windowTs : ℤ)
    (field : WindowField 𝕜) : 𝕜 :=
  (stream.map (share cfg host windowTs field)).sum

/-
  A window that is closed counts, for every host that it
  lists, each of its events once; and it lists every host of
  its events, unless it was discarded after their vector was
  published and its close is only tried again.
-/
structure CountedOnce
    (w : World 𝕜)
    (windowTs : ℤ) : Prop where
  counted :
    ∀ host ∈ w.hostsOf tenantId windowTs, host ≠ "" →
      ∀ field,
        (w.hashOf tenantId host windowTs).count field =
          windowTotal cfg stream host windowTs field
  complete :
    ∀ event ∈ stream, event.srcIp ≠ "" →
      windowOf cfg event = windowTs →
        event.srcIp ∈ w.hostsOf tenantId windowTs ∨
          windowTs ∈ w.published tenantId event.srcIp

------------------------------------------------------------
-- The branch that goes wrong
------------------------------------------------------------

/- Every event of a window before this one is acknowledged. -/
def AckedBefore
    (acked : Finset ℕ)
    (windowTs : ℤ) : Prop :=
  ∀ entry ∈ stream.zipIdx, entry.1.srcIp ≠ "" →
    windowOf cfg entry.1 < windowTs → entry.2 ∈ acked

/- Every event of this window is acknowledged. -/
def AckedIn
    (acked : Finset ℕ)
    (windowTs : ℤ) : Prop :=
  ∀ entry ∈ stream.zipIdx, entry.1.srcIp ≠ "" →
    windowOf cfg entry.1 = windowTs → entry.2 ∈ acked

/- No accumulator has expired at a later time. -/
structure Unexpired
    (w : World 𝕜)
    (later : ℚ) : Prop where
  hosts :
    ∀ windowTs,
      w.hosts.get later (tenantId, windowTs) =
        w.hosts.get w.now (tenantId, windowTs)
  windows :
    ∀ host windowTs,
      w.windows.get later (tenantId, host, windowTs) =
        w.windows.get w.now (tenantId, host, windowTs)

/-
  No accumulator expires meanwhile. A delivery that gets to
  its first effect finds every event of an earlier window
  acknowledged, and it does not stop between the last effect
  of its handler, the fold, and the ack. The watchdog closes
  a window only when its events are acknowledged.
-/
def Orderly
    (s : Intake 𝕜)
    (delivery : Delivery) : Prop :=
  Unexpired tenantId s.world
      (s.step cfg tenantId stream delivery).world.now ∧
    match delivery with
    | .wait _ => True
    | .deliver id budget =>
        ∀ event, stream[id]? = some event →
          id ∉ s.acked → event.srcIp ≠ "" → 0 < budget →
            AckedBefore cfg stream s.acked
                (windowOf cfg event) ∧
              budget ≠
                ((ingestEvent cfg event).trace s.world).length
    | .sweep budget =>
        ∀ start,
          closeStart cfg tenantId stream s (.sweep budget) =
              some start →
            AckedIn cfg stream s.acked start.2

------------------------------------------------------------
-- The invariant
------------------------------------------------------------

/- The part that a message has in a field of a host. -/
def shareAt
    (host : String)
    (windowTs : ℤ)
    (field : WindowField 𝕜)
    (id : ℕ) : 𝕜 :=
  (stream[id]?.map (share cfg host windowTs field)).getD 0

/- What the acknowledged events add to a field. -/
def ackedTotal
    (acked : Finset ℕ)
    (host : String)
    (windowTs : ℤ)
    (field : WindowField 𝕜) : 𝕜 :=
  ∑ id ∈ acked, shareAt cfg stream host windowTs field id

/-
  The counters of a listed host are those of the acknowledged
  events; an acknowledged event is listed, or its window is
  done with; a host that is not listed has no counters; and
  no event is outstanding before the open window.
-/
structure Counting
    (w : World 𝕜)
    (acked : Finset ℕ) : Prop where
  hash :
    ∀ windowTs, ∀ host ∈ w.hostsOf tenantId windowTs,
      host ≠ "" → ∀ field,
        (w.hashOf tenantId host windowTs).count field =
          ackedTotal cfg stream acked host windowTs field
  listed :
    ∀ entry ∈ stream.zipIdx, entry.2 ∈ acked →
      entry.1.srcIp ≠ "" →
        entry.1.srcIp ∈
            w.hostsOf tenantId (windowOf cfg entry.1) ∨
          AckedIn cfg stream acked (windowOf cfg entry.1) ∧
            windowOf cfg entry.1 ∈
              w.published tenantId entry.1.srcIp
  fresh :
    ∀ host windowTs, host ∉ w.hostsOf tenantId windowTs →
      w.windows.get w.now (tenantId, host, windowTs) = none
  marker :
    ∀ marker, w.opened.get w.now tenantId = some marker →
      AckedBefore cfg stream acked marker.windowTs

theorem Counting.start
    (now : ℚ)
    (readings : List ℚ) :
    Counting cfg tenantId stream (World.start now readings)
      ∅ := by
  refine
    { hash := ?_
      listed := ?_
      fresh := ?_
      marker := ?_ }
  · intro windowTs host hHost
    simp [World.start, World.hostsOf] at hHost
  · intro entry _ hAcked
    cases hAcked
  · intro host windowTs _
    simp [World.start]
  · intro marker hMarker
    simp [World.start] at hMarker

/- A message has a part only in its own window. -/
theorem shareAt_eq_zero
    {host : String}
    {windowTs : ℤ}
    (field : WindowField 𝕜)
    {id : ℕ}
    (hOther :
      ∀ event, stream[id]? = some event →
        ¬ (event.srcIp = host ∧
          windowOf cfg event = windowTs)) :
    shareAt cfg stream host windowTs field id = 0 := by
  unfold shareAt
  cases hId : stream[id]? with
  | none => rfl
  | some event => exact if_neg (hOther event hId)

/- The total of a window is that of the places. -/
theorem windowTotal_eq_sum
    (host : String)
    (windowTs : ℤ)
    (field : WindowField 𝕜) :
    windowTotal cfg stream host windowTs field =
      ∑ id ∈ Finset.range stream.length,
        shareAt cfg stream host windowTs field id := by
  rw [Finset.sum_range, windowTotal,
    ← Fin.sum_univ_fun_getElem]
  apply Finset.sum_congr rfl
  intro id _
  simp [shareAt]

/- A window whose events are acknowledged counts them all. -/
theorem ackedTotal_eq
    {acked : Finset ℕ}
    {windowTs : ℤ}
    (hAcked : AckedIn cfg stream acked windowTs)
    {host : String}
    (hHost : host ≠ "")
    (field : WindowField 𝕜) :
    ackedTotal cfg stream acked host windowTs field =
      windowTotal cfg stream host windowTs field := by
  rw [windowTotal_eq_sum]
  have hBeyond :
      ∀ id ∈ acked ∪ Finset.range stream.length,
        id ∉ Finset.range stream.length →
          shareAt cfg stream host windowTs field id = 0 := by
    intro id _ hId
    apply shareAt_eq_zero
    intro event hEvent
    rw [Finset.mem_range, not_lt,
      ← List.getElem?_eq_none_iff] at hId
    rw [hId] at hEvent
    cases hEvent
  have hOutstanding :
      ∀ id ∈ acked ∪ Finset.range stream.length,
        id ∉ acked →
          shareAt cfg stream host windowTs field id = 0 := by
    intro id _ hId
    apply shareAt_eq_zero
    intro event hEvent hOwn
    rcases hOwn with ⟨hSource, hWindow⟩
    apply hId
    exact
      hAcked (event, id)
        (List.mem_zipIdx_iff_getElem?.mpr hEvent)
        (hSource ▸ hHost) hWindow
  calc
    ackedTotal cfg stream acked host windowTs field =
        ∑ id ∈ acked ∪ Finset.range stream.length,
          shareAt cfg stream host windowTs field id :=
      Finset.sum_subset Finset.subset_union_left hOutstanding
    _ = ∑ id ∈ Finset.range stream.length,
          shareAt cfg stream host windowTs field id :=
      (Finset.sum_subset Finset.subset_union_right
        hBeyond).symm

/- At a close of such a window every event counts once. -/
theorem Counting.countedOnce
    {w : World 𝕜}
    {acked : Finset ℕ}
    (hCounting : Counting cfg tenantId stream w acked)
    {windowTs : ℤ}
    (hAcked : AckedIn cfg stream acked windowTs) :
    CountedOnce cfg tenantId stream w windowTs := by
  constructor
  · intro host hMem hHost field
    rw [hCounting.hash windowTs host hMem hHost field]
    exact ackedTotal_eq cfg stream hAcked hHost field
  · intro event hMem hSource hWindow
    rcases List.mem_iff_getElem?.mp hMem with ⟨id, hId⟩
    have hEntry : (event, id) ∈ stream.zipIdx :=
      List.mem_zipIdx_iff_getElem?.mpr hId
    have hDone := hAcked (event, id) hEntry hSource hWindow
    rcases hCounting.listed (event, id) hEntry hDone hSource
      with hListed | ⟨_, hPublished⟩
    · left
      rw [← hWindow]
      exact hListed
    · right
      rw [← hWindow]
      exact hPublished

------------------------------------------------------------
-- Steps that fold nothing
------------------------------------------------------------

/- Nothing expires while no time passes. -/
theorem Unexpired.refl
    (w : World 𝕜) :
    Unexpired tenantId w w.now :=
  { hosts := fun _ => rfl
    windows := fun _ _ => rfl }

/- A time before one at which nothing has expired. -/
theorem Unexpired.earlier
    {w : World 𝕜}
    {earlier later : ℚ}
    (hUnexpired : Unexpired tenantId w later)
    (hNow : w.now ≤ earlier)
    (hLater : earlier ≤ later) :
    Unexpired tenantId w earlier := by
  constructor
  · intro windowTs
    have hSame := hUnexpired.hosts windowTs
    cases hGet : w.hosts.get w.now (tenantId, windowTs) with
    | some hosts =>
        rw [hGet] at hSame
        exact TtlStore.get_of_get_later hLater hSame
    | none =>
        cases hEarlier :
            w.hosts.get earlier (tenantId, windowTs) with
        | none => rfl
        | some hosts =>
            rw [TtlStore.get_of_get_later hNow hEarlier] at hGet
            cases hGet
  · intro host windowTs
    have hSame := hUnexpired.windows host windowTs
    cases hGet :
        w.windows.get w.now (tenantId, host, windowTs) with
    | some hash =>
        rw [hGet] at hSame
        exact TtlStore.get_of_get_later hLater hSame
    | none =>
        cases hEarlier :
            w.windows.get earlier
              (tenantId, host, windowTs) with
        | none => rfl
        | some hash =>
            rw [TtlStore.get_of_get_later hNow hEarlier] at hGet
            cases hGet

/-
  The invariant is kept while the accumulators stay, nothing
  expires, no window opens and what was published stays so.
-/
theorem Counting.carry
    {w w' : World 𝕜}
    {acked : Finset ℕ}
    (hCounting : Counting cfg tenantId stream w acked)
    (hHosts : w'.hosts = w.hosts)
    (hWindows : w'.windows = w.windows)
    (hUnexpired : Unexpired tenantId w w'.now)
    (hOpened :
      ∀ marker,
        w'.opened.get w'.now tenantId = some marker →
          w.opened.get w.now tenantId = some marker)
    (hPublished :
      ∀ host, ∀ ts ∈ w.published tenantId host,
        ts ∈ w'.published tenantId host) :
    Counting cfg tenantId stream w' acked := by
  have hList :
      ∀ windowTs,
        w'.hostsOf tenantId windowTs =
          w.hostsOf tenantId windowTs := by
    intro windowTs
    unfold World.hostsOf
    rw [hHosts, hUnexpired.hosts]
  have hHash :
      ∀ host windowTs,
        w'.windows.get w'.now (tenantId, host, windowTs) =
          w.windows.get w.now (tenantId, host, windowTs) := by
    intro host windowTs
    rw [hWindows, hUnexpired.windows]
  refine
    { hash := ?_
      listed := ?_
      fresh := ?_
      marker := ?_ }
  · intro windowTs host hHost hSource field
    rw [hList] at hHost
    unfold World.hashOf
    rw [hHash]
    exact hCounting.hash windowTs host hHost hSource field
  · intro entry hEntry hAcked hSource
    rw [hList]
    rcases hCounting.listed entry hEntry hAcked hSource with
      hListed | ⟨hAll, hOut⟩
    · exact Or.inl hListed
    · exact Or.inr ⟨hAll, hPublished _ _ hOut⟩
  · intro host windowTs hHost
    rw [hList] at hHost
    rw [hHash]
    exact hCounting.fresh host windowTs hHost
  · intro marker hMarker
    exact hCounting.marker marker (hOpened marker hMarker)

------------------------------------------------------------
-- Closing a window
------------------------------------------------------------

/- What discarding a window leaves. -/
structure Discarded
    (w w' : World 𝕜)
    (windowTs : ℤ) : Prop where
  now : w'.now = w.now
  hosts : w'.hosts = w.hosts.delete (tenantId, windowTs)
  windows :
    w'.windows =
      ((w.hostsOf tenantId windowTs).map (fun host =>
        (tenantId, host, windowTs))).foldl
          TtlStore.delete w.windows
  opened :
    ∀ marker,
      w'.opened.get w'.now tenantId = some marker →
        w.opened.get w.now tenantId = some marker
  published :
    ∀ host, ∀ ts ∈ w.published tenantId host,
      ts ∈ w'.published tenantId host
  emitted :
    ∀ host ∈ w.hostsOf tenantId windowTs,
      windowTs ∈ w'.published tenantId host

/- Discarding a window keeps the invariant. -/
theorem Counting.discard
    {w w' : World 𝕜}
    {acked : Finset ℕ}
    (hCounting : Counting cfg tenantId stream w acked)
    {windowTs : ℤ}
    (hAcked : AckedIn cfg stream acked windowTs)
    (hDiscarded : Discarded tenantId w w' windowTs) :
    Counting cfg tenantId stream w' acked := by
  have hGone : w'.hostsOf tenantId windowTs = [] := by
    unfold World.hostsOf
    rw [hDiscarded.hosts, TtlStore.get_delete_self]
    simp
  have hKey :
      ∀ ts, ts ≠ windowTs →
        (tenantId, ts) ≠ (tenantId, windowTs) := by
    intro ts hNe hEq
    exact hNe (congrArg Prod.snd hEq)
  have hOthers :
      ∀ ts, ts ≠ windowTs →
        w'.hostsOf tenantId ts = w.hostsOf tenantId ts := by
    intro ts hNe
    unfold World.hostsOf
    rw [hDiscarded.hosts, hDiscarded.now,
      TtlStore.get_delete_ne _ _ (hKey ts hNe)]
  have hHash :
      ∀ host ts,
        w'.windows.get w'.now (tenantId, host, ts) =
          if host ∈ w.hostsOf tenantId windowTs ∧
              ts = windowTs
          then none
          else w.windows.get w.now (tenantId, host, ts) := by
    intro host ts
    rw [hDiscarded.windows, hDiscarded.now,
      TtlStore.get_foldl_delete]
    congr 1
    simp only [List.mem_map, Prod.mk.injEq, true_and,
      eq_iff_iff]
    constructor
    · rintro ⟨other, hMem, rfl, rfl⟩
      exact ⟨hMem, rfl⟩
    · rintro ⟨hMem, rfl⟩
      exact ⟨host, hMem, rfl, rfl⟩
  refine
    { hash := ?_
      listed := ?_
      fresh := ?_
      marker := ?_ }
  · intro ts host hHost hSource field
    have hNe : ts ≠ windowTs := by
      rintro rfl
      rw [hGone] at hHost
      cases hHost
    rw [hOthers ts hNe] at hHost
    unfold World.hashOf
    rw [hHash, if_neg (fun hBoth => hNe hBoth.2)]
    exact hCounting.hash ts host hHost hSource field
  · intro entry hEntry hDone hSource
    rcases hCounting.listed entry hEntry hDone hSource with
      hListed | ⟨hAll, hOut⟩
    · by_cases hWindow : windowOf cfg entry.1 = windowTs
      · right
        rw [hWindow] at hListed ⊢
        exact ⟨hAcked, hDiscarded.emitted _ hListed⟩
      · left
        rw [hOthers _ hWindow]
        exact hListed
    · exact Or.inr ⟨hAll, hDiscarded.published _ _ hOut⟩
  · intro host ts hHost
    rw [hHash]
    split
    · rfl
    · next hKept =>
        apply hCounting.fresh
        intro hListed
        by_cases hWindow : ts = windowTs
        · subst hWindow
          exact hKept ⟨hListed, rfl⟩
        · rw [hOthers ts hWindow] at hHost
          exact hHost hListed
  · intro marker hMarker
    exact
      hCounting.marker marker
        (hDiscarded.opened marker hMarker)

/- What was published stays published. -/
theorem published_after
    {w : World 𝕜}
    {host : String}
    {windowTs ts : ℤ}
    (hPublished : ts ∈ w.published tenantId host)
    (acts : List (CloseAct 𝕜)) :
    ts ∈
      (w.after cfg tenantId windowTs acts).published tenantId
        host := by
  unfold World.published
  rw [log_after, publishedWindows_append]
  exact List.mem_append_left _ hPublished

/- An act that publishes a vector publishes its window. -/
theorem published_of_act
    (w : World 𝕜)
    {acts : List (CloseAct 𝕜)}
    {vector : StateVector 𝕜}
    (hAct : .published vector ∈ acts)
    (windowTs : ℤ) :
    vector.windowTs ∈
      (w.after cfg tenantId windowTs acts).published
        vector.tenantId vector.hostId := by
  unfold World.published
  rw [log_after, publishedWindows_append]
  apply List.mem_append_right
  unfold publishedWindows
  rw [List.mem_filterMap]
  refine ⟨.published vector, ?_, ?_⟩
  · exact List.mem_map_of_mem (mem_publishedBy.mpr hAct)
  · exact if_pos ⟨rfl, rfl⟩

/- Every listed host is published. -/
theorem published_emitScript
    (w : World 𝕜)
    {windowTs : ℤ}
    {host : String}
    (hHost : host ∈ w.hostsOf tenantId windowTs) :
    ∃ vector,
      .published vector ∈ emitScript cfg tenantId windowTs w ∧
        vector.tenantId = tenantId ∧
          vector.hostId = host ∧
            vector.windowTs = windowTs := by
  refine
    ⟨hostVector cfg tenantId windowTs
        (WindowGraph.fromEdges (w.edgesOf tenantId windowTs))
        (WindowGraph.fromEdges
          (w.edgesOf tenantId (windowTs - cfg.windowDelta)))
        host (w.hostView tenantId host windowTs),
      ?_, rfl, rfl, rfl⟩
  unfold emitScript hostsScript
  apply List.mem_append_right
  rw [List.mem_flatMap]
  refine ⟨host, hHost, ?_⟩
  unfold hostScript windowScript
  apply List.mem_append_right
  apply List.mem_append_left
  apply List.mem_append_right
  unfold publishScript
  split
  · exact List.mem_cons_of_mem _ List.mem_cons_self
  · exact List.mem_cons_self

/- What is left of a close once the window is discarded. -/
def CloseAct.Trails (act : CloseAct 𝕜) : Prop :=
  act = .discardedGraph ∨ act = .looked ∨ act = .cleared

/- The accumulators that a discarded window left stay so. -/
structure Trailed (w w' : World 𝕜) : Prop where
  now : w'.now = w.now
  hosts : w'.hosts = w.hosts
  windows : w'.windows = w.windows
  log : w'.log = w.log
  opened :
    ∀ marker,
      w'.opened.get w'.now tenantId = some marker →
        w.opened.get w.now tenantId = some marker

theorem trailed_after
    (w : World 𝕜)
    (windowTs : ℤ)
    {acts : List (CloseAct 𝕜)}
    (hTrails : ∀ act ∈ acts, act.Trails) :
    Trailed tenantId w
      (w.after cfg tenantId windowTs acts) := by
  induction acts generalizing w with
  | nil => exact ⟨rfl, rfl, rfl, rfl, fun _ hOpen => hOpen⟩
  | cons act acts ih =>
      rcases List.forall_mem_cons.mp hTrails with
        ⟨hFirst, hRest⟩
      have hNext :=
        ih (act.apply cfg tenantId windowTs w) hRest
      rcases hFirst with rfl | rfl | rfl
      · exact
          ⟨hNext.now, hNext.hosts, hNext.windows, hNext.log,
            hNext.opened⟩
      · exact
          ⟨hNext.now, hNext.hosts, hNext.windows, hNext.log,
            hNext.opened⟩
      · refine
          ⟨hNext.now, hNext.hosts, hNext.windows, hNext.log,
            ?_⟩
        intro marker hMarker
        have hOpen := hNext.opened marker hMarker
        simp [CloseAct.apply] at hOpen

/-
  A close that gets far enough publishes every listed host
  and discards the window.
-/
theorem discarded_closeScript
    (w : World 𝕜)
    {windowTs : ℤ}
    {budget : ℕ}
    (hLong :
      (emitScript cfg tenantId windowTs w).length < budget) :
    Discarded tenantId w
      (w.after cfg tenantId windowTs
        ((closeScript cfg tenantId windowTs w).take budget))
      windowTs := by
  rcases Nat.exists_eq_add_of_lt hLong with ⟨rest, rfl⟩
  let emitted :=
    w.after cfg tenantId windowTs
      (emitScript cfg tenantId windowTs w)
  let discarded :=
    (CloseAct.discardedWindow
      (w.hostsOf tenantId windowTs)).apply cfg tenantId
        windowTs emitted
  let trail :=
    (discardScript tenantId windowTs w).tail.take rest
  have hAfter :
      w.after cfg tenantId windowTs
          ((closeScript cfg tenantId windowTs w).take
            ((emitScript cfg tenantId windowTs w).length +
              rest + 1)) =
        discarded.after cfg tenantId windowTs trail := by
    unfold closeScript
    rw [Nat.add_assoc, List.take_length_add_append]
    unfold World.after
    rw [List.foldl_append]
    rfl
  have hSame :
      SameWindows w emitted :=
    sameWindows_after cfg tenantId windowTs w
      (fun act hAct =>
        emits_emitScript cfg tenantId windowTs w hAct)
  have hTrail :
      Trailed tenantId discarded
        (discarded.after cfg tenantId windowTs trail) := by
    apply trailed_after
    intro act hAct
    have hMem :
        act ∈ (discardScript tenantId windowTs w).tail :=
      List.mem_of_mem_take hAct
    unfold discardScript at hMem
    simp only [List.cons_append, List.nil_append,
      List.tail_cons, List.mem_cons] at hMem
    rcases hMem with rfl | rfl | hMem
    · exact Or.inl rfl
    · exact Or.inr (Or.inl rfl)
    · split at hMem
      · cases hMem
      · split at hMem
        · cases hMem
        · exact Or.inr (Or.inr (List.mem_singleton.mp hMem))
  rw [hAfter]
  refine
    { now := hTrail.now.trans hSame.now
      hosts := ?_
      windows := ?_
      opened := ?_
      published := ?_
      emitted := ?_ }
  · rw [hTrail.hosts]
    exact
      congrArg
        (fun hosts =>
          TtlStore.delete hosts (tenantId, windowTs))
        hSame.hosts
  · rw [hTrail.windows, List.foldl_map]
    simp only [discarded, CloseAct.apply, hSame.windows]
  · intro marker hMarker
    have hOpen := hTrail.opened marker hMarker
    have hEmitted :
        emitted.opened.get emitted.now tenantId =
          some marker := hOpen
    rw [hSame.opened, hSame.now] at hEmitted
    exact hEmitted
  · intro host ts hTs
    unfold World.published
    rw [hTrail.log]
    exact published_after cfg tenantId hTs _
  · intro host hHost
    rcases published_emitScript cfg tenantId w hHost with
      ⟨vector, hAct, hTenant, hId, hTs⟩
    have hPublished :=
      published_of_act cfg tenantId w hAct windowTs
    rw [hTenant, hId, hTs] at hPublished
    unfold World.published
    rw [hTrail.log]
    exact hPublished

/- However far a close gets, it discards or keeps the window. -/
theorem discarded_or_sameWindows
    (w : World 𝕜)
    (windowTs : ℤ)
    (budget : ℕ) :
    Discarded tenantId w
        (w.after cfg tenantId windowTs
          ((closeScript cfg tenantId windowTs w).take budget))
        windowTs ∨
      SameWindows w
        (w.after cfg tenantId windowTs
          ((closeScript cfg tenantId windowTs w).take
            budget)) := by
  by_cases hLong :
      (emitScript cfg tenantId windowTs w).length < budget
  · exact Or.inl (discarded_closeScript cfg tenantId w hLong)
  · right
    have hActs :
        (closeScript cfg tenantId windowTs w).take budget =
          (emitScript cfg tenantId windowTs w).take budget :=
      List.take_append_of_le_length (not_lt.mp hLong)
    rw [hActs]
    apply sameWindows_after
    intro act hAct
    exact
      emits_emitScript cfg tenantId windowTs w
        (List.mem_of_mem_take hAct)

/- However far a close gets, it keeps the invariant. -/
theorem Counting.close
    {w : World 𝕜}
    {acked : Finset ℕ}
    (hCounting : Counting cfg tenantId stream w acked)
    {windowTs : ℤ}
    (hAcked : AckedIn cfg stream acked windowTs)
    (budget : ℕ) :
    Counting cfg tenantId stream
      (w.after cfg tenantId windowTs
        ((closeScript cfg tenantId windowTs w).take budget))
      acked := by
  rcases discarded_or_sameWindows cfg tenantId w windowTs
      budget with hDiscarded | hSame
  · exact
      hCounting.discard cfg tenantId stream hAcked hDiscarded
  · apply hCounting.carry cfg tenantId stream hSame.hosts
      hSame.windows
    · rw [hSame.now]
      exact Unexpired.refl tenantId w
    · intro marker hMarker
      rw [hSame.opened, hSame.now] at hMarker
      exact hMarker
    · intro host ts hTs
      exact published_after cfg tenantId hTs _

------------------------------------------------------------
-- Folding an event
------------------------------------------------------------

/- What is acknowledged stays so. -/
theorem AckedBefore.insert
    {acked : Finset ℕ}
    {windowTs : ℤ}
    (hAcked : AckedBefore cfg stream acked windowTs)
    (id : ℕ) :
    AckedBefore cfg stream (insert id acked) windowTs :=
  fun entry hEntry hSource hWindow =>
    Finset.mem_insert_of_mem
      (hAcked entry hEntry hSource hWindow)

theorem AckedIn.insert
    {acked : Finset ℕ}
    {windowTs : ℤ}
    (hAcked : AckedIn cfg stream acked windowTs)
    (id : ℕ) :
    AckedIn cfg stream (insert id acked) windowTs :=
  fun entry hEntry hSource hWindow =>
    Finset.mem_insert_of_mem
      (hAcked entry hEntry hSource hWindow)

/- One more message adds its part. -/
theorem ackedTotal_insert
    {acked : Finset ℕ}
    {id : ℕ}
    (hNew : id ∉ acked)
    (host : String)
    (windowTs : ℤ)
    (field : WindowField 𝕜) :
    ackedTotal cfg stream (insert id acked) host windowTs
        field =
      ackedTotal cfg stream acked host windowTs field +
        shareAt cfg stream host windowTs field id := by
  unfold ackedTotal
  rw [Finset.sum_insert hNew, add_comm]

/-
  A host that is not listed in a window with an event that is
  outstanding has no event acknowledged.
-/
theorem Counting.ackedTotal_unlisted
    {w : World 𝕜}
    {acked : Finset ℕ}
    (hCounting : Counting cfg tenantId stream w acked)
    {id : ℕ}
    {event : RawEvent 𝕜}
    (hId : stream[id]? = some event)
    (hNew : id ∉ acked)
    (hSource : event.srcIp ≠ "")
    (hUnlisted :
      event.srcIp ∉ w.hostsOf tenantId (windowOf cfg event))
    (field : WindowField 𝕜) :
    ackedTotal cfg stream acked event.srcIp
      (windowOf cfg event) field = 0 := by
  apply Finset.sum_eq_zero
  intro other hOther
  apply shareAt_eq_zero
  intro event' hEvent' hOwn
  rcases hOwn with ⟨hHost, hWindow⟩
  have hEntry : (event', other) ∈ stream.zipIdx :=
    List.mem_zipIdx_iff_getElem?.mpr hEvent'
  have hSource' : event'.srcIp ≠ "" := hHost ▸ hSource
  rcases hCounting.listed (event', other) hEntry hOther
      hSource' with hListed | ⟨hAll, _⟩
  · apply hUnlisted
    rw [← hHost, ← hWindow]
    exact hListed
  · apply hNew
    exact
      hAll (event, id)
        (List.mem_zipIdx_iff_getElem?.mpr hId) hSource
        hWindow.symm

theorem windowTtlS_pos : 0 < windowTtlS := by
  norm_num [windowTtlS]

/- The hosts that are listed once an event is folded in. -/
theorem mem_hostsOf_accumulate
    (w : World 𝕜)
    (event : RawEvent 𝕜)
    (windowTs : ℤ)
    (now : ℚ)
    (host : String)
    (ts : ℤ) :
    host ∈
        (w.accumulate event windowTs now).hostsOf
          event.tenantId ts ↔
      (host = event.srcIp ∧ ts = windowTs) ∨
        host ∈ w.hostsOf event.tenantId ts := by
  unfold World.hostsOf World.accumulate
  by_cases hWindow : ts = windowTs
  · subst hWindow
    simp [TtlStore.get_renew_self, windowTtlS_pos]
  · have hKey :
        (event.tenantId, ts) ≠ (event.tenantId, windowTs) := by
      intro hEq
      exact hWindow (congrArg Prod.snd hEq)
    simp [TtlStore.get_renew_ne _ _ _ _ _ hKey, hWindow]

/- Folding an event in changes the counters of its host. -/
theorem hash_accumulate_other
    (w : World 𝕜)
    (event : RawEvent 𝕜)
    (windowTs : ℤ)
    (now : ℚ)
    {host : String}
    {ts : ℤ}
    (hOther : ¬ (host = event.srcIp ∧ ts = windowTs)) :
    (w.accumulate event windowTs now).windows.get w.now
        (event.tenantId, host, ts) =
      w.windows.get w.now (event.tenantId, host, ts) := by
  have hKey :
      (event.tenantId, host, ts) ≠
        (event.tenantId, event.srcIp, windowTs) := by
    intro hEq
    simp only [Prod.mk.injEq, true_and] at hEq
    exact hOther hEq
  exact TtlStore.get_renew_ne _ _ _ _ _ hKey

theorem hash_accumulate_self
    (w : World 𝕜)
    (event : RawEvent 𝕜)
    (windowTs : ℤ)
    (now : ℚ) :
    (w.accumulate event windowTs now).hashOf event.tenantId
        event.srcIp windowTs =
      (w.hashOf event.tenantId event.srcIp windowTs).merge
        (eventIncrements event) := by
  simp [World.hashOf, World.accumulate,
    TtlStore.get_renew_self, windowTtlS_pos]

/- An event that is folded in and acknowledged counts once. -/
theorem Counting.fold
    {w : World 𝕜}
    {acked : Finset ℕ}
    (hCounting : Counting cfg tenantId stream w acked)
    {id : ℕ}
    {event : RawEvent 𝕜}
    (hId : stream[id]? = some event)
    (hNew : id ∉ acked)
    (hSource : event.srcIp ≠ "")
    (hTenant : event.tenantId = tenantId)
    (hBefore :
      AckedBefore cfg stream acked (windowOf cfg event))
    (now : ℚ) :
    Counting cfg tenantId stream
      (w.accumulate event (windowOf cfg event) now)
      (insert id acked) := by
  subst hTenant
  have hPublished :
      ∀ host,
        (w.accumulate event (windowOf cfg event) now).published
            event.tenantId host =
          w.published event.tenantId host := by
    intro host
    unfold World.published World.accumulate
    rw [publishedWindows_append, publishedWindows_folded,
      List.append_nil]
  refine
    { hash := ?_
      listed := ?_
      fresh := ?_
      marker := ?_ }
  · intro ts host hHost hNamed field
    rw [mem_hostsOf_accumulate] at hHost
    rw [ackedTotal_insert cfg stream hNew]
    by_cases hOwn :
        host = event.srcIp ∧ ts = windowOf cfg event
    · rcases hOwn with ⟨rfl, rfl⟩
      have hShare :
          shareAt cfg stream event.srcIp (windowOf cfg event)
              field id =
            (eventIncrements event).count field := by
        unfold shareAt
        rw [hId, Option.map_some, Option.getD_some]
        exact if_pos ⟨rfl, rfl⟩
      rw [hash_accumulate_self, Tally.count_merge, hShare]
      congr 1
      by_cases hListed :
          event.srcIp ∈
            w.hostsOf event.tenantId (windowOf cfg event)
      · exact
          hCounting.hash (windowOf cfg event) event.srcIp
            hListed hSource field
      · rw [hCounting.ackedTotal_unlisted cfg _ stream hId hNew
          hSource hListed]
        unfold World.hashOf
        rw [hCounting.fresh _ _ hListed]
        exact Tally.count_empty field
    · have hListed := hHost.resolve_left hOwn
      have hNothing :
          shareAt cfg stream host ts field id = 0 := by
        apply shareAt_eq_zero
        intro event' hEvent' hBoth
        rw [hId] at hEvent'
        cases hEvent'
        exact hOwn ⟨hBoth.1.symm, hBoth.2.symm⟩
      have hSame :=
        hash_accumulate_other w event (windowOf cfg event) now
          hOwn
      rw [hNothing, add_zero,
        ← hCounting.hash ts host hListed hNamed field]
      unfold World.hashOf
      exact congrArg (fun hash => (hash.getD .empty).count field)
        hSame
  · intro entry hEntry hAcked hNamed
    rw [mem_hostsOf_accumulate, hPublished]
    rcases Finset.mem_insert.mp hAcked with hThis | hOld
    · left
      left
      have hEvent := List.mem_zipIdx_iff_getElem?.mp hEntry
      rw [hThis, hId] at hEvent
      cases Option.some.inj hEvent
      exact ⟨rfl, rfl⟩
    · rcases hCounting.listed entry hEntry hOld hNamed with
        hListed | ⟨hAll, hOut⟩
      · exact Or.inl (Or.inr hListed)
      · exact Or.inr ⟨hAll.insert cfg stream id, hOut⟩
  · intro host ts hHost
    rw [mem_hostsOf_accumulate, not_or] at hHost
    have hSame :=
      hash_accumulate_other w event (windowOf cfg event) now
        hHost.1
    exact hSame.trans (hCounting.fresh host ts hHost.2)
  · intro marker hMarker
    have hOpen :
        (w.accumulate event (windowOf cfg event)
            now).opened.get w.now event.tenantId =
          some
            { windowTs := windowOf cfg event
              lastSeen := now } := by
      simp [World.accumulate, TtlStore.get_renew_self,
        windowTtlS_pos]
    have hEq := Option.some.inj (hMarker.symm.trans hOpen)
    subst hEq
    exact hBefore.insert cfg stream id

/- An event without a source host has no part. -/
theorem Counting.ackSourceless
    {w : World 𝕜}
    {acked : Finset ℕ}
    (hCounting : Counting cfg tenantId stream w acked)
    {id : ℕ}
    {event : RawEvent 𝕜}
    (hId : stream[id]? = some event)
    (hNew : id ∉ acked)
    (hSource : event.srcIp = "") :
    Counting cfg tenantId stream w (insert id acked) := by
  refine
    { hash := ?_
      listed := ?_
      fresh := hCounting.fresh
      marker := ?_ }
  · intro windowTs host hHost hNamed field
    have hNothing :
        shareAt cfg stream host windowTs field id = 0 := by
      apply shareAt_eq_zero
      intro event' hEvent' hOwn
      rw [hId] at hEvent'
      cases hEvent'
      exact hNamed (hOwn.1.symm.trans hSource)
    rw [ackedTotal_insert cfg stream hNew, hNothing, add_zero]
    exact hCounting.hash windowTs host hHost hNamed field
  · intro entry hEntry hAcked hNamed
    rcases Finset.mem_insert.mp hAcked with hThis | hOld
    · have hEvent := List.mem_zipIdx_iff_getElem?.mp hEntry
      rw [hThis, hId] at hEvent
      cases Option.some.inj hEvent
      exact absurd hSource hNamed
    · rcases hCounting.listed entry hEntry hOld hNamed with
        hListed | ⟨hAll, hOut⟩
      · exact Or.inl hListed
      · exact Or.inr ⟨hAll.insert cfg stream id, hOut⟩
  · intro marker hMarker
    exact (hCounting.marker marker hMarker).insert cfg stream id

------------------------------------------------------------
-- Time
------------------------------------------------------------

/- What has not expired is not kept by closing a window. -/
theorem Unexpired.close
    {w : World 𝕜}
    {later : ℚ}
    (hUnexpired : Unexpired tenantId w later)
    (windowTs : ℤ)
    (budget : ℕ) :
    Unexpired tenantId
      (w.after cfg tenantId windowTs
        ((closeScript cfg tenantId windowTs w).take budget))
      later := by
  rcases discarded_or_sameWindows cfg tenantId w windowTs
      budget with hDiscarded | hSame
  · constructor
    · intro ts
      rw [hDiscarded.hosts, hDiscarded.now]
      by_cases hKey : (tenantId, ts) = (tenantId, windowTs)
      · rw [hKey, TtlStore.get_delete_self,
          TtlStore.get_delete_self]
      · rw [TtlStore.get_delete_ne _ _ hKey,
          TtlStore.get_delete_ne _ _ hKey]
        exact hUnexpired.hosts ts
    · intro host ts
      rw [hDiscarded.windows, hDiscarded.now,
        TtlStore.get_foldl_delete, TtlStore.get_foldl_delete,
        hUnexpired.windows]
  · constructor
    · intro ts
      rw [hSame.hosts, hSame.now]
      exact hUnexpired.hosts ts
    · intro host ts
      rw [hSame.windows, hSame.now]
      exact hUnexpired.windows host ts

/- Passing time keeps the invariant. -/
theorem Counting.wait
    {w : World 𝕜}
    {acked : Finset ℕ}
    (hCounting : Counting cfg tenantId stream w acked)
    {time : ℚ}
    (hUnexpired : Unexpired tenantId w (w.wait time).now) :
    Counting cfg tenantId stream (w.wait time) acked := by
  refine
    Counting.carry cfg tenantId stream hCounting ?_ ?_
      hUnexpired ?_ ?_
  · rfl
  · rfl
  · intro marker hMarker
    exact
      TtlStore.get_of_get_later (le_max_left w.now time)
        hMarker
  · intro host ts hTs
    exact hTs

theorem readClock_windows
    (w : World 𝕜) :
    (readClock.exec w).windows = w.windows := by
  simp only [readClock, Program.exec_step]
  cases w.readings <;> rfl

/- So does reading the clock. -/
theorem Counting.clock
    {w : World 𝕜}
    {acked : Finset ℕ}
    (hCounting : Counting cfg tenantId stream w acked)
    (hUnexpired :
      Unexpired tenantId w (readClock.exec w).now) :
    Counting cfg tenantId stream (readClock.exec w) acked := by
  rcases readClock_exec w with
    ⟨hNow, hOpened, hHosts, _, hLog⟩
  apply hCounting.carry cfg tenantId stream hHosts
    (readClock_windows w) hUnexpired
  · intro marker hMarker
    rw [hOpened] at hMarker
    exact TtlStore.get_of_get_later hNow hMarker
  · intro host ts hTs
    unfold World.published at hTs ⊢
    rw [hLog]
    exact hTs

------------------------------------------------------------
-- One delivery
------------------------------------------------------------

/- An event closes only a window before its own. -/
theorem closedBy_before
    {w : World 𝕜}
    {event : RawEvent 𝕜}
    {windowTs : ℤ}
    (hClosed : closedBy cfg w event = some windowTs) :
    windowTs < windowOf cfg event := by
  unfold closedBy at hClosed
  split at hClosed
  · cases hClosed
  · cases hMarker : w.opened.get w.now event.tenantId with
    | none =>
        rw [hMarker] at hClosed
        cases hClosed
    | some marker =>
        rw [hMarker] at hClosed
        dsimp only at hClosed
        split at hClosed
        · next hEarlier =>
            cases hClosed
            exact hEarlier
        · cases hClosed

theorem AckedBefore.ackedIn
    {acked : Finset ℕ}
    {windowTs earlier : ℤ}
    (hAcked : AckedBefore cfg stream acked windowTs)
    (hEarlier : earlier < windowTs) :
    AckedIn cfg stream acked earlier :=
  fun entry hEntry hSource hWindow =>
    hAcked entry hEntry hSource (hWindow ▸ hEarlier)

/-
  The close that an event starts keeps the invariant, however
  far it gets, and lets nothing expire.
-/
theorem Counting.closeEarlier
    {w : World 𝕜}
    {acked : Finset ℕ}
    (hCounting : Counting cfg tenantId stream w acked)
    {event : RawEvent 𝕜}
    (hSource : event.srcIp ≠ "")
    (hTenant : event.tenantId = tenantId)
    (hBefore :
      AckedBefore cfg stream acked (windowOf cfg event))
    (budget : ℕ)
    {w' : World 𝕜}
    (hAfter :
      w' =
        Program.applyAll w
          (((closeEarlier cfg event.tenantId (w.marker event)
            (windowOf cfg event)).trace w).take budget)) :
    Counting cfg tenantId stream w' acked ∧
      ∀ later,
        Unexpired tenantId w later →
          Unexpired tenantId w' later := by
  subst hTenant
  have hTrace := trace_closeEarlier cfg (w := w) hSource
  unfold windowOf at hAfter
  rw [hTrace] at hAfter
  cases hClosed : closedBy cfg w event with
  | none =>
      rw [hClosed] at hAfter
      dsimp only at hAfter
      rw [List.take_nil] at hAfter
      subst hAfter
      exact ⟨hCounting, fun _ hUnexpired => hUnexpired⟩
  | some windowTs =>
      rw [hClosed] at hAfter
      dsimp only at hAfter
      rw [← List.map_take, applyAll_map] at hAfter
      have hAcked : AckedIn cfg stream acked windowTs :=
        hBefore.ackedIn cfg stream (closedBy_before cfg hClosed)
      rw [hAfter]
      constructor
      · exact hCounting.close cfg _ stream hAcked budget
      · intro later hUnexpired
        exact hUnexpired.close cfg _ windowTs budget

/-
  An outstanding event is not late, as none is outstanding
  before the open window.
-/
theorem Counting.not_late
    {w : World 𝕜}
    {acked : Finset ℕ}
    (hCounting : Counting cfg tenantId stream w acked)
    {id : ℕ}
    {event : RawEvent 𝕜}
    (hId : stream[id]? = some event)
    (hNew : id ∉ acked)
    (hSource : event.srcIp ≠ "")
    (hTenant : event.tenantId = tenantId) :
    isLate (w.marker event) (windowOf cfg event) = false := by
  subst hTenant
  cases hMarker : w.marker event with
  | none => rfl
  | some marker =>
      apply decide_eq_false
      intro hEarlier
      apply hNew
      exact
        hCounting.marker marker hMarker (event, id)
          (List.mem_zipIdx_iff_getElem?.mpr hId) hSource
          hEarlier

/-
  How far a handler gets that looks at the open window, then
  closes, reads the clock and folds.
-/
theorem applyAll_take_close
    (w : World 𝕜)
    (closing : List (World 𝕜 → World 𝕜))
    (fold : World 𝕜 → World 𝕜)
    {left : ℕ}
    (hLeft : left ≤ closing.length) :
    Program.applyAll w
        ((id :: (closing ++ [readClock.exec, fold])).take
          (left + 1)) =
      Program.applyAll w (closing.take left) := by
  rw [List.take_succ_cons,
    List.take_append_of_le_length hLeft]
  rfl

theorem applyAll_take_clock
    (w : World 𝕜)
    (closing : List (World 𝕜 → World 𝕜))
    (fold : World 𝕜 → World 𝕜) :
    Program.applyAll w
        ((id :: (closing ++ [readClock.exec, fold])).take
          (closing.length + 1 + 1)) =
      readClock.exec (Program.applyAll w closing) := by
  rw [List.take_succ_cons, List.take_length_add_append]
  unfold Program.applyAll
  rw [List.foldl_cons, List.foldl_append]
  rfl

theorem applyAll_take_fold
    (w : World 𝕜)
    (closing : List (World 𝕜 → World 𝕜))
    (fold : World 𝕜 → World 𝕜)
    {budget : ℕ}
    (hBudget : closing.length + 3 ≤ budget) :
    Program.applyAll w
        ((id :: (closing ++ [readClock.exec, fold])).take
          budget) =
      fold (readClock.exec (Program.applyAll w closing)) := by
  have hAll :
      (id :: (closing ++ [readClock.exec, fold])).length ≤
        budget := by
    simp only [List.length_cons, List.length_append,
      List.length_nil]
    omega
  rw [List.take_of_length_le hAll]
  unfold Program.applyAll
  rw [List.foldl_cons, List.foldl_append]
  rfl

/- A delivery that is orderly keeps the invariant. -/
theorem Counting.deliver
    {s : Intake 𝕜}
    (hCounting :
      Counting cfg tenantId stream s.world s.acked)
    (hTenant : ∀ event ∈ stream, event.tenantId = tenantId)
    {id budget : ℕ}
    (hOrderly :
      Orderly cfg tenantId stream s (.deliver id budget)) :
    Counting cfg tenantId stream
      (s.deliver cfg stream id budget).world
      (s.deliver cfg stream id budget).acked := by
  rcases hOrderly with ⟨hUnexpired, hHandled⟩
  simp only [Intake.step] at hUnexpired
  unfold Intake.deliver at hUnexpired ⊢
  by_cases hNew : id ∈ s.acked
  · rw [if_pos hNew]
    exact hCounting
  rw [if_neg hNew] at hUnexpired ⊢
  cases hId : stream[id]? with
  | none => exact hCounting
  | some event =>
      simp only [hId, attempt_handleEvent] at hUnexpired ⊢
      have hHis := hTenant event (List.mem_of_getElem? hId)
      by_cases hSource : event.srcIp = ""
      · rw [trace_ingestEvent_sourceless cfg hSource]
        rw [List.take_nil, List.length_nil]
        split
        · exact
            hCounting.ackSourceless cfg _ stream hId hNew
              hSource
        · exact hCounting
      rcases Nat.eq_zero_or_pos budget with rfl | hFirst
      · rw [List.take_zero, if_neg (Nat.not_lt_zero _)]
        exact hCounting
      rcases hHandled event hId hNew hSource hFirst with
        ⟨hBefore, hNotLast⟩
      have hLate :=
        hCounting.not_late cfg _ stream hId hNew hSource hHis
      rcases trace_ingestEvent cfg (w := s.world) hSource
          hLate with ⟨now, hTrace⟩
      rw [hTrace] at hUnexpired hNotLast ⊢
      rcases Nat.exists_eq_succ_of_ne_zero hFirst.ne' with
        ⟨left, rfl⟩
      have hClose := fun budget =>
        hCounting.closeEarlier cfg _ stream hSource hHis
          hBefore budget rfl
      unfold windowOf at hClose
      generalize hClosing :
        (Features.closeEarlier cfg event.tenantId
          (s.world.marker event)
          (align event.ts cfg.windowDelta)).trace s.world =
            closing at hClose hUnexpired hNotLast ⊢
      have hWhole := hClose closing.length
      rw [List.take_length] at hWhole
      simp only [List.length_cons, List.length_append,
        List.length_nil] at hNotLast ⊢
      rcases Nat.lt_trichotomy left (closing.length + 1) with
        hShort | rfl | hLong
      · -- It fails before the close is over.
        rw [applyAll_take_close s.world closing _
            (Nat.lt_succ_iff.mp hShort),
          if_neg (by omega)]
        exact (hClose left).1
      · -- It fails between the clock and the fold.
        rw [applyAll_take_clock] at hUnexpired ⊢
        rw [if_neg (by omega)]
        exact
          hWhole.1.clock cfg _ stream
            (hWhole.2 _ hUnexpired)
      · -- It folds the event, and does not fail before the ack.
        have hAll : closing.length + 3 ≤ left + 1 := by omega
        rw [applyAll_take_fold s.world closing _ hAll]
          at hUnexpired ⊢
        rw [if_pos (by omega)]
        have hClock :=
          hWhole.1.clock cfg _ stream
            (hWhole.2 _ hUnexpired)
        exact
          hClock.fold cfg _ stream hId hNew hSource hHis
            hBefore now

/- What has not expired later stays so as time passes. -/
theorem Unexpired.clock
    {w : World 𝕜}
    {later : ℚ}
    (hUnexpired : Unexpired tenantId w later)
    (hLater : (readClock.exec w).now ≤ later) :
    Unexpired tenantId (readClock.exec w) later := by
  rcases readClock_exec w with ⟨hNow, _, hHosts, _⟩
  have hEarlier := hUnexpired.earlier tenantId hNow hLater
  constructor
  · intro windowTs
    rw [hHosts, hUnexpired.hosts, hEarlier.hosts]
  · intro host windowTs
    rw [readClock_windows, hUnexpired.windows,
      hEarlier.windows]

/- An act of the watchdog before it closes a window. -/
def Looks (act : World 𝕜 → World 𝕜) : Prop :=
  act = id ∨ act = readClock.exec

theorem now_le_applyAll
    (w : World 𝕜)
    {acts : List (World 𝕜 → World 𝕜)}
    (hActs : ∀ act ∈ acts, Looks act) :
    w.now ≤ (Program.applyAll w acts).now := by
  induction acts generalizing w with
  | nil => exact le_rfl
  | cons act acts ih =>
      rcases List.forall_mem_cons.mp hActs with
        ⟨hFirst, hRest⟩
      have hNext := ih (act w) hRest
      rcases hFirst with rfl | rfl
      · exact hNext
      · exact (readClock_exec w).1.trans hNext

/- Looks at the clock keep the invariant. -/
theorem Counting.looks
    {w : World 𝕜}
    {acked : Finset ℕ}
    (hCounting : Counting cfg tenantId stream w acked)
    {acts : List (World 𝕜 → World 𝕜)}
    (hActs : ∀ act ∈ acts, Looks act)
    (hUnexpired :
      Unexpired tenantId w (Program.applyAll w acts).now) :
    Counting cfg tenantId stream (Program.applyAll w acts)
      acked := by
  induction acts generalizing w with
  | nil => exact hCounting
  | cons act acts ih =>
      rcases List.forall_mem_cons.mp hActs with
        ⟨hFirst, hRest⟩
      rcases hFirst with rfl | rfl
      · exact ih hCounting hRest hUnexpired
      · have hLater :=
          now_le_applyAll (readClock.exec w) hRest
        have hNow := (readClock_exec w).1
        exact
          ih (hCounting.clock cfg tenantId stream
              (hUnexpired.earlier tenantId hNow hLater))
            hRest (hUnexpired.clock tenantId hLater)

theorem looks_of_mem
    {act : World 𝕜 → World 𝕜}
    (hAct : act ∈ [id, readClock.exec, readClock.exec]) :
    Looks act := by
  simp only [List.mem_cons, List.not_mem_nil, or_false] at hAct
  rcases hAct with rfl | rfl | rfl
  · exact Or.inl rfl
  · exact Or.inr rfl
  · exact Or.inr rfl

/- Closing a window takes no time. -/
theorem now_close
    (w : World 𝕜)
    (windowTs : ℤ)
    (budget : ℕ) :
    (w.after cfg tenantId windowTs
        ((closeScript cfg tenantId windowTs w).take
          budget)).now = w.now := by
  rcases discarded_or_sameWindows cfg tenantId w windowTs
      budget with hDiscarded | hSame
  · exact hDiscarded.now
  · exact hSame.now

/- When the watchdog closes a window, and in which state. -/
theorem closeStart_sweep
    {s : Intake 𝕜}
    {marker : OpenMarker}
    (hOpen :
      s.world.opened.get s.world.now tenantId = some marker)
    (budget : ℕ) :
    closeStart cfg tenantId stream s (.sweep budget) =
      if budget < 3 ∨
          readClock.eval s.world - marker.lastSeen < cfg.graceS
      then none
      else
        some
          (readClock.exec (readClock.exec s.world),
            marker.windowTs) := by
  unfold closeStart
  rw [hOpen]
  rfl

/-
  The watchdog closes in a state that keeps the invariant, as
  what has expired by then had expired before.
-/
theorem Counting.closeStart
    {s : Intake 𝕜}
    (hCounting :
      Counting cfg tenantId stream s.world s.acked)
    {later : ℚ}
    (hUnexpired : Unexpired tenantId s.world later)
    (hLater :
      (readClock.exec (readClock.exec s.world)).now ≤ later) :
    Counting cfg tenantId stream
      (readClock.exec (readClock.exec s.world)) s.acked := by
  have hFirst := (readClock_exec s.world).1
  have hSecond := (readClock_exec (readClock.exec s.world)).1
  have hMid :=
    hUnexpired.clock tenantId (hSecond.trans hLater)
  have hOnce :=
    hCounting.clock cfg tenantId stream
      (hUnexpired.earlier tenantId hFirst
        (hSecond.trans hLater))
  exact
    hOnce.clock cfg tenantId stream
      (hMid.earlier tenantId hSecond hLater)

/- What the watchdog leaves that starts to close a window. -/
theorem attempt_sweepTenant_over
    {w : World 𝕜}
    {marker : OpenMarker}
    (hOpen : w.opened.get w.now tenantId = some marker)
    (hOver :
      ¬ readClock.eval w - marker.lastSeen < cfg.graceS)
    {budget : ℕ}
    (hBudget : 3 ≤ budget) :
    let start := readClock.exec (readClock.exec w)
    ((sweepTenant cfg tenantId).attempt budget w).2 =
      start.after cfg tenantId marker.windowTs
        ((closeScript cfg tenantId marker.windowTs
          start).take (budget - 3)) := by
  intro start
  rcases Nat.exists_eq_add_of_le hBudget with ⟨left, rfl⟩
  rw [Program.attempt_eq_applyAll,
    trace_sweepTenant_over cfg tenantId hOpen hOver]
  have hTake :
      ([id, readClock.exec, readClock.exec] ++
          (closeScript cfg tenantId marker.windowTs start).map
            (CloseAct.apply cfg tenantId
              marker.windowTs)).take (3 + left) =
        [id, readClock.exec, readClock.exec] ++
          ((closeScript cfg tenantId marker.windowTs
            start).take left).map
            (CloseAct.apply cfg tenantId marker.windowTs) := by
    have hLength :
        3 + left =
          ([id, readClock.exec, readClock.exec] :
            List (World 𝕜 → World 𝕜)).length + left := rfl
    rw [List.map_take, hLength, List.take_length_add_append]
  rw [hTake, Nat.add_sub_cancel_left, ← applyAll_map]
  unfold Program.applyAll
  rw [List.foldl_append]
  rfl

/- A sweep that is orderly keeps the invariant. -/
theorem Counting.sweep
    {s : Intake 𝕜}
    (hCounting :
      Counting cfg tenantId stream s.world s.acked)
    {budget : ℕ}
    (hOrderly :
      Orderly cfg tenantId stream s (.sweep budget)) :
    Counting cfg tenantId stream
      ((sweepTenant cfg tenantId).attempt budget s.world).2
      s.acked := by
  rcases hOrderly with ⟨hUnexpired, hSwept⟩
  simp only [Intake.step] at hUnexpired
  unfold Intake.setWorld at hUnexpired
  dsimp only at hUnexpired
  cases hOpen : s.world.opened.get s.world.now tenantId with
  | none =>
      rw [Program.attempt_eq_applyAll,
        trace_sweepTenant_unopened cfg tenantId hOpen]
      have hSame :
          Program.applyAll s.world (List.take budget [id]) =
            s.world := by
        cases budget <;> simp [Program.applyAll]
      rw [hSame]
      exact hCounting
  | some marker =>
      by_cases hEarly :
          readClock.eval s.world - marker.lastSeen < cfg.graceS
      · rw [Program.attempt_eq_applyAll,
          trace_sweepTenant_early cfg tenantId hOpen hEarly]
          at hUnexpired ⊢
        apply hCounting.looks cfg tenantId stream _ hUnexpired
        intro act hAct
        apply looks_of_mem
        exact List.mem_append_left [_] (List.mem_of_mem_take hAct)
      · by_cases hLooks : budget < 3
        · rw [Program.attempt_eq_applyAll,
            trace_sweepTenant_over cfg tenantId hOpen hEarly,
            List.take_append_of_le_length hLooks.le]
            at hUnexpired ⊢
          apply hCounting.looks cfg tenantId stream _ hUnexpired
          intro act hAct
          exact looks_of_mem (List.mem_of_mem_take hAct)
        · have hState :=
            attempt_sweepTenant_over cfg tenantId hOpen hEarly
              (not_lt.mp hLooks)
          dsimp only at hState
          rw [hState] at hUnexpired ⊢
          rw [now_close] at hUnexpired
          have hStart :=
            hCounting.closeStart cfg tenantId stream hUnexpired
              le_rfl
          have hAcked :=
            hSwept _
              ((closeStart_sweep cfg tenantId stream hOpen
                budget).trans
                (if_neg (not_or.mpr ⟨hLooks, hEarly⟩)))
          exact
            hStart.close cfg tenantId stream hAcked (budget - 3)

------------------------------------------------------------
-- Every run
------------------------------------------------------------

/- One step that is orderly keeps the invariant. -/
theorem Counting.step
    {s : Intake 𝕜}
    (hCounting :
      Counting cfg tenantId stream s.world s.acked)
    (hTenant : ∀ event ∈ stream, event.tenantId = tenantId)
    {delivery : Delivery}
    (hOrderly : Orderly cfg tenantId stream s delivery) :
    Counting cfg tenantId stream
      (s.step cfg tenantId stream delivery).world
      (s.step cfg tenantId stream delivery).acked := by
  cases delivery with
  | wait time =>
      exact hCounting.wait cfg tenantId stream hOrderly.1
  | deliver id budget =>
      exact
        hCounting.deliver cfg tenantId stream hTenant hOrderly
  | sweep budget =>
      exact hCounting.sweep cfg tenantId stream hOrderly

/- A close counts every event of its window once. -/
def CountsAtClose
    (s : Intake 𝕜)
    (delivery : Delivery) : Prop :=
  ∀ start,
    closeStart cfg tenantId stream s delivery = some start →
      CountedOnce cfg tenantId stream start.1 start.2

theorem Counting.countsAtClose
    {s : Intake 𝕜}
    (hCounting :
      Counting cfg tenantId stream s.world s.acked)
    {delivery : Delivery}
    (hOrderly : Orderly cfg tenantId stream s delivery) :
    CountsAtClose cfg tenantId stream s delivery := by
  intro start hStart
  cases delivery with
  | wait time => cases hStart
  | deliver id budget =>
      simp only [Features.closeStart] at hStart
      split at hStart
      · cases hStart
      · next hHandled =>
          rw [not_or, not_lt] at hHandled
          rw [Option.bind_eq_some_iff] at hStart
          rcases hStart with ⟨event, hId, hMap⟩
          rw [Option.map_eq_some_iff] at hMap
          rcases hMap with ⟨windowTs, hClosed, rfl⟩
          have hSource : event.srcIp ≠ "" := by
            intro hSourceless
            unfold closedBy at hClosed
            rw [if_pos hSourceless] at hClosed
            cases hClosed
          have hBefore :=
            (hOrderly.2 event hId hHandled.1 hSource
              hHandled.2).1
          exact
            hCounting.countedOnce cfg tenantId stream
              (hBefore.ackedIn cfg stream
                (closedBy_before cfg hClosed))
  | sweep budget =>
      have hAcked := hOrderly.2 start hStart
      have hUnexpired := hOrderly.1
      simp only [Intake.step] at hUnexpired
      unfold Intake.setWorld at hUnexpired
      dsimp only at hUnexpired
      cases hOpen :
          s.world.opened.get s.world.now tenantId with
      | none =>
          unfold Features.closeStart at hStart
          rw [hOpen] at hStart
          cases hStart
      | some marker =>
          rw [closeStart_sweep cfg tenantId stream hOpen]
            at hStart
          split at hStart
          · cases hStart
          · next hOver =>
              cases hStart
              rw [not_or, not_lt] at hOver
              have hState :=
                attempt_sweepTenant_over cfg tenantId hOpen
                  hOver.2 hOver.1
              dsimp only at hState
              rw [hState, now_close] at hUnexpired
              have hAtStart :=
                hCounting.closeStart cfg tenantId stream
                  hUnexpired le_rfl
              exact
                hAtStart.countedOnce cfg tenantId stream hAcked

/-
  In every run of orderly deliveries from the start, every
  window that is closed counts each of its events once.
-/
theorem countedOnce_of_orderly
    (hTenant : ∀ event ∈ stream, event.tenantId = tenantId)
    (now : ℚ)
    (readings : List ℚ)
    (deliveries : List Delivery)
    (hAll :
      AllAlong (Intake.step cfg tenantId stream)
        (Orderly cfg tenantId stream)
        (Intake.start now readings) deliveries) :
    AllAlong (Intake.step cfg tenantId stream)
      (CountsAtClose cfg tenantId stream)
      (Intake.start now readings) deliveries := by
  apply
    AllAlong.imp_of_invariant
      (fun s : Intake 𝕜 =>
        Counting cfg tenantId stream s.world s.acked)
      _ (Counting.start cfg tenantId stream now readings) hAll
  intro s delivery hCounting hOrderly
  exact
    ⟨hCounting.countsAtClose cfg tenantId stream hOrderly,
      hCounting.step cfg tenantId stream hTenant hOrderly⟩

------------------------------------------------------------
-- Two runs
------------------------------------------------------------

section Examples

local instance exactExpLog : ExpLog ℚ := ExpLog.tangent

/- Two packets of one window, then one of the next. -/
def threePackets : List (RawEvent ℚ) :=
  [packetAt 0, packetAt 5, packetAt 65]

/- A delivery at which the clock stands still is orderly. -/
theorem orderly_of_still
    {s : Intake ℚ}
    {id budget : ℕ}
    (event : RawEvent ℚ)
    (hId : threePackets[id]? = some event)
    (hNow :
      (s.step minuteWindows "tenant" threePackets
        (.deliver id budget)).world.now = s.world.now)
    (hBefore :
      AckedBefore minuteWindows threePackets s.acked
        (windowOf minuteWindows event))
    (hLast :
      budget ≠
        ((ingestEvent minuteWindows event).trace
          s.world).length) :
    Orderly minuteWindows "tenant" threePackets s
      (.deliver id budget) := by
  constructor
  · rw [hNow]
    exact Unexpired.refl "tenant" s.world
  · intro event' hId' _ _ _
    rw [hId] at hId'
    cases hId'
    exact ⟨hBefore, hLast⟩

/-
  The second packet's handler fails at once and is delivered
  again; the third packet closes the window.
-/
theorem countedOnce_failedEarly :
    (∀ event ∈ threePackets, event.tenantId = "tenant") ∧
      AllAlong
        (Intake.step minuteWindows "tenant" threePackets)
        (CountsAtClose minuteWindows "tenant" threePackets)
        (Intake.start 0 [])
        [.deliver 0 100, .deliver 1 1, .deliver 1 100,
          .deliver 2 100] := by
  have hTenant :
      ∀ event ∈ threePackets, event.tenantId = "tenant" := by
    decide +kernel
  refine ⟨hTenant, ?_⟩
  apply countedOnce_of_orderly _ _ _ hTenant
  refine ⟨?_, ?_, ?_, ?_, trivial⟩
  · apply orderly_of_still (packetAt 0) rfl
    · decide +kernel
    · unfold AckedBefore
      decide +kernel
    · decide +kernel
  · apply orderly_of_still (packetAt 5) rfl
    · decide +kernel
    · unfold AckedBefore
      decide +kernel
    · decide +kernel
  · apply orderly_of_still (packetAt 5) rfl
    · decide +kernel
    · unfold AckedBefore
      decide +kernel
    · decide +kernel
  · apply orderly_of_still (packetAt 65) rfl
    · decide +kernel
    · unfold AckedBefore
      decide +kernel
    · decide +kernel

/-
  The worker crashes once it has folded the first packet and
  before it acknowledges it; the packet is delivered again.
-/
def foldedTwice : Intake ℚ :=
  (Intake.start 0 []).runDeliveries minuteWindows "tenant"
    threePackets
    [.deliver 0 3, .deliver 0 100, .deliver 1 100]

/- The window is closed with that packet counted twice. -/
theorem not_countedOnce_foldedTwice :
    ¬ AllAlong
      (Intake.step minuteWindows "tenant" threePackets)
      (CountsAtClose minuteWindows "tenant" threePackets)
      (Intake.start 0 [])
      [.deliver 0 3, .deliver 0 100, .deliver 1 100,
        .deliver 2 100] := by
  rintro ⟨_, _, _, hLast, _⟩
  have hStart :
      closeStart minuteWindows "tenant" threePackets
          foldedTwice (.deliver 2 100) =
        some (foldedTwice.world, 0) := by
    have hClosed :
        closedBy minuteWindows foldedTwice.world
          (packetAt 65) = some 0 := by
      decide +kernel
    have hNew : ¬ (2 ∈ foldedTwice.acked ∨ 100 < 1) := by
      decide +kernel
    have hId : threePackets[2]? = some (packetAt 65) := rfl
    simp only [closeStart]
    rw [if_neg hNew, hId, Option.bind_some, hClosed]
    rfl
  have hCounted := (hLast _ hStart).counted "10.0.0.1"
  have hHost :
      "10.0.0.1" ∈
        foldedTwice.world.hostsOf "tenant" 0 := by
    decide +kernel
  have hPackets :
      ((foldedTwice.world.hashOf "tenant" "10.0.0.1" 0).count
          (.scalar .pktCount),
        windowTotal minuteWindows threePackets "10.0.0.1" 0
          (.scalar .pktCount)) = (3, 2) := by
    decide +kernel
  have hEq := hCounted hHost (by decide) (.scalar .pktCount)
  rw [Prod.mk.injEq] at hPackets
  rw [hPackets.1, hPackets.2] at hEq
  norm_num at hEq

end Examples

end Features

end Nidra
