import Nidra.Features.Worker
import Nidra.Lib.History

/-
  This file states when the features worker publishes every
  window of a host once and in order, and proves that it does
  in every run in which no event comes back for a window that
  was published while no window was open.

  Key definitions include:
    * `publishedWindows`
    * `FreshAfter`, `FoldedFresh`, `OnceOnly`
    * `Reopening`, `Timely`, `AllTimely`
    * `Invariant`

  Main declarations:
    * `closeWindow_invariant`
    * `step_invariant`
    * `onceOnly_of_allTimely`
-/

namespace Nidra

namespace Features

set_option linter.unusedSectionVars false

variable {𝕜 : Type}

------------------------------------------------------------
-- What the log says
------------------------------------------------------------

/- The windows published for one host, in publish order. -/
def publishedWindows
    (log : List (Record 𝕜))
    (tenantId host : String) : List ℤ :=
  log.filterMap fun
  | .published v =>
      if v.tenantId = tenantId ∧ v.hostId = host then
        some v.windowTs
      else none
  | .folded _ _ => none

/-
  An event is folded into a window that was not published
  before.
-/
def FreshAfter
    (before : List (Record 𝕜)) : Record 𝕜 → Prop
  | .published _ => True
  | .folded event windowTs =>
      windowTs ∉
        publishedWindows before event.tenantId event.srcIp

/- No event is folded into a window already published. -/
def FoldedFresh (log : List (Record 𝕜)) : Prop :=
  log.EachAfter FreshAfter

/-
  The windows published for a host strictly increase, and no
  event is folded into one of them afterwards.
-/
structure OnceOnly (log : List (Record 𝕜)) : Prop where
  increasing :
    ∀ tenantId host,
      (publishedWindows log tenantId host).Pairwise (· < ·)
  foldedFresh : FoldedFresh log

theorem publishedWindows_append
    (log more : List (Record 𝕜))
    (tenantId host : String) :
    publishedWindows (log ++ more) tenantId host =
      publishedWindows log tenantId host ++
        publishedWindows more tenantId host :=
  List.filterMap_append

@[simp] theorem publishedWindows_folded
    (event : RawEvent 𝕜)
    (windowTs : ℤ)
    (tenantId host : String) :
    publishedWindows [.folded event windowTs]
      tenantId host = [] := rfl

/- Vectors of one host are published for that host. -/
theorem publishedWindows_map_self
    {vectors : List (StateVector 𝕜)}
    {tenantId host : String}
    (hHost :
      ∀ v ∈ vectors, v.tenantId = tenantId ∧ v.hostId = host) :
    publishedWindows (vectors.map .published)
        tenantId host =
      vectors.map StateVector.windowTs := by
  induction vectors with
  | nil => rfl
  | cons v vectors ih =>
      rcases List.forall_mem_cons.mp hHost with ⟨hv, hRest⟩
      have hTail := ih hRest
      unfold publishedWindows at hTail ⊢
      simp only [List.map_cons, List.filterMap_cons,
        if_pos hv, hTail]

/- Vectors of one host are not published for another. -/
theorem publishedWindows_map_other
    {vectors : List (StateVector 𝕜)}
    {tenantId host tenantId' host' : String}
    (hHost :
      ∀ v ∈ vectors, v.tenantId = tenantId ∧ v.hostId = host)
    (hNe : (tenantId', host') ≠ (tenantId, host)) :
    publishedWindows (vectors.map .published)
      tenantId' host' = [] := by
  unfold publishedWindows
  rw [List.filterMap_eq_nil_iff]
  intro record hRecord
  rcases List.mem_map.mp hRecord with ⟨v, hv, rfl⟩
  rcases hHost v hv with ⟨hTenant, hHostId⟩
  have hOther :
      ¬ (v.tenantId = tenantId' ∧ v.hostId = host') := by
    rintro ⟨rfl, rfl⟩
    exact hNe (by rw [hTenant, hHostId])
  simp [hOther]

/- Publishing folds nothing. -/
theorem foldedFresh_append_published
    {log : List (Record 𝕜)}
    (hLog : FoldedFresh log)
    (vectors : List (StateVector 𝕜)) :
    FoldedFresh (log ++ vectors.map .published) := by
  apply List.eachAfter_append hLog
  intro before record after hEq
  have hMem : record ∈ vectors.map Record.published := by
    rw [hEq]
    simp
  rcases List.mem_map.mp hMem with ⟨v, _, rfl⟩
  trivial

------------------------------------------------------------
-- The branch that goes wrong
------------------------------------------------------------

/- The windows published for a host so far. -/
def World.published
    (w : World 𝕜)
    (tenantId host : String) : List ℤ :=
  publishedWindows w.log tenantId host

/-
  An event that comes now opens a window of its tenant: the
  tenant has no open window, because the watchdog closed it
  or its marker expired, or it has one that was opened so, at
  or before a window already published for the tenant.
-/
def Reopening
    (w : World 𝕜)
    (tenantId : String) : Prop :=
  ∀ marker, w.opened.get w.now tenantId = some marker →
    ∃ host, ∃ windowTs ∈ w.published tenantId host,
      marker.windowTs ≤ windowTs

/-
  An event that is not dropped, and comes while its tenant's
  window is being opened again, is later than every window
  published for its source host.
-/
def Timely
    (cfg : FeaturesConfig)
    (w : World 𝕜) : Call 𝕜 → Prop
  | .wait _ => True
  | .watchdog => True
  | .ingest event =>
      let windowTs := align event.ts cfg.windowDelta
      let current := w.opened.get w.now event.tenantId
      event.srcIp ≠ "" →
        isLate current windowTs = false →
        Reopening w event.tenantId →
        ∀ ts ∈ w.published event.tenantId event.srcIp,
          ts < windowTs

section Runs

variable [Field 𝕜] [LinearOrder 𝕜] [FloorRing 𝕜]
variable [ExpLog 𝕜]
variable (cfg : FeaturesConfig)

/- Every call of a run is timely in the state it meets. -/
def AllTimely
    (w : World 𝕜)
    (calls : List (Call 𝕜)) : Prop :=
  AllAlong (World.step cfg) (Timely cfg) w calls

end Runs

------------------------------------------------------------
-- Invariant
------------------------------------------------------------

/-
  What the log and the histories say: windows are published
  in order, nothing was folded into a published one, and a
  live history remembers the last one.
-/
structure Recorded (w : World 𝕜) : Prop where
  increasing :
    ∀ tenantId host,
      (w.published tenantId host).Pairwise (· < ·)
  foldedFresh : FoldedFresh w.log
  history :
    ∀ tenantId host r,
      w.prev.get w.now (tenantId, host) = some r →
        ∀ ts ∈ w.published tenantId host, ts ≤ r.lastTs

/-
  Only the open window of a tenant has hosts, now and as long
  as they live, and none of these hosts has published it.
-/
structure Invariant (w : World 𝕜) : Prop
    extends Recorded w where
  hostsOpen :
    ∀ later, w.now ≤ later →
      ∀ tenantId windowTs hosts,
        w.hosts.get later (tenantId, windowTs) = some hosts →
          ∃ marker,
            w.opened.get later tenantId = some marker ∧
              marker.windowTs = windowTs
  pending :
    ∀ tenantId windowTs hosts,
      w.hosts.get w.now (tenantId, windowTs) = some hosts →
        ∀ host ∈ hosts, ∀ ts ∈ w.published tenantId host,
          ts < windowTs

theorem start_invariant
    (now : ℚ)
    (readings : List ℚ) :
    Invariant (World.start now readings : World 𝕜) := by
  refine
    { increasing := ?_, foldedFresh := ?_, history := ?_
      hostsOpen := ?_, pending := ?_ }
  · intro tenantId host
    exact List.Pairwise.nil
  · exact List.eachAfter_nil
  · intro tenantId host r hGet
    simp [World.start] at hGet
  · intro later _ tenantId windowTs hosts hGet
    simp [World.start] at hGet
  · intro tenantId windowTs hosts hGet
    simp [World.start] at hGet

/- The invariant holds as time passes. -/
theorem Invariant.later
    {w w' : World 𝕜}
    (hInv : Invariant w)
    (hNow : w.now ≤ w'.now)
    (hOpened : w'.opened = w.opened)
    (hHosts : w'.hosts = w.hosts)
    (hPrev : w'.prev = w.prev)
    (hLog : w'.log = w.log) :
    Invariant w' := by
  have hPublished :
      ∀ tenantId host,
        w'.published tenantId host =
          w.published tenantId host := by
    intro tenantId host
    rw [World.published, World.published, hLog]
  refine
    { increasing := ?_, foldedFresh := ?_, history := ?_
      hostsOpen := ?_, pending := ?_ }
  · intro tenantId host
    rw [hPublished]
    exact hInv.increasing tenantId host
  · rw [hLog]
    exact hInv.foldedFresh
  · intro tenantId host r hGet
    rw [hPublished]
    rw [hPrev] at hGet
    exact hInv.history tenantId host r
      (TtlStore.get_of_get_later hNow hGet)
  · intro later hLater tenantId windowTs hosts hGet
    rw [hHosts] at hGet
    rw [hOpened]
    exact hInv.hostsOpen later (le_trans hNow hLater)
      tenantId windowTs hosts hGet
  · intro tenantId windowTs hosts hGet host hHost
    rw [hPublished]
    rw [hHosts] at hGet
    exact hInv.pending tenantId windowTs hosts
      (TtlStore.get_of_get_later hNow hGet) host hHost

------------------------------------------------------------
-- What publishing leaves
------------------------------------------------------------

/-
  Rows of one host were put out for a list of windows, and
  nothing else that the invariant reads was changed.
-/
structure Publishes
    (w w' : World 𝕜)
    (tenantId host : String)
    (windows : List ℤ) : Prop where
  now : w'.now = w.now
  opened : w'.opened = w.opened
  hosts : w'.hosts = w.hosts
  prev : w'.prev = w.prev
  log :
    ∃ vectors : List (StateVector 𝕜),
      w'.log = w.log ++ vectors.map .published ∧
        (∀ v ∈ vectors,
          v.tenantId = tenantId ∧ v.hostId = host) ∧
        vectors.map StateVector.windowTs = windows

namespace Publishes

variable {w w₁ w₂ : World 𝕜}
variable {tenantId host : String}

theorem refl : Publishes w w tenantId host [] :=
  { now := rfl
    opened := rfl
    hosts := rfl
    prev := rfl
    log := ⟨[], by simp⟩ }

theorem trans
    {first second : List ℤ}
    (hFirst : Publishes w w₁ tenantId host first)
    (hSecond : Publishes w₁ w₂ tenantId host second) :
    Publishes w w₂ tenantId host (first ++ second) := by
  rcases hFirst.log with ⟨vs₁, hLog₁, hHost₁, hWindows₁⟩
  rcases hSecond.log with ⟨vs₂, hLog₂, hHost₂, hWindows₂⟩
  refine
    { now := hSecond.now.trans hFirst.now
      opened := hSecond.opened.trans hFirst.opened
      hosts := hSecond.hosts.trans hFirst.hosts
      prev := hSecond.prev.trans hFirst.prev
      log := ⟨vs₁ ++ vs₂, ?_, ?_, ?_⟩ }
  · rw [hLog₂, hLog₁, List.map_append, List.append_assoc]
  · intro v hv
    rcases List.mem_append.mp hv with hv | hv
    · exact hHost₁ v hv
    · exact hHost₂ v hv
  · rw [List.map_append, hWindows₁, hWindows₂]

theorem published_self
    {windows : List ℤ}
    (h : Publishes w w₁ tenantId host windows) :
    w₁.published tenantId host =
      w.published tenantId host ++ windows := by
  rcases h.log with ⟨vectors, hLog, hHost, hWindows⟩
  rw [World.published, hLog, publishedWindows_append,
    publishedWindows_map_self hHost, hWindows]
  rfl

theorem published_other
    {windows : List ℤ}
    (h : Publishes w w₁ tenantId host windows)
    {tenantId' host' : String}
    (hNe : (tenantId', host') ≠ (tenantId, host)) :
    w₁.published tenantId' host' =
      w.published tenantId' host' := by
  rcases h.log with ⟨vectors, hLog, hHost, hWindows⟩
  rw [World.published, hLog, publishedWindows_append,
    publishedWindows_map_other hHost hNe, List.append_nil]
  rfl

end Publishes

section Steps

variable [Field 𝕜] [LinearOrder 𝕜] [FloorRing 𝕜]
variable [ExpLog 𝕜]
variable (cfg : FeaturesConfig)

/- Publishing a row puts out its window. -/
theorem publish_publishes
    (w : World 𝕜)
    (tenantId host : String)
    (windowTs : ℤ)
    (features : FeatureVector 𝕜) :
    Publishes w
      ((publish cfg tenantId host windowTs features).exec w)
      tenantId host [windowTs] := by
  cases hStore : cfg.storeWired with
  | true =>
      simp only [publish, hStore, if_true,
        Program.exec_bind, Program.exec_write,
        Program.exec_pure]
      exact
        { now := rfl
          opened := rfl
          hosts := rfl
          prev := rfl
          log := ⟨[_], rfl, by simp, rfl⟩ }
  | false =>
      simp only [publish, hStore]
      exact
        { now := rfl
          opened := rfl
          hosts := rfl
          prev := rfl
          log := ⟨[_], rfl, by simp, rfl⟩ }

/- Silent rows are put out for their windows, in order. -/
theorem publishSilent_publishes
    (tenantId host : String)
    (windows : List ℤ)
    (history : List (Tracked 𝕜))
    (w : World 𝕜) :
    Publishes w
      ((publishSilent cfg tenantId host windows
        history).exec w)
      tenantId host windows := by
  induction windows generalizing history w with
  | nil => exact Publishes.refl
  | cons silentTs rest ih =>
      simp only [publishSilent, Program.exec_bind,
        Program.exec_pure]
      have hFirst :=
        publish_publishes cfg w tenantId host silentTs
          (zeroFeatures : FeatureVector 𝕜)
      exact hFirst.trans (ih _ _)

/- The windows a gap is filled with, none when it is long. -/
def filledWindows (lastTs windowTs : ℤ) : List ℤ :=
  if gapWindows cfg lastTs windowTs ≤ 0 then []
  else if
    cfg.maxGapWindows < gapWindows cfg lastTs windowTs
  then []
  else silentWindows cfg lastTs windowTs

theorem fillGap_publishes
    (tenantId host : String)
    (lastTs windowTs : ℤ)
    (history : List (Tracked 𝕜))
    (w : World 𝕜) :
    Publishes w
      ((fillGap cfg tenantId host lastTs windowTs
        history).exec w)
      tenantId host (filledWindows cfg lastTs windowTs) := by
  unfold fillGap filledWindows
  by_cases hNone : gapWindows cfg lastTs windowTs ≤ 0
  · simp only [hNone, if_true]
    exact Publishes.refl
  · by_cases hLong :
        cfg.maxGapWindows < gapWindows cfg lastTs windowTs
    · simp only [hNone, hLong, if_true, if_false]
      exact Publishes.refl
    · simp only [hNone, hLong, if_false]
      exact publishSilent_publishes cfg tenantId host _ _ w

------------------------------------------------------------
-- Silent windows lie between two windows
------------------------------------------------------------

theorem silentWindows_pairwise
    (lastTs windowTs : ℤ) :
    (silentWindows cfg lastTs windowTs).Pairwise
      (· < ·) := by
  unfold silentWindows
  rw [List.pairwise_map]
  refine List.pairwise_lt_range.imp ?_
  intro i j hij
  have hStep : ((i : ℤ) + 1) < (j : ℤ) + 1 := by
    omega
  have hMul :=
    Int.mul_lt_mul_of_pos_right hStep cfg.windowDelta_pos
  omega

theorem silentWindows_bounds
    {lastTs windowTs ts : ℤ}
    (hMem : ts ∈ silentWindows cfg lastTs windowTs) :
    lastTs < ts ∧ ts < windowTs := by
  rcases List.mem_map.mp hMem with ⟨i, hi, rfl⟩
  rw [List.mem_range] at hi
  have hPos := cfg.windowDelta_pos
  have hGap :
      (i : ℤ) + 1 + 1 ≤
        (windowTs - lastTs) / cfg.windowDelta := by
    unfold gapWindows at hi
    omega
  have hBelow :=
    Int.ediv_mul_le (windowTs - lastTs)
      (Int.ne_of_gt hPos)
  have hStep :=
    Int.mul_le_mul_of_nonneg_right hGap (le_of_lt hPos)
  have hFirst : 0 < ((i : ℤ) + 1) * cfg.windowDelta :=
    Int.mul_pos (by omega) hPos
  rw [Int.add_mul, Int.one_mul] at hStep
  omega

theorem filledWindows_pairwise
    (lastTs windowTs : ℤ) :
    (filledWindows cfg lastTs windowTs).Pairwise
      (· < ·) := by
  unfold filledWindows
  split_ifs
  · exact List.Pairwise.nil
  · exact List.Pairwise.nil
  · exact silentWindows_pairwise cfg lastTs windowTs

theorem filledWindows_bounds
    {lastTs windowTs ts : ℤ}
    (hMem : ts ∈ filledWindows cfg lastTs windowTs) :
    lastTs < ts ∧ ts < windowTs := by
  unfold filledWindows at hMem
  split_ifs at hMem
  · simp at hMem
  · simp at hMem
  · exact silentWindows_bounds cfg hMem

------------------------------------------------------------
-- Emitting a host
------------------------------------------------------------

/- The silent windows put out before a window of a host. -/
def windowsBefore
    (w : World 𝕜)
    (tenantId host : String)
    (windowTs : ℤ) : List ℤ :=
  match w.prev.get w.now (tenantId, host) with
  | none => []
  | some r => filledWindows cfg r.lastTs windowTs

theorem recordPeers_publishes
    (tenantId host : String)
    (peers : Finset String)
    (w : World 𝕜) :
    Publishes w
      ((recordPeers tenantId host peers).exec w)
      tenantId host [] := by
  unfold recordPeers
  split_ifs
  · exact ⟨rfl, rfl, rfl, rfl, [], by simp⟩
  · exact ⟨rfl, rfl, rfl, rfl, [], by simp⟩

/- The gap before a window is filled as its history says. -/
theorem fillSince_publishes
    (tenantId host : String)
    (windowTs : ℤ)
    (history : List (Tracked 𝕜))
    (w : World 𝕜) :
    Publishes w
      ((fillSince cfg tenantId host
        ((readHistory tenantId host).eval w).1
        windowTs history).exec w)
      tenantId host
      (windowsBefore cfg w tenantId host windowTs) := by
  simp only [readHistory, Program.eval_read, windowsBefore]
  cases w.prev.get w.now (tenantId, host) with
  | none => exact Publishes.refl
  | some r =>
      exact
        fillGap_publishes cfg tenantId host r.lastTs
          windowTs history w

/- Emitting a window puts it out and remembers it. -/
theorem emitWindow_exec
    (tenantId host : String)
    (windowTs : ℤ)
    (graph previous : WindowGraph)
    (history : List (Tracked 𝕜))
    (w : World 𝕜) :
    ∃ (w₁ : World 𝕜) (r : HostHistory 𝕜),
      Publishes w w₁ tenantId host [windowTs] ∧
      r.lastTs = windowTs ∧
      (emitWindow cfg tenantId host windowTs graph
        previous history).exec w =
          { w₁ with
            prev :=
              w₁.prev.renew w₁.now peersTtlS
                (tenantId, host) r } := by
  simp only [emitWindow, Program.exec_bind,
    Program.exec_pure, readWindow, Program.eval_read,
    Program.exec_read, writeHistory, Program.exec_write]
  have hPeers :=
    recordPeers_publishes tenantId host
      (WindowAccumulator.fromHash
        ((w.windows.get w.now
          (tenantId, host, windowTs)).getD
            .empty)).dstIp.keys.toFinset w
  exact
    ⟨_, _,
      hPeers.trans
        (publish_publishes cfg _ tenantId host windowTs _),
      rfl, rfl⟩

/-
  Emitting a host puts out the silent windows before this one
  and then this one, and remembers it in the history.
-/
theorem emitHost_exec
    (tenantId host : String)
    (windowTs : ℤ)
    (graph previous : WindowGraph)
    (w : World 𝕜) :
    ∃ (w₁ : World 𝕜) (r : HostHistory 𝕜),
      Publishes w w₁ tenantId host
        (windowsBefore cfg w tenantId host windowTs ++
          [windowTs]) ∧
      r.lastTs = windowTs ∧
      (emitHost cfg tenantId host windowTs graph
        previous).exec w =
          { w₁ with
            prev :=
              w₁.prev.renew w₁.now peersTtlS
                (tenantId, host) r } := by
  simp only [emitHost, Program.exec_bind,
    Program.exec_pure]
  have hFill :=
    fillSince_publishes cfg tenantId host windowTs
      ((readHistory tenantId host).eval w).2 w
  rcases
      emitWindow_exec cfg tenantId host windowTs graph
        previous
        ((fillSince cfg tenantId host
          ((readHistory tenantId host).eval w).1 windowTs
          ((readHistory tenantId host).eval w).2).eval w).1
        ((fillSince cfg tenantId host
          ((readHistory tenantId host).eval w).1 windowTs
          ((readHistory tenantId host).eval w).2).exec w) with
    ⟨w₁, r, hWindow, hLast, hExec⟩
  exact ⟨w₁, r, hFill.trans hWindow, hLast, hExec⟩

theorem windowsBefore_pairwise
    (w : World 𝕜)
    (tenantId host : String)
    (windowTs : ℤ) :
    (windowsBefore cfg w tenantId host windowTs).Pairwise
      (· < ·) := by
  unfold windowsBefore
  cases w.prev.get w.now (tenantId, host) with
  | none => exact List.Pairwise.nil
  | some r => exact filledWindows_pairwise cfg _ _

theorem windowsBefore_lt
    {w : World 𝕜}
    {tenantId host : String}
    {windowTs ts : ℤ}
    (hMem : ts ∈ windowsBefore cfg w tenantId host windowTs) :
    ts < windowTs := by
  unfold windowsBefore at hMem
  cases hGet : w.prev.get w.now (tenantId, host) with
  | none => simp [hGet] at hMem
  | some r =>
      rw [hGet] at hMem
      exact (filledWindows_bounds cfg hMem).2

/- A host is emitted for no window after the closed one. -/
theorem le_of_mem_emitted
    {w : World 𝕜}
    {tenantId host : String}
    {windowTs ts : ℤ}
    (hMem :
      ts ∈ windowsBefore cfg w tenantId host windowTs ++
        [windowTs]) :
    ts ≤ windowTs := by
  rcases List.mem_append.mp hMem with hBefore | hLast
  · exact le_of_lt (windowsBefore_lt cfg hBefore)
  · rw [List.mem_singleton] at hLast
    exact le_of_eq hLast

/- Silent windows come after everything published. -/
theorem lt_windowsBefore
    {w : World 𝕜}
    (hRecorded : Recorded w)
    {tenantId host : String}
    {windowTs ts ts' : ℤ}
    (hOld : ts ∈ w.published tenantId host)
    (hMem :
      ts' ∈ windowsBefore cfg w tenantId host windowTs) :
    ts < ts' := by
  unfold windowsBefore at hMem
  cases hGet : w.prev.get w.now (tenantId, host) with
  | none => simp [hGet] at hMem
  | some r =>
      rw [hGet] at hMem
      have hLast :=
        hRecorded.history tenantId host r hGet ts hOld
      have hAfter := (filledWindows_bounds cfg hMem).1
      omega

/- Every window a host has published is before this one. -/
def Unpublished
    (w : World 𝕜)
    (tenantId host : String)
    (windowTs : ℤ) : Prop :=
  ∀ ts ∈ w.published tenantId host, ts < windowTs

/- The windows of a host still increase once it is emitted. -/
theorem pairwise_emitted
    {w : World 𝕜}
    (hRecorded : Recorded w)
    {tenantId host : String}
    {windowTs : ℤ}
    (hNew : Unpublished w tenantId host windowTs) :
    (w.published tenantId host ++
      (windowsBefore cfg w tenantId host windowTs ++
        [windowTs])).Pairwise (· < ·) := by
  rw [List.pairwise_append, List.pairwise_append]
  refine
    ⟨hRecorded.increasing tenantId host,
      ⟨windowsBefore_pairwise cfg w tenantId host windowTs,
        List.pairwise_singleton _ _, ?_⟩, ?_⟩
  · intro ts hTs ts' hTs'
    rw [List.mem_singleton] at hTs'
    rw [hTs']
    exact windowsBefore_lt cfg hTs
  · intro ts hOld ts' hTs'
    rcases List.mem_append.mp hTs' with hBefore | hLast
    · exact lt_windowsBefore cfg hRecorded hOld hBefore
    · rw [List.mem_singleton] at hLast
      rw [hLast]
      exact hNew ts hOld

/-
  Rows of one tenant were put out for windows up to one, and
  the marker and the hosts of the windows are as they were.
-/
structure Emitted
    (w w' : World 𝕜)
    (tenantId : String)
    (windowTs : ℤ) : Prop where
  now : w'.now = w.now
  opened : w'.opened = w.opened
  hosts : w'.hosts = w.hosts
  published :
    ∀ tenantId' host ts,
      ts ∈ w'.published tenantId' host →
        ts ∈ w.published tenantId' host ∨
          tenantId' = tenantId ∧ ts ≤ windowTs

/- Emitting a host keeps the record of what was done. -/
theorem emitHost_recorded
    {w : World 𝕜}
    (hRecorded : Recorded w)
    {tenantId host : String}
    {windowTs : ℤ}
    (hNew : Unpublished w tenantId host windowTs)
    (graph previous : WindowGraph) :
    let w' :=
      (emitHost cfg tenantId host windowTs graph
        previous).exec w
    Recorded w' ∧ Emitted w w' tenantId windowTs ∧
      ∀ tenantId' host',
        (tenantId', host') ≠ (tenantId, host) →
          w'.published tenantId' host' =
            w.published tenantId' host' := by
  rcases
      emitHost_exec cfg tenantId host windowTs graph
        previous w with
    ⟨w₁, r, hPublishes, hLast, hExec⟩
  rw [hExec]
  have hSelf := hPublishes.published_self
  have hOther :
      ∀ tenantId' host',
        (tenantId', host') ≠ (tenantId, host) →
          w₁.published tenantId' host' =
            w.published tenantId' host' :=
    fun _ _ hNe => hPublishes.published_other hNe
  refine
    ⟨{ increasing := ?_, foldedFresh := ?_, history := ?_ },
      { now := hPublishes.now
        opened := hPublishes.opened
        hosts := hPublishes.hosts
        published := ?_ },
      hOther⟩
  · intro tenantId' host'
    change (w₁.published tenantId' host').Pairwise (· < ·)
    by_cases hKey : (tenantId', host') = (tenantId, host)
    · rw [Prod.mk.injEq] at hKey
      rw [hKey.1, hKey.2, hSelf]
      exact pairwise_emitted cfg hRecorded hNew
    · rw [hOther _ _ hKey]
      exact hRecorded.increasing tenantId' host'
  · rcases hPublishes.log with ⟨vectors, hLog, _, _⟩
    change FoldedFresh w₁.log
    rw [hLog]
    exact
      foldedFresh_append_published hRecorded.foldedFresh
        vectors
  · intro tenantId' host' r' hGet ts hTs
    change ts ∈ w₁.published tenantId' host' at hTs
    by_cases hKey : (tenantId', host') = (tenantId, host)
    · rw [hKey] at hGet
      rw [Prod.mk.injEq] at hKey
      rw [hKey.1, hKey.2, hSelf] at hTs
      rw [TtlStore.eq_of_get_renew_self hGet, hLast]
      rcases List.mem_append.mp hTs with hOld | hAdded
      · exact le_of_lt (hNew ts hOld)
      · exact le_of_mem_emitted cfg hAdded
    · rw [hOther _ _ hKey] at hTs
      rw [TtlStore.get_renew_ne _ _ _ _ _ hKey,
        hPublishes.prev] at hGet
      rw [show (w₁.now : ℚ) = w.now from hPublishes.now]
        at hGet
      exact hRecorded.history tenantId' host' r' hGet ts hTs
  · intro tenantId' host' ts hTs
    change ts ∈ w₁.published tenantId' host' at hTs
    by_cases hKey : (tenantId', host') = (tenantId, host)
    · rw [Prod.mk.injEq] at hKey
      rw [hKey.1, hKey.2, hSelf] at hTs
      rcases List.mem_append.mp hTs with hOld | hAdded
      · rw [hKey.1, hKey.2]
        exact Or.inl hOld
      · exact Or.inr ⟨hKey.1, le_of_mem_emitted cfg hAdded⟩
    · rw [hOther _ _ hKey] at hTs
      exact Or.inl hTs

------------------------------------------------------------
-- Closing a window
------------------------------------------------------------

/- Emitting every host keeps the record of what was done. -/
theorem emitHosts_recorded
    {tenantId : String}
    {windowTs : ℤ}
    (graph previous : WindowGraph)
    {hosts : List String}
    (hNodup : hosts.Nodup)
    {w : World 𝕜}
    (hRecorded : Recorded w)
    (hNew :
      ∀ host ∈ hosts, Unpublished w tenantId host windowTs) :
    let w' :=
      (emitHosts cfg tenantId windowTs graph previous
        hosts).exec w
    Recorded w' ∧ Emitted w w' tenantId windowTs := by
  induction hosts generalizing w with
  | nil =>
      exact
        ⟨hRecorded,
          { now := rfl
            opened := rfl
            hosts := rfl
            published := fun _ _ _ hTs => Or.inl hTs }⟩
  | cons host rest ih =>
      rcases List.nodup_cons.mp hNodup with ⟨hHost, hRest⟩
      rcases
          emitHost_recorded cfg hRecorded
            (hNew host List.mem_cons_self) graph previous with
        ⟨hRecorded₁, hEmitted₁, hOther⟩
      have hNew₁ :
          ∀ other ∈ rest,
            Unpublished
              ((emitHost cfg tenantId host windowTs graph
                previous).exec w)
              tenantId other windowTs := by
        intro other hMem ts hTs
        have hNe :
            (tenantId, other) ≠ (tenantId, host) := by
          intro hEq
          rw [Prod.mk.injEq] at hEq
          exact hHost (hEq.2 ▸ hMem)
        rw [hOther tenantId other hNe] at hTs
        exact hNew other (List.mem_cons_of_mem _ hMem) ts hTs
      rcases ih hRest hRecorded₁ hNew₁ with
        ⟨hRecorded₂, hEmitted₂⟩
      simp only [emitHosts, Program.exec_bind,
        Program.exec_pure]
      refine
        ⟨hRecorded₂,
          { now := hEmitted₂.now.trans hEmitted₁.now
            opened :=
              hEmitted₂.opened.trans hEmitted₁.opened
            hosts := hEmitted₂.hosts.trans hEmitted₁.hosts
            published := ?_ }⟩
      intro tenantId' host' ts hTs
      rcases hEmitted₂.published tenantId' host' ts hTs with
        hOld | hAdded
      · exact hEmitted₁.published tenantId' host' ts hOld
      · exact Or.inr hAdded

/- A tenant has no window open but one. -/
def NoOtherOpen
    (w : World 𝕜)
    (tenantId : String)
    (windowTs : ℤ) : Prop :=
  ∀ marker, w.opened.get w.now tenantId = some marker →
    marker.windowTs = windowTs

/- The marker of the window that was closed is dropped. -/
theorem clearOpen_exec
    (w : World 𝕜)
    {tenantId : String}
    {windowTs : ℤ}
    (hOpen : NoOtherOpen w tenantId windowTs) :
    ∃ opened,
      (clearOpen tenantId windowTs).exec w =
          { w with opened := opened } ∧
        (∀ later, w.now ≤ later →
          opened.get later tenantId = none) ∧
        ∀ later tenantId', tenantId' ≠ tenantId →
          opened.get later tenantId' =
            w.opened.get later tenantId' := by
  simp only [clearOpen, readOpen, Program.exec_bind,
    Program.eval_read, Program.exec_read]
  cases hGet : w.opened.get w.now tenantId with
  | none =>
      refine ⟨w.opened, rfl, ?_, fun _ _ _ => rfl⟩
      intro later hLater
      cases hLive : w.opened.get later tenantId with
      | none => rfl
      | some marker =>
          rw [TtlStore.get_of_get_later hLater hLive] at hGet
          contradiction
  | some marker =>
      simp only [hOpen marker hGet, ne_eq,
        not_true_eq_false, if_false, Program.exec_step]
      exact
        ⟨w.opened.delete tenantId, rfl,
          fun _ _ => TtlStore.get_delete_self _ _ _,
          fun _ _ hNe => TtlStore.get_delete_ne _ _ hNe⟩

/-
  Once the hosts of a tenant's open window are dropped, the
  hosts that live are those of other tenants.
-/
theorem other_of_live
    {w : World 𝕜}
    (hInv : Invariant w)
    {tenantId : String}
    {windowTs : ℤ}
    (hOpen : NoOtherOpen w tenantId windowTs)
    {later : ℚ}
    (hLater : w.now ≤ later)
    {tenantId' : String}
    {windowTs' : ℤ}
    {hosts : Finset String}
    (hGet :
      (w.hosts.delete (tenantId, windowTs)).get later
        (tenantId', windowTs') = some hosts) :
    tenantId' ≠ tenantId ∧
      w.hosts.get later (tenantId', windowTs') =
        some hosts := by
  have hKey :
      (tenantId', windowTs') ≠ (tenantId, windowTs) := by
    intro hEq
    rw [hEq, TtlStore.get_delete_self] at hGet
    contradiction
  rw [TtlStore.get_delete_ne _ _ hKey] at hGet
  refine ⟨?_, hGet⟩
  rintro rfl
  rcases
      hInv.hostsOpen later hLater tenantId' windowTs' hosts
        hGet with
    ⟨marker, hMarker, hTs⟩
  have hNow := TtlStore.get_of_get_later hLater hMarker
  exact hKey (by rw [← hTs, hOpen marker hNow])

/- The hosts read for a window have not published it. -/
theorem unpublished_of_mem_hosts
    {w : World 𝕜}
    (hInv : Invariant w)
    {tenantId host : String}
    {windowTs : ℤ}
    (hHost :
      host ∈
        ((w.hosts.get w.now (tenantId, windowTs)).getD
          ∅).sort (· ≤ ·)) :
    Unpublished w tenantId host windowTs := by
  rw [Finset.mem_sort] at hHost
  cases hGet : w.hosts.get w.now (tenantId, windowTs) with
  | none => simp [hGet] at hHost
  | some hosts =>
      rw [hGet, Option.getD_some] at hHost
      exact
        hInv.pending tenantId windowTs hosts hGet host hHost

/-
  Closing a window keeps the invariant when the tenant has no
  other one open. It publishes nothing after that window, and
  leaves the tenant without an open window.
-/
theorem closeWindow_invariant
    {w : World 𝕜}
    (hInv : Invariant w)
    {tenantId : String}
    {windowTs : ℤ}
    (hOpen : NoOtherOpen w tenantId windowTs) :
    let w' := (closeWindow cfg tenantId windowTs).exec w
    Invariant w' ∧
      w'.opened.get w'.now tenantId = none ∧
      ∀ tenantId' host ts,
        ts ∈ w'.published tenantId' host →
          ts ∈ w.published tenantId' host ∨
            tenantId' = tenantId ∧ ts ≤ windowTs := by
  simp only [closeWindow, readHosts, readEdges,
    discardWindow, discardGraph, Program.exec_bind,
    Program.exec_pure, Program.eval_read, Program.exec_read,
    Program.exec_write]
  generalize WindowGraph.fromEdges _ = graph
  generalize WindowGraph.fromEdges _ = previous
  rcases
      emitHosts_recorded cfg graph previous
        (Finset.sort_nodup _ _) hInv.toRecorded
        (fun _ hHost => unpublished_of_mem_hosts hInv hHost) with
    ⟨hRecorded₁, hEmitted₁⟩
  generalize Program.exec (emitHosts _ _ _ _ _ _) w = w₁
    at hRecorded₁ hEmitted₁ ⊢
  have hOpen₁ : NoOtherOpen w₁ tenantId windowTs := by
    intro marker hGet
    rw [hEmitted₁.opened, hEmitted₁.now] at hGet
    exact hOpen marker hGet
  rcases
      clearOpen_exec
        { w₁ with
          windows := _
          hosts := w₁.hosts.delete (tenantId, windowTs)
          graphs := _ } hOpen₁ with
    ⟨opened, hExec, hSelf, hOther⟩
  rw [hExec]
  refine
    ⟨{ increasing := hRecorded₁.increasing
       foldedFresh := hRecorded₁.foldedFresh
       history := hRecorded₁.history
       hostsOpen := ?_
       pending := ?_ },
      hSelf w₁.now le_rfl, hEmitted₁.published⟩
  · intro later hLater tenantId' windowTs' hosts hGet
    have hLater' : w.now ≤ later := by
      rw [← hEmitted₁.now]
      exact hLater
    simp only [hEmitted₁.hosts] at hGet
    rcases other_of_live hInv hOpen hLater' hGet with
      ⟨hTenant, hLive⟩
    rcases
        hInv.hostsOpen later hLater' tenantId' windowTs' hosts
          hLive with
      ⟨marker, hMarker, hTs⟩
    refine ⟨marker, ?_, hTs⟩
    rw [hOther later tenantId' hTenant, hEmitted₁.opened]
    exact hMarker
  · intro tenantId' windowTs' hosts hGet host hHost ts hTs
    simp only [hEmitted₁.hosts, hEmitted₁.now] at hGet
    rcases other_of_live hInv hOpen le_rfl hGet with
      ⟨hTenant, hLive⟩
    rcases hEmitted₁.published tenantId' host ts hTs with
      hOld | hAdded
    · exact
        hInv.pending tenantId' windowTs' hosts hLive host
          hHost ts hOld
    · exact absurd hAdded.1 hTenant

------------------------------------------------------------
-- One call
------------------------------------------------------------

/- Reading the clock lets time pass and nothing else. -/
theorem readClock_exec
    (w : World 𝕜) :
    w.now ≤ (readClock.exec w).now ∧
      (readClock.exec w).opened = w.opened ∧
      (readClock.exec w).hosts = w.hosts ∧
      (readClock.exec w).prev = w.prev ∧
      (readClock.exec w).log = w.log := by
  simp only [readClock, Program.exec_step]
  cases w.readings with
  | nil => exact ⟨le_rfl, rfl, rfl, rfl, rfl⟩
  | cons reading rest =>
      exact ⟨le_max_left _ _, rfl, rfl, rfl, rfl⟩

theorem readClock_invariant
    {w : World 𝕜}
    (hInv : Invariant w) :
    Invariant (readClock.exec w) := by
  rcases readClock_exec w with
    ⟨hNow, hOpened, hHosts, hPrev, hLog⟩
  exact hInv.later hNow hOpened hHosts hPrev hLog

/-
  Folding an event into a window keeps the invariant when no
  other window of the tenant is open, and the window is later
  than every window published for the event's host.
-/
theorem accumulate_invariant
    {w : World 𝕜}
    (hInv : Invariant w)
    {event : RawEvent 𝕜}
    {windowTs : ℤ}
    (hOpen : NoOtherOpen w event.tenantId windowTs)
    (hNew :
      Unpublished w event.tenantId event.srcIp windowTs)
    (now : ℚ) :
    Invariant (w.accumulate event windowTs now) := by
  have hPublished :
      ∀ tenantId host,
        (w.accumulate event windowTs now).published tenantId
            host =
          w.published tenantId host := by
    intro tenantId host
    rw [World.published, World.accumulate,
      publishedWindows_append, publishedWindows_folded,
      List.append_nil]
    rfl
  refine
    { increasing := ?_, foldedFresh := ?_, history := ?_
      hostsOpen := ?_, pending := ?_ }
  · intro tenantId host
    rw [hPublished]
    exact hInv.increasing tenantId host
  · refine List.eachAfter_concat hInv.foldedFresh ?_
    intro hMem
    exact lt_irrefl _ (hNew windowTs hMem)
  · intro tenantId host r hGet
    rw [hPublished]
    exact hInv.history tenantId host r hGet
  · intro later hLater tenantId windowTs' hosts hGet
    change w.now ≤ later at hLater
    simp only [World.accumulate] at hGet ⊢
    by_cases hKey :
        (tenantId, windowTs') = (event.tenantId, windowTs)
    · rw [hKey, TtlStore.get_renew_self] at hGet
      rw [Prod.mk.injEq] at hKey
      rw [hKey.1, TtlStore.get_renew_self]
      by_cases hLive : later < w.now + windowTtlS
      · rw [if_pos hLive]
        exact ⟨_, rfl, hKey.2.symm⟩
      · rw [if_neg hLive] at hGet
        contradiction
    · rw [TtlStore.get_renew_ne _ _ _ _ _ hKey] at hGet
      rcases
          hInv.hostsOpen later hLater tenantId windowTs'
            hosts hGet with
        ⟨marker, hMarker, hTs⟩
      have hTenant : tenantId ≠ event.tenantId := by
        rintro rfl
        have hNow :=
          TtlStore.get_of_get_later hLater hMarker
        rw [← hTs, hOpen marker hNow] at hKey
        exact hKey rfl
      refine ⟨marker, ?_, hTs⟩
      rw [TtlStore.get_renew_ne _ _ _ _ _ hTenant]
      exact hMarker
  · intro tenantId windowTs' hosts hGet host hHost
    rw [hPublished]
    simp only [World.accumulate] at hGet
    by_cases hKey :
        (tenantId, windowTs') = (event.tenantId, windowTs)
    · rw [hKey] at hGet
      have hHosts := TtlStore.eq_of_get_renew_self hGet
      rw [Prod.mk.injEq] at hKey
      rw [hKey.1, hKey.2]
      rw [hHosts, Finset.mem_insert] at hHost
      rcases hHost with rfl | hSeen
      · exact hNew
      · cases hOld :
            w.hosts.get w.now (event.tenantId, windowTs) with
        | none => simp [hOld] at hSeen
        | some seen =>
            rw [hOld, Option.getD_some] at hSeen
            exact
              hInv.pending event.tenantId windowTs seen hOld
                host hSeen
    · rw [TtlStore.get_renew_ne _ _ _ _ _ hKey] at hGet
      exact
        hInv.pending tenantId windowTs' hosts hGet host hHost

/-
  After an event's earlier window is closed, no other window
  of its tenant is open, and what the tenant's hosts have
  published is before the event's window if it was.
-/
theorem closeEarlier_invariant
    {w : World 𝕜}
    (hInv : Invariant w)
    {tenantId : String}
    {windowTs : ℤ}
    (hLate :
      isLate (w.opened.get w.now tenantId) windowTs = false) :
    let w' :=
      (closeEarlier cfg tenantId
        (w.opened.get w.now tenantId) windowTs).exec w
    Invariant w' ∧ NoOtherOpen w' tenantId windowTs ∧
      ∀ host, Unpublished w tenantId host windowTs →
        Unpublished w' tenantId host windowTs := by
  cases hGet : w.opened.get w.now tenantId with
  | none =>
      refine ⟨hInv, ?_, fun _ hNew => hNew⟩
      intro marker hMarker
      rw [show w.opened.get w.now tenantId = some marker
        from hMarker] at hGet
      contradiction
  | some marker =>
      have hOpen : NoOtherOpen w tenantId marker.windowTs := by
        intro marker' hMarker
        rw [hGet, Option.some_inj] at hMarker
        rw [hMarker]
      by_cases hBefore : marker.windowTs < windowTs
      · simp only [closeEarlier, hBefore, if_true]
        rcases closeWindow_invariant cfg hInv hOpen with
          ⟨hInv₁, hNone, hPublished⟩
        refine ⟨hInv₁, ?_, ?_⟩
        · intro marker' hMarker
          rw [hNone] at hMarker
          contradiction
        · intro host hNew ts hTs
          rcases hPublished tenantId host ts hTs with
            hOld | hAdded
          · exact hNew ts hOld
          · exact lt_of_le_of_lt hAdded.2 hBefore
      · simp only [closeEarlier, hBefore, if_false,
          Program.exec_pure]
        rw [hGet] at hLate
        simp only [isLate, decide_eq_false_iff_not] at hLate
        have hSame : marker.windowTs = windowTs := by
          omega
        rw [hSame] at hOpen
        exact ⟨hInv, hOpen, fun _ hNew => hNew⟩

/-
  A timely event that is not dropped is later than every
  window published for its host: either the tenant's window
  is being opened again, or everything published is before
  the open window.
-/
theorem unpublished_of_timely
    {w : World 𝕜}
    {event : RawEvent 𝕜}
    (hTimely : Timely cfg w (.ingest event))
    (hSrc : event.srcIp ≠ "")
    (hLate :
      isLate (w.opened.get w.now event.tenantId)
        (align event.ts cfg.windowDelta) = false) :
    Unpublished w event.tenantId event.srcIp
      (align event.ts cfg.windowDelta) := by
  by_cases hReopening : Reopening w event.tenantId
  · exact hTimely hSrc hLate hReopening
  · unfold Reopening at hReopening
    push Not at hReopening
    rcases hReopening with ⟨marker, hMarker, hAfter⟩
    rw [hMarker] at hLate
    simp only [isLate, decide_eq_false_iff_not] at hLate
    intro ts hTs
    have hBefore := hAfter event.srcIp ts hTs
    omega

theorem ingestEvent_invariant
    {w : World 𝕜}
    (hInv : Invariant w)
    {event : RawEvent 𝕜}
    (hTimely : Timely cfg w (.ingest event)) :
    Invariant ((ingestEvent cfg event).exec w) := by
  by_cases hSrc : event.srcIp = ""
  · simp only [ingestEvent, hSrc, if_true,
      Program.exec_pure]
    exact hInv
  · simp only [ingestEvent, hSrc, if_false, readOpen,
      Program.exec_bind, Program.eval_read,
      Program.exec_read]
    by_cases hLate :
        isLate (w.opened.get w.now event.tenantId)
          (align event.ts cfg.windowDelta) = true
    · rw [ingestAt, if_pos hLate]
      exact hInv
    · rw [ingestAt, if_neg hLate]
      rw [Bool.not_eq_true] at hLate
      simp only [Program.exec_bind, Program.exec_pure,
        accumulate, Program.exec_write]
      have hNew :=
        unpublished_of_timely cfg hTimely hSrc hLate
      rcases closeEarlier_invariant cfg hInv hLate with
        ⟨hInv₁, hOpen₁, hNew₁⟩
      generalize Program.exec (closeEarlier _ _ _ _) w = w₁
        at hInv₁ hOpen₁ hNew₁ ⊢
      rcases readClock_exec w₁ with
        ⟨hNow, hOpened, _, _, hLog⟩
      apply accumulate_invariant
        (readClock_invariant hInv₁)
      · intro marker hMarker
        rw [hOpened] at hMarker
        exact
          hOpen₁ marker
            (TtlStore.get_of_get_later hNow hMarker)
      · intro ts hTs
        rw [World.published, hLog] at hTs
        exact hNew₁ event.srcIp hNew ts hTs

theorem sweepTenant_invariant
    {w : World 𝕜}
    (hInv : Invariant w)
    (tenantId : String) :
    Invariant ((sweepTenant cfg tenantId).exec w) := by
  simp only [sweepTenant, readOpen, Program.exec_bind,
    Program.eval_read, Program.exec_read]
  cases hGet : w.opened.get w.now tenantId with
  | none => exact hInv
  | some marker =>
      simp only [Program.exec_bind]
      have hInv₁ := readClock_invariant hInv
      split_ifs
      · exact hInv₁
      · simp only [Program.exec_bind]
        have hInv₂ := readClock_invariant hInv₁
        rcases readClock_exec w with ⟨hNow₁, hOpened₁, _⟩
        rcases readClock_exec (readClock.exec w) with
          ⟨hNow₂, hOpened₂, _⟩
        refine (closeWindow_invariant cfg hInv₂ ?_).1
        -- The marker may have expired since it was read.
        intro marker' hMarker
        rw [hOpened₂, hOpened₁] at hMarker
        have hNow :=
          TtlStore.get_of_get_later
            (le_trans hNow₁ hNow₂) hMarker
        rw [hGet, Option.some_inj] at hNow
        rw [hNow]

theorem watchdogTick_invariant
    {w : World 𝕜}
    (hInv : Invariant w) :
    Invariant ((watchdogTick cfg).exec w) := by
  simp only [watchdogTick, openTenants, Program.exec_bind,
    Program.eval_read, Program.exec_read]
  generalize List.mergeSort _ _ = tenants
  induction tenants generalizing w with
  | nil => exact hInv
  | cons tenantId rest ih =>
      simp only [sweepTenants, Program.exec_bind,
        Program.exec_pure]
      exact ih (sweepTenant_invariant cfg hInv tenantId)

------------------------------------------------------------
-- Whole runs
------------------------------------------------------------

/- A timely call keeps the invariant. -/
theorem step_invariant
    {w : World 𝕜}
    (hInv : Invariant w)
    {call : Call 𝕜}
    (hTimely : Timely cfg w call) :
    Invariant (w.step cfg call) := by
  cases call with
  | wait time =>
      exact
        hInv.later (le_max_left _ _) rfl rfl rfl rfl
  | ingest event =>
      exact ingestEvent_invariant cfg hInv hTimely
  | watchdog => exact watchdogTick_invariant cfg hInv

/-
  In every run of timely calls, whatever the events, their
  order and the clock, every window of a host is published
  once and in order, and is not folded into afterwards.
-/
theorem onceOnly_of_allTimely
    (now : ℚ)
    (readings : List ℚ)
    (calls : List (Call 𝕜))
    (hTimely :
      AllTimely cfg (World.start now readings) calls) :
    OnceOnly
      ((World.start now readings).runCalls cfg calls).log := by
  have hInv :
      Invariant
        ((World.start now readings).runCalls cfg calls) :=
    AllAlong.invariant Invariant
      (fun _ _ hInv hCall => step_invariant cfg hInv hCall)
      (start_invariant now readings) hTimely
  exact
    { increasing := hInv.increasing
      foldedFresh := hInv.foldedFresh }

end Steps

------------------------------------------------------------
-- Two runs
------------------------------------------------------------

section Examples

local instance : ExpLog ℚ := ExpLog.tangent

/- One-minute windows replayed at sixty times their speed. -/
def minuteWindows : FeaturesConfig :=
  { windowDelta := 60
    windowDelta_pos := by decide
    defaultSpeed := 60 }

/- One packet of a host, sent at a time. -/
def packetAt (ts : ℚ) : RawEvent ℚ :=
  { tenantId := "tenant"
    jobId := "job"
    ts := ts
    srcIp := "10.0.0.1"
    dstIp := "10.0.0.2"
    measurements :=
      .packet (fun f =>
        if f = .frameLen then some 60 else none)
    nonempty := ⟨.frameLen, by decide⟩ }

/-
  Two consecutive windows, the watchdog, and one later event
  once the stream goes on.
-/
def resumedRun : List (Call ℚ) :=
  [.ingest (packetAt 0), .ingest (packetAt 65), .wait 10,
    .watchdog, .ingest (packetAt 120)]

theorem onceOnly_resumedRun :
    OnceOnly
      ((World.start 0 []).runCalls minuteWindows
        resumedRun).log := by
  apply onceOnly_of_allTimely
  refine ⟨?_, ?_, trivial, trivial, ?_, trivial⟩
  · intro _ _ _ ts hTs
    simp [World.published, World.start, publishedWindows]
      at hTs
  · intro _ _ _ ts hTs
    have hNone :
        ((World.start 0 []).runCalls minuteWindows
          [.ingest (packetAt 0)]).published "tenant"
            "10.0.0.1" = [] := by
      decide +kernel
    have hMem : ts ∈ ([] : List ℤ) := hNone ▸ hTs
    simp at hMem
  · intro _ _ _ ts hTs
    have hTwo :
        ((World.start 0 []).runCalls minuteWindows
          [.ingest (packetAt 0), .ingest (packetAt 65),
            .wait 10, .watchdog]).published "tenant"
              "10.0.0.1" = [0, 60] := by
      decide +kernel
    have hMem : ts ∈ ([0, 60] : List ℤ) := hTwo ▸ hTs
    have hAlign : align (120 : ℚ) 60 = 120 := by
      decide +kernel
    change ts < align (120 : ℚ) 60
    rw [hAlign]
    simp only [List.mem_cons, List.not_mem_nil, or_false]
      at hMem
    omega

/-
  The watchdog closes a window whose host goes on after it,
  and closes it again.
-/
def reopenedRun : List (Call ℚ) :=
  [.ingest (packetAt 0), .wait 10, .watchdog,
    .ingest (packetAt 5), .wait 20, .watchdog]

/- The window is published twice. -/
theorem not_onceOnly_reopenedRun :
    ¬ OnceOnly
      ((World.start 0 []).runCalls minuteWindows
        reopenedRun).log := by
  intro hOnce
  have hTwice :
      publishedWindows
        ((World.start 0 []).runCalls minuteWindows
          reopenedRun).log "tenant" "10.0.0.1" =
            [0, 0] := by
    decide +kernel
  have hIncreasing := hOnce.increasing "tenant" "10.0.0.1"
  rw [hTwice] at hIncreasing
  simp at hIncreasing

end Examples

end Features

end Nidra
