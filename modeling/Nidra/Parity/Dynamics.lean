import Nidra.Features.CloseScript
import Nidra.Training.StateTable

/-
  This file compares the dynamics that are served with those
  of the training table. Both are functions of one series,
  the tracked values of a host with zeros for its silent
  windows; the service carries the last three values of it.

  Key definitions include:
    * `Emission`, `Emission.after`, `Emission.published`
    * `HostRun`, `SameBase`
    * `HistoryKept`
    * `DynamicsAgree`

  Main declarations:
    * `deltaOf_series`, `slopeOf_series`
    * `traced_of_follows`
    * `dynamicsAgree_of_historyKept`
    * `not_dynamicsAgree_expired`
-/

namespace Nidra

namespace Parity

set_option linter.unusedSectionVars false

open Features Training

variable {𝕜 : Type}

------------------------------------------------------------
-- Trimmed histories
------------------------------------------------------------

theorem trimHistory_eq_take
    (history : List (Tracked 𝕜)) :
    trimHistory history =
      (history.reverse.take historyLen).reverse := by
  unfold trimHistory
  rw [List.take_reverse, List.reverse_reverse]

/- What was trimmed away is not missed by a later trim. -/
theorem trimHistory_append
    (history more : List (Tracked 𝕜)) :
    trimHistory (trimHistory history ++ more) =
      trimHistory (history ++ more) := by
  simp only [trimHistory_eq_take, List.reverse_append,
    List.reverse_reverse, List.take_append, List.take_take]
  congr 3
  omega

theorem trimHistory_trimHistory
    (history : List (Tracked 𝕜)) :
    trimHistory (trimHistory history) =
      trimHistory history := by
  have hAppend := trimHistory_append history []
  rwa [List.append_nil, List.append_nil] at hAppend

theorem silentHistory_trimHistory
    [Field 𝕜]
    (windows : List ℤ)
    (history : List (Tracked 𝕜)) :
    silentHistory windows (trimHistory history) =
      trimHistory
        (history ++
          List.replicate windows.length silentTracked) := by
  induction windows generalizing history with
  | nil => simp [silentHistory]
  | cons ts windows ih =>
      have hStep := ih (history ++ [silentTracked])
      rw [List.append_assoc, List.singleton_append,
        ← List.replicate_succ] at hStep
      rw [List.length_cons, ← hStep]
      unfold silentHistory
      rw [List.foldl_cons, trimHistory_append]

------------------------------------------------------------
-- Dynamics of a series
------------------------------------------------------------

/- The first values of a series. -/
def firstValues
    (series : ℕ → Tracked 𝕜)
    (m : ℕ) : List (Tracked 𝕜) :=
  (List.range m).map series

theorem firstValues_succ
    (series : ℕ → Tracked 𝕜)
    (m : ℕ) :
    firstValues series (m + 1) =
      firstValues series m ++ [series m] := by
  simp [firstValues, List.range_succ]

section Series

variable [Field 𝕜] [LinearOrder 𝕜]

theorem deltaOf_trimHistory
    (current : Tracked 𝕜)
    (history : List (Tracked 𝕜))
    (source : DynamicSource) :
    deltaOf current (trimHistory history) source =
      deltaOf current history source := by
  have hLast :
      (trimHistory history).getLast? = history.getLast? := by
    unfold trimHistory
    rw [List.getLast?_drop]
    split
    · next hShort =>
        unfold historyLen at hShort
        have hNone : history = [] :=
          List.length_eq_zero_iff.mp (by omega)
        rw [hNone]
        rfl
    · rfl
  unfold deltaOf
  rw [hLast]

theorem slopeOf_trimHistory
    (current : Tracked 𝕜)
    (history : List (Tracked 𝕜))
    (source : DynamicSource) :
    slopeOf current (trimHistory history) source =
      slopeOf current history source := by
  have hTail :
      (trimHistory history).drop
          ((trimHistory history).length -
            (slopeWindow - 1)) =
        history.drop (history.length - (slopeWindow - 1)) := by
    unfold trimHistory slopeWindow historyLen
    rw [List.drop_drop, List.length_drop]
    congr 1
    omega
  unfold slopeOf
  rw [hTail]

/- A served difference compares with the window before. -/
theorem deltaOf_series
    (value : ℕ → FeatureVector 𝕜)
    (source : DynamicSource)
    (m : ℕ) :
    deltaOf (trackedValues (value m))
        (firstValues (fun i => trackedValues (value i)) m)
        source =
      deltaAt value source m := by
  cases m with
  | zero => rfl
  | succ m =>
      rw [firstValues_succ]
      unfold deltaOf
      rw [List.getLast?_append]
      rfl

/- Both slopes of three values are the same. -/
theorem olsSlope_three
    [IsStrictOrderedRing 𝕜]
    (y₀ y₁ y₂ : 𝕜) :
    olsSlope [y₀, y₁, y₂] = olsSlope3 y₀ y₁ y₂ := by
  have hServed :
      olsSlope [y₀, y₁, y₂] = (y₂ - y₀) / 2 := by
    simp [olsSlope, slopeWindow, Features.safeDiv,
      List.range_succ]
    have hMiddle : ((3 : 𝕜) - 1) / 2 = 1 := by norm_num
    rw [hMiddle]
    norm_num
  have hTrained :
      olsSlope3 y₀ y₁ y₂ = (y₂ - y₀) / 2 := by
    simp [olsSlope3, average]
    have hMiddle : ((1 : 𝕜) + 2) / 3 = 1 := by norm_num
    rw [hMiddle]
    norm_num
  rw [hServed, hTrained]

theorem slopeOf_series
    [IsStrictOrderedRing 𝕜]
    (value : ℕ → FeatureVector 𝕜)
    (source : DynamicSource)
    (m : ℕ) :
    slopeOf (trackedValues (value m))
        (firstValues (fun i => trackedValues (value i)) m)
        source =
      slopeAt value source m := by
  match m with
  | 0 => rfl
  | 1 => rfl
  | m + 2 =>
      have hTail :
          (firstValues
              (fun i => trackedValues (value i))
                (m + 2)).drop
            ((firstValues
              (fun i => trackedValues (value i))
                (m + 2)).length - (slopeWindow - 1)) =
            [trackedValues (value m),
              trackedValues (value (m + 1))] := by
        rw [firstValues_succ, firstValues_succ,
          List.append_assoc]
        apply List.drop_left'
        simp [slopeWindow]
      unfold slopeOf
      rw [hTail]
      exact olsSlope_three _ _ _

end Series

------------------------------------------------------------
-- The run of a host
------------------------------------------------------------

/-
  One emission of a host: the state it starts from, the
  window, and the graphs of it and of the window before.
-/
structure Emission (𝕜 : Type) where
  world : World 𝕜
  windowTs : ℤ
  graph : WindowGraph
  previous : WindowGraph

section Runs

variable [Field 𝕜] [LinearOrder 𝕜] [FloorRing 𝕜]
variable [ExpLog 𝕜]
variable (cfg : FeaturesConfig)
variable (tenantId host : String)

namespace Emission

/- The state that an emission leaves. -/
def after (e : Emission 𝕜) : World 𝕜 :=
  (emitHost cfg tenantId host e.windowTs e.graph
    e.previous).exec e.world

/- What an emission puts on the bus. -/
def published (e : Emission 𝕜) : List (Record 𝕜) :=
  (e.after cfg tenantId host).log.drop e.world.log.length

/-
  The next emission of the host: time has passed, and nothing
  else has written the host's history.
-/
structure Precedes (e e' : Emission 𝕜) : Prop where
  now : e.world.now ≤ e'.world.now
  history :
    ∀ time,
      e'.world.prev.get time (tenantId, host) =
        (e.after cfg tenantId host).prev.get time
          (tenantId, host)

/- The silent windows between two emissions are few. -/
def Near (e e' : Emission 𝕜) : Prop :=
  gapWindows cfg e.windowTs e'.windowTs ≤ cfg.maxGapWindows

/- The history is read before it expires. -/
def Kept (e e' : Emission 𝕜) : Prop :=
  e'.world.now < e.world.now + peersTtlS

end Emission

/-
  The emissions of a host from its first window on: strictly
  increasing windows, no gap of which restarts the sequence.
-/
structure HostRun (𝕜 : Type)
    [Field 𝕜] [LinearOrder 𝕜] [FloorRing 𝕜] [ExpLog 𝕜]
    (cfg : FeaturesConfig)
    (tenantId host : String) where
  emissions : List (Emission 𝕜)
  fresh :
    ∀ e ∈ emissions.head?,
      e.world.prev.get e.world.now (tenantId, host) = none
  follows :
    emissions.IsChain
      (Emission.Precedes cfg tenantId host)
  aligned :
    ∀ e ∈ emissions, cfg.windowDelta ∣ e.windowTs
  increasing :
    emissions.Pairwise (fun e e' => e.windowTs < e'.windowTs)
  gaps : emissions.IsChain (Emission.Near cfg)

variable {cfg tenantId host}

/-
  The table holds the observed windows of the host, with the
  values that were published for them.
-/
structure SameBase
    (run : HostRun 𝕜 cfg tenantId host)
    (table : List (HostWindow × FeatureVector 𝕜)) : Prop where
  observed :
    ∀ row ∈ table, row.1.1 = host →
      ∃ e ∈ run.emissions, e.windowTs = row.1.2
  values :
    ∀ e ∈ run.emissions, ∀ vector,
      .published vector ∈ e.published cfg tenantId host →
      vector.windowTs = e.windowTs →
        ∃ features,
          lookupKey table (host, e.windowTs) =
              some features ∧
            ∀ source : DynamicSource,
              features source.feature =
                vector.features source.feature

/- The history never expires between two emissions. -/
def HistoryKept
    (run : HostRun 𝕜 cfg tenantId host) : Prop :=
  run.emissions.IsChain Emission.Kept

/-
  Every vector of an observed window has the dynamics that
  the filled table has for it.
-/
def DynamicsAgree
    (run : HostRun 𝕜 cfg tenantId host)
    (table : List (HostWindow × FeatureVector 𝕜)) : Prop :=
  ∀ e ∈ run.emissions, ∀ vector,
    .published vector ∈ e.published cfg tenantId host →
    vector.windowTs = e.windowTs →
      ∃ features,
        lookupKey
            (addDynamics
              (fillEmptyWindows cfg.windowDelta table))
            (host, e.windowTs) =
          some features ∧
        (∀ source : DynamicSource,
          features (.delta source) =
            vector.features (.delta source)) ∧
        (∀ source : SlopeSource,
          features (.slope3 source) =
            vector.features (.slope3 source))

------------------------------------------------------------
-- What an emission leaves
------------------------------------------------------------

namespace Emission

variable (cfg tenantId host)

/- The vector of the emission's own window. -/
def vector (e : Emission 𝕜) : StateVector 𝕜 :=
  hostVector cfg tenantId e.windowTs e.graph e.previous host
    (e.world.hostView tenantId host e.windowTs)

/- The values tracked before the emission's own window. -/
def history (e : Emission 𝕜) : List (Tracked 𝕜) :=
  historyBefore cfg e.windowTs
    (e.world.hostView tenantId host e.windowTs).lastTs
    (e.world.hostView tenantId host e.windowTs).history

/- What is done for the host. -/
def script (e : Emission 𝕜) : List (CloseAct 𝕜) :=
  hostScript cfg tenantId e.windowTs e.graph e.previous host
    (e.world.hostView tenantId host e.windowTs)

variable {cfg tenantId host}

theorem after_eq
    (e : Emission 𝕜) :
    e.after cfg tenantId host =
      e.world.after cfg tenantId e.windowTs
        (e.script cfg tenantId host) := by
  unfold after
  rw [Program.exec_eq_applyAll, trace_emitHost, applyAll_map]
  rfl

/- An act that writes the history. -/
def remembers : CloseAct 𝕜 → Bool
  | .remembered _ _ => true
  | .renewedHistory _ => true
  | _ => false

/- Its own window is published with its own vector. -/
theorem mem_published_iff
    (e : Emission 𝕜)
    (vector : StateVector 𝕜) :
    (.published vector ∈ e.published cfg tenantId host ∧
        vector.windowTs = e.windowTs) ↔
      vector = e.vector cfg tenantId host := by
  have hPublished :
      .published vector ∈ e.published cfg tenantId host ↔
        .published vector ∈ e.script cfg tenantId host := by
    unfold published
    rw [after_eq, log_after, List.drop_left,
      ← mem_publishedBy]
    simp
  rw [hPublished]
  constructor
  · rintro ⟨hAct, hWindow⟩
    unfold script hostScript windowScript at hAct
    simp only [List.mem_append, List.mem_cons, reduceCtorEq,
      List.not_mem_nil, or_false, false_or] at hAct
    rcases hAct with hSilent | hPeers | hOwn
    · rcases List.mem_flatMap.mp hSilent with
        ⟨silentTs, hSilentTs, hAct⟩
      -- A silent window is before the emission's own.
      have hBefore : silentTs < e.windowTs := by
        unfold silentBefore at hSilentTs
        split at hSilentTs
        · simp at hSilentTs
        · exact (filledWindows_bounds cfg hSilentTs).2
      rcases mem_publishScript cfg hAct with
        ⟨hEq, _⟩ | hEq
      · cases hEq
      · cases hEq
        exact absurd hWindow hBefore.ne
    · unfold peersScript at hPeers
      split at hPeers
      · simp at hPeers
      · simp at hPeers
    · rcases mem_publishScript cfg hOwn with
        ⟨hEq, _⟩ | hEq
      · cases hEq
      · cases hEq
        rfl
  · rintro rfl
    refine ⟨?_, rfl⟩
    have hOwn :
        .published (e.vector cfg tenantId host) ∈
          publishScript cfg
            (e.vector cfg tenantId host) := by
      unfold publishScript
      split
      · exact List.mem_cons_of_mem _ (List.mem_singleton_self _)
      · exact List.mem_singleton_self _
    unfold script hostScript windowScript
    exact
      List.mem_append_right _
        (List.mem_append_left _
          (List.mem_append_right _ hOwn))

/- What comes before a window is remembered. -/
theorem prev_script
    (cfg : FeaturesConfig)
    (tenantId : String)
    (e : Emission 𝕜)
    {acts : List (CloseAct 𝕜)}
    (hActs : ∀ act ∈ acts, remembers act = false) :
    (e.world.after cfg tenantId e.windowTs acts).prev =
        e.world.prev ∧
      (e.world.after cfg tenantId e.windowTs acts).now =
        e.world.now := by
  generalize e.world = w
  induction acts generalizing w with
  | nil => exact ⟨rfl, rfl⟩
  | cons act acts ih =>
      rcases List.forall_mem_cons.mp hActs with
        ⟨hFirst, hRest⟩
      rcases ih hRest (act.apply cfg tenantId e.windowTs w)
        with ⟨hPrev, hNow⟩
      have hStep :
          (act.apply cfg tenantId e.windowTs w).prev =
              w.prev ∧
            (act.apply cfg tenantId e.windowTs w).now =
              w.now := by
        cases act with
        | remembered _ _ => cases hFirst
        | renewedHistory _ => cases hFirst
        | _ => exact ⟨rfl, rfl⟩
      exact ⟨hPrev.trans hStep.1, hNow.trans hStep.2⟩

/- An emission remembers its window and its vector. -/
theorem prev_after
    (e : Emission 𝕜) :
    (e.after cfg tenantId host).prev =
      e.world.prev.renew e.world.now peersTtlS
        (tenantId, host)
        (recordOf e.windowTs (e.vector cfg tenantId host)
          (e.history cfg tenantId host)) := by
  let view := e.world.hostView tenantId host e.windowTs
  let front : List (CloseAct 𝕜) :=
    [.looked] ++
      silentScript cfg tenantId host
        (silentBefore cfg e.windowTs view.lastTs) ++
      ([.looked] ++ peersScript host view ++
        publishScript cfg (e.vector cfg tenantId host))
  have hScript :
      e.script cfg tenantId host =
        front ++
          [.remembered host
            (recordOf e.windowTs (e.vector cfg tenantId host)
              (e.history cfg tenantId host)),
            .renewedHistory host] := by
    simp only [script, hostScript, windowScript, front,
      List.append_assoc]
    rfl
  have hPublish :
      ∀ vector : StateVector 𝕜,
        ∀ act ∈ publishScript cfg vector,
          remembers act = false := by
    intro vector act hAct
    rcases mem_publishScript cfg hAct with ⟨rfl, _⟩ | rfl
    · rfl
    · rfl
  have hFront : ∀ act ∈ front, remembers act = false := by
    intro act hAct
    simp only [front, List.mem_append, List.mem_singleton]
      at hAct
    rcases hAct with (rfl | hAct) | (rfl | hAct) | hAct
    · rfl
    · rcases List.mem_flatMap.mp hAct with ⟨_, _, hAct⟩
      exact hPublish _ act hAct
    · rfl
    · unfold peersScript at hAct
      split at hAct
      · rw [List.mem_singleton.mp hAct]
        rfl
      · simp only [List.mem_cons, List.not_mem_nil, or_false]
          at hAct
        rcases hAct with rfl | rfl | rfl <;> rfl
    · exact hPublish _ act hAct
  rcases prev_script cfg tenantId e hFront with
    ⟨hPrev, hNow⟩
  rw [after_eq, hScript]
  unfold World.after at hPrev hNow ⊢
  rw [List.foldl_append]
  generalize List.foldl _ e.world front = w₁ at hPrev hNow ⊢
  simp only [List.foldl_cons, List.foldl_nil,
    CloseAct.apply, hPrev, hNow]
  rfl

end Emission

------------------------------------------------------------
-- The history carries the end of the series
------------------------------------------------------------

/- The tracked values of a series of rows. -/
def trackedSeries
    (value : ℕ → FeatureVector 𝕜) : ℕ → Tracked 𝕜 :=
  fun i => trackedValues (value i)

/- Windows without a row add nothing but zeros. -/
theorem firstValues_silent
    {value : ℕ → FeatureVector 𝕜}
    {m count : ℕ}
    (hSilent :
      ∀ j, m ≤ j → j < m + count → value j = fun _ => 0) :
    firstValues (trackedSeries value) (m + count) =
      firstValues (trackedSeries value) m ++
        List.replicate count silentTracked := by
  induction count with
  | zero => simp
  | succ count ih =>
      have hLast : value (m + count) = fun _ => 0 :=
        hSilent _ (by omega) (by omega)
      have hZero :
          trackedSeries value (m + count) =
            silentTracked := by
        unfold trackedSeries
        rw [hLast]
        rfl
      rw [← Nat.add_assoc, firstValues_succ,
        ih (fun j hFrom hTo => hSilent j hFrom (by omega)),
        hZero, List.replicate_succ', List.append_assoc]

section Tracing

variable (cfg : FeaturesConfig)
variable (tenantId host : String)
variable (value : ℕ → FeatureVector 𝕜)
variable (lo : ℤ)

/- The m-th window of the series has this emission. -/
structure At (e : Emission 𝕜) (m : ℕ) : Prop where
  window : e.windowTs = lo + (m : ℤ) * cfg.windowDelta
  values :
    ∀ source : DynamicSource,
      value m source.feature =
        (e.vector cfg tenantId host).features source.feature

/- What was tracked before it is the series before it. -/
def Traced (e : Emission 𝕜) (m : ℕ) : Prop :=
  e.history cfg tenantId host =
    trimHistory (firstValues (trackedSeries value) m)

end Tracing

variable {value : ℕ → FeatureVector 𝕜}
variable {lo : ℤ}

/- A traced emission remembers one value more. -/
theorem recordOf_traced
    {e : Emission 𝕜}
    {m : ℕ}
    (hAt : At cfg tenantId host value lo e m)
    (hTraced : Traced cfg tenantId host value e m) :
    recordOf e.windowTs (e.vector cfg tenantId host)
        (e.history cfg tenantId host) =
      { lastTs := e.windowTs
        history :=
          trimHistory
            (firstValues (trackedSeries value) (m + 1)) } := by
  have hTracked :
      trackedValues (e.vector cfg tenantId host).features =
        trackedSeries value m := by
    funext source
    exact (hAt.values source).symm
  unfold recordOf
  rw [hTraced, hTracked, trimHistory_append,
    trimHistory_trimHistory, ← firstValues_succ]

/- Silent windows in between extend what is remembered. -/
theorem historyBefore_series
    {m m' : ℕ}
    (hLess : m < m')
    (hNear :
      gapWindows cfg (lo + (m : ℤ) * cfg.windowDelta)
          (lo + (m' : ℤ) * cfg.windowDelta) ≤
        cfg.maxGapWindows)
    (hSilent : ∀ j, m < j → j < m' → value j = fun _ => 0) :
    historyBefore cfg (lo + (m' : ℤ) * cfg.windowDelta)
        (some (lo + (m : ℤ) * cfg.windowDelta))
        (trimHistory
          (firstValues (trackedSeries value) (m + 1))) =
      trimHistory
        (firstValues (trackedSeries value) m') := by
  have hGap :
      gapWindows cfg (lo + (m : ℤ) * cfg.windowDelta)
          (lo + (m' : ℤ) * cfg.windowDelta) =
        (m' : ℤ) - m - 1 := by
    have hDiff :
        lo + (m' : ℤ) * cfg.windowDelta -
            (lo + (m : ℤ) * cfg.windowDelta) =
          ((m' : ℤ) - m) * cfg.windowDelta := by
      ring
    unfold gapWindows
    rw [hDiff,
      Int.mul_ediv_cancel _ cfg.windowDelta_pos.ne']
  have hCount : m' = m + 1 + (m' - m - 1) := by omega
  simp only [historyBefore]
  split
  · next hNone =>
      have hNext : m' = m + 1 := by omega
      rw [hNext]
  · rw [if_neg (by omega), silentHistory_trimHistory]
    have hLength :
        (silentWindows cfg (lo + (m : ℤ) * cfg.windowDelta)
          (lo + (m' : ℤ) * cfg.windowDelta)).length =
            m' - m - 1 := by
      unfold silentWindows
      rw [List.length_map, List.length_range, hGap]
      omega
    have hAll :
        firstValues (trackedSeries value)
            (m + 1 + (m' - m - 1)) =
          firstValues (trackedSeries value) (m + 1) ++
            List.replicate (m' - m - 1) silentTracked :=
      firstValues_silent
        (fun j hFrom hTo =>
          hSilent j (by omega) (by omega))
    rw [hLength, ← hAll, ← hCount]

/- From one emission to the next. -/
theorem traced_of_precedes
    {e e' : Emission 𝕜}
    {m m' : ℕ}
    (hAt : At cfg tenantId host value lo e m)
    (hTraced : Traced cfg tenantId host value e m)
    (hAt' : At cfg tenantId host value lo e' m')
    (hPrecedes : e.Precedes cfg tenantId host e')
    (hNear : e.Near cfg e')
    (hKept : e.Kept e')
    (hLess : m < m')
    (hSilent : ∀ j, m < j → j < m' → value j = fun _ => 0) :
    Traced cfg tenantId host value e' m' := by
  have hRead :
      e'.world.prev.get e'.world.now (tenantId, host) =
        some
          { lastTs := e.windowTs
            history :=
              trimHistory
                (firstValues (trackedSeries value)
                  (m + 1)) } := by
    rw [hPrecedes.history, Emission.prev_after,
      TtlStore.get_renew_self, recordOf_traced hAt hTraced]
    exact if_pos hKept
  unfold Traced Emission.history World.hostView
  rw [hRead]
  unfold Emission.Near at hNear
  rw [hAt.window, hAt'.window] at hNear ⊢
  exact historyBefore_series hLess hNear hSilent

/- What is carried along a run is the series. -/
theorem traced_of_follows
    {e : Emission 𝕜}
    {rest : List (Emission 𝕜)}
    {m : ℕ}
    (hTraced : Traced cfg tenantId host value e m)
    (hAt : At cfg tenantId host value lo e m)
    (hRest :
      ∀ x ∈ rest, ∃ k, At cfg tenantId host value lo x k)
    (hFollows :
      (e :: rest).IsChain
        (Emission.Precedes cfg tenantId host))
    (hIncreasing :
      (e :: rest).Pairwise
        (fun x y => x.windowTs < y.windowTs))
    (hGaps : (e :: rest).IsChain (Emission.Near cfg))
    (hKept : (e :: rest).IsChain Emission.Kept)
    (hValue :
      ∀ j, value j ≠ (fun _ => 0) →
        j ≤ m ∨
          ∃ x ∈ rest,
            x.windowTs = lo + (j : ℤ) * cfg.windowDelta) :
    ∀ x ∈ e :: rest, ∃ k,
      At cfg tenantId host value lo x k ∧
        Traced cfg tenantId host value x k := by
  induction rest generalizing e m with
  | nil =>
      intro x hX
      rw [List.mem_singleton.mp hX]
      exact ⟨m, hAt, hTraced⟩
  | cons e' rest ih =>
      rw [List.isChain_cons_cons] at hFollows hGaps hKept
      rcases List.forall_mem_cons.mp hRest with
        ⟨⟨m', hAt'⟩, hLater⟩
      rcases List.pairwise_cons.mp hIncreasing with
        ⟨hFirst, hIncreasing'⟩
      have hPos := cfg.windowDelta_pos
      have hLess : m < m' := by
        have hWindows := hFirst e' List.mem_cons_self
        rw [hAt.window, hAt'.window] at hWindows
        have hMul :
            (m : ℤ) * cfg.windowDelta <
              (m' : ℤ) * cfg.windowDelta := by
          omega
        exact_mod_cast lt_of_mul_lt_mul_right hMul hPos.le
      -- A row after the first emission is not before the next.
      have hNext :
          ∀ x ∈ e' :: rest, ∀ j : ℕ,
            x.windowTs = lo + (j : ℤ) * cfg.windowDelta →
              m' ≤ j := by
        intro x hX j hWindow
        have hOrder : e'.windowTs ≤ x.windowTs := by
          rcases List.mem_cons.mp hX with rfl | hX
          · exact le_refl _
          · exact
              (List.rel_of_pairwise_cons hIncreasing'
                hX).le
        rw [hAt'.window, hWindow] at hOrder
        have hMul :
            (m' : ℤ) * cfg.windowDelta ≤
              (j : ℤ) * cfg.windowDelta := by
          omega
        exact_mod_cast le_of_mul_le_mul_right hMul hPos
      have hSilent :
          ∀ j, m < j → j < m' → value j = fun _ => 0 := by
        intro j hFrom hTo
        by_contra hRow
        rcases hValue j hRow with hBefore | ⟨x, hX, hWindow⟩
        · omega
        · have hAfter := hNext x hX j hWindow
          omega
      have hTraced' :=
        traced_of_precedes hAt hTraced hAt' hFollows.1
          hGaps.1 hKept.1 hLess hSilent
      have hValue' :
          ∀ j, value j ≠ (fun _ => 0) →
            j ≤ m' ∨
              ∃ x ∈ rest,
                x.windowTs =
                  lo + (j : ℤ) * cfg.windowDelta := by
        intro j hRow
        rcases hValue j hRow with hBefore | ⟨x, hX, hWindow⟩
        · left
          omega
        · rcases List.mem_cons.mp hX with rfl | hX
          · left
            rw [hAt'.window] at hWindow
            have hMul :
                (m' : ℤ) * cfg.windowDelta =
                  (j : ℤ) * cfg.windowDelta := by
              omega
            have hEq := mul_right_cancel₀ hPos.ne' hMul
            omega
          · exact Or.inr ⟨x, hX, hWindow⟩
      intro x hX
      rcases List.mem_cons.mp hX with rfl | hX
      · exact ⟨m, hAt, hTraced⟩
      · exact
          ih hTraced' hAt' hLater hFollows.2 hIncreasing'
            hGaps.2 hKept.2 hValue' x hX

------------------------------------------------------------
-- Agreement
------------------------------------------------------------

/- The dynamics of a vector are taken of its own values. -/
theorem vector_delta
    (e : Emission 𝕜)
    (source : DynamicSource) :
    (e.vector cfg tenantId host).features (.delta source) =
      deltaOf
        (trackedValues (e.vector cfg tenantId host).features)
        (e.history cfg tenantId host) source := by
  unfold deltaOf
  cases source <;> rfl

theorem vector_slope3
    (e : Emission 𝕜)
    (source : SlopeSource) :
    (e.vector cfg tenantId host).features (.slope3 source) =
      slopeOf
        (trackedValues (e.vector cfg tenantId host).features)
        (e.history cfg tenantId host) source.source := by
  unfold slopeOf
  cases source <;> rfl

/- A traced vector has the dynamics of the series. -/
theorem vector_dynamics
    [IsStrictOrderedRing 𝕜]
    {e : Emission 𝕜}
    {m : ℕ}
    (hAt : At cfg tenantId host value lo e m)
    (hTraced : Traced cfg tenantId host value e m) :
    (∀ source : DynamicSource,
      withDynamicsAt value m (.delta source) =
        (e.vector cfg tenantId host).features
          (.delta source)) ∧
    (∀ source : SlopeSource,
      withDynamicsAt value m (.slope3 source) =
        (e.vector cfg tenantId host).features
          (.slope3 source)) := by
  have hCurrent :
      trackedValues (e.vector cfg tenantId host).features =
        trackedValues (value m) := by
    funext source
    exact (hAt.values source).symm
  unfold Traced at hTraced
  constructor
  · intro source
    rw [vector_delta, hCurrent, hTraced, deltaOf_trimHistory]
    exact (deltaOf_series value source m).symm
  · intro source
    rw [vector_slope3, hCurrent, hTraced, slopeOf_trimHistory]
    exact (slopeOf_series value source.source m).symm

section Agreement

variable {run : HostRun 𝕜 cfg tenantId host}
variable {table : List (HostWindow × FeatureVector 𝕜)}
variable {first : Emission 𝕜}
variable {rest : List (Emission 𝕜)}

theorem first_le
    (hRun : run.emissions = first :: rest)
    {e : Emission 𝕜}
    (hE : e ∈ run.emissions) :
    first.windowTs ≤ e.windowTs := by
  have hIncreasing := run.increasing
  rw [hRun] at hE hIncreasing
  rcases List.mem_cons.mp hE with rfl | hE
  · exact le_refl _
  · exact (List.rel_of_pairwise_cons hIncreasing hE).le

/- The row of an emission in the table. -/
theorem row_of_sameBase
    (hBase : SameBase run table)
    {e : Emission 𝕜}
    (hE : e ∈ run.emissions) :
    ∃ features,
      lookupKey table (host, e.windowTs) = some features ∧
        ∀ source : DynamicSource,
          features source.feature =
            (e.vector cfg tenantId host).features
              source.feature := by
  have hOwn :=
    (e.mem_published_iff
      (e.vector cfg tenantId host)).mpr rfl
  exact hBase.values e hE _ hOwn.1 hOwn.2

/- Every emission has a place in the series. -/
theorem at_of_sameBase
    (hRun : run.emissions = first :: rest)
    (hBase : SameBase run table)
    {e : Emission 𝕜}
    (hE : e ∈ run.emissions) :
    ∃ k,
      At cfg tenantId host
        (valueFrom table host first.windowTs
          cfg.windowDelta)
        first.windowTs e k := by
  have hFirst : first ∈ run.emissions := by
    rw [hRun]
    exact List.mem_cons_self
  rcases dvd_sub (run.aligned e hE)
    (run.aligned first hFirst) with ⟨c, hC⟩
  have hLe := first_le hRun hE
  have hNonneg : 0 ≤ c := by
    have hMul : 0 ≤ cfg.windowDelta * c := by omega
    exact nonneg_of_mul_nonneg_right hMul cfg.windowDelta_pos
  have hWindow :
      e.windowTs =
        first.windowTs +
          ((c.toNat : ℕ) : ℤ) * cfg.windowDelta := by
    rw [Int.toNat_of_nonneg hNonneg, mul_comm]
    omega
  rcases row_of_sameBase hBase hE with
    ⟨features, hLookup, hValues⟩
  refine ⟨c.toNat, hWindow, ?_⟩
  intro source
  unfold valueFrom
  rw [← hWindow, hLookup]
  exact hValues source

/- The observed windows are those of the emissions. -/
theorem mem_windows_iff
    (hBase : SameBase run table)
    (ts : ℤ) :
    ts ∈ (rowsOf host table).map Prod.fst ↔
      ∃ e ∈ run.emissions, e.windowTs = ts := by
  constructor
  · intro hTs
    rcases List.mem_map.mp hTs with ⟨⟨at', row⟩, hRow, rfl⟩
    exact hBase.observed _ (mem_rowsOf.mp hRow) rfl
  · rintro ⟨e, hE, rfl⟩
    rcases row_of_sameBase hBase hE with ⟨row, hLookup, _⟩
    exact
      List.mem_map.mpr
        ⟨_, mem_rowsOf.mpr (mem_of_lookupKey hLookup), rfl⟩

/- The series starts at the first window. -/
theorem at_first
    (hRun : run.emissions = first :: rest)
    (hBase : SameBase run table) :
    At cfg tenantId host
      (valueFrom table host first.windowTs cfg.windowDelta)
      first.windowTs first 0 := by
  have hFirst : first ∈ run.emissions := by
    rw [hRun]
    exact List.mem_cons_self
  rcases at_of_sameBase hRun hBase hFirst with ⟨k, hAt⟩
  have hZero : (k : ℤ) * cfg.windowDelta = 0 := by
    have hWindow := hAt.window
    omega
  rcases mul_eq_zero.mp hZero with hK | hDelta
  · have hStart : k = 0 := by exact_mod_cast hK
    rw [hStart] at hAt
    exact hAt
  · exact absurd hDelta cfg.windowDelta_pos.ne'

/- Nothing was tracked before the first window. -/
theorem traced_first
    (hRun : run.emissions = first :: rest)
    (value : ℕ → FeatureVector 𝕜) :
    Traced cfg tenantId host value first 0 := by
  have hNone := run.fresh first (by rw [hRun]; rfl)
  unfold Traced Emission.history World.hostView
  rw [hNone]
  rfl

/- A value that is not all zeros has an emission. -/
theorem emission_of_value
    (hRun : run.emissions = first :: rest)
    (hBase : SameBase run table)
    {j : ℕ}
    (hValue :
      valueFrom table host first.windowTs cfg.windowDelta j ≠
        (fun _ => 0)) :
    j ≤ 0 ∨
      ∃ x ∈ rest,
        x.windowTs =
          first.windowTs + (j : ℤ) * cfg.windowDelta := by
  have hSome :
      (lookupKey table
        (host,
          first.windowTs +
            (j : ℤ) * cfg.windowDelta)).isSome := by
    by_contra hNone
    rw [Option.not_isSome_iff_eq_none] at hNone
    apply hValue
    unfold valueFrom
    rw [hNone, Option.getD_none]
  rcases lookupKey_isSome.mp hSome with ⟨row, hRow, hKey⟩
  have hHost : row.1.1 = host := by rw [hKey]
  rcases hBase.observed row hRow hHost with ⟨e, hE, hWindow⟩
  rw [hKey] at hWindow
  rw [hRun] at hE
  rcases List.mem_cons.mp hE with rfl | hE
  · left
    have hZero : (j : ℤ) * cfg.windowDelta = 0 := by omega
    rcases mul_eq_zero.mp hZero with hJ | hDelta
    · omega
    · exact absurd hDelta cfg.windowDelta_pos.ne'
  · exact Or.inr ⟨e, hE, hWindow⟩

/-
  The filled rows run from the first to the last window, with
  the dynamics of the series.
-/
theorem lookupKey_dynamics
    (hRun : run.emissions = first :: rest)
    (hBase : SameBase run table)
    {e : Emission 𝕜}
    (hE : e ∈ run.emissions)
    {m : ℕ}
    (hWindow :
      e.windowTs =
        first.windowTs + (m : ℤ) * cfg.windowDelta) :
    lookupKey
        (addDynamics
          (fillEmptyWindows cfg.windowDelta table))
        (host, e.windowTs) =
      some
        (withDynamicsAt
          (valueFrom table host first.windowTs
            cfg.windowDelta) m) := by
  have hPos := cfg.windowDelta_pos
  have hMem : e.windowTs ∈ (rowsOf host table).map Prod.fst :=
    (mem_windows_iff hBase _).mpr ⟨e, hE, rfl⟩
  have hMin :
      ((rowsOf host table).map Prod.fst).min? =
        some first.windowTs := by
    rw [List.min?_eq_some_iff]
    constructor
    · rw [mem_windows_iff hBase, hRun]
      exact ⟨first, List.mem_cons_self, rfl⟩
    · intro ts hTs
      rcases (mem_windows_iff hBase ts).mp hTs with
        ⟨e', hE', rfl⟩
      exact first_le hRun hE'
  rcases Option.isSome_iff_exists.mp
    (List.isSome_max?_of_ne_nil (List.ne_nil_of_mem hMem))
    with ⟨hi, hMax⟩
  have hLe : e.windowTs ≤ hi :=
    (List.max?_le_iff hMax).mp (le_refl _) _ hMem
  rcases (mem_windows_iff hBase hi).mp
    (List.max?_mem hMax) with ⟨last, hLast, rfl⟩
  rcases at_of_sameBase hRun hBase hLast with ⟨n, hAtLast⟩
  have hBound : m < n + 1 := by
    rw [hWindow, hAtLast.window] at hLe
    have hMul :
        (m : ℤ) * cfg.windowDelta ≤
          (n : ℤ) * cfg.windowDelta := by
      omega
    have hCast := le_of_mul_le_mul_right hMul hPos
    omega
  rw [hAtLast.window] at hMax
  rw [hWindow, ← lookupKey_rowsOf,
    rowsOf_dynamics hPos hMin hMax]
  exact lookupKey_progression _ hPos _ hBound

/-
  The vectors that are published for the observed windows of
  a host have the dynamics of its filled rows.
-/
theorem dynamicsAgree_of_historyKept
    [IsStrictOrderedRing 𝕜]
    (run : HostRun 𝕜 cfg tenantId host)
    (table : List (HostWindow × FeatureVector 𝕜))
    (hBase : SameBase run table)
    (hKept : HistoryKept run) :
    DynamicsAgree run table := by
  intro e hE vector hPublished hWindow
  rw [(e.mem_published_iff vector).mp ⟨hPublished, hWindow⟩]
  cases hRun : run.emissions with
  | nil =>
      rw [hRun] at hE
      simp at hE
  | cons first rest =>
      have hFollows := run.follows
      have hIncreasing := run.increasing
      have hGaps := run.gaps
      unfold HistoryKept at hKept
      rw [hRun] at hFollows hIncreasing hGaps hKept
      have hRest :
          ∀ x ∈ rest, ∃ k,
            At cfg tenantId host
              (valueFrom table host first.windowTs
                cfg.windowDelta)
              first.windowTs x k := by
        intro x hX
        apply at_of_sameBase hRun hBase
        rw [hRun]
        exact List.mem_cons_of_mem _ hX
      rcases
          traced_of_follows (traced_first hRun _)
            (at_first hRun hBase) hRest hFollows hIncreasing
            hGaps hKept
            (fun j hValue =>
              emission_of_value hRun hBase hValue)
            e (hRun ▸ hE) with
        ⟨m, hAt, hTraced⟩
      exact
        ⟨_, lookupKey_dynamics hRun hBase hE hAt.window,
          vector_dynamics hAt hTraced⟩

end Agreement

end Runs

------------------------------------------------------------
-- A run of two windows
------------------------------------------------------------

section Examples

local instance dynamicsExpLog : ExpLog ℚ := ExpLog.tangent

/- A host contacts one peer in its first window. -/
def firstEmission : Emission ℚ :=
  { world := World.start 0 []
    windowTs := 0
    graph := WindowGraph.fromEdges [("host", "peer")]
    previous := .empty }

/- It does so once more two windows later. -/
def secondEmission (closedAt : ℚ) : Emission ℚ :=
  { world :=
      (firstEmission.after minuteWindows "tenant"
        "host").wait closedAt
    windowTs := 120
    graph := WindowGraph.fromEdges [("host", "peer")]
    previous := .empty }

/- The second window is closed at some time. -/
def pausedRun
    (closedAt : ℚ)
    (hClosedAt : 0 ≤ closedAt) :
    HostRun ℚ minuteWindows "tenant" "host" :=
  { emissions := [firstEmission, secondEmission closedAt]
    fresh := by
      intro e hE
      cases hE
      rfl
    follows := by
      rw [List.isChain_cons_cons]
      refine ⟨⟨?_, fun _ => rfl⟩, List.isChain_singleton _⟩
      exact hClosedAt.trans (le_max_right _ _)
    aligned := by
      intro e hE
      simp only [List.mem_cons, List.not_mem_nil, or_false]
        at hE
      rcases hE with rfl | rfl
      · exact ⟨0, rfl⟩
      · exact ⟨2, rfl⟩
    increasing := by
      simp [firstEmission, secondEmission]
    gaps := by
      have hNear : gapWindows minuteWindows 0 120 ≤ 40 := by
        decide
      rw [List.isChain_cons_cons]
      exact ⟨hNear, List.isChain_singleton _⟩ }

/- The table of what was published. -/
def pausedTable
    (closedAt : ℚ) :
    List (HostWindow × FeatureVector ℚ) :=
  [firstEmission, secondEmission closedAt].map (fun e =>
    (("host", e.windowTs),
      (e.vector minuteWindows "tenant" "host").features))

theorem sameBase_paused
    (closedAt : ℚ)
    (hClosedAt : 0 ≤ closedAt) :
    SameBase (pausedRun closedAt hClosedAt)
      (pausedTable closedAt) := by
  constructor
  · intro row hRow _
    rcases List.mem_map.mp hRow with ⟨e, hE, rfl⟩
    exact ⟨e, hE, rfl⟩
  · intro e hE vector hPublished hWindow
    rw [(e.mem_published_iff vector).mp
      ⟨hPublished, hWindow⟩]
    refine
      ⟨(e.vector minuteWindows "tenant" "host").features, ?_,
        fun _ => rfl⟩
    have hCases :
        e = firstEmission ∨ e = secondEmission closedAt := by
      simpa [pausedRun] using hE
    rcases hCases with rfl | rfl
    · rfl
    · rfl

theorem dynamicsAgree_closedSoon :
    DynamicsAgree (pausedRun 90 (by norm_num))
      (pausedTable 90) := by
  apply dynamicsAgree_of_historyKept
  · exact sameBase_paused 90 (by norm_num)
  · unfold HistoryKept
    change
      [firstEmission, secondEmission 90].IsChain Emission.Kept
    rw [List.isChain_cons_cons]
    refine ⟨?_, List.isChain_singleton _⟩
    unfold Emission.Kept
    decide +kernel

/- A day later the host's history is gone. -/
theorem not_dynamicsAgree_expired :
    ¬ ∀ (run : HostRun ℚ minuteWindows "tenant" "host")
        (table : List (HostWindow × FeatureVector ℚ)),
      SameBase run table → DynamicsAgree run table := by
  intro hAll
  have hAgree :=
    hAll _ _ (sameBase_paused 90000 (by norm_num))
  have hOwn :=
    ((secondEmission 90000).mem_published_iff
      ((secondEmission 90000).vector minuteWindows "tenant"
        "host")).mpr rfl
  rcases hAgree (secondEmission 90000)
      (List.mem_cons_of_mem _ (List.mem_singleton_self _))
      _ hOwn.1 hOwn.2 with
    ⟨features, hLookup, hDelta, _⟩
  have hTrained :
      (lookupKey
        (addDynamics
          (fillEmptyWindows 60 (pausedTable 90000)))
        ("host", 120)).map
          (fun f => f (.delta .outDegree)) = some 1 := by
    decide +kernel
  have hServed :
      ((secondEmission 90000).vector minuteWindows "tenant"
        "host").features (.delta .outDegree) = 0 := by
    decide +kernel
  have hEq := hDelta .outDegree
  rw [hServed] at hEq
  have hOne : features (.delta .outDegree) = 1 := by
    have hMap := congrArg
      (Option.map (fun f => f (.delta .outDegree))) hLookup
    have hSome := hTrained.symm.trans hMap
    simpa using hSome.symm
  rw [hEq] at hOne
  norm_num at hOne

end Examples

end Parity

end Nidra
