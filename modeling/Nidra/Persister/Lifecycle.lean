import Nidra.Lib.Trailing
import Nidra.Persister.Episodes

/-
  This file folds a list of forecasts into the state of a
  host, and proves that at every time the open episode is
  what its forecasts make it.

  Key definitions include:
    * `Step`, `Run`, `Run.take`, `runForecasts`
    * `since`
    * `Aggregate`, `StepRight`
    * `Folded`, `Lifecycle`

  Main declarations:
    * `Aggregate.opened`, `Aggregate.updated`
    * `Folded.take`
    * `lifecycle_runForecasts`
-/

namespace Nidra

namespace Persister

set_option linter.unusedSectionVars false

variable {𝕜 : Type}
variable [LinearOrder 𝕜]

------------------------------------------------------------
-- The fold
------------------------------------------------------------

/- A forecast that was processed: from where, and to where. -/
structure Step (𝕜 : Type) where
  before : HostEpisodeState 𝕜
  forecast : ForecastSummary 𝕜
  transition : Transition 𝕜

/- The state, and every forecast that was processed. -/
structure Run (𝕜 : Type) where
  state : HostEpisodeState 𝕜 := {}
  steps : List (Step 𝕜) := []

variable (rules : EpisodeRules 𝕜)
variable (freshId : ℕ → ℕ)

/- Take one forecast; `none` leaves the state as it is. -/
def Run.take
    (run : Run 𝕜)
    (forecast : ForecastSummary 𝕜) : Run 𝕜 :=
  match advance run.state forecast rules
      (freshId run.steps.length) with
  | none => run
  | some transition =>
      { state := transition.state
        steps :=
          run.steps ++
            [{ before := run.state
               forecast := forecast
               transition := transition }] }

def runForecasts
    (forecasts : List (ForecastSummary 𝕜)) : Run 𝕜 :=
  forecasts.foldl (Run.take rules freshId) {}

------------------------------------------------------------
-- What an episode is made of
------------------------------------------------------------

/- The forecasts that were processed from a time on. -/
def since
    (startedAt : ℚ)
    (steps : List (Step 𝕜)) : List (ForecastSummary 𝕜) :=
  (steps.map Step.forecast).filter
    (fun f => startedAt ≤ f.originTs)

def isAbove (f : ForecastSummary 𝕜) : Bool :=
  rules.riskThreshold ≤ f.maxPCompromise

def isBelow (f : ForecastSummary 𝕜) : Bool :=
  f.maxPCompromise < rules.riskThreshold

/- The stages in the order in which they first appeared. -/
def stagesOf
    (forecasts : List (ForecastSummary 𝕜)) : List String :=
  ((forecasts.map ForecastSummary.observedStage).filter
    (fun stage => stage ≠ "")).eraseDups

/- The first forecast to end enough of them above the line. -/
def FirstAlert
    (forecasts : List (ForecastSummary 𝕜)) :
    Option ℚ → Prop
  | none =>
      forecasts.NoneEnds (isAbove rules) rules.leadTimeM.toNat
  | some alertAt =>
      ∃ f,
        forecasts.FirstEnds (isAbove rules)
            rules.leadTimeM.toNat f ∧
          f.originTs = alertAt

/- An episode is what its forecasts make it. -/
structure Aggregate
    (episode : OpenEpisode 𝕜)
    (forecasts : List (ForecastSummary 𝕜)) : Prop where
  started :
    forecasts.head?.map ForecastSummary.originTs =
      some episode.startedAt
  above :
    episode.above = forecasts.trailing (isAbove rules)
  below :
    episode.below = forecasts.trailing (isBelow rules)
  oneOfBoth :
    (0 < episode.above ∧ episode.below = 0) ∨
      (episode.above = 0 ∧ 0 < episode.below)
  peak :
    (forecasts.map ForecastSummary.maxPCompromise).max? =
      some episode.peakRisk
  peak_ge : rules.riskThreshold ≤ episode.peakRisk
  stages : episode.stages = stagesOf forecasts
  firstAlert : FirstAlert rules forecasts episode.firstAlertAt

------------------------------------------------------------
-- What holds of a run
------------------------------------------------------------

/-
  What a processed forecast does: it closes an open episode
  at exactly enough forecasts below the line, opens one at a
  forecast that is not, puts out what its forecasts make of
  the episode, and keeps an alert.
-/
structure StepRight
    (earlier : List (Step 𝕜))
    (step : Step 𝕜) : Prop where
  closes :
    step.transition.closed = true ↔
      ∃ episode, step.before.episode = some episode ∧
        ((since episode.startedAt (earlier ++ [step])).trailing
          (isBelow rules) : ℤ) = rules.closeAfter
  opens :
    step.transition.opened = true ↔
      step.before.episode = none ∧
        isAbove rules step.forecast = true
  aggregate :
    ∀ episode, step.transition.episode = some episode →
      Aggregate rules episode
        (since episode.startedAt (earlier ++ [step]))
  alertKept :
    ∀ episode alertAt,
      step.before.episode = some episode →
        episode.firstAlertAt = some alertAt →
          step.transition.episode.bind
              OpenEpisode.firstAlertAt =
            some alertAt

/- Which steps opened and closed: `true` for an opening. -/
def openings (steps : List (Step 𝕜)) : List Bool :=
  steps.flatMap (fun step =>
    (if step.transition.opened then [true] else []) ++
      (if step.transition.closed then [false] else []))

/-
  What holds of a run: the times of what was processed
  increase, an open episode is what its forecasts make it,
  every step was right, and openings and closings take turns,
  with an opening first.
-/
structure Folded (run : Run 𝕜) : Prop where
  increasing :
    (run.steps.map
      (fun step => step.forecast.originTs)).Pairwise (· < ·)
  lastTs :
    run.state.lastTs =
      run.steps.getLast?.map
        (fun step => step.forecast.originTs)
  aggregate :
    ∀ episode, run.state.episode = some episode →
      Aggregate rules episode
          (since episode.startedAt run.steps) ∧
        episode.below < rules.closeAfter
  steps : run.steps.EachAfter (StepRight rules)
  alternate :
    (false :: openings run.steps).IsChain (· ≠ ·)
  isOpen :
    run.state.episode.isSome =
      (openings run.steps).getLastD false

/-
  And what comes next changes nothing if it is stale, and is
  processed otherwise.
-/
structure Lifecycle (run : Run 𝕜) : Prop
    extends Folded rules run where
  stale :
    ∀ forecast,
      (∃ step ∈ run.steps,
          forecast.originTs ≤ step.forecast.originTs) →
        run.take rules freshId forecast = run
  processed :
    ∀ forecast,
      (∀ step ∈ run.steps,
          step.forecast.originTs < forecast.originTs) →
        ∃ transition,
          (run.take rules freshId forecast).steps =
            run.steps ++
              [{ before := run.state
                 forecast := forecast
                 transition := transition }]

------------------------------------------------------------
-- The forecasts of an episode
------------------------------------------------------------

variable {rules : EpisodeRules 𝕜}
variable {freshId : ℕ → ℕ}

/- A forecast after the start is one of the episode. -/
theorem since_concat
    {startedAt : ℚ}
    (steps : List (Step 𝕜))
    {step : Step 𝕜}
    (hAfter : startedAt ≤ step.forecast.originTs) :
    since startedAt (steps ++ [step]) =
      since startedAt steps ++ [step.forecast] := by
  unfold since
  simp [hAfter]

/- The forecast that opens an episode is its first. -/
theorem since_opening
    {steps : List (Step 𝕜)}
    {forecast : ForecastSummary 𝕜}
    (hLater :
      ∀ earlier ∈ steps,
        earlier.forecast.originTs < forecast.originTs)
    {step : Step 𝕜}
    (hLast : step.forecast = forecast) :
    since forecast.originTs (steps ++ [step]) = [forecast] := by
  have hNone : since forecast.originTs steps = [] := by
    unfold since
    rw [List.filter_eq_nil_iff]
    intro f hMem
    rcases List.mem_map.mp hMem with ⟨earlier, hEarlier, rfl⟩
    rw [decide_eq_true_eq]
    exact not_le.mpr (hLater earlier hEarlier)
  subst hLast
  rw [since_concat steps le_rfl, hNone, List.nil_append]

/- One more stage, if it has not appeared before. -/
theorem stagesOf_concat
    (forecasts : List (ForecastSummary 𝕜))
    (f : ForecastSummary 𝕜) :
    stagesOf (forecasts ++ [f]) =
      withStage (stagesOf forecasts) f.observedStage := by
  unfold stagesOf withStage
  rw [List.map_append, List.filter_append,
    List.eraseDups_append]
  by_cases hEmpty : f.observedStage = ""
  · simp [hEmpty]
  · by_cases hMem :
        f.observedStage ∈
          (forecasts.map ForecastSummary.observedStage).filter
            (fun stage => stage ≠ "")
    · have hErased := List.mem_eraseDups.mpr hMem
      rw [if_pos (Or.inr hErased)]
      simp_all [List.removeAll]
    · have hErased :=
        fun h => hMem (List.mem_eraseDups.mp h)
      rw [if_neg (not_or_intro hEmpty hErased)]
      simp_all [List.removeAll, List.eraseDups_cons]

/- The maximum of one more. -/
theorem max?_concat
    {l : List 𝕜}
    {a : 𝕜}
    (hMax : l.max? = some a)
    (b : 𝕜) :
    (l ++ [b]).max? = some (max a b) := by
  cases l with
  | nil => cases hMax
  | cons c l =>
      rw [List.max?_cons'] at hMax
      rw [List.cons_append, List.max?_cons', List.foldl_append,
        Option.some.inj hMax]
      rfl

/- Below the line is where above is not. -/
theorem isBelow_eq
    (rules : EpisodeRules 𝕜)
    (f : ForecastSummary 𝕜) :
    isBelow rules f = !isAbove rules f := by
  unfold isBelow isAbove
  rw [← decide_not]
  simp

------------------------------------------------------------
-- The aggregate
------------------------------------------------------------

/- An episode opens with its first forecast. -/
theorem Aggregate.opened
    (hLead : 1 ≤ rules.leadTimeM)
    {f : ForecastSummary 𝕜}
    (hAbove : rules.riskThreshold ≤ f.maxPCompromise)
    (id : ℕ) :
    Aggregate rules (openedBy f rules id) [f] := by
  have hIs : isAbove rules f = true := decide_eq_true hAbove
  have hTrailing :
      [f].trailing (isAbove rules) = 1 := by
    rw [← List.nil_append [f], List.trailing_concat,
      if_pos hIs]
    rfl
  refine
    { started := rfl
      above := ?_
      below := ?_
      oneOfBoth := Or.inl ⟨Int.one_pos, rfl⟩
      peak := rfl
      peak_ge := hAbove
      stages := ?_
      firstAlert := ?_ }
  · rw [hTrailing]
    rfl
  · rw [← List.nil_append [f], List.trailing_concat,
      isBelow_eq, hIs]
    rfl
  · exact (stagesOf_concat [] f).symm
  · have hNone :
        ([] : List (ForecastSummary 𝕜)).NoneEnds
          (isAbove rules) rules.leadTimeM.toNat :=
      List.eachAfter_nil
    unfold openedBy
    dsimp only
    split_ifs with hOne
    · exact
        ⟨f, hNone.firstEnds (by
          rw [List.nil_append, hTrailing]
          omega), rfl⟩
    · apply hNone.concat
      rw [List.nil_append, hTrailing]
      omega

/- The counters go on, each or the other. -/
theorem updatedBy_above
    (episode : OpenEpisode 𝕜)
    (f : ForecastSummary 𝕜)
    (rules : EpisodeRules 𝕜) :
    (updatedBy episode f rules).above =
      if isAbove rules f then episode.above + 1 else 0 := by
  simp [updatedBy, isAbove]

theorem updatedBy_below
    (episode : OpenEpisode 𝕜)
    (f : ForecastSummary 𝕜)
    (rules : EpisodeRules 𝕜) :
    (updatedBy episode f rules).below =
      if isAbove rules f then 0 else episode.below + 1 := by
  simp [updatedBy, isAbove]

/- And every further one keeps it what they make it. -/
theorem Aggregate.updated
    {episode : OpenEpisode 𝕜}
    {forecasts : List (ForecastSummary 𝕜)}
    (hAggregate : Aggregate rules episode forecasts)
    (f : ForecastSummary 𝕜) :
    Aggregate rules (updatedBy episode f rules)
      (forecasts ++ [f]) := by
  have hAboveRun :
      (updatedBy episode f rules).above =
        (forecasts ++ [f]).trailing (isAbove rules) := by
    rw [List.trailing_concat, updatedBy_above,
      hAggregate.above]
    split_ifs
    · push_cast
      rfl
    · rfl
  refine
    { started := ?_
      above := hAboveRun
      below := ?_
      oneOfBoth := ?_
      peak := ?_
      peak_ge := ?_
      stages := ?_
      firstAlert := ?_ }
  · rw [List.head?_append_of_ne_nil]
    · exact hAggregate.started
    · rintro rfl
      cases hAggregate.started
  · rw [List.trailing_concat, updatedBy_below,
      hAggregate.below, isBelow_eq]
    cases isAbove rules f <;> simp
  · rw [updatedBy_above, updatedBy_below, hAggregate.above,
      hAggregate.below]
    split_ifs
    · left
      constructor
      · omega
      · rfl
    · right
      constructor
      · rfl
      · omega
  · rw [List.map_append]
    exact max?_concat hAggregate.peak f.maxPCompromise
  · exact hAggregate.peak_ge.trans (le_max_left _ _)
  · rw [stagesOf_concat, ← hAggregate.stages]
    rfl
  · have hAlert := hAggregate.firstAlert
    unfold updatedBy at hAboveRun ⊢
    dsimp only at hAboveRun ⊢
    rw [hAboveRun]
    cases hBefore : episode.firstAlertAt with
    | some alertAt =>
        rw [hBefore] at hAlert
        rcases hAlert with ⟨g, hFirst, rfl⟩
        exact ⟨g, hFirst.concat f, rfl⟩
    | none =>
        rw [hBefore] at hAlert
        dsimp only
        split_ifs with hEnough
        · exact ⟨f, hAlert.firstEnds (by omega), rfl⟩
        · exact hAlert.concat (by omega)

------------------------------------------------------------
-- One more forecast
------------------------------------------------------------

/- A forecast after all others is not stale. -/
theorem isStale_iff
    {run : Run 𝕜}
    (hIncreasing :
      (run.steps.map
        (fun step => step.forecast.originTs)).Pairwise (· < ·))
    (hLast :
      run.state.lastTs =
        run.steps.getLast?.map
          (fun step => step.forecast.originTs))
    (originTs : ℚ) :
    isStale run.state originTs = true ↔
      ∃ step ∈ run.steps, originTs ≤ step.forecast.originTs
    := by
  unfold isStale
  rw [hLast]
  rcases List.eq_nil_or_concat run.steps with
    hNil | ⟨steps, last, hConcat⟩
  · simp [hNil]
  · rw [List.concat_eq_append] at hConcat
    rw [hConcat] at hIncreasing ⊢
    rw [List.getLast?_concat, Option.map_some,
      decide_eq_true_eq]
    constructor
    · exact fun hLe => ⟨last, by simp, hLe⟩
    · rintro ⟨step, hMem, hLe⟩
      rcases List.mem_append.mp hMem with hOld | hNew
      · rw [List.map_append, List.pairwise_append] at hIncreasing
        have hBefore :=
          hIncreasing.2.2 _ (List.mem_map_of_mem hOld)
            last.forecast.originTs (by simp)
        exact hLe.trans hBefore.le
      · rw [List.mem_singleton.mp hNew] at hLe
        exact hLe

/- Each processed forecast has a transition. -/
theorem exists_advance
    {state : HostEpisodeState 𝕜}
    {forecast : ForecastSummary 𝕜}
    (hFresh : isStale state forecast.originTs = false)
    (rules : EpisodeRules 𝕜)
    (id : ℕ) :
    ∃ transition,
      advance state forecast rules id = some transition ∧
        transition.state.lastTs = some forecast.originTs := by
  cases hOpen : state.episode with
  | none =>
      rcases lt_or_ge forecast.maxPCompromise
        rules.riskThreshold with hBelow | hAbove
      · exact
          ⟨_, advance_of_quiet hFresh hOpen hBelow id, rfl⟩
      · exact
          ⟨_, advance_of_opening hFresh hOpen hAbove id, rfl⟩
  | some episode =>
      exact ⟨_, advance_of_open hFresh hOpen rules id, rfl⟩

theorem take_of_stale
    {run : Run 𝕜}
    {forecast : ForecastSummary 𝕜}
    (hStale : isStale run.state forecast.originTs = true) :
    run.take rules freshId forecast = run := by
  unfold Run.take
  rw [advance_of_stale hStale]

theorem take_of_advance
    {run : Run 𝕜}
    {forecast : ForecastSummary 𝕜}
    {transition : Transition 𝕜}
    (hAdvance :
      advance run.state forecast rules
          (freshId run.steps.length) =
        some transition) :
    run.take rules freshId forecast =
      { state := transition.state
        steps :=
          run.steps ++
            [{ before := run.state
               forecast := forecast
               transition := transition }] } := by
  unfold Run.take
  rw [hAdvance]

/- An open episode has started before what comes next. -/
theorem Aggregate.started_before
    {episode : OpenEpisode 𝕜}
    {steps : List (Step 𝕜)}
    (hAggregate :
      Aggregate rules episode (since episode.startedAt steps))
    {originTs : ℚ}
    (hLater :
      ∀ step ∈ steps, step.forecast.originTs < originTs) :
    episode.startedAt ≤ originTs := by
  have hStarted := hAggregate.started
  rw [Option.map_eq_some_iff] at hStarted
  rcases hStarted with ⟨f, hHead, hSame⟩
  have hMem := List.mem_of_mem_head? hHead
  unfold since at hMem
  rcases List.mem_map.mp (List.mem_of_mem_filter hMem) with
    ⟨step, hStep, rfl⟩
  rw [← hSame]
  exact (hLater step hStep).le

section Closing

variable {episode : OpenEpisode 𝕜}
variable {forecasts : List (ForecastSummary 𝕜)}
variable {f : ForecastSummary 𝕜}

/-
  An episode ends where exactly enough forecasts at the end
  are below the line,
-/
theorem endOf_isSome_iff
    (hClose : 1 ≤ rules.closeAfter)
    (hAggregate : Aggregate rules episode forecasts)
    (hShort : episode.below < rules.closeAfter) :
    (endOf episode f rules).isSome = true ↔
      ((forecasts ++ [f]).trailing (isBelow rules) : ℤ) =
        rules.closeAfter := by
  have hBelow := (hAggregate.updated f).below
  have hSplit : f.maxPCompromise < rules.riskThreshold ↔
      isAbove rules f = false := by
    simp [isAbove]
  have hEnds :
      (endOf episode f rules).isSome = true ↔
        f.maxPCompromise < rules.riskThreshold ∧
          rules.closeAfter ≤
            (updatedBy episode f rules).below := by
    unfold endOf
    split_ifs with hBoth
    · exact iff_of_true rfl hBoth
    · exact iff_of_false (by simp) hBoth
  rw [hEnds, ← hBelow, updatedBy_below, hSplit]
  cases isAbove rules f with
  | true =>
      rw [if_pos rfl]
      constructor
      · exact fun hBoth => absurd hBoth.1 (by simp)
      · intro hZero
        omega
  | false =>
      rw [if_neg Bool.false_ne_true]
      constructor
      · intro hBoth
        omega
      · intro hExact
        exact ⟨rfl, hExact.ge⟩

/- and otherwise there are fewer of them. -/
theorem below_of_open
    (hAggregate : Aggregate rules episode forecasts)
    (hShort : episode.below < rules.closeAfter)
    (hClose : 1 ≤ rules.closeAfter)
    (hOpen : (endOf episode f rules).isSome = false) :
    (updatedBy episode f rules).below < rules.closeAfter := by
  have hNot :=
    (endOf_isSome_iff hClose hAggregate hShort (f := f)).not.mp
      (by simp [hOpen])
  rw [← (hAggregate.updated f).below] at hNot
  rw [updatedBy_below] at hNot ⊢
  split_ifs at hNot ⊢ <;> omega

end Closing

------------------------------------------------------------
-- The whole run
------------------------------------------------------------

theorem openings_concat
    (steps : List (Step 𝕜))
    (step : Step 𝕜) :
    openings (steps ++ [step]) =
      openings steps ++
        ((if step.transition.opened then [true] else []) ++
          (if step.transition.closed then [false] else [])) := by
  unfold openings
  rw [List.flatMap_append, List.flatMap_singleton]

theorem Folded.start : Folded rules ({} : Run 𝕜) := by
  refine
    { increasing := List.Pairwise.nil
      lastTs := rfl
      aggregate := ?_
      steps := List.eachAfter_nil
      alternate := List.isChain_singleton _
      isOpen := rfl }
  intro episode hOpen
  cases hOpen

/- A step that is right, and changes turns if it does any. -/
theorem Folded.extend
    {run : Run 𝕜}
    (hFolded : Folded rules run)
    {forecast : ForecastSummary 𝕜}
    (hLater :
      ∀ step ∈ run.steps,
        step.forecast.originTs < forecast.originTs)
    {transition : Transition 𝕜}
    (hLast : transition.state.lastTs = some forecast.originTs)
    (hRight :
      StepRight rules run.steps
        { before := run.state
          forecast := forecast
          transition := transition })
    (hAggregate :
      ∀ episode, transition.state.episode = some episode →
        transition.episode = some episode ∧
          episode.below < rules.closeAfter)
    (hTurn :
      (transition.opened = false ∧ transition.closed = false ∧
          transition.state.episode.isSome =
            run.state.episode.isSome) ∨
        (transition.opened = !run.state.episode.isSome ∧
          transition.closed = run.state.episode.isSome ∧
            transition.state.episode.isSome =
              !run.state.episode.isSome)) :
    Folded rules
      { state := transition.state
        steps :=
          run.steps ++
            [{ before := run.state
               forecast := forecast
               transition := transition }] } := by
  refine
    { increasing := ?_
      lastTs := ?_
      aggregate := ?_
      steps := List.eachAfter_concat hFolded.steps hRight
      alternate := ?_
      isOpen := ?_ }
  · rw [List.map_append, List.pairwise_append]
    refine
      ⟨hFolded.increasing, List.pairwise_singleton _ _, ?_⟩
    intro earlier hEarlier last hNew
    rcases List.mem_map.mp hEarlier with ⟨step, hStep, rfl⟩
    rw [List.map_singleton, List.mem_singleton] at hNew
    rw [hNew]
    exact hLater step hStep
  · rw [List.getLast?_concat]
    exact hLast
  · intro episode hOpen
    rcases hAggregate episode hOpen with ⟨hOut, hShort⟩
    exact ⟨hRight.aggregate episode hOut, hShort⟩
  · rw [openings_concat]
    have hChain := hFolded.alternate
    have hIsOpen := hFolded.isOpen
    rcases hTurn with ⟨hOpened, hClosed, _⟩ |
      ⟨hOpened, hClosed, _⟩
    · simpa [hOpened, hClosed] using hChain
    · dsimp only
      rw [hOpened, hClosed, hIsOpen, ← List.cons_append,
        List.isChain_append]
      refine ⟨hChain, ?_, ?_⟩
      · cases (openings run.steps).getLastD false <;> simp
      · intro x hX y hY
        have hLastX :
            x = (openings run.steps).getLastD false := by
          rw [List.getLast?_cons, Option.mem_def,
            Option.some.injEq] at hX
          rw [← hX]
          exact List.getLastD_eq_getLast?.symm
        rw [hLastX]
        cases hTurnOf :
            (openings run.steps).getLastD false with
        | true => simp_all
        | false => simp_all
  · rw [openings_concat]
    have hIsOpen := hFolded.isOpen
    rcases hTurn with ⟨hOpened, hClosed, hSame⟩ |
      ⟨hOpened, hClosed, hOther⟩
    · simp only [hOpened, hClosed, hSame, hIsOpen,
        Bool.false_eq_true, if_false, List.append_nil]
    · simp only [hOpened, hClosed, hOther]
      cases run.state.episode.isSome <;> simp

section Take

variable {run : Run 𝕜}
variable {forecast : ForecastSummary 𝕜}

/- Nothing opens below the line. -/
theorem Folded.take_quiet
    (hFolded : Folded rules run)
    (hFresh : isStale run.state forecast.originTs = false)
    (hLater :
      ∀ step ∈ run.steps,
        step.forecast.originTs < forecast.originTs)
    (hNone : run.state.episode = none)
    (hBelow : forecast.maxPCompromise < rules.riskThreshold) :
    Folded rules (run.take rules freshId forecast) := by
  rw [take_of_advance (advance_of_quiet hFresh hNone hBelow _)]
  apply hFolded.extend hLater rfl
  · refine
      { closes := ?_
        opens := ?_
        aggregate := ?_
        alertKept := ?_ }
    · refine iff_of_false Bool.false_ne_true ?_
      rintro ⟨episode, hOpen, _⟩
      rw [hNone] at hOpen
      cases hOpen
    · refine iff_of_false Bool.false_ne_true ?_
      rintro ⟨_, hAbove⟩
      exact absurd (of_decide_eq_true hAbove) (not_le.mpr hBelow)
    · intro episode hOut
      cases hOut
    · intro episode alertAt hOpen
      rw [hNone] at hOpen
      cases hOpen
  · intro episode hOpen
    cases hOpen
  · left
    rw [hNone]
    exact ⟨rfl, rfl, rfl⟩

/- An episode opens at the line. -/
theorem Folded.take_opening
    (hClose : 1 ≤ rules.closeAfter)
    (hLead : 1 ≤ rules.leadTimeM)
    (hFolded : Folded rules run)
    (hFresh : isStale run.state forecast.originTs = false)
    (hLater :
      ∀ step ∈ run.steps,
        step.forecast.originTs < forecast.originTs)
    (hNone : run.state.episode = none)
    (hAbove : rules.riskThreshold ≤ forecast.maxPCompromise) :
    Folded rules (run.take rules freshId forecast) := by
  rw [take_of_advance
    (advance_of_opening hFresh hNone hAbove _)]
  apply hFolded.extend hLater rfl
  · refine
      { closes := ?_
        opens := ?_
        aggregate := ?_
        alertKept := ?_ }
    · refine iff_of_false Bool.false_ne_true ?_
      rintro ⟨episode, hOpen, _⟩
      rw [hNone] at hOpen
      cases hOpen
    · exact iff_of_true rfl ⟨hNone, decide_eq_true hAbove⟩
    · intro episode hOut
      cases hOut
      change Aggregate rules _ (since forecast.originTs _)
      rw [since_opening hLater rfl]
      exact Aggregate.opened hLead hAbove _
    · intro episode alertAt hOpen
      rw [hNone] at hOpen
      cases hOpen
  · intro episode hOpen
    cases hOpen
    exact ⟨rfl, hClose⟩
  · right
    rw [hNone]
    exact ⟨rfl, rfl, rfl⟩

/- An open episode goes on, or ends. -/
theorem Folded.take_open
    (hClose : 1 ≤ rules.closeAfter)
    (hFolded : Folded rules run)
    (hFresh : isStale run.state forecast.originTs = false)
    (hLater :
      ∀ step ∈ run.steps,
        step.forecast.originTs < forecast.originTs)
    {episode : OpenEpisode 𝕜}
    (hOpen : run.state.episode = some episode) :
    Folded rules (run.take rules freshId forecast) := by
  rcases hFolded.aggregate episode hOpen with
    ⟨hAggregate, hShort⟩
  have hSince :
      ∀ step : Step 𝕜, step.forecast = forecast →
        since episode.startedAt (run.steps ++ [step]) =
          since episode.startedAt run.steps ++ [forecast] := by
    rintro step rfl
    exact since_concat _ (hAggregate.started_before hLater)
  rw [take_of_advance (advance_of_open hFresh hOpen rules _)]
  apply hFolded.extend hLater rfl
  · refine
      { closes := ?_
        opens := ?_
        aggregate := ?_
        alertKept := ?_ }
    · refine
        (endOf_isSome_iff hClose hAggregate hShort).trans ?_
      constructor
      · intro hExact
        refine ⟨episode, hOpen, ?_⟩
        rw [hSince _ rfl]
        exact hExact
      · rintro ⟨other, hSame, hExact⟩
        have hOther : episode = other :=
          Option.some.inj (hOpen.symm.trans hSame)
        subst hOther
        rw [hSince _ rfl] at hExact
        exact hExact
    · refine iff_of_false Bool.false_ne_true ?_
      rintro ⟨hNone, _⟩
      rw [hOpen] at hNone
      cases hNone
    · intro updated hOut
      cases hOut
      change Aggregate rules _ (since episode.startedAt _)
      rw [hSince _ rfl]
      exact hAggregate.updated forecast
    · intro _ alertAt hSame hAlert
      rw [hOpen] at hSame
      cases hSame
      unfold updatedBy
      simp [hAlert]
  · intro updated hStays
    dsimp only at hStays
    split_ifs at hStays with hEnds
    cases hStays
    exact
      ⟨rfl,
        below_of_open hAggregate hShort hClose
          (Bool.eq_false_iff.mpr hEnds)⟩
  · rw [hOpen]
    cases hEnds : (endOf episode forecast rules).isSome with
    | true =>
        right
        simp
    | false =>
        left
        simp

/- Whatever comes next keeps the invariant. -/
theorem Folded.take
    (hClose : 1 ≤ rules.closeAfter)
    (hLead : 1 ≤ rules.leadTimeM)
    (hFolded : Folded rules run)
    (forecast : ForecastSummary 𝕜) :
    Folded rules (run.take rules freshId forecast) := by
  have hStaleIff :=
    isStale_iff hFolded.increasing hFolded.lastTs
      forecast.originTs
  cases hStale : isStale run.state forecast.originTs with
  | true =>
      rw [take_of_stale hStale]
      exact hFolded
  | false =>
      have hLater :
          ∀ step ∈ run.steps,
            step.forecast.originTs < forecast.originTs := by
        intro step hMem
        by_contra hNot
        have hIs := hStaleIff.mpr ⟨step, hMem, not_lt.mp hNot⟩
        rw [hStale] at hIs
        cases hIs
      cases hOpen : run.state.episode with
      | none =>
          rcases lt_or_ge forecast.maxPCompromise
            rules.riskThreshold with hBelow | hAbove
          · exact hFolded.take_quiet hStale hLater hOpen hBelow
          · exact
              hFolded.take_opening hClose hLead hStale hLater
                hOpen hAbove
      | some episode =>
          exact hFolded.take_open hClose hStale hLater hOpen

end Take

/-
  After any forecasts, the state of the host and what was
  done with them is right.
-/
theorem lifecycle_runForecasts
    (rules : EpisodeRules 𝕜)
    (freshId : ℕ → ℕ)
    (hClose : 1 ≤ rules.closeAfter)
    (hLead : 1 ≤ rules.leadTimeM)
    (forecasts : List (ForecastSummary 𝕜)) :
    Lifecycle rules freshId
      (runForecasts rules freshId forecasts) := by
  have hFolded :
      Folded rules (runForecasts rules freshId forecasts) := by
    induction forecasts using List.reverseRecOn with
    | nil => exact Folded.start
    | append_singleton forecasts forecast ih =>
        unfold runForecasts at ih ⊢
        rw [List.foldl_concat]
        exact ih.take hClose hLead forecast
  refine
    { toFolded := hFolded
      stale := ?_
      processed := ?_ }
  · intro forecast hOld
    apply take_of_stale
    exact
      (isStale_iff hFolded.increasing hFolded.lastTs _).mpr hOld
  · intro forecast hLater
    have hFresh :
        isStale (runForecasts rules freshId forecasts).state
          forecast.originTs = false := by
      rw [Bool.eq_false_iff, ne_eq,
        isStale_iff hFolded.increasing hFolded.lastTs]
      rintro ⟨step, hMem, hLe⟩
      exact absurd (hLater step hMem) (not_lt.mpr hLe)
    rcases exists_advance hFresh rules _ with
      ⟨transition, hAdvance, _⟩
    exact ⟨transition, by rw [take_of_advance hAdvance]⟩

/- Two in a row raise an alert, and two below end it. -/
def pairRules : EpisodeRules ℚ :=
  { riskThreshold := 1 / 2
    closeAfter := 2
    leadTimeM := 2 }

/- Two forecasts above the line, and one below it. -/
theorem lifecycle_pair :
    Lifecycle pairRules id
      (runForecasts pairRules id
        [{ originTs := 0
           maxPCompromise := 3 / 4
           observedStage := "recon" },
          { originTs := 60
            maxPCompromise := 7 / 8
            observedStage := "recon" },
          { originTs := 120
            maxPCompromise := 1 / 4
            observedStage := "" }]) :=
  lifecycle_runForecasts pairRules id (by decide) (by decide) _

end Persister

end Nidra
