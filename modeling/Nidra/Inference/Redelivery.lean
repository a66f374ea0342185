import Nidra.Inference.Worker
import Nidra.Lib.Folds
import Nidra.Lib.History

/-
  This file states when the inference worker loses no
  forecast, and proves that it loses none in every run in
  which no attempt that fills a buffer fails between its push
  and its publish. One that does is lost: the retry finds its
  window at the tail and acknowledges it.

  Key definitions include:
    * `Published`, `FilledBuffer`
    * `NothingLost`
    * `Carried`, `AllCarried`

  Main declarations:
    * `attempt_added`
    * `step_nothingLost`
    * `nothingLost_of_allCarried`
    * `retry_acks_unpublished`
-/

namespace Nidra

namespace Inference

set_option linter.unusedSectionVars false

variable {𝕜 : Type}

------------------------------------------------------------
-- What the log says
------------------------------------------------------------

/- A forecast of the vector was published. -/
def Published
    (log : List (Entry 𝕜))
    (vector : StateVector 𝕜) : Prop :=
  ∃ forecast, Entry.published vector forecast ∈ log

/- A push of the vector left a full buffer. -/
def FilledBuffer
    (contextL : ℕ)
    (log : List (Entry 𝕜))
    (vector : StateVector 𝕜) : Prop :=
  ∃ buffered, contextL ≤ buffered ∧
    Entry.pushed vector buffered ∈ log

/-
  A vector that filled its buffer is acknowledged only after
  its forecast was published.
-/
def AckAfterPublish
    (contextL : ℕ)
    (before : List (Entry 𝕜)) : Entry 𝕜 → Prop
  | .acked vector =>
      FilledBuffer contextL before vector →
        Published before vector
  | .pushed _ _ => True
  | .published _ _ => True

/-
  Every vector whose push left a full buffer has its forecast
  published, and none is acknowledged without it.
-/
structure NothingLost
    (contextL : ℕ)
    (log : List (Entry 𝕜)) : Prop where
  published :
    ∀ vector, FilledBuffer contextL log vector →
      Published log vector
  ackedAfter : log.EachAfter (AckAfterPublish contextL)

section Runs

variable [Zero 𝕜] [One 𝕜] [LinearOrder 𝕜]
variable (cfg : InferenceConfig)
variable (predictor : Predictor 𝕜)

------------------------------------------------------------
-- What one attempt does
------------------------------------------------------------

/- Effects up to the push: the duplicate test comes first. -/
def pushEffects : ℕ := 2

/- Effects up to the publish: the predictor comes between. -/
def publishEffects : ℕ := 4

/- The buffer that pushing a vector leaves. -/
def World.pushed
    (w : World 𝕜)
    (vector : StateVector 𝕜) : List (StateVector 𝕜) :=
  appendTrimmed cfg.contextL (w.buffer vector) vector

/-
  What an attempt can add to the log: nothing; the ack of a
  duplicate; a push that leaves the buffer short, with or
  without its ack; a push that fills the buffer but does not
  get to the publish; or a push with its publish, with or
  without the ack.
-/
inductive Added
    (w : World 𝕜)
    (vector : StateVector 𝕜)
    (budget : ℕ) : List (Entry 𝕜) → Prop where
  | nothing : Added w vector budget []
  | duplicate
      (hTail : isTail (w.buffer vector) vector = true) :
      Added w vector budget [.acked vector]
  | short
      (hShort : (w.pushed cfg vector).length < cfg.contextL)
      (acks : List (Entry 𝕜))
      (hAcks : acks = [] ∨ acks = [.acked vector]) :
      Added w vector budget
        (.pushed vector (w.pushed cfg vector).length :: acks)
  | stopped
      (hNew : isTail (w.buffer vector) vector = false)
      (hPushed : pushEffects ≤ budget)
      (hFull : cfg.contextL ≤ (w.pushed cfg vector).length)
      (hStopped :
        publishEffects ≤ budget →
          ∃ error,
            forecastOf cfg predictor vector
              (w.pushed cfg vector) = .error error) :
      Added w vector budget
        [.pushed vector (w.pushed cfg vector).length]
  | carried
      (forecast : Forecast 𝕜)
      (acks : List (Entry 𝕜))
      (hAcks : acks = [] ∨ acks = [.acked vector]) :
      Added w vector budget
        (.pushed vector (w.pushed cfg vector).length ::
          .published vector forecast :: acks)

/- Acknowledging gets done or not. -/
theorem ack_attempt_log
    (w : World 𝕜)
    (vector : StateVector 𝕜)
    (budget : ℕ) :
    ∃ acks : List (Entry 𝕜),
      (acks = [] ∨ acks = [.acked vector]) ∧
        ((ack vector).attempt budget w).2.log =
          w.log ++ acks := by
  cases budget with
  | zero => exact ⟨[], Or.inl rfl, by simp [ack]⟩
  | succ budget =>
      exact ⟨[.acked vector], Or.inr rfl, by simp [ack]⟩

/- The state that pushing a vector leaves. -/
def World.afterPush
    (w : World 𝕜)
    (vector : StateVector 𝕜) : World 𝕜 :=
  { w with
    seq :=
      w.seq.renew w.now seqTtlS (seqKey vector)
        (w.pushed cfg vector)
    log :=
      w.log ++
        [.pushed vector (w.pushed cfg vector).length] }

/-
  What an attempt adds after a push that filled the buffer:
  it stops before the publish, or it gets past it.
-/
theorem forecast_attempt_added
    (w : World 𝕜)
    (vector : StateVector 𝕜)
    (budget : ℕ)
    (hNew : isTail (w.buffer vector) vector = false)
    (hFull : cfg.contextL ≤ (w.pushed cfg vector).length) :
    ∃ added,
      Added cfg predictor w vector (budget + pushEffects)
          added ∧
        ((dispatch
          (forecastAndPublish cfg predictor vector
            (w.pushed cfg vector))
          (ack vector)).attempt budget
            (w.afterPush cfg vector)).2.log =
          w.log ++ added := by
  simp only [dispatch, forecastAndPublish,
    Program.attempt_bind]
  cases budget with
  | zero =>
      refine ⟨_, .stopped hNew (by omega) hFull ?_, rfl⟩
      intro hPublish
      simp [publishEffects, pushEffects] at hPublish
  | succ budget =>
      simp only [Program.attempt_read_succ]
      cases hForecast :
          forecastOf cfg predictor vector
            (w.pushed cfg vector) with
      | error error =>
          simp only [Program.attempt_pure]
          exact
            ⟨_, .stopped hNew (by omega) hFull
              (fun _ => ⟨error, hForecast⟩), rfl⟩
      | ok forecast =>
          simp only [publish, Program.attempt_bind]
          cases budget with
          | zero =>
              refine
                ⟨_, .stopped hNew (by omega) hFull ?_, rfl⟩
              intro hPublish
              simp [publishEffects, pushEffects] at hPublish
          | succ budget =>
              simp only [Program.attempt_write_succ,
                Program.attempt_pure]
              rcases
                  ack_attempt_log
                    { w.afterPush cfg vector with
                      log :=
                        (w.afterPush cfg vector).log ++
                          [.published vector forecast] }
                    vector budget with
                ⟨acks, hAcks, hLog⟩
              refine ⟨_, .carried forecast acks hAcks, ?_⟩
              rw [hLog]
              simp [World.afterPush]

/- One attempt adds to the log what it can. -/
theorem attempt_added
    (w : World 𝕜)
    (vector : StateVector 𝕜)
    (budget : ℕ) :
    ∃ added,
      Added cfg predictor w vector budget added ∧
        (w.step cfg predictor (.attempt vector budget)).log =
          w.log ++ added := by
  simp only [World.step, handleMessage, dispatch, process,
    isDuplicate, Program.attempt_bind]
  cases budget with
  | zero => exact ⟨[], .nothing, by simp⟩
  | succ budget =>
      simp only [Program.attempt_read_succ]
      cases hTail : isTail (w.buffer vector) vector with
      | true =>
          simp only [if_true, Program.attempt_pure]
          rcases ack_attempt_log w vector budget with
            ⟨acks, hAcks, hLog⟩
          refine ⟨acks, ?_, hLog⟩
          rcases hAcks with rfl | rfl
          · exact .nothing
          · exact .duplicate hTail
      | false =>
          simp only [Bool.false_eq_true, if_false, push,
            Program.attempt_bind]
          cases budget with
          | zero => exact ⟨[], .nothing, by simp⟩
          | succ budget =>
              simp only [Program.attempt_step_succ]
              by_cases hShort :
                  (appendTrimmed cfg.contextL
                    (w.buffer vector) vector).length <
                      cfg.contextL
              · rw [if_pos hShort, Program.attempt_pure]
                rcases
                    ack_attempt_log (w.afterPush cfg vector)
                      vector budget with
                  ⟨acks, hAcks, hLog⟩
                refine
                  ⟨_, .short hShort acks hAcks,
                    hLog.trans ?_⟩
                simp [World.afterPush]
              · rw [if_neg hShort]
                rcases
                    forecast_attempt_added cfg predictor w
                      vector budget hTail
                      (not_lt.mp hShort) with
                  ⟨added, hAdded, hLog⟩
                rw [dispatch, Program.attempt_bind] at hLog
                exact ⟨added, hAdded, hLog⟩

------------------------------------------------------------
-- Runs that lose nothing
------------------------------------------------------------

/-
  An attempt that pushes its vector and leaves a full buffer
  gets past its publish, on a forecast that is accepted.
-/
def Carried (w : World 𝕜) : Event 𝕜 → Prop
  | .wait _ => True
  | .attempt vector budget =>
      isTail (w.buffer vector) vector = false →
        pushEffects ≤ budget →
        cfg.contextL ≤ (w.pushed cfg vector).length →
        publishEffects ≤ budget ∧
          ∃ forecast,
            forecastOf cfg predictor vector
              (w.pushed cfg vector) = .ok forecast

/- Every attempt of a run is carried. -/
def AllCarried
    (w : World 𝕜)
    (events : List (Event 𝕜)) : Prop :=
  AllAlong (World.step cfg predictor)
    (Carried cfg predictor) w events

/- A carried attempt is not stopped after a filling push. -/
theorem not_stopped_of_carried
    {w : World 𝕜}
    {vector : StateVector 𝕜}
    {budget : ℕ}
    (hCarried : Carried cfg predictor w (.attempt vector budget))
    (hNew : isTail (w.buffer vector) vector = false)
    (hPushed : pushEffects ≤ budget)
    (hFull : cfg.contextL ≤ (w.pushed cfg vector).length) :
    ¬ (publishEffects ≤ budget →
      ∃ error,
        forecastOf cfg predictor vector
          (w.pushed cfg vector) = .error error) := by
  intro hStopped
  rcases hCarried hNew hPushed hFull with
    ⟨hPublish, forecast, hOk⟩
  rcases hStopped hPublish with ⟨error, hError⟩
  rw [hOk] at hError
  contradiction

end Runs

/- Acks change neither what was pushed nor published. -/
theorem nothingLost_acks
    {contextL : ℕ}
    {log : List (Entry 𝕜)}
    (hLost : NothingLost contextL log)
    {vector : StateVector 𝕜}
    {acks : List (Entry 𝕜)}
    (hAcks : acks = [] ∨ acks = [.acked vector]) :
    NothingLost contextL (log ++ acks) := by
  rcases hAcks with rfl | rfl
  · rw [List.append_nil]
    exact hLost
  · refine
      { published := ?_
        ackedAfter :=
          List.eachAfter_concat hLost.ackedAfter
            (hLost.published vector) }
    intro other hFilled
    rcases hFilled with ⟨buffered, hFull, hMem⟩
    have hOld : Entry.pushed other buffered ∈ log := by
      simpa using hMem
    rcases hLost.published other ⟨buffered, hFull, hOld⟩ with
      ⟨forecast, hPublished⟩
    exact
      ⟨forecast, List.mem_append_left _ hPublished⟩

/-
  Entries without an ack lose nothing when each push among
  them that filled a buffer has its forecast published.
-/
theorem nothingLost_append
    {contextL : ℕ}
    {log more : List (Entry 𝕜)}
    (hLost : NothingLost contextL log)
    (hNoAck : ∀ vector, Entry.acked vector ∉ more)
    (hFilled :
      ∀ vector, FilledBuffer contextL more vector →
        Published more vector) :
    NothingLost contextL (log ++ more) := by
  refine
    { published := ?_
      ackedAfter :=
        List.eachAfter_append hLost.ackedAfter ?_ }
  · intro vector hFill
    rcases hFill with ⟨buffered, hFull, hMem⟩
    rcases List.mem_append.mp hMem with hOld | hAdded
    · rcases hLost.published vector
          ⟨buffered, hFull, hOld⟩ with
        ⟨forecast, hPublished⟩
      exact
        ⟨forecast, List.mem_append_left _ hPublished⟩
    · rcases hFilled vector ⟨buffered, hFull, hAdded⟩ with
        ⟨forecast, hPublished⟩
      exact
        ⟨forecast, List.mem_append_right _ hPublished⟩
  · intro before entry after hEq
    cases entry with
    | pushed vector buffered => trivial
    | published vector forecast => trivial
    | acked vector =>
        have hMem : Entry.acked vector ∈ more := by
          rw [hEq]
          simp
        exact absurd hMem (hNoAck vector)

section Steps

variable [Zero 𝕜] [One 𝕜] [LinearOrder 𝕜]
variable (cfg : InferenceConfig)
variable (predictor : Predictor 𝕜)

/- A carried step loses nothing. -/
theorem step_nothingLost
    {w : World 𝕜}
    (hLost : NothingLost cfg.contextL w.log)
    {event : Event 𝕜}
    (hCarried : Carried cfg predictor w event) :
    NothingLost cfg.contextL
      (w.step cfg predictor event).log := by
  cases event with
  | wait time => exact hLost
  | attempt vector budget =>
      rcases attempt_added cfg predictor w vector budget with
        ⟨added, hAdded, hLog⟩
      rw [hLog]
      cases hAdded with
      | nothing =>
          rw [List.append_nil]
          exact hLost
      | duplicate hTail =>
          exact nothingLost_acks hLost (Or.inr rfl)
      | short hShort acks hAcks =>
          rw [← List.singleton_append, ← List.append_assoc]
          refine
            nothingLost_acks
              (nothingLost_append hLost ?_ ?_) hAcks
          · simp
          · rintro other ⟨buffered, hFull, hMem⟩
            rw [List.mem_singleton] at hMem
            rw [Entry.pushed.injEq] at hMem
            omega
      | stopped hNew hPushed hFull hStopped =>
          exact
            absurd hStopped
              (not_stopped_of_carried cfg predictor
                hCarried hNew hPushed hFull)
      | carried forecast acks hAcks =>
          rw [show
            ∀ (a b : Entry 𝕜) (l : List (Entry 𝕜)),
              a :: b :: l = [a, b] ++ l from
                fun _ _ _ => rfl, ← List.append_assoc]
          refine
            nothingLost_acks
              (nothingLost_append hLost ?_ ?_) hAcks
          · simp
          · rintro other ⟨buffered, hFull, hMem⟩
            simp only [List.mem_cons, List.not_mem_nil,
              or_false, reduceCtorEq,
              Entry.pushed.injEq] at hMem
            rw [hMem.1]
            exact ⟨forecast, by simp⟩

/-
  In every run of carried attempts, of any vectors in any
  order and with any time between them, no forecast of a full
  buffer is lost and no vector is acknowledged without its
  forecast.
-/
theorem nothingLost_of_allCarried
    (now : ℚ)
    (events : List (Event 𝕜))
    (hCarried :
      AllCarried cfg predictor (World.start now) events) :
    NothingLost cfg.contextL
      ((World.start now).runEvents cfg predictor
        events).log := by
  refine
    AllAlong.invariant
      (fun w => NothingLost cfg.contextL w.log)
      (fun _ _ hLost hStep =>
        step_nothingLost cfg predictor hLost hStep)
      ?_ hCarried
  refine
    { published := ?_
      ackedAfter := List.eachAfter_nil }
  rintro vector ⟨buffered, _, hMem⟩
  simp [World.start] at hMem

------------------------------------------------------------
-- A stopped attempt is lost
------------------------------------------------------------

/- A vector is the tail of the buffer that it was pushed to. -/
theorem isTail_pushed
    (w : World 𝕜)
    (vector : StateVector 𝕜) :
    isTail (w.pushed cfg vector) vector = true := by
  have hKeep :
      (w.buffer vector ++ [vector]).length - cfg.contextL ≤
        (w.buffer vector).length := by
    have hPos := cfg.contextL_pos
    simp only [List.length_append, List.length_singleton]
    omega
  simp only [World.pushed, appendTrimmed, isTail]
  rw [List.drop_append_of_le_length hKeep,
    List.getLast?_concat]
  simp

/- The buffer that was just pushed to is read back. -/
theorem buffer_afterPush
    (w : World 𝕜)
    (vector : StateVector 𝕜) :
    (w.afterPush cfg vector).buffer vector =
      w.pushed cfg vector := by
  have hLive : w.now < w.now + seqTtlS := by
    simp [seqTtlS]
  simp only [World.buffer, World.afterPush]
  rw [TtlStore.get_renew_self, if_pos hLive,
    Option.getD_some]

/- An attempt stopped between push and publish has pushed. -/
theorem step_stopped
    (w : World 𝕜)
    (vector : StateVector 𝕜)
    {budget : ℕ}
    (hNew : isTail (w.buffer vector) vector = false)
    (hFull : cfg.contextL ≤ (w.pushed cfg vector).length)
    (hPushed : pushEffects ≤ budget)
    (hStopped : budget < publishEffects) :
    w.step cfg predictor (.attempt vector budget) =
      w.afterPush cfg vector := by
  have hBudget : budget = 2 ∨ budget = 3 := by
    simp only [pushEffects, publishEffects] at hPushed hStopped
    omega
  have hNotShort :
      ¬ (appendTrimmed cfg.contextL (w.buffer vector)
        vector).length < cfg.contextL :=
    not_lt.mpr hFull
  rcases hBudget with rfl | rfl
  · simp [World.step, handleMessage, dispatch, process,
      isDuplicate, push, forecastAndPublish,
      Program.attempt_bind, hNew, hNotShort,
      World.afterPush, World.pushed]
  · cases hForecast :
        forecastOf cfg predictor vector
          (appendTrimmed cfg.contextL (w.buffer vector)
            vector) with
    | error error =>
        simp [World.step, handleMessage, dispatch, process,
          isDuplicate, push, forecastAndPublish,
          Program.attempt_bind, hNew, hNotShort, hForecast,
          World.afterPush, World.pushed]
    | ok forecast =>
        simp [World.step, handleMessage, dispatch, process,
          isDuplicate, push, forecastAndPublish, publish,
          Program.attempt_bind, hNew, hNotShort, hForecast,
          World.afterPush, World.pushed]

/-
  When an attempt fills a buffer and fails before its publish,
  the next attempt that gets as far as the ack acknowledges
  the vector, and no forecast was published in between.
-/
theorem retry_acks_unpublished
    (w : World 𝕜)
    (vector : StateVector 𝕜)
    {budget retry : ℕ}
    (hNew : isTail (w.buffer vector) vector = false)
    (hFull : cfg.contextL ≤ (w.pushed cfg vector).length)
    (hPushed : pushEffects ≤ budget)
    (hStopped : budget < publishEffects)
    (hRetry : pushEffects ≤ retry) :
    (w.runEvents cfg predictor
      [.attempt vector budget, .attempt vector retry]).log =
        w.log ++
          [.pushed vector (w.pushed cfg vector).length,
            .acked vector] := by
  have hFirst :=
    step_stopped cfg predictor w vector hNew hFull hPushed
      hStopped
  have hTail :
      isTail ((w.afterPush cfg vector).buffer vector)
        vector = true := by
    rw [buffer_afterPush]
    exact isTail_pushed cfg w vector
  rcases Nat.exists_eq_add_of_le hRetry with ⟨rest, rfl⟩
  simp only [World.runEvents, List.foldl_cons,
    List.foldl_nil, hFirst]
  rw [pushEffects, Nat.add_comm]
  simp [World.step, handleMessage, dispatch, process,
    isDuplicate, Program.attempt_bind, hTail, ack]
  simp [World.afterPush]

end Steps

------------------------------------------------------------
-- Two runs
------------------------------------------------------------

/- Two windows of context, one step of horizon. -/
def pairContext : InferenceConfig :=
  { contextL := 2
    contextL_pos := by decide
    horizonK := 1 }

/- A predictor that always answers the same band. -/
def flatPredictor : Predictor ℚ :=
  fun _ hostId originTs =>
    { hostId := hostId
      originTs := originTs
      horizons :=
        [{ k := 1
           ts := originTs + 60
           pCompromise := 1 / 2
           ciLow := 1 / 4
           ciHigh := 3 / 4
           stageDist := [("benign", 1)]
           predictedFeatures := [] }]
      leadTimeS := none
      observedStage := "benign"
      observedRisk := 0
      topSignals := []
      drivingWindow := 0
      modelVersion := "flat" }

/- A silent window of one host. -/
def silentVector (windowTs : ℤ) : StateVector ℚ :=
  { tenantId := "tenant"
    hostId := "10.0.0.1"
    windowTs := windowTs
    features := fun _ => 0 }

/-
  The second window fails before its push, and is delivered
  again.
-/
def retriedBeforePush : List (Event ℚ) :=
  [.attempt (silentVector 0) 5,
    .attempt (silentVector 60) 1,
    .attempt (silentVector 60) 5]

theorem nothingLost_retriedBeforePush :
    NothingLost 2
      ((World.start 0).runEvents pairContext flatPredictor
        retriedBeforePush).log := by
  apply nothingLost_of_allCarried pairContext flatPredictor
  refine ⟨?_, ?_, ?_, trivial⟩
  · intro _ _ hFull
    have hShort :
        ((World.start 0).pushed pairContext
          (silentVector 0)).length = 1 := by
      decide +kernel
    rw [hShort] at hFull
    contradiction
  · intro _ hPushed
    contradiction
  · intro _ _ _
    refine ⟨by decide, Forecast.exists_build_ok ?_⟩
    rw [← Option.isNone_iff_eq_none]
    decide +kernel

/- Whether an entry is a published forecast. -/
def Entry.isPublished : Entry ℚ → Bool
  | .published _ _ => true
  | .pushed _ _ => false
  | .acked _ => false

/-
  The second window fails between its push and its publish,
  and is delivered again.
-/
def retriedAfterPush : List (Event ℚ) :=
  [.attempt (silentVector 0) 5,
    .attempt (silentVector 60) 2,
    .attempt (silentVector 60) 5]

/- The second window's forecast is lost. -/
theorem not_nothingLost_retriedAfterPush :
    ¬ NothingLost 2
      ((World.start 0).runEvents pairContext flatPredictor
        retriedAfterPush).log := by
  intro hLost
  have hNone :
      ((World.start 0).runEvents pairContext flatPredictor
        retriedAfterPush).log.any Entry.isPublished =
          false := by
    decide +kernel
  have hLog :=
    retry_acks_unpublished pairContext flatPredictor
      ((World.start 0).step pairContext flatPredictor
        (.attempt (silentVector 0) 5))
      (silentVector 60)
      (by decide +kernel) (by decide +kernel)
      (show pushEffects ≤ 2 by decide)
      (show 2 < publishEffects by decide)
      (show pushEffects ≤ 5 by decide)
  have hFilled :
      FilledBuffer 2
        ((World.start 0).runEvents pairContext flatPredictor
          retriedAfterPush).log (silentVector 60) := by
    rw [show
      ((World.start 0).runEvents pairContext flatPredictor
        retriedAfterPush).log = _ from hLog]
    refine
      ⟨_, ?_,
        List.mem_append_right _ List.mem_cons_self⟩
    decide +kernel
  rcases hLost.published (silentVector 60) hFilled with
    ⟨forecast, hPublished⟩
  rw [List.any_eq_false] at hNone
  exact hNone _ hPublished rfl

end Inference

end Nidra
