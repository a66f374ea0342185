import Nidra.Lib.EarlyStop
import Nidra.Lib.PyFloat
import Nidra.Training.Validation

/-
  This file defines the training of the dynamics, which keeps
  the weights of its best epoch and stops when there was no
  better one for long enough, and proves what is written for
  a seed, and when there is nothing to write.

  Key definitions include:
    * `teacherForcingSchedule`
    * `dynamicsSelectionScore`
    * `trainOneSeed`
    * `KeepsBest`, `Scores`

  Main declarations:
    * `teacherForcingSchedule_antitone`
    * `history_epochState`
    * `trainOneSeed_keepsBest`
-/

namespace Nidra

namespace Training

variable {σ ω β 𝕜 : Type}
variable [Field 𝕜] [LinearOrder 𝕜]
variable {K : ℕ}

------------------------------------------------------------
-- Teacher forcing
------------------------------------------------------------

/-
  Over how many epochs the probability goes down, cut off
  from a float product.
-/
def annealEpochs (total : ℤ) (fraction : ℚ) : ℤ :=
  max 1
    (truncate
      (PyFloat.nearest (PyFloat.nearest total * fraction)))

/- Down in a line over the first epochs, and then held. -/
def teacherForcingSchedule
    (epoch : ℕ)
    (total : ℤ)
    (startP endP : 𝕜)
    (fraction : ℚ) : 𝕜 :=
  if annealEpochs total fraction ≤ (epoch : ℤ) then endP
  else
    startP +
      (endP - startP) *
        ((epoch : 𝕜) / (annealEpochs total fraction : 𝕜))

------------------------------------------------------------
-- Selection
------------------------------------------------------------

/- What training raises. -/
inductive TrainError where
  | unknownMetric (metric : String)
  | keyError (key : String)
  | unboundBestState
deriving DecidableEq, Repr

def validDynamicsSelection : List String :=
  ["val_free_running_nll", "val_free_running_mse",
    "val_multistep_nll"]

/- The score of an epoch, lower ones being better. -/
def dynamicsSelectionScore
    (metrics : DynamicsMetrics 𝕜 K)
    (metric : String) : Except TrainError (Option 𝕜) :=
  if metric = "val_free_running_nll" then
    match metrics.free with
    | some free => .ok free.nll
    | none => .error (.keyError "val_free_nll")
  else if metric = "val_free_running_mse" then
    match metrics.free with
    | some free => .ok free.mse
    | none => .error (.keyError "val_free_mse")
  else if metric = "val_multistep_nll" then
    .ok metrics.valNll
  else .error (.unknownMetric metric)

/- The same score, not finite where there is none. -/
def selectedMetric
    (metrics : DynamicsMetrics 𝕜 K)
    (metric : String) : Option 𝕜 :=
  match dynamicsSelectionScore metrics metric with
  | .ok score => score
  | .error _ => none

------------------------------------------------------------
-- Training
------------------------------------------------------------

/-
  What is trained: weights, with the optimiser, the schedule
  and the generators they are trained with. Validation draws
  from these as well.
-/
structure DynamicsTrainer (σ ω β 𝕜 : Type) (K : ℕ) where
  start : σ
  trainEpoch : 𝕜 → σ → Option 𝕜 × σ
  batchRows : β → ℕ
  scoreBatch :
    σ → β → (Option 𝕜 × Model.FreeMetrics (Option 𝕜) K) × σ
  stateDict : σ → ω

structure DynamicsConfig (𝕜 : Type) where
  epochs : ℤ
  selectionMetric : Option String := none
  patience : ℤ
  startP : 𝕜
  endP : 𝕜
  annealFraction : ℚ

/- What is noted of an epoch. -/
structure EpochRecord (𝕜 : Type) (K : ℕ) where
  epoch : ℕ
  trainNll : Option 𝕜
  teacherForcingP : 𝕜
  metrics : DynamicsMetrics 𝕜 K

structure DynamicsState (σ 𝕜 : Type) (K : ℕ) where
  trained : σ
  metrics : DynamicsMetrics 𝕜 K := {}
  history : List (EpochRecord 𝕜 K) := []

/- What is written for a seed. -/
structure TrainedDynamics (ω 𝕜 : Type) (K : ℕ) where
  weights : ω
  bestEpoch : ℕ
  bestScore : 𝕜
  bestMetrics : DynamicsMetrics 𝕜 K
  history : List (EpochRecord 𝕜 K)

/- An override of zero epochs is none. -/
def epochsOf
    (cfg : DynamicsConfig 𝕜)
    (override : Option ℤ) : ℤ :=
  match override with
  | some epochs => if epochs = 0 then cfg.epochs else epochs
  | none => cfg.epochs

def metricOf (cfg : DynamicsConfig 𝕜) : String :=
  cfg.selectionMetric.getD "val_free_running_nll"

namespace DynamicsTrainer

variable (trainer : DynamicsTrainer σ ω β 𝕜 K)

/- Score the batches of the loader in order. -/
def scoreLoader :
    List β → σ → List (BatchScores 𝕜 K) × σ
  | [], s => ([], s)
  | batch :: rest, s =>
      let (scored, s') := trainer.scoreBatch s batch
      let (others, s'') := scoreLoader rest s'
      ({ rows := trainer.batchRows batch
         loss := scored.1
         free := scored.2 } :: others, s'')

section Loop

variable (cfg : DynamicsConfig 𝕜)
variable (override : Option ℤ)
variable (loader : List β)

/- One epoch: train, validate, note. -/
def dynamicsEpoch
    (epoch : ℕ)
    (s : DynamicsState σ 𝕜 K) : DynamicsState σ 𝕜 K :=
  let tfP :=
    teacherForcingSchedule epoch (epochsOf cfg override)
      cfg.startP cfg.endP cfg.annealFraction
  let trained := trainer.trainEpoch tfP s.trained
  let validated := trainer.scoreLoader loader trained.2
  let metrics := evaluateDynamics validated.1
  { trained := validated.2
    metrics := metrics
    history := s.history ++
      [{ epoch := epoch
         trainNll := trained.1
         teacherForcingP := tfP
         metrics := metrics }] }

def begin : DynamicsState σ 𝕜 K :=
  { trained := trainer.start }

/- A score counts as better by more than this. -/
def dynamicsTolerance : 𝕜 :=
  1 / 10000

/- The loop breaks when an epoch that is not better is the last tolerated. -/
def breaksOnMiss (improved : Bool) (left : ℤ) : Bool :=
  !improved && left ≤ 0

/- Weights and metrics, as they are copied of the best epoch. -/
def copyOf
    (s : DynamicsState σ 𝕜 K) : ω × DynamicsMetrics 𝕜 K :=
  (trainer.stateDict s.trained, s.metrics)

def trainOneSeed :
    Except TrainError (TrainedDynamics ω 𝕜 K) := do
  let metric := metricOf cfg
  if metric ∉ validDynamicsSelection then
    throw (.unknownMetric metric)
  let (_, s) ←
    tryStopLoop dynamicsTolerance cfg.patience breaksOnMiss
      (trainer.dynamicsEpoch cfg override loader)
      (fun s => dynamicsSelectionScore s.metrics metric)
      trainer.copyOf (epochsOf cfg override).toNat 0
      { state := trainer.begin
        left := cfg.patience }
  match s.best with
  | none => throw .unboundBestState
  | some (score, epoch, copied) =>
      return {
        weights := copied.1
        bestEpoch := epoch
        bestScore := score
        bestMetrics := copied.2
        history := s.state.history }

end Loop

end DynamicsTrainer

------------------------------------------------------------
-- The schedule
------------------------------------------------------------

theorem annealEpochs_pos (total : ℤ) (fraction : ℚ) :
    0 < annealEpochs total fraction :=
  lt_of_lt_of_le Int.one_pos (le_max_left _ _)

section Anneal

variable [IsStrictOrderedRing 𝕜]

/- How much of the way down an epoch is. -/
theorem teacherForcingSchedule_eq
    (epoch : ℕ)
    (total : ℤ)
    (startP endP : 𝕜)
    (fraction : ℚ) :
    teacherForcingSchedule epoch total startP endP fraction =
      startP +
        (endP - startP) *
          min 1
            ((epoch : 𝕜) /
              (annealEpochs total fraction : 𝕜)) := by
  have hPos : (0 : 𝕜) < (annealEpochs total fraction : 𝕜) :=
    Int.cast_pos.mpr (annealEpochs_pos total fraction)
  unfold teacherForcingSchedule
  split
  · rename_i hDone
    have hCast :
        (annealEpochs total fraction : 𝕜) ≤ (epoch : 𝕜) := by
      exact_mod_cast hDone
    rw [min_eq_left ((one_le_div hPos).mpr hCast)]
    ring
  · rename_i hOpen
    have hCast :
        (epoch : 𝕜) ≤ (annealEpochs total fraction : 𝕜) := by
      exact_mod_cast (not_le.mp hOpen).le
    rw [min_eq_right ((div_le_one hPos).mpr hCast)]

/- When it is to go down, it never goes up. -/
theorem teacherForcingSchedule_antitone
    {startP endP : 𝕜}
    (hDown : endP ≤ startP)
    (total : ℤ)
    (fraction : ℚ) :
    Antitone
      (fun epoch =>
        teacherForcingSchedule epoch total startP endP
          fraction) := by
  intro e e' hLe
  dsimp only
  rw [teacherForcingSchedule_eq, teacherForcingSchedule_eq]
  have hPos : (0 : 𝕜) < (annealEpochs total fraction : 𝕜) :=
    Int.cast_pos.mpr (annealEpochs_pos total fraction)
  have hWay :
      min 1 ((e : 𝕜) / (annealEpochs total fraction : 𝕜)) ≤
        min 1
          ((e' : 𝕜) / (annealEpochs total fraction : 𝕜)) := by
    gcongr
  have hBack : endP - startP ≤ 0 := sub_nonpos.mpr hDown
  have hMul := mul_le_mul_of_nonpos_left hWay hBack
  linarith

end Anneal

------------------------------------------------------------
-- The epochs of a run
------------------------------------------------------------

namespace DynamicsTrainer

variable (trainer : DynamicsTrainer σ ω β 𝕜 K)

/- How many rows there are to validate. -/
def valRows (loader : List β) : ℕ :=
  (loader.map trainer.batchRows).sum

omit [Field 𝕜] [LinearOrder 𝕜] in
theorem rowsIn_scoreLoader
    (loader : List β)
    (s : σ) :
    rowsIn (trainer.scoreLoader loader s).1 =
      trainer.valRows loader := by
  induction loader generalizing s with
  | nil => rfl
  | cons batch rest ih =>
      have hRest := ih (trainer.scoreBatch s batch).2
      unfold rowsIn valRows at hRest ⊢
      rw [scoreLoader]
      dsimp only
      rw [List.map_cons, List.map_cons, List.sum_cons,
        List.sum_cons, hRest]

variable (cfg : DynamicsConfig 𝕜)
variable (override : Option ℤ)
variable (loader : List β)

/- What there is after so many epochs, if none stops it. -/
def epochState (n : ℕ) : DynamicsState σ 𝕜 K :=
  stateAt (trainer.dynamicsEpoch cfg override loader)
    trainer.begin n

/- What would be noted of an epoch. -/
def recordAt (epoch : ℕ) : EpochRecord 𝕜 K :=
  let tfP :=
    teacherForcingSchedule epoch (epochsOf cfg override)
      cfg.startP cfg.endP cfg.annealFraction
  { epoch := epoch
    trainNll :=
      (trainer.trainEpoch tfP
        (trainer.epochState cfg override loader
          epoch).trained).1
    teacherForcingP := tfP
    metrics :=
      (trainer.epochState cfg override loader
        (epoch + 1)).metrics }

/- The score an epoch would be judged by. -/
def epochScore (epoch : ℕ) : Option 𝕜 :=
  selectedMetric
    (trainer.recordAt cfg override loader epoch).metrics
    (metricOf cfg)

theorem history_epochState (n : ℕ) :
    (trainer.epochState cfg override loader n).history =
      (List.range n).map
        (trainer.recordAt cfg override loader) := by
  induction n with
  | zero => rfl
  | succ n ih =>
      rw [List.range_succ, List.map_append, ← ih]
      rfl

/- The score of the epoch that led to a state. -/
def scoreOf
    (cfg : DynamicsConfig 𝕜)
    (s : DynamicsState σ 𝕜 K) : Option 𝕜 :=
  selectedMetric s.metrics (metricOf cfg)

/- There is a score when the metric is known and there are rows. -/
def HasScore : Prop :=
  metricOf cfg ∈ validDynamicsSelection ∧
    (metricOf cfg = "val_multistep_nll" ∨
      trainer.valRows loader ≠ 0)

theorem free_dynamicsEpoch
    (epoch : ℕ)
    (s : DynamicsState σ 𝕜 K) :
    (trainer.dynamicsEpoch cfg override loader epoch
        s).metrics.free.isSome =
      decide (trainer.valRows loader ≠ 0) := by
  unfold dynamicsEpoch
  dsimp only
  rw [evaluateDynamics_free_isSome, rowsIn_scoreLoader]

theorem dynamicsSelectionScore_of_hasScore
    (hHas : trainer.HasScore cfg loader)
    (epoch : ℕ)
    (s : DynamicsState σ 𝕜 K) :
    dynamicsSelectionScore
        (trainer.dynamicsEpoch cfg override loader epoch
          s).metrics (metricOf cfg) =
      .ok
        (scoreOf cfg
          (trainer.dynamicsEpoch cfg override loader epoch
            s)) := by
  have hFree :=
    trainer.free_dynamicsEpoch cfg override loader epoch s
  unfold scoreOf
  revert hFree
  generalize
    (trainer.dynamicsEpoch cfg override loader epoch
      s).metrics = metrics
  intro hFree
  rcases hHas with ⟨hKnown, hRows⟩
  unfold selectedMetric dynamicsSelectionScore
  simp only [validDynamicsSelection, List.mem_cons,
    List.not_mem_nil, or_false] at hKnown
  rcases hKnown with hNll | hMse | hForced
  · have hSome : metrics.free.isSome = true := by
      rw [hFree]
      simpa [hNll] using hRows
    rcases Option.isSome_iff_exists.mp hSome with ⟨free, hIs⟩
    simp [hNll, hIs]
  · have hSome : metrics.free.isSome = true := by
      rw [hFree]
      simpa [hMse] using hRows
    rcases Option.isSome_iff_exists.mp hSome with ⟨free, hIs⟩
    simp [hMse, hIs]
  · simp [hForced]

/- Without a row there is nothing to select by. -/
theorem exists_error_of_noRows
    (hKnown : metricOf cfg ∈ validDynamicsSelection)
    (hNot : ¬ trainer.HasScore cfg loader) :
    ∃ e, ∀ epoch s,
      dynamicsSelectionScore
          (trainer.dynamicsEpoch cfg override loader epoch
            s).metrics (metricOf cfg) =
        .error e := by
  have hRows :
      metricOf cfg ≠ "val_multistep_nll" ∧
        trainer.valRows loader = 0 := by
    constructor
    · intro hForced
      exact hNot ⟨hKnown, .inl hForced⟩
    · by_contra hMore
      exact hNot ⟨hKnown, .inr hMore⟩
  have hNone :
      ∀ epoch s,
        (trainer.dynamicsEpoch cfg override loader epoch
          s).metrics.free = none := by
    intro epoch s
    have hFree :=
      trainer.free_dynamicsEpoch cfg override loader epoch s
    rw [hRows.2] at hFree
    simpa using hFree
  simp only [validDynamicsSelection, List.mem_cons,
    List.not_mem_nil, or_false] at hKnown
  rcases hKnown with hNll | hMse | hForced
  · refine ⟨.keyError "val_free_nll", ?_⟩
    intro epoch s
    simp [dynamicsSelectionScore, hNll, hNone epoch s]
  · refine ⟨.keyError "val_free_mse", ?_⟩
    intro epoch s
    simp [dynamicsSelectionScore, hMse, hNone epoch s]
  · exact absurd hForced hRows.1

------------------------------------------------------------
-- What is written
------------------------------------------------------------

/- How many epochs in turn may fail to be better. -/
def missesAllowed (cfg : DynamicsConfig 𝕜) : ℕ :=
  (max cfg.patience 1).toNat

/-
  What is written is of the best epoch of a run that went on
  for as many epochs after it as are tolerated, or to its end.
-/
structure KeepsBest
    (t : TrainedDynamics ω 𝕜 K) : Prop where
  best :
    IsKept dynamicsTolerance
      (trainer.epochScore cfg override loader)
      t.history.length (some (t.bestScore, t.bestEpoch))
  weights :
    t.weights =
      trainer.stateDict
        (trainer.epochState cfg override loader
          (t.bestEpoch + 1)).trained
  metrics :
    t.bestMetrics =
      (trainer.recordAt cfg override loader
        t.bestEpoch).metrics
  history :
    t.history =
      (List.range t.history.length).map
        (trainer.recordAt cfg override loader)
  within : t.history.length ≤ (epochsOf cfg override).toNat
  patient :
    t.history.length ≤ t.bestEpoch + 1 + missesAllowed cfg
  stopped :
    t.history.length < (epochsOf cfg override).toNat →
      t.history.length = t.bestEpoch + 1 + missesAllowed cfg

/- Some score is finite before the patience is over. -/
def Scores : Prop :=
  trainer.HasScore cfg loader ∧
    ∃ e < min (missesAllowed cfg)
        (epochsOf cfg override).toNat,
      (trainer.epochScore cfg override loader e).isSome = true

variable [IsStrictOrderedRing 𝕜]

theorem breaksOnMiss_iff
    (patience : ℤ)
    (missed : ℕ) :
    breaksOnMiss (decide (missed = 0)) (patience - missed) =
        true ↔
      (max patience 1).toNat ≤ missed := by
  unfold breaksOnMiss
  simp only [Bool.and_eq_true, Bool.not_eq_eq_eq_not,
    Bool.not_true, decide_eq_false_iff_not, decide_eq_true_eq]
  omega

theorem trainOneSeed_outcome :
    match trainer.trainOneSeed cfg override loader with
    | .ok t =>
        trainer.Scores cfg override loader ∧
          trainer.KeepsBest cfg override loader t
    | .error _ => ¬ trainer.Scores cfg override loader := by
  unfold trainOneSeed
  dsimp only
  by_cases hKnown : metricOf cfg ∈ validDynamicsSelection
  swap
  · rw [if_pos hKnown]
    intro hScores
    exact hKnown hScores.1.1
  rw [if_neg (not_not.mpr hKnown)]
  by_cases hHas : trainer.HasScore cfg loader
  swap
  · cases hEpochs : (epochsOf cfg override).toNat with
    | zero =>
        intro hScores
        exact hHas hScores.1
    | succ n =>
        rcases trainer.exists_error_of_noRows cfg override
          loader hKnown hHas with ⟨e, hRaises⟩
        rw [tryStopLoop_error hRaises]
        intro hScores
        exact hHas hScores.1
  · have hTol : (0 : 𝕜) ≤ dynamicsTolerance := by
      unfold dynamicsTolerance
      positivity
    have hFew : 1 ≤ missesAllowed cfg := by
      unfold missesAllowed
      omega
    have hBreaks :
        ∀ n,
          breaksAt dynamicsTolerance cfg.patience breaksOnMiss
              (trainer.dynamicsEpoch cfg override loader)
              (scoreOf cfg) trainer.begin (n + 1) = true ↔
            missesAllowed cfg ≤
              misses dynamicsTolerance
                (trainer.epochScore cfg override loader)
                (n + 1) :=
      fun n => breaksOnMiss_iff cfg.patience _
    have hKeeps :=
      stopLoop_keepsBest trainer.copyOf hTol trainer.begin
        hFew hBreaks (epochsOf cfg override).toNat
    have hSome :=
      isSome_stopLoop trainer.copyOf hTol trainer.begin hFew
        hBreaks (epochsOf cfg override).toNat
    rw [tryStopLoop_ok (scoreOf cfg)
      (trainer.dynamicsSelectionScore_of_hasScore cfg override
        loader hHas)]
    revert hKeeps hSome
    generalize
      stopLoop dynamicsTolerance cfg.patience breaksOnMiss
        (trainer.dynamicsEpoch cfg override loader)
        (scoreOf cfg) trainer.copyOf
        (epochsOf cfg override).toNat 0
        { state := trainer.begin
          left := cfg.patience } = result
    intro hKeeps hSome
    rcases result with ⟨run, s⟩
    rcases hKeeps with
      ⟨hWithin, hState, hKept, hPatient, hStopped⟩
    dsimp only at hWithin hSome hState hKept hPatient hStopped
    dsimp only [bind, Except.bind]
    cases hBest : s.best with
    | none =>
        rw [hBest] at hSome
        intro hScores
        cases hSome.mpr hScores.2
    | some kept =>
        rcases kept with ⟨score, e, copied⟩
        rw [hBest] at hSome hKept hPatient hStopped
        rcases hKept with ⟨hIs, hCopied⟩
        have hHistory :
            s.state.history =
              (List.range run).map
                (trainer.recordAt cfg override loader) := by
          rw [hState]
          exact trainer.history_epochState cfg override loader
            run
        have hLength : s.state.history.length = run := by
          rw [hHistory, List.length_map, List.length_range]
        refine ⟨⟨hHas, hSome.mp rfl⟩, ?_⟩
        exact
          { best := by
              rw [hLength]
              exact hIs
            weights := congrArg Prod.fst hCopied
            metrics := congrArg Prod.snd hCopied
            history := by
              rw [hLength]
              exact hHistory
            within := by
              rw [hLength]
              exact hWithin
            patient := by
              rw [hLength]
              exact hPatient
            stopped := by
              rw [hLength]
              exact hStopped }

/-
  Weights are written exactly when some score is finite before
  the patience is over, and then they are those of the best
  epoch.
-/
theorem trainOneSeed_keepsBest :
    ((∃ t, trainer.trainOneSeed cfg override loader = .ok t) ↔
        trainer.Scores cfg override loader) ∧
      ∀ t, trainer.trainOneSeed cfg override loader = .ok t →
        trainer.KeepsBest cfg override loader t := by
  have hOutcome :=
    trainer.trainOneSeed_outcome cfg override loader
  revert hOutcome
  generalize
    trainer.trainOneSeed cfg override loader = result
  intro hOutcome
  cases result with
  | error e =>
      refine ⟨⟨?_, ?_⟩, ?_⟩
      · rintro ⟨t, hOk⟩
        cases hOk
      · intro hScores
        exact absurd hScores hOutcome
      · intro t hOk
        cases hOk
  | ok t =>
      refine ⟨⟨fun _ => hOutcome.1, fun _ => ⟨t, rfl⟩⟩, ?_⟩
      intro t' hOk
      cases hOk
      exact hOutcome.2

end DynamicsTrainer

/- Training that is better once, and then no more. -/
def betterOnce : DynamicsTrainer ℕ ℕ Unit ℚ 1 :=
  { start := 0
    trainEpoch := fun _ n => (some 1, n + 1)
    batchRows := fun _ => 1
    scoreBatch := fun n _ =>
      let score : Option ℚ := some (if n = 2 then 1 else 3)
      ((score,
        { nll := fun _ => score
          mse := fun _ => score
          msePersistence := fun _ => score
          coverage90 := fun _ => score }), n)
    stateDict := fun n => n }

def twoMore : DynamicsConfig ℚ :=
  { epochs := 10
    patience := 2
    startP := 1
    endP := 0
    annealFraction := 1 / 2 }

/- The second epoch is kept, and two more are trained. -/
theorem trainOneSeed_keepsBest_betterOnce :
    (betterOnce.trainOneSeed twoMore none [()]).toOption.map
        (fun t => (t.weights, t.history.length)) =
      some (2, 4) ∧
    ((∃ t,
          betterOnce.trainOneSeed twoMore none [()] =
            .ok t) ↔
        betterOnce.Scores twoMore none [()]) ∧
      ∀ t,
        betterOnce.trainOneSeed twoMore none [()] = .ok t →
          betterOnce.KeepsBest twoMore none [()] t :=
  ⟨by decide +kernel,
    betterOnce.trainOneSeed_keepsBest twoMore none [()]⟩

end Training

end Nidra
