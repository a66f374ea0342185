import Nidra.Lib.EarlyStop
import Nidra.Training.Epochs
import Nidra.Training.Validation

/-
  This file defines the training of the heads on frozen
  dynamics, where the risk head and the stage head are each
  kept at an epoch of their own, and proves what is written,
  and that training once more over what was written changes
  nothing.

  Key definitions include:
    * `macroF1`, `headSelectionScore`
    * `headsEpoch`, `trainHeadsForSeed`
    * `SelectsHeads`

  Main declarations:
    * `trainHeadsForSeed_selects`
    * `trainHeadsForSeed_again`
-/

namespace Nidra

namespace Training

------------------------------------------------------------
-- Macro F1
------------------------------------------------------------

section Scores

variable {𝕜 : Type}
variable [Field 𝕜]

/- How often a class is met, and missed in either way. -/
def truePositives (yTrue yPred : List ℕ) (c : ℕ) : ℕ :=
  (yPred.zip yTrue).countP (fun y => y.1 = c ∧ y.2 = c)

def falsePositives (yTrue yPred : List ℕ) (c : ℕ) : ℕ :=
  (yPred.zip yTrue).countP (fun y => y.1 = c ∧ y.2 ≠ c)

def falseNegatives (yTrue yPred : List ℕ) (c : ℕ) : ℕ :=
  (yPred.zip yTrue).countP (fun y => y.1 ≠ c ∧ y.2 = c)

/- The score of a class that is known or predicted. -/
def classF1
    (yTrue yPred : List ℕ)
    (c : ℕ) : Option 𝕜 :=
  let tp := truePositives yTrue yPred c
  let fp := falsePositives yTrue yPred c
  let fn := falseNegatives yTrue yPred c
  if tp + fp + fn = 0 then none
  else if tp = 0 then some 0
  else
    some
      ((2 * tp : ℕ) / ((2 * tp + fp + fn : ℕ) : 𝕜))

def macroF1
    (yTrue yPred : List ℕ)
    (nClasses : ℕ) : Option 𝕜 :=
  let f1s := (List.range nClasses).filterMap
    (classF1 yTrue yPred)
  if f1s = [] then none else some (average f1s)

/- How often the stage of an attack is met. -/
def stageAccOnAttacks
    (yTrue yPred : List ℕ) : Option 𝕜 :=
  let attacks :=
    (yPred.zip yTrue).filter (fun y => y.2 ≠ 0)
  if attacks = [] then none
  else
    some
      ((attacks.countP (fun y => y.1 = y.2) : ℕ) /
        ((attacks.length : ℕ) : 𝕜))

end Scores

------------------------------------------------------------
-- Selection
------------------------------------------------------------

inductive HeadsError where
  | fileNotFound
  | missingParameters (names : List String)
  | unfittingParameters (names : List String)
  | misalignedContext
  | unknownSampling (sampling : String)
  | unknownMetric (metric : String)
  | zeroBatchSize
deriving DecidableEq, Repr

def validSelectionMetrics : List String :=
  ["val_auc_pr", "val_auc_pr_natural", "weighted_val_loss"]

def validSampling : List String :=
  ["imbalanced", "balanced"]

/- What an epoch is validated to, and what its losses were. -/
structure HeadRecord (𝕜 : Type) where
  trainRiskLoss : Option 𝕜 := none
  trainStageLoss : Option 𝕜 := none
  valRiskLoss : Option 𝕜 := none
  valStageLoss : Option 𝕜 := none
  valAucPr : Option 𝕜 := none
  valAucPrNatural : Option 𝕜 := none
  valStageAccOnAttacks : Option 𝕜 := none
  valStageMacroF1 : Option 𝕜 := none

section Selection

variable {𝕜 : Type}
variable [Field 𝕜]

def HeadRecord.valLoss
    (record : HeadRecord 𝕜) : Option 𝕜 := do
  let risk ← record.valRiskLoss
  let stage ← record.valStageLoss
  return risk + stage

/- The score of a head, lower ones being better. -/
def headSelectionScore
    (valLoss valAucPr : Option 𝕜)
    (metric : String) : Except HeadsError (Option 𝕜) :=
  if metric = "val_auc_pr" ∨ metric = "val_auc_pr_natural" then
    .ok (valAucPr.map (fun x => -x))
  else if metric = "weighted_val_loss" then .ok valLoss
  else .error (.unknownMetric metric)

/- The risk loss takes the place of a score that is not finite. -/
def riskScore
    (record : HeadRecord 𝕜)
    (metric : String) : Except HeadsError (Option 𝕜) := do
  let value :=
    if metric = "val_auc_pr_natural" then
      record.valAucPrNatural
    else record.valAucPr
  let score ← headSelectionScore record.valLoss value metric
  return score.or record.valRiskLoss

def stageScore (record : HeadRecord 𝕜) : Option 𝕜 :=
  (record.valStageMacroF1.map (fun x => -x)).or
    record.valStageLoss

end Selection

------------------------------------------------------------
-- Training
------------------------------------------------------------

/- The tensors of a model, by name. -/
abbrev StateDict (T : Type) := String → Option T

/- The parameters of the encoder and of the transition. -/
def isDynamics (name : String) : Bool :=
  "encoder.".toList.isPrefixOf name.toList ||
    "transition.".toList.isPrefixOf name.toList

/-
  What is trained: heads, with their optimisers and what was
  computed with the frozen dynamics. Both heads start anew.
-/
structure HeadsTrainer (T τ θ φ 𝕜 : Type) where
  modelKeys : List String
  -- Whether a tensor has the shape of the parameter.
  fits : String → T → Bool
  begin : StateDict T → τ
  trainBatch : τ → List ℕ → (Option 𝕜 × Option 𝕜) × τ
  riskLoss : τ → Option 𝕜
  stageLoss : τ → Option 𝕜
  aucPr : τ → 𝕜
  aucPrNatural : τ → 𝕜
  stagePred : τ → List ℕ
  riskHead : τ → θ
  stageHead : τ → φ
  headTensors : θ → φ → StateDict T

/-
  The rows that are trained on and validated with. A head of
  trajectories has rows of context of its own for both; here
  is how many.
-/
structure HeadsData where
  train : List EpochRow
  riskVal : List ℤ
  stageVal : List ℕ
  nClasses : ℕ
  context : Option (ℕ × ℕ) := none

def HeadsData.Aligned (data : HeadsData) : Prop :=
  ∀ rows ∈ data.context,
    rows = (data.train.length, data.riskVal.length)

instance (data : HeadsData) : Decidable data.Aligned :=
  inferInstanceAs
    (Decidable (∀ rows ∈ data.context, rows = _))

structure HeadsConfig where
  epochs : ℤ
  patience : ℤ
  batchSize : ℤ
  riskSampling : Option String := none
  selectionMetric : Option String := none
  recipe : EpochRecipe

structure HeadsState (τ φ G 𝕜 : Type) where
  trained : τ
  rng : G
  record : HeadRecord 𝕜 := {}
  bestStage : Option (𝕜 × ℕ × φ) := none
  history : List (HeadRecord 𝕜) := []

/- What is written for a seed. -/
structure TrainedHeads (T θ φ 𝕜 : Type) where
  weights : StateDict T
  bestRisk : Option (𝕜 × ℕ × θ × HeadRecord 𝕜)
  bestStage : Option (𝕜 × ℕ × φ)
  history : List (HeadRecord 𝕜)

def HeadsConfig.sampling (cfg : HeadsConfig) : String :=
  cfg.riskSampling.getD "imbalanced"

def HeadsConfig.metric (cfg : HeadsConfig) : String :=
  cfg.selectionMetric.getD "val_auc_pr_natural"

namespace HeadsTrainer

variable {T τ θ φ G 𝕜 : Type}
variable [Field 𝕜]
variable (trainer : HeadsTrainer T τ θ φ 𝕜)

/- Train on the batches of an epoch in order. -/
def trainBatches :
    List (List ℕ) → τ →
      (List (Option 𝕜) × List (Option 𝕜)) × τ
  | [], s => (([], []), s)
  | batch :: rest, s =>
      let (losses, s') := trainer.trainBatch s batch
      let (others, s'') := trainBatches rest s'
      ((losses.1 :: others.1, losses.2 :: others.2), s'')

/- A step below zero goes through no rows. -/
def epochBatches
    (batchSize : ℤ)
    (order : List ℕ) : List (List ℕ) :=
  if 0 < batchSize then batches batchSize.toNat order
  else []

variable (g : Generator G)
variable (cfg : HeadsConfig)
variable (data : HeadsData)

/- The rows of an epoch, in the order of training. -/
def epochOrder (rng : G) : List ℕ × G :=
  if cfg.sampling = "balanced" then
    balancedEpochIndices data.train cfg.recipe g rng
  else g.permute rng data.train.length

/- Average precision needs two classes. -/
def twoClass : Bool :=
  1 < data.riskVal.eraseDups.length

def recordOf
    (losses : List (Option 𝕜) × List (Option 𝕜))
    (s : τ) : HeadRecord 𝕜 :=
  { trainRiskLoss := finiteMean losses.1
    trainStageLoss := finiteMean losses.2
    valRiskLoss := trainer.riskLoss s
    valStageLoss := trainer.stageLoss s
    valAucPr :=
      if twoClass data then some (trainer.aucPr s) else none
    valAucPrNatural :=
      if twoClass data then some (trainer.aucPrNatural s)
      else none
    valStageAccOnAttacks :=
      stageAccOnAttacks data.stageVal (trainer.stagePred s)
    valStageMacroF1 :=
      macroF1 data.stageVal (trainer.stagePred s)
        data.nClasses }

variable [LinearOrder 𝕜]

/- A score counts as better by more than this. -/
def headTolerance : 𝕜 :=
  1 / 100000

/- One epoch: train, validate, keep a better stage head. -/
def headsEpoch
    (epoch : ℕ)
    (s : HeadsState τ φ G 𝕜) : HeadsState τ φ G 𝕜 :=
  let order := epochOrder g cfg data s.rng
  let trained :=
    trainer.trainBatches
      (epochBatches cfg.batchSize order.1)
      s.trained
  let record := trainer.recordOf data trained.1 trained.2
  { trained := trained.2
    rng := order.2
    record := record
    bestStage :=
      keepNext headTolerance s.bestStage (stageScore record)
        epoch (trainer.stageHead trained.2)
    history := s.history ++ [record] }

/- The loop breaks as soon as nothing more is tolerated. -/
def breaksOut (_improved : Bool) (left : ℤ) : Bool :=
  left ≤ 0

/- The risk head and its record, as they are copied. -/
def riskCopy
    (s : HeadsState τ φ G 𝕜) : θ × HeadRecord 𝕜 :=
  (trainer.riskHead s.trained, s.record)

/- The names of the dynamics that a checkpoint must have. -/
def dynamicsKeys : List String :=
  trainer.modelKeys.filter isDynamics

/- What is read of a checkpoint. -/
def dynamicsOf (checkpoint : StateDict T) : StateDict T :=
  fun name => if isDynamics name then checkpoint name else none

def missingKeys (checkpoint : StateDict T) : List String :=
  trainer.dynamicsKeys.filter
    (fun name => (dynamicsOf checkpoint name).isNone)

/- Tensors of another shape are refused. -/
def unfittingKeys (checkpoint : StateDict T) : List String :=
  trainer.dynamicsKeys.filter
    (fun name =>
      (dynamicsOf checkpoint name).any
        (fun tensor => !trainer.fits name tensor))

/- Names that the model does not have are not loaded. -/
def loaded (checkpoint : StateDict T) : StateDict T :=
  fun name =>
    if name ∈ trainer.modelKeys then
      dynamicsOf checkpoint name
    else none

/- The tensors of the model with its heads. -/
def stateDict
    (dynamics : StateDict T)
    (risk : θ)
    (stage : φ) : StateDict T :=
  fun name =>
    if name ∈ trainer.modelKeys then
      if isDynamics name then dynamics name
      else trainer.headTensors risk stage name
    else none

/- The state before the first epoch. -/
def start
    (rng : G)
    (checkpoint : StateDict T) : HeadsState τ φ G 𝕜 :=
  { trained := trainer.begin (trainer.loaded checkpoint)
    rng := rng }

/-
  The model with the heads that were kept, or the last ones
  where no score was finite.
-/
def written
    (checkpoint : StateDict T)
    (s :
      Stopping 𝕜 (HeadsState τ φ G 𝕜)
        (θ × HeadRecord 𝕜)) : TrainedHeads T θ φ 𝕜 :=
  let risk :=
    match s.best with
    | none => trainer.riskHead s.state.trained
    | some best => best.2.2.1
  let stage :=
    match s.state.bestStage with
    | none => trainer.stageHead s.state.trained
    | some best => best.2.2
  { weights :=
      trainer.stateDict (trainer.loaded checkpoint) risk stage
    bestRisk := s.best
    bestStage := s.state.bestStage
    history := s.state.history }

/-
  The first error of a checkpoint and a recipe. A batch size
  of zero raises in the first epoch, before anything is
  written.
-/
def refusal (checkpoint : StateDict T) : Option HeadsError :=
  if trainer.missingKeys checkpoint ≠ [] then
    some
      (.missingParameters
        ((trainer.missingKeys checkpoint).mergeSort
          (fun a b => decide (a ≤ b))))
  else if trainer.unfittingKeys checkpoint ≠ [] then
    some
      (.unfittingParameters
        (trainer.unfittingKeys checkpoint))
  else if ¬ data.Aligned then some .misalignedContext
  else if cfg.sampling ∉ validSampling then
    some (.unknownSampling cfg.sampling)
  else if cfg.metric ∉ validSelectionMetrics then
    some (.unknownMetric cfg.metric)
  else if 0 < cfg.epochs ∧ cfg.batchSize = 0 then
    some .zeroBatchSize
  else none

/- Train the heads on the dynamics of a checkpoint. -/
def trainHeadsForSeed
    (rng : G)
    (file : Option (StateDict T)) :
    Except HeadsError (TrainedHeads T θ φ 𝕜) :=
  match file with
  | none => .error .fileNotFound
  | some checkpoint =>
      match trainer.refusal cfg data checkpoint with
      | some error => .error error
      | none => do
          let (_, s) ←
            tryStopLoop headTolerance cfg.patience breaksOut
              (trainer.headsEpoch g cfg data)
              (fun s => riskScore s.record cfg.metric)
              trainer.riskCopy cfg.epochs.toNat 0
              { state := trainer.start rng checkpoint
                left := cfg.patience }
          return trainer.written checkpoint s

------------------------------------------------------------
-- The epochs of a run
------------------------------------------------------------

variable (rng : G)
variable (checkpoint : StateDict T)

/- What there is after so many epochs, if none stops it. -/
def epochState (n : ℕ) : HeadsState τ φ G 𝕜 :=
  stateAt (trainer.headsEpoch g cfg data)
    (trainer.start rng checkpoint) n

/- What would be noted of an epoch. -/
def recordAt (epoch : ℕ) : HeadRecord 𝕜 :=
  (trainer.epochState g cfg data rng checkpoint
    (epoch + 1)).record

/- The score that a risk head is kept by. -/
def riskScoreOf (record : HeadRecord 𝕜) : Option 𝕜 :=
  match riskScore record cfg.metric with
  | .ok score => score
  | .error _ => none

def riskScoreAt (epoch : ℕ) : Option 𝕜 :=
  riskScoreOf cfg
    (trainer.recordAt g cfg data rng checkpoint epoch)

def stageScoreAt (epoch : ℕ) : Option 𝕜 :=
  stageScore
    (trainer.recordAt g cfg data rng checkpoint epoch)

/- The heads after so many epochs. -/
def riskHeadAt (n : ℕ) : θ :=
  trainer.riskHead
    (trainer.epochState g cfg data rng checkpoint n).trained

def stageHeadAt (n : ℕ) : φ :=
  trainer.stageHead
    (trainer.epochState g cfg data rng checkpoint n).trained

theorem history_epochState (n : ℕ) :
    (trainer.epochState g cfg data rng checkpoint n).history =
      (List.range n).map
        (trainer.recordAt g cfg data rng checkpoint) := by
  induction n with
  | zero => rfl
  | succ n ih =>
      rw [List.range_succ, List.map_append, ← ih]
      rfl

/- The stage head is kept by its own scores. -/
theorem bestStage_epochState (n : ℕ) :
    (trainer.epochState g cfg data rng checkpoint
        n).bestStage =
      keptCopy headTolerance
        (trainer.stageScoreAt g cfg data rng checkpoint)
        (trainer.stageHeadAt g cfg data rng checkpoint) n := by
  induction n with
  | zero => rfl
  | succ n ih =>
      rw [← keepNext_keptCopy, ← ih]
      rfl

omit [LinearOrder 𝕜] in
theorem riskScore_of_valid
    (hKnown : cfg.metric ∈ validSelectionMetrics)
    (record : HeadRecord 𝕜) :
    riskScore record cfg.metric =
      .ok (riskScoreOf cfg record) := by
  have hOk :
      ∃ score, riskScore record cfg.metric = .ok score := by
    simp only [validSelectionMetrics, List.mem_cons,
      List.not_mem_nil, or_false] at hKnown
    unfold riskScore headSelectionScore
    rcases hKnown with hMetric | hMetric | hMetric
    · rw [hMetric]
      exact ⟨_, rfl⟩
    · rw [hMetric]
      exact ⟨_, rfl⟩
    · rw [hMetric]
      exact ⟨_, rfl⟩
  rcases hOk with ⟨score, hScore⟩
  unfold riskScoreOf
  rw [hScore]

------------------------------------------------------------
-- What is written
------------------------------------------------------------

/-
  Each head is of the best epoch by its own scores, of the
  epochs that were trained, or the last where no score was
  finite; how many these are is up to the risk head alone.
  The dynamics are those of the checkpoint.
-/
structure SelectsHeads
    (t : TrainedHeads T θ φ 𝕜) : Prop where
  history :
    t.history =
      (List.range t.history.length).map
        (trainer.recordAt g cfg data rng checkpoint)
  risk :
    CopyKept headTolerance
      (trainer.riskScoreAt g cfg data rng checkpoint)
      (fun n =>
        trainer.riskCopy
          (trainer.epochState g cfg data rng checkpoint n))
      t.history.length t.bestRisk
  stage :
    CopyKept headTolerance
      (trainer.stageScoreAt g cfg data rng checkpoint)
      (trainer.stageHeadAt g cfg data rng checkpoint)
      t.history.length t.bestStage
  within : t.history.length ≤ cfg.epochs.toNat
  patient :
    t.history.length ≤
      upToBest (t.bestRisk.map (fun b => b.2.1)) +
        cfg.patience.toNat
  stopped :
    t.history.length < cfg.epochs.toNat →
      t.history.length =
        upToBest (t.bestRisk.map (fun b => b.2.1)) +
          cfg.patience.toNat
  dynamics :
    ∀ name ∈ trainer.dynamicsKeys,
      t.weights name = checkpoint name ∧
        (checkpoint name).isSome = true
  heads :
    ∀ name ∈ trainer.modelKeys, isDynamics name = false →
      t.weights name =
        trainer.headTensors
          ((t.bestRisk.map (fun b => b.2.2.1)).getD
            (trainer.riskHeadAt g cfg data rng checkpoint
              t.history.length))
          ((t.bestStage.map (fun b => b.2.2)).getD
            (trainer.stageHeadAt g cfg data rng checkpoint
              t.history.length)) name

/-
  When the heads are trained at all: the checkpoint has all
  of the dynamics in their shapes, the rows of context are
  those of the data, the recipe is known, and there is no
  epoch that goes through its rows by steps of zero.
-/
structure Accepts
    (file : Option (StateDict T)) : Prop where
  complete :
    ∃ checkpoint ∈ file,
      trainer.missingKeys checkpoint = [] ∧
        trainer.unfittingKeys checkpoint = []
  aligned : data.Aligned
  sampling : cfg.sampling ∈ validSampling
  metric : cfg.metric ∈ validSelectionMetrics
  steps : 0 < cfg.epochs → cfg.batchSize ≠ 0

/- What the loop has when it is left. -/
def loopResult :
    ℕ × Stopping 𝕜 (HeadsState τ φ G 𝕜) (θ × HeadRecord 𝕜) :=
  stopLoop headTolerance cfg.patience breaksOut
    (trainer.headsEpoch g cfg data)
    (fun s => riskScoreOf cfg s.record) trainer.riskCopy
    cfg.epochs.toNat 0
    { state := trainer.start rng checkpoint
      left := cfg.patience }

omit [Field 𝕜] [LinearOrder 𝕜] in
/- No error is left exactly where all of this holds. -/
theorem accepts_some_iff :
    trainer.Accepts cfg data (some checkpoint) ↔
      trainer.refusal cfg data checkpoint = none := by
  unfold refusal
  constructor
  · intro hAccepts
    rcases hAccepts.complete with
      ⟨_, hIs, hMissing, hFits⟩
    cases hIs
    rw [if_neg (not_not.mpr hMissing),
      if_neg (not_not.mpr hFits),
      if_neg (not_not.mpr hAccepts.aligned),
      if_neg (not_not.mpr hAccepts.sampling),
      if_neg (not_not.mpr hAccepts.metric),
      if_neg (fun h => hAccepts.steps h.1 h.2)]
  · intro hNone
    split_ifs at hNone with hMissing hFits hAligned hSampling
      hMetric hSteps
    exact
      { complete :=
          ⟨checkpoint, rfl, not_not.mp hMissing,
            not_not.mp hFits⟩
        aligned := hAligned
        sampling := hSampling
        metric := hMetric
        steps := fun hEpochs hZero =>
          hSteps ⟨hEpochs, hZero⟩ }

theorem trainHeadsForSeed_some :
    trainer.trainHeadsForSeed g cfg data rng
        (some checkpoint) =
      match trainer.refusal cfg data checkpoint with
      | some error => .error error
      | none =>
          .ok
            (trainer.written checkpoint
              (trainer.loopResult g cfg data rng
                checkpoint).2) := by
  unfold trainHeadsForSeed
  dsimp only
  cases hNone : trainer.refusal cfg data checkpoint with
  | some error => rfl
  | none =>
      have hKnown :=
        ((trainer.accepts_some_iff cfg data checkpoint).mpr
          hNone).metric
      dsimp only
      rw [tryStopLoop_ok
        (fun s : HeadsState τ φ G 𝕜 =>
          riskScoreOf cfg s.record)
        (fun _ _ => riskScore_of_valid cfg hKnown _)]
      rfl

theorem trainHeadsForSeed_ok_iff
    {t : TrainedHeads T θ φ 𝕜} :
    trainer.trainHeadsForSeed g cfg data rng
          (some checkpoint) =
        .ok t ↔
      trainer.Accepts cfg data (some checkpoint) ∧
        t =
          trainer.written checkpoint
            (trainer.loopResult g cfg data rng
              checkpoint).2 := by
  rw [trainHeadsForSeed_some, accepts_some_iff]
  cases trainer.refusal cfg data checkpoint with
  | some error => simp
  | none => simp [eq_comm]

omit [Field 𝕜] [LinearOrder 𝕜] in
theorem breaksOut_iff
    {patience : ℤ}
    (hPatience : 1 ≤ patience)
    (improved : Bool)
    (missed : ℕ) :
    breaksOut improved (patience - missed) = true ↔
      patience.toNat ≤ missed := by
  unfold breaksOut
  rw [decide_eq_true_eq]
  omega

omit [Field 𝕜] [LinearOrder 𝕜] in
theorem dynamics_written
    (hMissing : trainer.missingKeys checkpoint = [])
    (s :
      Stopping 𝕜 (HeadsState τ φ G 𝕜) (θ × HeadRecord 𝕜))
    {name : String}
    (hName : name ∈ trainer.dynamicsKeys) :
    (trainer.written checkpoint s).weights name =
        checkpoint name ∧
      (checkpoint name).isSome = true := by
  rcases List.mem_filter.mp hName with ⟨hKey, hIs⟩
  constructor
  · simp [written, stateDict, loaded, dynamicsOf, hKey, hIs]
  · have hThere :=
      List.filter_eq_nil_iff.mp hMissing name hName
    simpa [dynamicsOf, hIs, ← Option.isSome_iff_ne_none]
      using hThere

omit [Field 𝕜] [LinearOrder 𝕜] in
/- Without a best epoch, the heads are those of the last. -/
theorem heads_written
    (s :
      Stopping 𝕜 (HeadsState τ φ G 𝕜) (θ × HeadRecord 𝕜))
    {name : String}
    (hKey : name ∈ trainer.modelKeys)
    (hNot : isDynamics name = false) :
    (trainer.written checkpoint s).weights name =
      trainer.headTensors
        ((s.best.map (fun b => b.2.2.1)).getD
          (trainer.riskHead s.state.trained))
        ((s.state.bestStage.map (fun b => b.2.2)).getD
          (trainer.stageHead s.state.trained)) name := by
  unfold written stateDict
  dsimp only
  rw [if_pos hKey, hNot, if_neg Bool.false_ne_true]
  cases s.best <;> cases s.state.bestStage <;> rfl

variable [IsStrictOrderedRing 𝕜]

theorem selects_written
    (hPatience : 1 ≤ cfg.patience)
    (hMissing : trainer.missingKeys checkpoint = []) :
    trainer.SelectsHeads g cfg data rng checkpoint
      (trainer.written checkpoint
        (trainer.loopResult g cfg data rng
          checkpoint).2) := by
  have hTol : (0 : 𝕜) ≤ headTolerance := by
    unfold headTolerance
    positivity
  have hFew : 1 ≤ cfg.patience.toNat := by omega
  have hBreaks :
      ∀ n,
        breaksAt headTolerance cfg.patience breaksOut
            (trainer.headsEpoch g cfg data)
            (fun s => riskScoreOf cfg s.record)
            (trainer.start rng checkpoint) (n + 1) = true ↔
          cfg.patience.toNat ≤
            misses headTolerance
              (trainer.riskScoreAt g cfg data rng checkpoint)
              (n + 1) :=
    fun n => breaksOut_iff hPatience true _
  have hKeeps :=
    stopLoop_keepsBest trainer.riskCopy hTol
      (trainer.start rng checkpoint) hFew hBreaks
      cfg.epochs.toNat
  unfold loopResult
  revert hKeeps
  generalize
    stopLoop headTolerance cfg.patience breaksOut
      (trainer.headsEpoch g cfg data)
      (fun s => riskScoreOf cfg s.record) trainer.riskCopy
      cfg.epochs.toNat 0
      { state := trainer.start rng checkpoint
        left := cfg.patience } = result
  intro hKeeps
  rcases result with ⟨run, s⟩
  rcases hKeeps with
    ⟨hWithin, hState, hRisk, hPatient, hStopped⟩
  dsimp only at hWithin hState hRisk hPatient hStopped ⊢
  have hEpochs :
      s.state =
        trainer.epochState g cfg data rng checkpoint run :=
    hState
  have hHistory :
      s.state.history =
        (List.range run).map
          (trainer.recordAt g cfg data rng checkpoint) := by
    rw [hEpochs]
    exact trainer.history_epochState g cfg data rng checkpoint
      run
  have hLength :
      (trainer.written checkpoint s).history.length = run := by
    unfold written
    dsimp only
    rw [hHistory, List.length_map, List.length_range]
  have hStage :
      s.state.bestStage =
        keptCopy headTolerance
          (trainer.stageScoreAt g cfg data rng checkpoint)
          (trainer.stageHeadAt g cfg data rng checkpoint)
          run := by
    rw [hEpochs]
    exact trainer.bestStage_epochState g cfg data rng
      checkpoint run
  exact
    { history := by
        rw [hLength]
        exact hHistory
      risk := by
        rw [hLength]
        exact hRisk
      stage := by
        rw [hLength]
        unfold written
        dsimp only
        rw [hStage]
        exact copyKept_keptCopy hTol _ _ run
      within := by
        rw [hLength]
        exact hWithin
      patient := by
        rw [hLength]
        exact hPatient
      stopped := by
        rw [hLength]
        exact hStopped
      dynamics := fun name hName =>
        trainer.dynamics_written checkpoint hMissing s hName
      heads := by
        intro name hKey hNot
        have hRiskHead :
            trainer.riskHead s.state.trained =
              trainer.riskHeadAt g cfg data rng checkpoint
                run := by
          rw [hEpochs]
          rfl
        have hStageHead :
            trainer.stageHead s.state.trained =
              trainer.stageHeadAt g cfg data rng checkpoint
                run := by
          rw [hEpochs]
          rfl
        have hHeads :=
          trainer.heads_written checkpoint s hKey hNot
        rw [hRiskHead, hStageHead] at hHeads
        rw [hLength]
        exact hHeads }

/-
  Heads are written exactly when the checkpoint and the recipe
  are accepted, and then each is of its own best epoch.
-/
theorem trainHeadsForSeed_selects
    (hPatience : 1 ≤ cfg.patience)
    (file : Option (StateDict T)) :
    ((∃ t,
          trainer.trainHeadsForSeed g cfg data rng file =
            .ok t) ↔
        trainer.Accepts cfg data file) ∧
      ∀ checkpoint t, file = some checkpoint →
        trainer.trainHeadsForSeed g cfg data rng file =
            .ok t →
          trainer.SelectsHeads g cfg data rng checkpoint
            t := by
  cases file with
  | none =>
      refine ⟨⟨?_, ?_⟩, ?_⟩
      · rintro ⟨t, hOk⟩
        cases hOk
      · intro hAccepts
        rcases hAccepts.complete with ⟨_, hIs, _⟩
        cases hIs
      · intro checkpoint t hIs
        cases hIs
  | some file =>
      constructor
      · simp only [trainHeadsForSeed_ok_iff, exists_and_left,
          exists_eq, and_true]
      · intro checkpoint t hIs hOk
        cases hIs
        rw [trainHeadsForSeed_ok_iff] at hOk
        rcases hOk with ⟨hAccepts, rfl⟩
        rcases hAccepts.complete with ⟨_, hIs, hMissing, _⟩
        cases hIs
        exact trainer.selects_written g cfg data rng file
          hPatience hMissing

------------------------------------------------------------
-- Once more
------------------------------------------------------------

omit [Field 𝕜] [LinearOrder 𝕜] [IsStrictOrderedRing 𝕜]

/- Only the dynamics of a checkpoint are read. -/
theorem loaded_congr
    {checkpoint other : StateDict T}
    (hSame :
      ∀ name ∈ trainer.dynamicsKeys,
        other name = checkpoint name) :
    trainer.loaded other = trainer.loaded checkpoint := by
  funext name
  unfold loaded dynamicsOf
  by_cases hKey : name ∈ trainer.modelKeys
  · rw [if_pos hKey, if_pos hKey]
    by_cases hIs : isDynamics name = true
    · rw [if_pos hIs, if_pos hIs]
      exact hSame name (List.mem_filter.mpr ⟨hKey, hIs⟩)
    · rw [if_neg hIs, if_neg hIs]
  · rw [if_neg hKey, if_neg hKey]

theorem unfittingKeys_congr
    {checkpoint other : StateDict T}
    (hSame :
      ∀ name ∈ trainer.dynamicsKeys,
        other name = checkpoint name) :
    trainer.unfittingKeys other =
      trainer.unfittingKeys checkpoint := by
  unfold unfittingKeys
  apply List.filter_congr
  intro name hName
  unfold dynamicsOf
  rw [hSame name hName]

theorem missingKeys_congr
    {checkpoint other : StateDict T}
    (hSame :
      ∀ name ∈ trainer.dynamicsKeys,
        other name = checkpoint name) :
    trainer.missingKeys other =
      trainer.missingKeys checkpoint := by
  unfold missingKeys
  apply List.filter_congr
  intro name hName
  unfold dynamicsOf
  rw [hSame name hName]

theorem refusal_congr
    {checkpoint other : StateDict T}
    (hSame :
      ∀ name ∈ trainer.dynamicsKeys,
        other name = checkpoint name) :
    trainer.refusal cfg data other =
      trainer.refusal cfg data checkpoint := by
  unfold refusal
  rw [trainer.missingKeys_congr hSame,
    trainer.unfittingKeys_congr hSame]

variable [Field 𝕜] [LinearOrder 𝕜]

theorem trainHeadsForSeed_congr
    {checkpoint other : StateDict T}
    (hSame :
      ∀ name ∈ trainer.dynamicsKeys,
        other name = checkpoint name) :
    trainer.trainHeadsForSeed g cfg data rng (some other) =
      trainer.trainHeadsForSeed g cfg data rng
        (some checkpoint) := by
  have hStart :
      trainer.start rng other =
        (trainer.start rng checkpoint :
          HeadsState τ φ G 𝕜) := by
    unfold start
    rw [trainer.loaded_congr hSame]
  have hLoop :
      trainer.loopResult g cfg data rng other =
        trainer.loopResult g cfg data rng checkpoint := by
    unfold loopResult
    rw [hStart]
  rw [trainHeadsForSeed_some, trainHeadsForSeed_some,
    trainer.refusal_congr cfg data hSame, hLoop]
  unfold written
  rw [trainer.loaded_congr hSame]

/-
  Whatever heads a checkpoint has, the heads that are trained
  on the dynamics that were written are the ones that were
  written; so training once more over them writes the same.
-/
theorem trainHeadsForSeed_again
    {t : TrainedHeads T θ φ 𝕜}
    (hOk :
      trainer.trainHeadsForSeed g cfg data rng
          (some checkpoint) =
        .ok t)
    {other : StateDict T}
    (hSame :
      ∀ name ∈ trainer.dynamicsKeys,
        other name = t.weights name) :
    trainer.trainHeadsForSeed g cfg data rng (some other) =
      .ok t := by
  have hTrained := hOk
  rw [trainHeadsForSeed_ok_iff] at hOk
  rcases hOk with ⟨hAccepts, rfl⟩
  rcases hAccepts.complete with ⟨_, hIs, hMissing, _⟩
  cases hIs
  rw [← hTrained]
  apply trainer.trainHeadsForSeed_congr
  intro name hName
  rw [hSame name hName]
  exact
    (trainer.dynamics_written checkpoint hMissing _ hName).1

end HeadsTrainer

/- A generator that leaves everything in its order. -/
def inOrder : Generator Unit :=
  { draw := fun _ n size => ((List.range n).take size, ())
    redraw := fun _ _ size => (List.replicate size 0, ())
    permute := fun _ n => (List.range n, ())
    draw_length := by
      intro _ n size hLe
      simp [hLe]
    draw_nodup := fun _ n size =>
      List.nodup_range.sublist (List.take_sublist size _)
    draw_lt := by
      intro _ n size i hMem
      exact List.mem_range.mp (List.mem_of_mem_take hMem)
    permute_perm := fun _ _ => List.Perm.refl _ }

/- The stage head is best first, the risk head one later. -/
def twoHeads : HeadsTrainer ℕ ℕ ℕ ℕ ℚ :=
  { modelKeys := ["encoder.w", "risk_head.w", "stage_head.w"]
    fits := fun _ tensor => decide (tensor < 100)
    begin := fun dynamics => (dynamics "encoder.w").getD 0
    trainBatch := fun s _ => ((some 1, some 1), s + 1)
    riskLoss := fun _ => some 1
    stageLoss := fun _ => some 1
    aucPr := fun _ => 1 / 2
    aucPrNatural := fun s => if s = 7 then 1 else 1 / 2
    stagePred := fun s => if s = 6 then [0, 1] else [0, 0]
    riskHead := fun s => s
    stageHead := fun s => s
    headTensors := fun risk stage name =>
      some (if name = "risk_head.w" then risk else stage) }

def twoRows : HeadsData :=
  { train :=
      [{ risk := 0
         active := true },
        { risk := 1
          active := true }]
    riskVal := [0, 1]
    stageVal := [0, 1]
    nClasses := 6 }

theorem repeats_once : 1 ≤ 1 := le_rfl

theorem half_nonneg : (0 : ℚ) ≤ 1 / 2 := by
  decide +kernel

theorem half_le_one : (1 / 2 : ℚ) ≤ 1 := by
  decide +kernel

def patienceOfTwo : HeadsConfig :=
  { epochs := 10
    patience := 2
    batchSize := 2
    recipe :=
      { posRepeat := 1
        negRatio := 1
        hardNegativeFraction := 1 / 2
        repeats := repeats_once
        fraction_nonneg := half_nonneg
        fraction_le_one := half_le_one } }

/- A checkpoint of dynamics, without heads. -/
def stageOne : StateDict ℕ :=
  fun name => if name = "encoder.w" then some 5 else none

/- What is trained on it. -/
def twoHeadsTrained : TrainedHeads ℕ ℕ ℕ ℚ :=
  twoHeads.written stageOne
    (twoHeads.loopResult inOrder patienceOfTwo twoRows ()
      stageOne).2

theorem accepts_stageOne :
    twoHeads.Accepts patienceOfTwo twoRows
      (some stageOne) :=
  (twoHeads.accepts_some_iff patienceOfTwo twoRows
    stageOne).mpr (by decide +kernel)

/- Four epochs, of which the heads are of the first two. -/
theorem trainHeadsForSeed_selects_twoHeads :
    (twoHeadsTrained.weights "risk_head.w",
        twoHeadsTrained.weights "stage_head.w",
        twoHeadsTrained.history.length) =
      (some 7, some 6, 4) ∧
    ((∃ t,
          twoHeads.trainHeadsForSeed inOrder patienceOfTwo
              twoRows () (some stageOne) =
            .ok t) ↔
        twoHeads.Accepts patienceOfTwo twoRows
          (some stageOne)) ∧
      ∀ checkpoint t, some stageOne = some checkpoint →
        twoHeads.trainHeadsForSeed inOrder patienceOfTwo
              twoRows () (some stageOne) =
            .ok t →
          twoHeads.SelectsHeads inOrder patienceOfTwo twoRows
            () checkpoint t :=
  ⟨by decide +kernel,
    twoHeads.trainHeadsForSeed_selects inOrder patienceOfTwo
      twoRows () (by decide) (some stageOne)⟩

/- Training over the four epochs once more. -/
theorem trainHeadsForSeed_again_twoHeads :
    twoHeads.trainHeadsForSeed inOrder patienceOfTwo twoRows
        () (some twoHeadsTrained.weights) =
      .ok twoHeadsTrained :=
  twoHeads.trainHeadsForSeed_again inOrder patienceOfTwo
    twoRows () stageOne
    ((twoHeads.trainHeadsForSeed_ok_iff inOrder patienceOfTwo
      twoRows () stageOne).mpr ⟨accepts_stageOne, rfl⟩)
    (fun _ _ => rfl)

end Training

end Nidra
