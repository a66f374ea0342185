import Nidra.Model.WorldModel
import Nidra.Schema

/-
  This file defines the what-if rollout, which holds one
  feature at a value while the model is simulated forward,
  and proves that it is the model's own forecast when no
  feature is held.

  Key definitions include:
    * `hold`
    * `counterfactualStep`, `counterfactualTrajectories`
    * `Curves`, `WhatIf`
    * `counterfactualRollout`

  Main declarations:
    * `counterfactualRollout_baseline`
-/

namespace Nidra

namespace Model

set_option linter.unusedSectionVars false

def counterfactualLabel : String := "model-internal what-if"

section Simulation

variable {ι κ M 𝕜 : Type}
variable [DecidableEq ι]
variable [Field 𝕜] [LinearOrder 𝕜] [ExpLog 𝕜]

------------------------------------------------------------
-- Holding a feature
------------------------------------------------------------

/- A state with one feature at a value, or as it is. -/
def hold
    (feature : Option ι)
    (clampValue : 𝕜)
    (state : Vec ι 𝕜) : Vec ι 𝕜 :=
  match feature with
  | none => state
  | some j => Function.update state j clampValue

/- The variables before the first step. -/
def counterfactualBegin
    (model : WorldModel ι κ M 𝕜)
    (feature : Option ι)
    (clampValue : 𝕜)
    (x : Window ι 𝕜) : Sim ι κ M 𝕜 :=
  let encoded := model.encoder.forward x none
  { hidden := encoded.1
    memory := encoded.2
    cur := hold feature clampValue x.current
    prev :=
      hold feature clampValue (x.previous.getD x.current)
    drawn := 0 }

/- One step, after which the feature is held again. -/
def counterfactualStep
    (model : WorldModel ι κ M 𝕜)
    (feature : Option ι)
    (clampValue : 𝕜)
    (stochastic : Bool)
    (noise : ℕ → Vec ι 𝕜)
    (_k : ℕ)
    (s : Sim ι κ M 𝕜) :
    RolloutStep ι κ 𝕜 × Sim ι κ M 𝕜 :=
  let predicted := model.transition.forward s.hidden s.cur s.prev
  let sampled :=
    WorldModel.sampled stochastic noise s.drawn
      (s.cur + predicted.1) predicted.2
  let nxt :=
    hold feature clampValue (model.clampState sampled.1)
  model.ingestStep s (model.maskState nxt)
    (model.maskState predicted.1)
    (model.maskLogvar predicted.2) sampled.2

/- The trajectories of every row while a feature is held. -/
def counterfactualTrajectories
    {B : ℕ}
    (model : WorldModel ι κ M 𝕜)
    (x : Fin B → Window ι 𝕜)
    (feature : Option ι)
    (clampValue : 𝕜)
    (K nSamples : ℕ)
    (stochastic : Bool)
    (noise : Noise ι 𝕜 B (samples nSamples)) :
    Except RolloutError
      (RolloutOutput ι κ 𝕜 B (samples nSamples) K) := do
  WorldModel.checkSteps K
  return fun b sample => {
    anchor := (x b).current
    steps := fun k =>
      loopOutput
        (counterfactualStep model feature clampValue stochastic
          (fun draw => noise draw b sample))
        (counterfactualBegin model feature clampValue (x b))
        k }

/- And the simulation is the rollout of the model. -/
theorem counterfactualTrajectories_none
    {B : ℕ}
    (model : WorldModel ι κ M 𝕜)
    (x : Fin B → Window ι 𝕜)
    (clampValue : 𝕜)
    (K nSamples : ℕ)
    (stochastic : Bool)
    (noise : Noise ι 𝕜 B (samples nSamples)) :
    counterfactualTrajectories model x none clampValue K
        nSamples stochastic noise =
      model.rollout x K nSamples stochastic .model noise := rfl

end Simulation

------------------------------------------------------------
-- What is returned
------------------------------------------------------------

section Curves

variable {ι κ M 𝕜 : Type}
variable [Field 𝕜] [LinearOrder 𝕜] [FloorSemiring 𝕜]
variable [ExpLog 𝕜]

/-
  The curves of a batch: mean risk and its band, the mean
  stages, and the mean state, at every horizon.
-/
structure Curves (ι 𝕜 : Type) (B K stages : ℕ) where
  riskMeanK : Fin B → Fin K → 𝕜
  riskCiLowK : Fin B → Fin K → 𝕜
  riskCiHighK : Fin B → Fin K → 𝕜
  stageMeanK : Fin B → Fin K → Fin stages → 𝕜
  predictedStatesMean : Fin B → Fin K → Vec ι 𝕜

/- The curves of scored trajectories. -/
def curves
    {B S K : ℕ}
    (model : WorldModel ι κ M 𝕜)
    (out : RolloutOutput ι κ 𝕜 B S K) :
    Curves ι 𝕜 B K model.stageHead.stages :=
  let scores := model.scoreTrajectory out
  let riskOf := fun b k =>
    List.ofFn (fun sample => scores.risk b sample k)
  { riskMeanK := fun b k => average (riskOf b k)
    riskCiLowK := fun b k => quantile (5 / 100) (riskOf b k)
    riskCiHighK := fun b k => quantile (95 / 100) (riskOf b k)
    stageMeanK := fun b k stage =>
      average
        (List.ofFn (fun sample => scores.stage b sample k stage))
    predictedStatesMean := fun b k i =>
      average
        (List.ofFn (fun sample =>
          ((out b sample).steps k).state i)) }

/- The answer to a what-if. -/
structure WhatIf (𝕜 : Type) (B K stages : ℕ) where
  label : String
  clampedFeature : Option String
  clampValue : 𝕜
  curves : Curves Feature 𝕜 B K stages

/- The feature that a name stands for, if one is given. -/
def featureOf :
    Option String → Except RolloutError (Option Feature)
  | none => .ok none
  | some name =>
      match featureOrder.find? (fun f => f.label = name) with
      | none => .error (.unknownFeature name)
      | some feature => .ok (some feature)

/- Simulate with a feature held, and score the result. -/
def counterfactualRollout
    {B : ℕ}
    (model : WorldModel Feature κ M 𝕜)
    (x : Fin B → Window Feature 𝕜)
    (featureName : Option String)
    (clampValue : 𝕜)
    (K nSamples : ℕ)
    (stochastic : Bool)
    (noise : Noise Feature 𝕜 B (samples nSamples)) :
    Except RolloutError
      (WhatIf 𝕜 B K model.stageHead.stages) := do
  let feature ← featureOf featureName
  let out ←
    counterfactualTrajectories model x feature clampValue K
      nSamples stochastic noise
  return {
    label := counterfactualLabel
    clampedFeature := featureName
    clampValue := clampValue
    curves := curves model out }

/-
  A what-if that holds nothing has the trajectories of the
  model's rollout, and its curves are those of that rollout,
  scored.
-/
theorem counterfactualRollout_baseline
    {B : ℕ}
    (model : WorldModel Feature κ M 𝕜)
    (x : Fin B → Window Feature 𝕜)
    (clampValue : 𝕜)
    (K nSamples : ℕ)
    (stochastic : Bool)
    (noise : Noise Feature 𝕜 B (samples nSamples)) :
    counterfactualTrajectories model x none clampValue K
          nSamples stochastic noise =
        model.rollout x K nSamples stochastic .model noise ∧
      (counterfactualRollout model x none clampValue K nSamples
          stochastic noise).map WhatIf.curves =
        (model.rollout x K nSamples stochastic .model
          noise).map (curves model) := by
  refine ⟨rfl, ?_⟩
  unfold counterfactualRollout
  rw [← counterfactualTrajectories_none model x clampValue]
  change
    ((counterfactualTrajectories model x none clampValue K
        nSamples stochastic noise).bind _).map _ = _
  cases counterfactualTrajectories model x none clampValue K
    nSamples stochastic noise <;> rfl

end Curves

end Model

end Nidra
