import Nidra.Model.WorldModel
import Nidra.Serving.Predictor

/-
  This file defines how the predictor runs an ensemble: every
  member simulates the same context, the trajectories of all
  members are pooled, and every member's head scores the pool.

  Key definitions include:
    * `EnsembleError`
    * `memberRollouts`, `poolOutputs`
    * `perHeadRisk`
    * `ensembleRollout`
-/

namespace Nidra

namespace Serving

open Model Evaluation

/- Why an ensemble raises. -/
inductive EnsembleError where
  | rollout (error : RolloutError)
  | noRollouts
  | perStateOnly
  | batchStep
  | noRows
  | pooling (error : PoolingError)
deriving DecidableEq

variable {ι κ M 𝕜 : Type}
variable [Field 𝕜] [LinearOrder 𝕜] [ExpLog 𝕜]

/-
  The stochastic rollouts of all members, each with noise of
  its own.
-/
def memberRollouts
    {B : ℕ}
    (models : List (WorldModel ι κ M 𝕜))
    (x : Fin B → Window ι 𝕜)
    (K nSamples : ℕ)
    (noise : ℕ → Noise ι 𝕜 B (samples nSamples)) :
    Except EnsembleError
      (List (RolloutOutput ι κ 𝕜 B (samples nSamples) K)) :=
  models.zipIdx.mapM (fun member =>
    (member.1.rollout x K nSamples true .model
      (noise member.2)).mapError .rollout)

/-
  Several members' rollouts, one after the other along the
  samples of each row.
-/
def poolOutputs
    {B S K : ℕ}
    (outs : List (RolloutOutput ι κ 𝕜 B S K)) :
    Except EnsembleError
      (Fin B → List (Trajectory ι κ 𝕜 K)) :=
  if outs.isEmpty then .error .noRollouts
  else
    .ok (fun b =>
      outs.flatMap (fun out => List.ofFn (out b)))

/- What the head of each member makes of each trajectory. -/
def perHeadRisk
    {K : ℕ}
    (models : List (WorldModel ι κ M 𝕜))
    (pooled : List (Trajectory ι κ 𝕜 K)) :
    Fin models.length → Fin pooled.length → Fin K → 𝕜 :=
  fun member sample =>
    (models.get member).stepRisk (pooled.get sample)

/- The risks that an ensemble gives to a context. -/
def ensembleRollout
    [FloorSemiring 𝕜]
    (cfg : ServingConfig 𝕜)
    (models : List (WorldModel ι κ M 𝕜))
    (x : Window ι 𝕜)
    (nSamplesPerMember : ℕ)
    (noise :
      ℕ → Noise ι 𝕜 1 (samples nSamplesPerMember)) :
    Except EnsembleError (Rollout 𝕜) := do
  let outs ←
    memberRollouts models (fun _ => x) cfg.horizonLength
      nSamplesPerMember noise
  let pooled ← poolOutputs outs
  (poolRollout cfg
    (perHeadRisk models (pooled 0))).mapError .pooling

end Serving

end Nidra
