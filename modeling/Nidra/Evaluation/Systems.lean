import Nidra.Lib.Batches
import Nidra.Serving.Ensemble

/-
  This file defines how the benchmark scores the rollouts of
  an ensemble: heads that read bare states score all members'
  trajectories together, others their own member's only.

  Key definitions include:
    * `isTrajectory`, `scoreStates`
    * `patched`
    * `ownRisk`, `sharedRisk`, `batchRisk`
    * `rolloutRisk`
    * `pooledScores`
-/

namespace Nidra

namespace Evaluation

open Model Serving

variable {ι κ M 𝕜 : Type}
variable [Field 𝕜] [LinearOrder 𝕜] [ExpLog 𝕜]

------------------------------------------------------------
-- Scores of rollouts
------------------------------------------------------------

/- Whether a head reads more of a step than its state. -/
def isTrajectory
    (model : WorldModel ι κ M 𝕜) : Bool :=
  match model.riskHead with
  | .perState _ => false
  | .trajectory _ _ => true

/-
  The risk that a head gives to bare states. A head that reads
  more cannot, which raises.
-/
def scoreStates
    (model : WorldModel ι κ M 𝕜) :
    Except EnsembleError (Vec ι 𝕜 → 𝕜) :=
  match model.riskHead with
  | .perState net => .ok (fun state => sigmoid (net state))
  | .trajectory _ _ => .error .perStateOnly

/-
  The transition that an ablation rolls out: no mean change
  and, where a width is given, one variance everywhere.
-/
def patched
    (forceZeroMu : Bool)
    (isoSigma : Option 𝕜)
    (model : WorldModel ι κ M 𝕜) : WorldModel ι κ M 𝕜 :=
  if forceZeroMu || isoSigma.isSome then
    { model with
      transition :=
        { model.transition with
          forward := fun h cur prev =>
            (0,
              match isoSigma with
              | none => (model.transition.forward h cur prev).2
              | some sigma => fun _ => ExpLog.log (sigma ^ 2)) } }
  else model

/- Every member with a trajectory head scores its own rows. -/
def ownRisk
    {B S K : ℕ}
    (scored :
      List (WorldModel ι κ M 𝕜 × RolloutOutput ι κ 𝕜 B S K))
    (b : Fin B) : List (Fin K → 𝕜) :=
  scored.flatMap (fun member =>
    List.ofFn (fun sample =>
      member.1.stepRisk (member.2 b sample)))

/- Every member scores the states of all members' rows. -/
def sharedRisk
    {B K : ℕ}
    (models : List (WorldModel ι κ M 𝕜))
    (pooled : Fin B → List (Trajectory ι κ 𝕜 K)) :
    Except EnsembleError (Fin B → List (Fin K → 𝕜)) := do
  let scores ← models.mapM scoreStates
  return fun b =>
    (pooled b).map (fun out k =>
      average
        (scores.map (fun score => score (out.steps k).state)))

/- How a batch is scored, once it is rolled out. -/
def batchScores
    {B S K : ℕ}
    (models : List (WorldModel ι κ M 𝕜))
    (outs : List (RolloutOutput ι κ 𝕜 B S K))
    (pooled : Fin B → List (Trajectory ι κ 𝕜 K)) :
    Except EnsembleError (Fin B → List (Fin K → 𝕜)) :=
  let scored :=
    (models.zip outs).filter (fun member =>
      isTrajectory member.1)
  if scored.isEmpty then sharedRisk models pooled
  else .ok (ownRisk scored)

/- The risks of a batch of rows, with their places. -/
def batchRisk
    (models : List (WorldModel ι κ M 𝕜))
    (K nSamples : ℕ)
    (forceZeroMu : Bool)
    (isoSigma : Option 𝕜)
    (noise :
      ℕ → ℕ → ℕ → Fin (samples nSamples) → Vec ι 𝕜)
    (rows : List (Window ι 𝕜 × ℕ)) :
    Except EnsembleError (List (List (Fin K → 𝕜))) := do
  let outs ←
    memberRollouts (models.map (patched forceZeroMu isoSigma))
      (fun b => (rows.get b).1) K nSamples
      (fun member draw b sample =>
        noise member draw (rows.get b).2 sample)
  let pooled ← poolOutputs outs
  let scores ← batchScores models outs pooled
  return List.ofFn scores

/-
  The head-mean risk of every sampled trajectory of every row,
  batch after batch. The noise is what the sampler gives to a
  member, draw after draw, for a row and a sample.
-/
def rolloutRisk
    (models : List (WorldModel ι κ M 𝕜))
    (X : List (Window ι 𝕜))
    (K nSamples chunk : ℕ)
    (forceZeroMu : Bool)
    (isoSigma : Option 𝕜)
    (noise :
      ℕ → ℕ → ℕ → Fin (samples nSamples) → Vec ι 𝕜) :
    Except EnsembleError (List (List (Fin K → 𝕜))) :=
  if chunk = 0 then .error .batchStep
  else if X.isEmpty then .error .noRows
  else do
    let out ←
      (batches chunk X.zipIdx).mapM
        (batchRisk models K nSamples forceZeroMu isoSigma
          noise)
    return out.flatten

/- The pooled risk of each row at each horizon. -/
def pooledScores
    [FloorSemiring 𝕜]
    {K : ℕ}
    (method : PoolMethod)
    (share : Option 𝕜)
    (riskTraj : List (List (Fin K → 𝕜))) :
    Except EnsembleError (List (List 𝕜)) :=
  riskTraj.mapM (fun row =>
    (List.finRange K).mapM (fun k =>
      (poolTrajectoriesNp (row.map (fun risk => risk k))
        method share).mapError .pooling))

end Evaluation

end Nidra
