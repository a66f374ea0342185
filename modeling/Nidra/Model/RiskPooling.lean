import Nidra.Lib.Quantiles

/-
  This file defines how the risk of sampled trajectories is
  reduced to one number: the twin reductions over numpy
  arrays and torch tensors, and the two orders in which the
  heads of an ensemble and its trajectories are reduced.

  Key definitions include:
    * `PoolMethod`, `HeadReduction`, `PoolingError`
    * `poolTrajectoriesNp`
    * `poolRiskOverSamples`
    * `headMean`, `poolEnsembleRisk`
-/

namespace Nidra

namespace Model

inductive PoolMethod where
  | mean
  | median
  | quantile
  | max
  | pAboveHalf
deriving DecidableEq

inductive HeadReduction where
  | beforePooling
  | afterPooling
deriving DecidableEq

/- Why a reduction raises. -/
inductive PoolingError where
  | needsQuantile
  | quantileRange
  | unknownMethod (method : PoolMethod)
  | calibrationLength (expected actual : ℕ)
deriving DecidableEq

/- A map that never raises is a plain map. -/
theorem mapM_ok
    {ε α β : Type}
    (f : α → β)
    (l : List α) :
    l.mapM (fun a => (.ok (f a) : Except ε β)) =
      .ok (l.map f) :=
  List.mapM_pure

section Pooling

variable {𝕜 : Type}
variable [Field 𝕜] [LinearOrder 𝕜] [FloorSemiring 𝕜]

/- The quantile of a share between zero and one. -/
def checkedQuantile
    (share : 𝕜)
    (risk : List 𝕜) : Except PoolingError 𝕜 :=
  if 0 ≤ share ∧ share ≤ 1 then .ok (quantile share risk)
  else .error .quantileRange

/- Whether each trajectory is risky, as a number. -/
def aboveHalf (risk : List 𝕜) : List 𝕜 :=
  risk.map (fun r => if 1 / 2 ≤ r then 1 else 0)

/- Every candidate that an operating point can name. -/
def poolTrajectoriesNp
    (risk : List 𝕜)
    (method : PoolMethod)
    (share : Option 𝕜) : Except PoolingError 𝕜 :=
  match method with
  | .mean => .ok (average risk)
  | .median => .ok (median risk)
  | .quantile =>
      match share with
      | none => .error .needsQuantile
      | some share => checkedQuantile share risk
  | .max => .ok (largest risk)
  | .pAboveHalf => .ok (average (aboveHalf risk))

/- The reduction over samples that a config can name. -/
def poolRiskOverSamples
    (risk : List 𝕜)
    (method : PoolMethod)
    (share : 𝕜) : Except PoolingError 𝕜 :=
  match method with
  | .mean => .ok (average risk)
  | .quantile => checkedQuantile share risk
  | method => .error (.unknownMethod method)

/- The trajectories of one head as a list. -/
def trajectories
    {samples : ℕ}
    (risk : Fin samples → 𝕜) : List 𝕜 :=
  List.ofFn risk

/- The mean opinion of the heads on each trajectory. -/
def headMean
    {members samples : ℕ}
    (perHead : Fin members → Fin samples → 𝕜)
    (sample : Fin samples) : 𝕜 :=
  average (List.ofFn (fun member => perHead member sample))

/-
  Reduce heads and trajectories. Heads are always averaged:
  on each trajectory before the trajectories are pooled, or
  over the pooled values of each head.
-/
def poolEnsembleRisk
    {members samples : ℕ}
    (perHead : Fin members → Fin samples → 𝕜)
    (method : PoolMethod)
    (share : 𝕜)
    (headReduction : HeadReduction) :
    Except PoolingError 𝕜 :=
  match headReduction with
  | .beforePooling =>
      poolRiskOverSamples (trajectories (headMean perHead))
        method share
  | .afterPooling => do
      let pooled ←
        (List.ofFn perHead).mapM
          (fun risk =>
            poolRiskOverSamples (trajectories risk) method
              share)
      return average pooled

end Pooling

end Model

end Nidra
