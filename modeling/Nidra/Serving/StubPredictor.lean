import Nidra.Lib.FirstRun
import Nidra.Serving.Predictor

/-
  This file defines the lead time that the placeholder
  predictor reads off its trajectory.

  Key definitions include:
    * `TrajectoryPoint`, `Trajectory`
    * `leadTimeS`
-/

namespace Nidra

namespace Serving

namespace Stub

------------------------------------------------------------
-- The Trajectory
------------------------------------------------------------

structure TrajectoryPoint (𝕜 : Type) where
  k : ℕ
  pCompromise : 𝕜
  ciLow : 𝕜
  ciHigh : 𝕜
  stageDist : List (String × 𝕜)

/- A trajectory has the steps from one on, in order. -/
structure Trajectory (𝕜 : Type) where
  points : List (TrajectoryPoint 𝕜)
  steps :
    points.map TrajectoryPoint.k =
      List.range' 1 points.length

/- The risks along a trajectory. -/
def Trajectory.curve
    {𝕜 : Type}
    (trajectory : Trajectory 𝕜) : List 𝕜 :=
  trajectory.points.map TrajectoryPoint.pCompromise

/- The configuration as far as it is read here. -/
structure StubConfig (𝕜 : Type) where
  windowDelta : ℤ
  riskThreshold : 𝕜
  leadTimeM : ℕ

------------------------------------------------------------
-- The Lead Time
------------------------------------------------------------

variable {𝕜 : Type}

/-
  Seconds from the origin to the first window of the first
  slice that is at or above the threshold throughout.
-/
def leadTimeS
    [LinearOrder 𝕜]
    (cfg : StubConfig 𝕜)
    (trajectory : Trajectory 𝕜) : Option ℚ := do
  let window := fun index =>
    (trajectory.points.drop index).take cfg.leadTimeM
  let index ←
    (List.range
      (trajectory.points.length + 1 - cfg.leadTimeM)).find?
      (fun index =>
        (window index).all
          (fun point => cfg.riskThreshold ≤ point.pCompromise))
  let first ← (window index).head?
  return ((first.k * cfg.windowDelta : ℤ) : ℚ)

theorem Trajectory.getElem?_k
    {trajectory : Trajectory 𝕜}
    {i : ℕ}
    {point : TrajectoryPoint 𝕜}
    (hAt : trajectory.points[i]? = some point) :
    point.k = i + 1 := by
  have hK := congrArg (·[i]?) trajectory.steps
  rcases List.getElem?_eq_some_iff.mp hAt with ⟨hLt, _⟩
  rw [List.getElem?_map, hAt, List.getElem?_range' hLt] at hK
  have hSame := Option.some.inj hK
  omega

end Stub

end Serving

end Nidra
