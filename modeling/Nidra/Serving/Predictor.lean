import Nidra.Common.Schemas
import Nidra.Evaluation.Calibrate
import Nidra.Model.RiskPooling

/-
  This file defines what the serving predictor makes of the
  risks that the heads of its ensemble give to the sampled
  trajectories: a pooled risk for each horizon, a band of two
  quantiles around it, and the horizons of a forecast.

  Key definitions include:
    * `ServedPooling`, `ServingConfig`
    * `pointRisk`, `applyPlattByHorizon`
    * `Rollout`, `poolRollout`
    * `leadTimeFromCurve`
    * `Projection`, `Observation`, `forecast`
-/

namespace Nidra

namespace Serving

open Model Evaluation

/-
  How trajectories become a point estimate: by the frozen
  operating point, or else as the configuration says.
-/
inductive ServedPooling (𝕜 : Type) where
  | operatingPoint
      (method : PoolMethod)
      (share : Option 𝕜)
  | configured
      (method : PoolMethod)
      (share : 𝕜)
      (headReduction : HeadReduction)

/- What a loaded predictor was configured with. -/
structure ServingConfig (𝕜 : Type) where
  pooling : ServedPooling 𝕜
  ciLowQuantile : 𝕜
  ciHighQuantile : 𝕜
  calibration : Option (List (Platt 𝕜))
  riskThreshold : 𝕜
  horizonLength : ℕ
  windowSeconds : ℚ

variable {𝕜 : Type}
variable [Field 𝕜] [LinearOrder 𝕜] [FloorSemiring 𝕜]

/- The point estimate of one horizon. -/
def pointRisk
    {members samples : ℕ}
    (pooling : ServedPooling 𝕜)
    (perHead : Fin members → Fin samples → 𝕜) :
    Except PoolingError 𝕜 :=
  match pooling with
  | .operatingPoint method share =>
      poolTrajectoriesNp (trajectories (headMean perHead))
        method share
  | .configured method share headReduction =>
      poolEnsembleRisk perHead method share headReduction

/- The quantile of one horizon's head-averaged risks. -/
def ciRisk
    {members samples : ℕ}
    (share : 𝕜)
    (perHead : Fin members → Fin samples → 𝕜) :
    Except PoolingError 𝕜 :=
  checkedQuantile share (trajectories (headMean perHead))

/- The risk of each horizon before and after calibration. -/
structure Rollout (𝕜 : Type) where
  riskMeanK : List 𝕜
  riskRawK : List 𝕜
  riskCiLowK : List 𝕜
  riskCiHighK : List 𝕜

variable [ExpLog 𝕜]

/- Every horizon has its own fitted remap. -/
def applyPlattByHorizon
    (risk : List 𝕜)
    (paramsByK : List (Platt 𝕜)) :
    Except PoolingError (List 𝕜) :=
  if paramsByK.length = risk.length then
    .ok (List.zipWith applyPlatt paramsByK risk)
  else
    .error
      (.calibrationLength risk.length paramsByK.length)

/- Calibrate, if there is a calibration. -/
def calibrated
    (calibration : Option (List (Platt 𝕜)))
    (risk : List 𝕜) : Except PoolingError (List 𝕜) :=
  match calibration with
  | none => .ok risk
  | some paramsByK => applyPlattByHorizon risk paramsByK

variable (cfg : ServingConfig 𝕜)

/- A statistic of the risks at every horizon. -/
def overHorizons
    {members samples : ℕ}
    (statistic :
      (Fin members → Fin samples → 𝕜) →
        Except PoolingError 𝕜)
    (perHeadRisk :
      Fin members → Fin samples →
        Fin cfg.horizonLength → 𝕜) :
    Except PoolingError (List 𝕜) :=
  (List.finRange cfg.horizonLength).mapM
    (fun k =>
      statistic (fun member sample =>
        perHeadRisk member sample k))

/-
  The pooled risk and its band at every horizon, each
  calibrated on its own.
-/
def poolRollout
    {members samples : ℕ}
    (perHeadRisk :
      Fin members → Fin samples →
        Fin cfg.horizonLength → 𝕜) :
    Except PoolingError (Rollout 𝕜) := do
  let raw ←
    overHorizons cfg (pointRisk cfg.pooling) perHeadRisk
  let low ←
    overHorizons cfg (ciRisk cfg.ciLowQuantile) perHeadRisk
  let high ←
    overHorizons cfg (ciRisk cfg.ciHighQuantile) perHeadRisk
  let mean ← calibrated cfg.calibration raw
  let low ← calibrated cfg.calibration low
  let high ← calibrated cfg.calibration high
  return {
    riskMeanK := mean
    riskRawK := raw
    riskCiLowK := low
    riskCiHighK := high }

------------------------------------------------------------
-- The forecast
------------------------------------------------------------

/-
  Seconds until the risk has been at the threshold for `m`
  horizons in a row; `run` of them came right before.
-/
def leadTimeFromCurve
    (windowSeconds : ℚ)
    (threshold : 𝕜)
    (m : ℕ) :
    ℕ → ℕ → List 𝕜 → Option ℚ
  | _, _, [] => none
  | i, run, p :: rest =>
      let run := if threshold ≤ p then run + 1 else 0
      if m ≤ run then
        some (windowSeconds * ((i : ℚ) - m + 2))
      else
        leadTimeFromCurve windowSeconds threshold m (i + 1)
          run rest

/- What the model says of a horizon besides its risk. -/
structure Projection (𝕜 : Type) where
  stageMean : Stage → 𝕜
  predicted : FeatureVector 𝕜

/- What the predictor says of the observed context. -/
structure Observation (𝕜 : Type) where
  hostId : String
  originTs : ℚ
  observedStage : Stage
  observedRisk : 𝕜
  topSignals : List (SignalAttribution 𝕜)
  drivingWindow : ℤ
  modelVersion : String

/- The horizon `k + 1` of a forecast. -/
def horizonPoint
    (rollout : Rollout 𝕜)
    (originTs : ℚ)
    (projections : Fin cfg.horizonLength → Projection 𝕜)
    (k : Fin cfg.horizonLength) : HorizonPoint 𝕜 :=
  { k := (k : ℕ) + 1
    ts := originTs + cfg.windowSeconds * ((k : ℕ) + 1)
    pCompromise := rollout.riskMeanK.getD k 0
    ciLow := rollout.riskCiLowK.getD k 0
    ciHigh := rollout.riskCiHighK.getD k 0
    stageDist :=
      Stage.all.map (fun stage =>
        (stage.label, (projections k).stageMean stage))
    predictedFeatures :=
      featureOrder.map (fun feature =>
        (feature.label, (projections k).predicted feature)) }

/- The forecast of one observed context. -/
def forecast
    {members samples : ℕ}
    (perHeadRisk :
      Fin members → Fin samples →
        Fin cfg.horizonLength → 𝕜)
    (projections : Fin cfg.horizonLength → Projection 𝕜)
    (observation : Observation 𝕜) :
    Except PoolingError (PredictorResult 𝕜) := do
  let rollout ← poolRollout cfg perHeadRisk
  let horizons :=
    (List.finRange cfg.horizonLength).map
      (horizonPoint cfg rollout observation.originTs
        projections)
  return {
    hostId := observation.hostId
    originTs := observation.originTs
    horizons := horizons
    leadTimeS :=
      (leadTimeFromCurve cfg.windowSeconds cfg.riskThreshold
        2 0 0 (horizons.map HorizonPoint.pCompromise)).map
          (fun seconds => (seconds : 𝕜))
    observedStage := observation.observedStage.label
    observedRisk := observation.observedRisk
    topSignals := observation.topSignals
    drivingWindow := observation.drivingWindow
    modelVersion := observation.modelVersion }

end Serving

end Nidra
