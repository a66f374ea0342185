import Nidra.Schema

/-
  This file defines the forecast that the inference service
  publishes and the checks that its construction makes: the
  band of every horizon, its stages, and the order and
  causality of the horizons.

  Key definitions include:
    * `Stage.label`, `stageLabels`
    * `HorizonPoint`, `HorizonPoint.Banded`
    * `SchemaError`
    * `HorizonPoint.check`
    * `SignalAttribution`
    * `PredictorResult`, `Forecast`
    * `Forecast.check`, `Forecast.build`
-/

namespace Nidra

------------------------------------------------------------
-- Stages
------------------------------------------------------------

def Stage.all : List Stage :=
  [.benign, .recon, .initialAccess, .lateral, .c2, .exfil]

/- The name of a stage in messages. -/
def Stage.label : Stage → String
  | .benign => "benign"
  | .recon => "recon"
  | .initialAccess => "initial_access"
  | .lateral => "lateral"
  | .c2 => "c2"
  | .exfil => "exfil"

def stageLabels : List String :=
  Stage.all.map Stage.label

------------------------------------------------------------
-- Messages
------------------------------------------------------------

/- The projected state some windows after the origin. -/
structure HorizonPoint (𝕜 : Type) where
  k : ℤ
  ts : ℚ
  pCompromise : 𝕜
  ciLow : 𝕜
  ciHigh : 𝕜
  stageDist : List (String × 𝕜)
  predictedFeatures : List (String × 𝕜)

/- One attributed feature behind a forecast. -/
structure SignalAttribution (𝕜 : Type) where
  name : String
  shapValue : 𝕜
  direction : String
  display : String

/- What a predictor answers for one context. -/
structure PredictorResult (𝕜 : Type) where
  hostId : String
  originTs : ℚ
  horizons : List (HorizonPoint 𝕜)
  leadTimeS : Option 𝕜
  observedStage : String
  observedRisk : 𝕜
  topSignals : List (SignalAttribution 𝕜)
  drivingWindow : ℤ
  modelVersion : String

/- A trajectory for one host, anchored at its origin. -/
structure Forecast (𝕜 : Type) extends PredictorResult 𝕜 where
  tenantId : String

/- Why a forecast is refused. -/
inductive SchemaError (𝕜 : Type) where
  | band (k : ℤ) (ciLow pCompromise ciHigh : 𝕜)
  | unknownStages (k : ℤ) (unknown : List String)
  | horizonOrder (expected actual : List ℤ)
  | notLater (k : ℤ) (ts previous : ℚ)

------------------------------------------------------------
-- Checks
------------------------------------------------------------

variable {𝕜 : Type}
variable [Zero 𝕜] [One 𝕜] [LinearOrder 𝕜]

namespace HorizonPoint

/- The band holds the probability, inside the unit. -/
def Banded (p : HorizonPoint 𝕜) : Prop :=
  0 ≤ p.ciLow ∧ p.ciLow ≤ p.pCompromise ∧
    p.pCompromise ≤ p.ciHigh ∧ p.ciHigh ≤ 1

instance
    (p : HorizonPoint 𝕜) :
    Decidable p.Banded := by
  unfold Banded
  infer_instance

/- The stages of a distribution that do not exist. -/
def unknownStages (p : HorizonPoint 𝕜) : List String :=
  ((p.stageDist.map Prod.fst).dedup.filter
    (fun name => name ∉ stageLabels)).mergeSort
      (fun a b => decide (a ≤ b))

/- Check the band, then the stages. -/
def check (p : HorizonPoint 𝕜) : Option (SchemaError 𝕜) :=
  if ¬ p.Banded then
    some (.band p.k p.ciLow p.pCompromise p.ciHigh)
  else if p.unknownStages ≠ [] then
    some (.unknownStages p.k p.unknownStages)
  else none

omit [Zero 𝕜] [One 𝕜] [LinearOrder 𝕜] in
/- A distribution over the known stages has no other. -/
theorem unknownStages_eq_nil
    {p : HorizonPoint 𝕜}
    (hNames : p.stageDist.map Prod.fst = stageLabels) :
    p.unknownStages = [] := by
  have hNone :
      stageLabels.dedup.filter
        (fun name => name ∉ stageLabels) = [] := by
    rw [List.filter_eq_nil_iff]
    intro name hMem
    simpa using List.mem_dedup.mp hMem
  rw [unknownStages, hNames, hNone, List.mergeSort_nil]

/-
  A horizon is accepted exactly when its band is right and
  all its stages exist.
-/
theorem check_eq_none_iff
    (p : HorizonPoint 𝕜) :
    p.check = none ↔ p.Banded ∧ p.unknownStages = [] := by
  unfold check
  by_cases hBand : p.Banded
  · by_cases hStages : p.unknownStages = []
    · simp [hBand, hStages]
    · simp [hBand, hStages]
  · simp [hBand]

end HorizonPoint

namespace Forecast

/- The horizons that a forecast of `horizonK` steps has. -/
def expectedHorizons (horizonK : ℕ) : List ℤ :=
  (List.range horizonK).map (fun (i : ℕ) => (i : ℤ) + 1)

/- Every horizon is later than the one before it. -/
def checkCausal :
    ℚ → List (HorizonPoint 𝕜) → Option (SchemaError 𝕜)
  | _, [] => none
  | previous, point :: rest =>
      if point.ts ≤ previous then
        some (.notLater point.k point.ts previous)
      else checkCausal point.ts rest

omit [Zero 𝕜] [One 𝕜] [LinearOrder 𝕜] in
/- The horizons are accepted when their times only rise. -/
theorem checkCausal_eq_none_iff
    (previous : ℚ)
    (points : List (HorizonPoint 𝕜)) :
    checkCausal previous points = none ↔
      (previous :: points.map HorizonPoint.ts).IsChain
        (· < ·) := by
  induction points generalizing previous with
  | nil => simp [checkCausal]
  | cons point rest ih =>
      by_cases hLate : point.ts ≤ previous
      · simp [checkCausal, hLate, not_lt.mpr hLate]
      · rw [checkCausal, if_neg hLate, ih, List.map_cons,
          List.isChain_cons_cons]
        simp [not_le.mp hLate]

/-
  Check every horizon, then that they are the expected ones
  in order, then that each is later than the one before.
-/
def check
    (horizonK : ℕ)
    (f : Forecast 𝕜) : Option (SchemaError 𝕜) :=
  match f.horizons.findSome? HorizonPoint.check with
  | some error => some error
  | none =>
      let actual := f.horizons.map HorizonPoint.k
      if actual ≠ expectedHorizons horizonK then
        some (.horizonOrder (expectedHorizons horizonK) actual)
      else checkCausal f.originTs f.horizons

/- Construct a forecast from what a predictor answers. -/
def build
    (horizonK : ℕ)
    (tenantId : String)
    (result : PredictorResult 𝕜) :
    Except (SchemaError 𝕜) (Forecast 𝕜) :=
  let forecast : Forecast 𝕜 :=
    { toPredictorResult := result
      tenantId := tenantId }
  match forecast.check horizonK with
  | some error => .error error
  | none => .ok forecast

/- A result whose forecast passes its checks is accepted. -/
theorem exists_build_ok
    {horizonK : ℕ}
    {tenantId : String}
    {result : PredictorResult 𝕜}
    (hCheck :
      check horizonK
        { toPredictorResult := result
          tenantId := tenantId } = none) :
    ∃ forecast,
      build horizonK tenantId result = .ok forecast := by
  simp only [build, hCheck]
  exact ⟨_, rfl⟩

end Forecast

end Nidra
