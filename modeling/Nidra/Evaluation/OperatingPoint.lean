import Nidra.Evaluation.MetricsNatural
import Nidra.Evaluation.Systems
import Nidra.Lib.Fallible
import Nidra.Serving.Predictor

/-
  This file defines how an operating point is selected on the
  validation rows, and how it is applied once it is frozen,
  and proves that what is applied there is what was selected:
  the pooling has the highest average precision, and no
  threshold has a higher F1 than the one that was frozen.

  Key definitions include:
    * `poolingCandidates`, `composite`
    * `fitPlatt`, `extendCalibrationToHorizon`
    * `selectOperatingPoint`, `applyOperatingPoint`
    * `Optimal`

  Main declarations:
    * `apply_of_selectedBy`
    * `optimal_of_select`
-/

namespace Nidra

namespace Evaluation

open Model Serving

section Definitions

variable {𝕜 : Type}
variable [Field 𝕜] [LinearOrder 𝕜]

------------------------------------------------------------
-- Pooling
------------------------------------------------------------

inductive HorizonReduction where
  | max
  | integrated
deriving DecidableEq

structure PoolingCandidate (𝕜 : Type) where
  method : PoolMethod
  quantile : Option 𝕜 := none
  horizonReduction : HorizonReduction := .max
deriving DecidableEq

def poolingCandidates : List (PoolingCandidate 𝕜) :=
  [{ method := .mean },
    { method := .mean
      horizonReduction := .integrated },
    { method := .median },
    { method := .quantile
      quantile := some (75 / 100) },
    { method := .quantile
      quantile := some (85 / 100) },
    { method := .quantile
      quantile := some (90 / 100) },
    { method := .quantile
      quantile := some (95 / 100) },
    { method := .max },
    { method := .pAboveHalf }]

/- A quantile that is zero or missing is the default one. -/
def shareOrDefault (quantile : Option 𝕜) : 𝕜 :=
  match quantile with
  | some share => if share = 0 then 85 / 100 else share
  | none => 85 / 100

/- The risk of a row over its horizons. -/
def overHorizon
    (reduction : HorizonReduction)
    (riskK : List 𝕜) : 𝕜 :=
  match reduction with
  | .max => largest riskK
  | .integrated =>
      1 - (riskK.map (fun p => 1 - clip 0 1 p)).prod

/- An evaluation row, with the trajectories it is scored by. -/
structure EvalTrajectories (𝕜 : Type) (K : ℕ) where
  published : Bool
  futureIsAttack : Fin K → Bool
  weight : 𝕜
  riskTraj : List (Fin K → 𝕜)

section Composite

variable [FloorSemiring 𝕜] [ExpLog 𝕜]
variable {K : ℕ}

/-
  The parameters of every horizon of a rollout: the leading
  ones, and the last again where there are none.
-/
def extendCalibrationToHorizon
    (paramsByK : List (Platt 𝕜))
    (K : ℕ) : List (Platt 𝕜) :=
  if K ≤ paramsByK.length then paramsByK.take K
  else
    paramsByK ++
      match paramsByK.getLast? with
      | none => []
      | some tail =>
          List.replicate (K - paramsByK.length) tail

/- The pooled risk of every row at every horizon. -/
def bundlePooled
    (pooling : PoolingCandidate 𝕜)
    (rows : List (EvalTrajectories 𝕜 K)) :
    Except EnsembleError (List (List 𝕜)) :=
  pooledScores pooling.method
    (some (shareOrDefault pooling.quantile))
    (rows.map EvalTrajectories.riskTraj)

def calibrateRows
    (params : List (Platt 𝕜))
    (riskK : List (List 𝕜)) :
    Except EnsembleError (List (List 𝕜)) :=
  riskK.mapM
    (fun row =>
      (applyPlattByHorizon row params).mapError .pooling)

/- One score to a row, of pooled and calibrated risks. -/
def composite
    (rows : List (EvalTrajectories 𝕜 K))
    (pooling : PoolingCandidate 𝕜)
    (calibration : Option (List (Platt 𝕜))) :
    Except EnsembleError (List 𝕜) := do
  let riskK ← bundlePooled pooling rows
  match calibration with
  | none =>
      return riskK.map (overHorizon pooling.horizonReduction)
  | some params =>
      let calibrated ←
        calibrateRows (extendCalibrationToHorizon params K)
          riskK
      return calibrated.map
        (overHorizon pooling.horizonReduction)

------------------------------------------------------------
-- Selection
------------------------------------------------------------

/- What the learning library computes. -/
structure Learning
    (𝕜 : Type) [Field 𝕜] [LinearOrder 𝕜] where
  averagePrecision : List (ScoredRow 𝕜) → 𝕜
  prCurve : PrecisionRecallCurve 𝕜
  logistic : List (ScoredRow 𝕜) → 𝕜 × 𝕜

variable (library : Learning 𝕜)

/- Average precision, when there are both labels. -/
def weightedAp (rows : List (ScoredRow 𝕜)) : Option 𝕜 :=
  if rows.all ScoredRow.label ∨
      rows.all (fun row => !row.label) then none
  else some (library.averagePrecision rows)

structure FittedPlatt (𝕜 : Type) where
  params : Platt 𝕜
  n : ℕ
  degenerate : Bool

/-
  A remap that is fitted to labels, or none at all where there
  is one label only or it would turn the order around.
-/
def fitPlatt (rows : List (ScoredRow 𝕜)) : FittedPlatt 𝕜 :=
  let identity : FittedPlatt 𝕜 :=
    { params :=
        { a := 1
          b := 0 }
      n := rows.length
      degenerate := true }
  if rows.all ScoredRow.label ∨
      rows.all (fun row => !row.label) then identity
  else
    let fitted :=
      library.logistic
        (rows.map
          (fun row =>
            { row with score := logit row.score }))
    if fitted.1 ≤ 0 then identity
    else
      { params :=
          { a := fitted.1
            b := fitted.2 }
        n := rows.length
        degenerate := false }

/- The rows with their published labels and some scores. -/
def scoredRows
    (rows : List (EvalTrajectories 𝕜 K))
    (scores : List 𝕜) : List (ScoredRow 𝕜) :=
  List.zipWith
    (fun row score =>
      { label := row.published
        score := score
        weight := row.weight })
    rows scores

/- Each horizon is fitted to its own labels. -/
def fitPlattByHorizon
    (rows : List (EvalTrajectories 𝕜 K))
    (riskK : List (List 𝕜)) : List (FittedPlatt 𝕜) :=
  (List.finRange K).map
    (fun k =>
      fitPlatt library
        (List.zipWith
          (fun row risk =>
            { label := row.futureIsAttack k
              score := risk.getD k 0
              weight := row.weight })
          rows riskK))

structure OperatingPoint (𝕜 : Type) where
  selectedOn : String := "val"
  pooling : PoolingCandidate 𝕜
  candidates : List (PoolingCandidate 𝕜 × Option 𝕜)
  paramsByK : List (FittedPlatt 𝕜)
  f1OptimalCalibrated : 𝕜
  valF1Calibrated : 𝕜
  f1OptimalRaw : 𝕜
  valF1Raw : 𝕜
  mandated : 𝕜

def OperatingPoint.calibration
    (op : OperatingPoint 𝕜) : List (Platt 𝕜) :=
  op.paramsByK.map FittedPlatt.params

/- A candidate with the average precision of its scores. -/
def scoreCandidate
    (rows : List (EvalTrajectories 𝕜 K))
    (pooling : PoolingCandidate 𝕜) :
    Except EnsembleError
      (PoolingCandidate 𝕜 × Option 𝕜) := do
  let scores ← composite rows pooling none
  return (pooling,
    weightedAp library (scoredRows rows scores))

/- What a candidate is compared by. -/
def rankOf
    (scored : PoolingCandidate 𝕜 × Option 𝕜) : 𝕜 :=
  scored.2.getD (-1)

def selectOperatingPoint
    (rows : List (EvalTrajectories 𝕜 K))
    (mandated : 𝕜) :
    Except EnsembleError (OperatingPoint 𝕜) := do
  let scored ←
    poolingCandidates.mapM (scoreCandidate library rows)
  let best :=
    match scored.argmax rankOf with
    | some best => best.1
    | none => { method := .mean }
  let riskKRaw ← bundlePooled best rows
  let paramsByK := fitPlattByHorizon library rows riskKRaw
  let sCal ←
    composite rows best
      (some (paramsByK.map FittedPlatt.params))
  let calibrated :=
    bestF1Threshold library.prCurve (scoredRows rows sCal)
  let sRaw ← composite rows best none
  let raw :=
    bestF1Threshold library.prCurve (scoredRows rows sRaw)
  return {
    pooling := best
    candidates := scored
    paramsByK := paramsByK
    f1OptimalCalibrated := calibrated.1
    valF1Calibrated := calibrated.2
    f1OptimalRaw := raw.1
    valF1Raw := raw.2
    mandated := mandated }

/- What a frozen operating point gives to rows. -/
structure AppliedPoint (𝕜 : Type) where
  raw : List 𝕜
  calibrated : List 𝕜
  riskKRaw : List (List 𝕜)
  riskKCalibrated : List (List 𝕜)
  horizonsExtended : Bool

def applyOperatingPoint
    (rows : List (EvalTrajectories 𝕜 K))
    (op : OperatingPoint 𝕜) :
    Except EnsembleError (AppliedPoint 𝕜) := do
  let riskKRaw ← bundlePooled op.pooling rows
  let calK := extendCalibrationToHorizon op.calibration K
  let raw ← composite rows op.pooling none
  let calibrated ←
    composite rows op.pooling (some op.calibration)
  let riskKCalibrated ← calibrateRows calK riskKRaw
  return {
    raw := raw
    calibrated := calibrated
    riskKRaw := riskKRaw
    riskKCalibrated := riskKCalibrated
    horizonsExtended :=
      decide (op.calibration.length < calK.length) }

------------------------------------------------------------
-- Steps
------------------------------------------------------------

theorem length_of_mapM
    {ε α β : Type}
    {f : α → Except ε β}
    {l : List α}
    {results : List β}
    (hOk : l.mapM f = .ok results) :
    results.length = l.length :=
  (List.forall₂_of_mapM hOk).length_eq.symm

/- A composite has as many scores as there are rows. -/
theorem composite_length
    {rows : List (EvalTrajectories 𝕜 K)}
    {pooling : PoolingCandidate 𝕜}
    {calibration : Option (List (Platt 𝕜))}
    {scores : List 𝕜}
    (hOk : composite rows pooling calibration = .ok scores) :
    scores.length = rows.length := by
  unfold composite at hOk
  rw [Except.bind_eq_ok_iff] at hOk
  rcases hOk with ⟨riskK, hPooled, hOk⟩
  have hRisk : riskK.length = rows.length := by
    have hLength := length_of_mapM hPooled
    rwa [List.length_map] at hLength
  cases calibration with
  | none =>
      cases hOk
      rw [List.length_map, hRisk]
  | some params =>
      dsimp only at hOk
      rw [Except.bind_eq_ok_iff] at hOk
      rcases hOk with ⟨calibrated, hCalibrated, hOk⟩
      cases hOk
      rw [List.length_map, length_of_mapM hCalibrated, hRisk]

/- A calibrated composite was pooled and calibrated. -/
theorem calibrateRows_of_composite
    {rows : List (EvalTrajectories 𝕜 K)}
    {pooling : PoolingCandidate 𝕜}
    {params : List (Platt 𝕜)}
    {riskK : List (List 𝕜)}
    (hPooled : bundlePooled pooling rows = .ok riskK)
    {scores : List 𝕜}
    (hOk :
      composite rows pooling (some params) = .ok scores) :
    ∃ calibrated,
      calibrateRows (extendCalibrationToHorizon params K)
          riskK =
        .ok calibrated := by
  unfold composite at hOk
  rw [hPooled] at hOk
  rw [Except.bind_eq_ok_iff] at hOk
  rcases hOk with ⟨riskK', hSame, hOk⟩
  cases hSame
  dsimp only at hOk
  rw [Except.bind_eq_ok_iff] at hOk
  rcases hOk with ⟨calibrated, hCalibrated, _⟩
  exact ⟨calibrated, hCalibrated⟩

/- The slope of a remap is never turned around. -/
theorem fitPlatt_slope
    [IsStrictOrderedRing 𝕜]
    (rows : List (ScoredRow 𝕜)) :
    0 < (fitPlatt library rows).params.a := by
  unfold fitPlatt
  dsimp only
  split
  · exact one_pos
  · split
    · exact one_pos
    · rename_i hSlope
      exact not_le.mp hSlope

omit [Field 𝕜] [LinearOrder 𝕜] [FloorSemiring 𝕜]
  [ExpLog 𝕜] in
theorem extendCalibration_of_length
    {params : List (Platt 𝕜)}
    (hLength : params.length = K) :
    extendCalibrationToHorizon params K = params := by
  unfold extendCalibrationToHorizon
  rw [if_pos hLength.ge, ← hLength, List.take_length]

/- What is selected, when it is. -/
structure SelectedBy
    (rows : List (EvalTrajectories 𝕜 K))
    (op : OperatingPoint 𝕜) : Prop where
  candidates :
    poolingCandidates.mapM (scoreCandidate library rows) =
      .ok op.candidates
  pooling :
    ∃ best ∈ op.candidates.argmax rankOf, best.1 = op.pooling
  params :
    ∃ riskK, bundlePooled op.pooling rows = .ok riskK ∧
      op.paramsByK = fitPlattByHorizon library rows riskK
  calibrated :
    ∃ scores,
      composite rows op.pooling (some op.calibration) =
          .ok scores ∧
        bestF1Threshold library.prCurve
            (scoredRows rows scores) =
          (op.f1OptimalCalibrated, op.valF1Calibrated)
  raw :
    ∃ scores,
      composite rows op.pooling none = .ok scores ∧
        bestF1Threshold library.prCurve
            (scoredRows rows scores) =
          (op.f1OptimalRaw, op.valF1Raw)

theorem selectedBy_of_select
    {rows : List (EvalTrajectories 𝕜 K)}
    {mandated : 𝕜}
    {op : OperatingPoint 𝕜}
    (hOk :
      selectOperatingPoint library rows mandated = .ok op) :
    SelectedBy library rows op := by
  unfold selectOperatingPoint at hOk
  rw [Except.bind_eq_ok_iff] at hOk
  rcases hOk with ⟨scored, hScored, hOk⟩
  have hLength := length_of_mapM hScored
  cases hBest : scored.argmax rankOf with
  | none =>
      rw [List.argmax_eq_none.mp hBest] at hLength
      cases hLength
  | some best =>
      rw [hBest] at hOk
      dsimp only at hOk
      rw [Except.bind_eq_ok_iff] at hOk
      rcases hOk with ⟨riskK, hPooled, hOk⟩
      rw [Except.bind_eq_ok_iff] at hOk
      rcases hOk with ⟨sCal, hCal, hOk⟩
      rw [Except.bind_eq_ok_iff] at hOk
      rcases hOk with ⟨sRaw, hRaw, hOk⟩
      cases hOk
      exact
        { candidates := hScored
          pooling := ⟨best, hBest, rfl⟩
          params := ⟨riskK, hPooled, rfl⟩
          calibrated := ⟨sCal, hCal, rfl⟩
          raw := ⟨sRaw, hRaw, rfl⟩ }

/- A frozen point gives what it was selected on. -/
theorem apply_of_selectedBy
    {rows : List (EvalTrajectories 𝕜 K)}
    {op : OperatingPoint 𝕜}
    (hSelected : SelectedBy library rows op) :
    ∃ applied,
      applyOperatingPoint rows op = .ok applied ∧
        applied.horizonsExtended = false ∧
          bestF1Threshold library.prCurve
                (scoredRows rows applied.calibrated) =
              (op.f1OptimalCalibrated, op.valF1Calibrated) ∧
            applied.calibrated.length = rows.length ∧
              bestF1Threshold library.prCurve
                    (scoredRows rows applied.raw) =
                  (op.f1OptimalRaw, op.valF1Raw) ∧
                applied.raw.length = rows.length := by
  rcases hSelected.params with ⟨riskK, hPooled, hParams⟩
  rcases hSelected.calibrated with ⟨sCal, hCal, hBestCal⟩
  rcases hSelected.raw with ⟨sRaw, hRaw, hBestRaw⟩
  rcases calibrateRows_of_composite hPooled hCal with
    ⟨riskKCal, hRiskKCal⟩
  have hLength : op.calibration.length = K := by
    unfold OperatingPoint.calibration
    rw [hParams, List.length_map]
    unfold fitPlattByHorizon
    rw [List.length_map, List.length_finRange]
  have hApplied :
      applyOperatingPoint rows op =
        .ok
          { raw := sRaw
            calibrated := sCal
            riskKRaw := riskK
            riskKCalibrated := riskKCal
            horizonsExtended :=
              decide
                (op.calibration.length <
                  (extendCalibrationToHorizon op.calibration
                    K).length) } := by
    unfold applyOperatingPoint
    rw [hPooled, hRaw, hCal]
    dsimp only [bind, Except.bind]
    rw [hRiskKCal]
    rfl
  refine ⟨_, hApplied, ?_, hBestCal, composite_length hCal,
    hBestRaw, composite_length hRaw⟩
  dsimp only
  rw [extendCalibration_of_length hLength]
  simp

------------------------------------------------------------
-- Optimality
------------------------------------------------------------

/- The labels and weights of the rows, without a score. -/
def unscored
    (rows : List (EvalTrajectories 𝕜 K)) :
    List (ScoredRow 𝕜) :=
  rows.map
    (fun row =>
      { label := row.published
        score := 0
        weight := row.weight })

/- A choice of rows that does not look at their scores. -/
def Blind (chosen : ScoredRow 𝕜 → Bool) : Prop :=
  ∀ row score, chosen { row with score := score } = chosen row

omit [LinearOrder 𝕜] [FloorSemiring 𝕜] [ExpLog 𝕜] in
theorem weightOf_scoredRows
    {rows : List (EvalTrajectories 𝕜 K)}
    {scores : List 𝕜}
    (hLength : scores.length = rows.length)
    {chosen : ScoredRow 𝕜 → Bool}
    (hBlind : Blind chosen) :
    weightOf (scoredRows rows scores) chosen =
      weightOf (unscored rows) chosen := by
  induction rows generalizing scores with
  | nil =>
      rw [List.length_nil, List.length_eq_zero_iff] at hLength
      rw [hLength]
      rfl
  | cons row rest ih =>
      cases scores with
      | nil => cases hLength
      | cons score others =>
          have hRest := ih (Nat.succ.inj hLength)
          have hHead :=
            hBlind
              { label := row.published
                score := 0
                weight := row.weight } score
          unfold weightOf scoredRows unscored at hRest ⊢
          rw [List.zipWith_cons_cons, List.map_cons,
            List.filter_cons, List.filter_cons, hHead]
          split
          · rw [List.map_cons, List.map_cons, List.sum_cons,
              List.sum_cons, hRest]
          · exact hRest

omit [LinearOrder 𝕜] [FloorSemiring 𝕜] [ExpLog 𝕜] in
theorem prevalence_scoredRows
    {rows : List (EvalTrajectories 𝕜 K)}
    {scores : List 𝕜}
    (hLength : scores.length = rows.length) :
    prevalence (scoredRows rows scores) =
      prevalence (unscored rows) := by
  unfold prevalence
  rw [weightOf_scoredRows hLength (fun _ _ => rfl),
    weightOf_scoredRows hLength (fun _ _ => rfl)]

omit [FloorSemiring 𝕜] [ExpLog 𝕜] in
theorem hasCurve_scoredRows
    {rows : List (EvalTrajectories 𝕜 K)}
    {scores : List 𝕜}
    (hLength : scores.length = rows.length)
    (hCurve : HasCurve (unscored rows)) :
    HasCurve (scoredRows rows scores) := by
  constructor
  · intro scored hScored
    rcases List.getElem_of_mem hScored with ⟨i, hI, rfl⟩
    have hLt : i < rows.length := by
      unfold scoredRows at hI
      rw [List.length_zipWith] at hI
      omega
    have hMem :
        ({ label := rows[i].published
           score := 0
           weight := rows[i].weight } : ScoredRow 𝕜) ∈
          unscored rows :=
      List.mem_map_of_mem (List.getElem_mem hLt)
    have hWeight := hCurve.weights _ hMem
    simpa [scoredRows] using hWeight
  · rcases hCurve.positive with ⟨scored, hScored, hLabel⟩
    rcases List.mem_map.mp hScored with ⟨row, hRow, rfl⟩
    rcases List.getElem_of_mem hRow with ⟨i, hI, rfl⟩
    have hLt : i < (scoredRows rows scores).length := by
      unfold scoredRows
      rw [List.length_zipWith]
      omega
    refine ⟨_, List.getElem_mem hLt, ?_⟩
    simpa [scoredRows] using hLabel

/- A threshold whose F1 is as noted, and no other's higher. -/
def BestThreshold
    (rows : List (ScoredRow 𝕜))
    (threshold f1 : 𝕜) : Prop :=
  (confusionAt rows threshold).f1 = f1 ∧
    ∀ t, (confusionAt rows t).f1 ≤ f1

/-
  What a maintainer relies on in a frozen operating point: it
  is the candidate whose scores of the validation rows have
  the highest average precision, its calibration keeps the
  order of every horizon, and where it is applied to these
  rows, its thresholds have the F1 that was noted, and no
  threshold has a higher one.
-/
structure Optimal
    (rows : List (EvalTrajectories 𝕜 K))
    (op : OperatingPoint 𝕜)
    (applied : AppliedPoint 𝕜) : Prop where
  candidates :
    poolingCandidates.mapM (scoreCandidate library rows) =
      .ok op.candidates
  named : op.candidates.map Prod.fst = poolingCandidates
  pooling :
    ∃ best ∈ op.candidates, best.1 = op.pooling ∧
      ∀ scored ∈ op.candidates, rankOf scored ≤ rankOf best
  horizons :
    op.calibration.length = K ∧
      applied.horizonsExtended = false
  slopes : ∀ params ∈ op.calibration, 0 < params.a
  calibrated :
    BestThreshold (scoredRows rows applied.calibrated)
      op.f1OptimalCalibrated op.valF1Calibrated
  raw :
    BestThreshold (scoredRows rows applied.raw)
      op.f1OptimalRaw op.valF1Raw

variable [IsStrictOrderedRing 𝕜]

omit [FloorSemiring 𝕜] [ExpLog 𝕜] in
theorem bestThreshold_scoredRows
    {rows : List (EvalTrajectories 𝕜 K)}
    {scores : List 𝕜}
    (hLength : scores.length = rows.length)
    (hCurve : HasCurve (unscored rows))
    (hPrevalence : f1Floor ≤ prevalence (unscored rows))
    {threshold f1 : 𝕜}
    (hBest :
      bestF1Threshold library.prCurve
          (scoredRows rows scores) =
        (threshold, f1)) :
    BestThreshold (scoredRows rows scores) threshold f1 := by
  have hSpec :=
    bestF1Threshold_spec library.prCurve
      (hasCurve_scoredRows hLength hCurve)
      ((prevalence_scoredRows hLength).symm ▸ hPrevalence)
  rw [hBest] at hSpec
  exact ⟨hSpec.2.1, hSpec.2.2⟩

theorem optimal_of_select
    {rows : List (EvalTrajectories 𝕜 K)}
    (hWeights : ∀ row ∈ rows, 0 < row.weight)
    (hPositive : ∃ row ∈ rows, row.published = true)
    (hPrevalence : f1Floor ≤ prevalence (unscored rows))
    {mandated : 𝕜}
    {op : OperatingPoint 𝕜}
    (hOk :
      selectOperatingPoint library rows mandated = .ok op) :
    ∃ applied,
      applyOperatingPoint rows op = .ok applied ∧
        Optimal library rows op applied := by
  have hSelected := selectedBy_of_select library hOk
  rcases apply_of_selectedBy library hSelected with
    ⟨applied, hApplied, hExtended, hCal, hCalLength, hRaw,
      hRawLength⟩
  have hCurve : HasCurve (unscored rows) := by
    constructor
    · intro scored hScored
      rcases List.mem_map.mp hScored with ⟨row, hRow, rfl⟩
      exact hWeights row hRow
    · rcases hPositive with ⟨row, hRow, hLabel⟩
      exact ⟨_, List.mem_map_of_mem hRow, hLabel⟩
  refine ⟨applied, hApplied, ?_⟩
  exact
    { candidates := hSelected.candidates
      named := by
        have hName :
            ∀ pooling scored,
              scoreCandidate library rows pooling =
                  .ok scored →
                scored.1 = pooling := by
          intro pooling scored hScored
          unfold scoreCandidate at hScored
          rw [Except.bind_eq_ok_iff] at hScored
          rcases hScored with ⟨_, _, hScored⟩
          cases hScored
          rfl
        have hNames :=
          List.map_eq_of_mapM hName hSelected.candidates
        exact hNames.trans (List.map_id' _)
      pooling := by
        rcases hSelected.pooling with ⟨best, hBest, hIs⟩
        refine ⟨best, List.argmax_mem hBest, hIs, ?_⟩
        intro scored hScored
        exact List.le_of_mem_argmax hScored hBest
      horizons := by
        rcases hSelected.params with ⟨riskK, _, hParams⟩
        refine ⟨?_, hExtended⟩
        unfold OperatingPoint.calibration
        rw [hParams, List.length_map]
        unfold fitPlattByHorizon
        rw [List.length_map, List.length_finRange]
      slopes := by
        intro params hMem
        rcases hSelected.params with ⟨riskK, _, hParams⟩
        unfold OperatingPoint.calibration at hMem
        rw [hParams] at hMem
        unfold fitPlattByHorizon at hMem
        rw [List.map_map] at hMem
        rcases List.mem_map.mp hMem with ⟨k, _, rfl⟩
        exact fitPlatt_slope library _
      calibrated :=
        bestThreshold_scoredRows library hCalLength hCurve
          hPrevalence hCal
      raw :=
        bestThreshold_scoredRows library hRawLength hCurve
          hPrevalence hRaw }

end Composite

end Definitions

------------------------------------------------------------
-- Two rows
------------------------------------------------------------

/- The exponential of the examples. -/
@[reducible]
def validationExpLog : ExpLog ℚ := ExpLog.tangent

/- A library that fits the same remap to everything. -/
def sameRemap : Learning ℚ :=
  { averagePrecision := fun rows =>
      weightOf rows ScoredRow.label
    prCurve := sortedCurve ℚ
    logistic := fun _ => (2, 1) }

/- An attack with a high risk, and none with a low one. -/
def highAndLow : List (EvalTrajectories ℚ 1) :=
  [{ published := true
     futureIsAttack := fun _ => true
     weight := 1
     riskTraj := [fun _ => 3 / 4, fun _ => 1 / 2] },
    { published := false
      futureIsAttack := fun _ => false
      weight := 5
      riskTraj := [fun _ => 1 / 4, fun _ => 0] }]

attribute [local instance] validationExpLog in
theorem exists_select_highAndLow :
    ∃ op,
      selectOperatingPoint sameRemap highAndLow (3 / 4) =
        .ok op := by
  have hSome :
      (selectOperatingPoint sameRemap highAndLow
        (3 / 4)).toOption.isSome = true := by
    decide +kernel
  cases hSelect :
      selectOperatingPoint sameRemap highAndLow (3 / 4) with
  | ok op => exact ⟨op, rfl⟩
  | error error =>
      rw [hSelect] at hSome
      cases hSome

attribute [local instance] validationExpLog in
theorem optimal_of_select_highAndLow :
    ∃ op applied,
      selectOperatingPoint sameRemap highAndLow (3 / 4) =
          .ok op ∧
        applyOperatingPoint highAndLow op = .ok applied ∧
          Optimal sameRemap highAndLow op applied := by
  rcases exists_select_highAndLow with ⟨op, hOk⟩
  rcases optimal_of_select sameRemap (by decide +kernel)
      (by decide +kernel) (by decide +kernel) hOk with
    ⟨applied, hApplied, hOptimal⟩
  exact ⟨op, applied, hOk, hApplied, hOptimal⟩

end Evaluation

end Nidra
