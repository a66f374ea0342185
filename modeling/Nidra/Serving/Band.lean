import Nidra.Serving.Predictor

/-
  This file states when every forecast that is served passes
  its own validation: the point estimate of every horizon
  lies in its band, whatever the sampled risks are. For each
  pooling and number of trajectories it gives the condition
  on the quantiles of the band, and proves that it is exact.

  Key definitions include:
    * `ServingConfig.Admitted`
    * `AlwaysServed`
    * `ServedPooling.Brackets`
    * `pointValue`, `calibrateAt`

  Main declarations:
    * `forecast_eq_ok`
    * `pointValue_between`
    * `exists_outside`
    * `alwaysServed_iff`
-/

namespace Nidra

namespace Serving

open Model Evaluation

------------------------------------------------------------
-- What is claimed
------------------------------------------------------------

/- The poolings that raise no error. -/
def ServedPooling.Admitted : ServedPooling ℝ → Prop
  | .operatingPoint method share =>
      method = .quantile →
        ∃ q, share = some q ∧ 0 ≤ q ∧ q ≤ 1
  | .configured method share _ =>
      method = .mean ∨
        method = .quantile ∧ 0 ≤ share ∧ share ≤ 1

/- The configurations that a predictor is served with. -/
structure ServingConfig.Admitted
    (cfg : ServingConfig ℝ) : Prop where
  pooling : cfg.pooling.Admitted
  low_nonneg : 0 ≤ cfg.ciLowQuantile
  low_le_high : cfg.ciLowQuantile ≤ cfg.ciHighQuantile
  high_le_one : cfg.ciHighQuantile ≤ 1
  slopes :
    ∀ paramsByK, cfg.calibration = some paramsByK →
      paramsByK.length = cfg.horizonLength ∧
        ∀ params ∈ paramsByK, 0 < params.a
  horizon_pos : 0 < cfg.horizonLength
  window_pos : 0 < cfg.windowSeconds

/-
  Whatever risks between zero and one the heads give to the
  trajectories, the forecast is made, every horizon lies in
  its band, and the forecast is accepted.
-/
def AlwaysServed
    (cfg : ServingConfig ℝ)
    (samples : ℕ) : Prop :=
  ∀ members perMember : ℕ, 0 < members →
    members * perMember = samples →
    ∀ perHeadRisk :
      Fin members → Fin samples →
        Fin cfg.horizonLength → ℝ,
    (∀ member sample k,
      0 ≤ perHeadRisk member sample k ∧
        perHeadRisk member sample k ≤ 1) →
    ∀ projections observation tenantId,
    ∃ result,
      forecast cfg perHeadRisk projections observation =
        .ok result ∧
      (∀ point ∈ result.horizons, point.Banded) ∧
      ∃ served,
        Forecast.build cfg.horizonLength tenantId result =
          .ok served

/-
  Whether the point estimate lies between the quantiles of
  the band for every sample of a size.
-/
def ServedPooling.Brackets
    (low high : ℝ)
    (samples : ℕ) : ServedPooling ℝ → Prop
  | .operatingPoint .mean _ =>
      samples * low ≤ 1 ∧ samples * (1 - high) ≤ 1
  | .operatingPoint .median _ =>
      samples = 1 ∨ low ≤ 1 / 2 ∧ 1 / 2 ≤ high
  | .operatingPoint .quantile share =>
      ∀ q ∈ share, samples = 1 ∨ low ≤ q ∧ q ≤ high
  | .operatingPoint .max _ => samples = 1 ∨ high = 1
  | .operatingPoint .pAboveHalf _ => False
  | .configured .quantile q .beforePooling =>
      samples = 1 ∨ low ≤ q ∧ q ≤ high
  | .configured .quantile q .afterPooling =>
      samples = 1 ∨
        samples = 2 ∧ q = 1 / 2 ∧
          low ≤ 1 / 2 ∧ 1 / 2 ≤ high
  | .configured _ _ _ =>
      samples * low ≤ 1 ∧ samples * (1 - high) ≤ 1

------------------------------------------------------------
-- What is served
------------------------------------------------------------

/- The point estimate where it does not raise. -/
noncomputable def pointValue
    {members samples : ℕ}
    (pooling : ServedPooling ℝ)
    (perHead : Fin members → Fin samples → ℝ) : ℝ :=
  let pooled := trajectories (headMean perHead)
  match pooling with
  | .operatingPoint .mean _ => average pooled
  | .operatingPoint .median _ => median pooled
  | .operatingPoint .quantile share =>
      quantile (share.getD 0) pooled
  | .operatingPoint .max _ => largest pooled
  | .operatingPoint .pAboveHalf _ =>
      average (aboveHalf pooled)
  | .configured .quantile share .beforePooling =>
      quantile share pooled
  | .configured .quantile share .afterPooling =>
      average
        ((List.ofFn perHead).map (fun risk =>
          quantile share (trajectories risk)))
  | .configured _ _ .beforePooling => average pooled
  | .configured _ _ .afterPooling =>
      average
        ((List.ofFn perHead).map (fun risk =>
          average (trajectories risk)))

theorem checkedQuantile_eq_ok
    {share : ℝ}
    (hPos : 0 ≤ share)
    (hLe : share ≤ 1)
    (risk : List ℝ) :
    checkedQuantile share risk = .ok (quantile share risk) :=
  if_pos ⟨hPos, hLe⟩

theorem pointRisk_eq_ok
    {pooling : ServedPooling ℝ}
    (hAdmitted : pooling.Admitted)
    {members samples : ℕ}
    (perHead : Fin members → Fin samples → ℝ) :
    pointRisk pooling perHead =
      .ok (pointValue pooling perHead) := by
  cases pooling with
  | operatingPoint method share =>
      cases method with
      | mean => rfl
      | median => rfl
      | max => rfl
      | pAboveHalf => rfl
      | quantile =>
          rcases hAdmitted rfl with ⟨q, rfl, hPos, hLe⟩
          exact checkedQuantile_eq_ok hPos hLe _
  | configured method share headReduction =>
      rcases hAdmitted with rfl | ⟨rfl, hPos, hLe⟩
      · cases headReduction with
        | beforePooling => rfl
        | afterPooling =>
            simp only [pointRisk, poolEnsembleRisk,
              poolRiskOverSamples, mapM_ok]
            rfl
      · cases headReduction with
        | beforePooling => exact checkedQuantile_eq_ok hPos hLe _
        | afterPooling =>
            simp only [pointRisk, poolEnsembleRisk,
              poolRiskOverSamples,
              checkedQuantile_eq_ok hPos hLe, mapM_ok]
            rfl

/- The calibration of one horizon, if there is one. -/
noncomputable def calibrateAt
    (calibration : Option (List (Platt ℝ)))
    (k : ℕ)
    (risk : ℝ) : ℝ :=
  match calibration with
  | none => risk
  | some paramsByK =>
      match paramsByK[k]? with
      | none => risk
      | some params => applyPlatt params risk

section Served

variable {cfg : ServingConfig ℝ}
variable (hAdmitted : cfg.Admitted)
include hAdmitted

theorem calibrated_eq_ok
    (risk : Fin cfg.horizonLength → ℝ) :
    calibrated cfg.calibration
        ((List.finRange cfg.horizonLength).map risk) =
      .ok
        ((List.finRange cfg.horizonLength).map
          (fun (k : Fin cfg.horizonLength) =>
            calibrateAt cfg.calibration k (risk k))) := by
  cases hCalibration : cfg.calibration with
  | none => rfl
  | some paramsByK =>
      have hLength := (hAdmitted.slopes _ hCalibration).1
      simp only [calibrated, applyPlattByHorizon,
        List.length_map, List.length_finRange]
      rw [if_pos hLength]
      congr 1
      apply List.ext_getElem
      · simp [hLength]
      · intro i hFirst hSecond
        have hBound : i < paramsByK.length := by
          simp at hSecond
          omega
        simp [calibrateAt, List.getElem?_eq_getElem hBound]

variable {members samples : ℕ}
variable
  (perHeadRisk :
    Fin members → Fin samples → Fin cfg.horizonLength → ℝ)

omit hAdmitted in
/- The risks of one horizon. -/
def atHorizon
    (k : Fin cfg.horizonLength)
    (member : Fin members)
    (sample : Fin samples) : ℝ :=
  perHeadRisk member sample k

omit hAdmitted in
/- The point estimate and the band of one horizon. -/
noncomputable def servedPoint
    (k : Fin cfg.horizonLength) : ℝ :=
  calibrateAt cfg.calibration k
    (pointValue cfg.pooling (atHorizon perHeadRisk k))

omit hAdmitted in
noncomputable def servedBound
    (share : ℝ)
    (k : Fin cfg.horizonLength) : ℝ :=
  calibrateAt cfg.calibration k
    (quantile share
      (trajectories (headMean (atHorizon perHeadRisk k))))

theorem poolRollout_eq_ok :
    poolRollout cfg perHeadRisk =
      .ok
        { riskMeanK :=
            (List.finRange cfg.horizonLength).map
              (servedPoint perHeadRisk)
          riskRawK :=
            (List.finRange cfg.horizonLength).map (fun k =>
              pointValue cfg.pooling
                (atHorizon perHeadRisk k))
          riskCiLowK :=
            (List.finRange cfg.horizonLength).map
              (servedBound perHeadRisk cfg.ciLowQuantile)
          riskCiHighK :=
            (List.finRange cfg.horizonLength).map
              (servedBound perHeadRisk
                cfg.ciHighQuantile) } := by
  have hHigh : 0 ≤ cfg.ciHighQuantile :=
    hAdmitted.low_nonneg.trans hAdmitted.low_le_high
  have hLow : cfg.ciLowQuantile ≤ 1 :=
    hAdmitted.low_le_high.trans hAdmitted.high_le_one
  simp only [poolRollout, overHorizons, ciRisk,
    pointRisk_eq_ok hAdmitted.pooling,
    checkedQuantile_eq_ok hAdmitted.low_nonneg hLow,
    checkedQuantile_eq_ok hHigh hAdmitted.high_le_one,
    mapM_ok, bind, Except.bind,
    calibrated_eq_ok hAdmitted]
  rfl

variable
  (projections : Fin cfg.horizonLength → Projection ℝ)
variable (observation : Observation ℝ)

omit hAdmitted in
/- One horizon of the forecast that is served. -/
noncomputable def servedHorizon
    (k : Fin cfg.horizonLength) : HorizonPoint ℝ :=
  { k := (k : ℕ) + 1
    ts :=
      observation.originTs +
        cfg.windowSeconds * ((k : ℕ) + 1)
    pCompromise := servedPoint perHeadRisk k
    ciLow := servedBound perHeadRisk cfg.ciLowQuantile k
    ciHigh := servedBound perHeadRisk cfg.ciHighQuantile k
    stageDist :=
      Stage.all.map (fun stage =>
        (stage.label, (projections k).stageMean stage))
    predictedFeatures :=
      featureOrder.map (fun feature =>
        (feature.label, (projections k).predicted feature)) }

/- The forecast is made, with these horizons. -/
theorem forecast_eq_ok :
    ∃ result,
      forecast cfg perHeadRisk projections observation =
        .ok result ∧
      result.originTs = observation.originTs ∧
      result.horizons =
        (List.finRange cfg.horizonLength).map
          (servedHorizon perHeadRisk projections
            observation) := by
  unfold forecast
  rw [poolRollout_eq_ok hAdmitted]
  refine ⟨_, rfl, rfl, ?_⟩
  apply List.map_congr_left
  intro k _
  simp [horizonPoint, servedHorizon]

/- A forecast whose horizons are in their bands is accepted. -/
theorem exists_build_ok_of_banded
    {result : PredictorResult ℝ}
    (hOrigin : result.originTs = observation.originTs)
    (hHorizons :
      result.horizons =
        (List.finRange cfg.horizonLength).map
          (servedHorizon perHeadRisk projections
            observation))
    (hBanded : ∀ point ∈ result.horizons, point.Banded)
    (tenantId : String) :
    ∃ served,
      Forecast.build cfg.horizonLength tenantId result =
        .ok served := by
  apply Forecast.exists_build_ok
  have hPoints :
      result.horizons.findSome? HorizonPoint.check = none := by
    rw [List.findSome?_eq_none_iff]
    intro point hMem
    rw [HorizonPoint.check_eq_none_iff]
    refine ⟨hBanded point hMem, ?_⟩
    rw [hHorizons] at hMem
    rcases List.mem_map.mp hMem with ⟨k, _, rfl⟩
    exact HorizonPoint.unknownStages_eq_nil rfl
  have hOrder :
      result.horizons.map HorizonPoint.k =
        Forecast.expectedHorizons cfg.horizonLength := by
    rw [hHorizons, Forecast.expectedHorizons, List.map_map]
    apply List.ext_getElem
    · simp
    · intro i hFirst hSecond
      simp [servedHorizon]
  have hTimes :
      Forecast.checkCausal result.originTs result.horizons =
        none := by
    rw [Forecast.checkCausal_eq_none_iff, hHorizons, hOrigin,
      List.map_map]
    apply List.Pairwise.isChain
    have hWindow := hAdmitted.window_pos
    rw [List.pairwise_cons, List.pairwise_map]
    constructor
    · intro ts hMem
      rcases List.mem_map.mp hMem with ⟨k, _, rfl⟩
      simp only [Function.comp_apply, servedHorizon]
      have hAfter :
          0 < cfg.windowSeconds * ((k : ℕ) + 1) := by
        positivity
      linarith
    · refine
        (List.pairwise_lt_finRange
          cfg.horizonLength).imp ?_
      intro first second hLt
      have hCast : ((first : ℕ) : ℚ) < (second : ℕ) := by
        exact_mod_cast hLt
      simp only [Function.comp_apply, servedHorizon]
      have hScaled := mul_lt_mul_of_pos_left hCast hWindow
      linarith
  simp only [Forecast.check, hPoints, hOrder, hTimes]
  simp

end Served

------------------------------------------------------------
-- The order of the statistics
------------------------------------------------------------

section Order

variable {members samples : ℕ}

theorem trajectories_length
    (risk : Fin samples → ℝ) :
    (trajectories risk).length = samples :=
  List.length_ofFn

theorem trajectories_ne_nil
    (hSamples : 0 < samples)
    (risk : Fin samples → ℝ) :
    trajectories risk ≠ [] := by
  rw [← List.length_pos_iff, trajectories_length]
  exact hSamples

/-
  Averaging the averages of the heads averages their means on
  the trajectories.
-/
theorem average_heads
    (perHead : Fin members → Fin samples → ℝ) :
    average
        ((List.ofFn perHead).map (fun risk =>
          average (trajectories risk))) =
      average (trajectories (headMean perHead)) := by
  rw [List.map_ofFn]
  exact average_swap perHead

/-
  Where a quantile of each head is its average, averaging
  these averages the pooled trajectories.
-/
theorem average_head_quantiles
    {share : ℝ}
    (hAverage :
      ∀ risk : Fin samples → ℝ,
        quantile share (trajectories risk) =
          average (trajectories risk))
    (perHead : Fin members → Fin samples → ℝ) :
    average
        ((List.ofFn perHead).map (fun risk =>
          quantile share (trajectories risk))) =
      average (trajectories (headMean perHead)) := by
  rw [← average_heads]
  simp only [hAverage]

/- The average lies between outer enough quantiles. -/
theorem average_between
    (hSamples : 0 < samples)
    {low high : ℝ}
    (hLow : 0 ≤ low)
    (hBelow : samples * low ≤ 1)
    (hAbove : samples * (1 - high) ≤ 1)
    (risk : Fin samples → ℝ) :
    quantile low (trajectories risk) ≤
        average (trajectories risk) ∧
      average (trajectories risk) ≤
        quantile high (trajectories risk) := by
  have hSome := trajectories_ne_nil hSamples risk
  constructor
  · apply quantile_le_average hSome hLow
    rw [trajectories_length]
    exact hBelow
  · apply average_le_quantile hSome
    rw [trajectories_length]
    exact hAbove

/- A quantile lies between an earlier and a later one. -/
theorem quantile_between
    (hSamples : 0 < samples)
    {low high share : ℝ}
    (hLow : 0 ≤ low)
    (hShare : 0 ≤ share)
    (hBetween : samples = 1 ∨ low ≤ share ∧ share ≤ high)
    (risk : Fin samples → ℝ) :
    quantile low (trajectories risk) ≤
        quantile share (trajectories risk) ∧
      quantile share (trajectories risk) ≤
        quantile high (trajectories risk) := by
  have hSome := trajectories_ne_nil hSamples risk
  rcases hBetween with hOne | ⟨hBelow, hAbove⟩
  · have hLength : (trajectories risk).length = 1 := by
      rw [trajectories_length, hOne]
    simp only [quantile_of_length_one hLength]
    exact ⟨le_rfl, le_rfl⟩
  · exact
      ⟨quantile_mono hSome hLow hBelow,
        quantile_mono hSome hShare hAbove⟩

/-
  Under its condition every pooling lies between the two
  quantiles of the band.
-/
theorem pointValue_between
    {pooling : ServedPooling ℝ}
    (hAdmitted : pooling.Admitted)
    (hSamples : 0 < samples)
    {low high : ℝ}
    (hLow : 0 ≤ low)
    (hOrder : low ≤ high)
    (hBrackets : pooling.Brackets low high samples)
    (perHead : Fin members → Fin samples → ℝ) :
    quantile low (trajectories (headMean perHead)) ≤
        pointValue pooling perHead ∧
      pointValue pooling perHead ≤
        quantile high (trajectories (headMean perHead)) := by
  have hSome :=
    trajectories_ne_nil hSamples (headMean perHead)
  cases pooling with
  | operatingPoint method share =>
      cases method with
      | mean =>
          exact
            average_between hSamples hLow hBrackets.1
              hBrackets.2 _
      | median =>
          simp only [pointValue, median_eq_quantile hSome]
          exact
            quantile_between hSamples hLow (by norm_num)
              hBrackets _
      | quantile =>
          rcases hAdmitted rfl with ⟨q, rfl, hPos, _⟩
          exact
            quantile_between hSamples hLow hPos
              (hBrackets q rfl) _
      | max =>
          simp only [pointValue, largest_eq_quantile hSome]
          refine
            quantile_between hSamples hLow zero_le_one ?_ _
          rcases hBrackets with hOne | rfl
          · exact Or.inl hOne
          · exact Or.inr ⟨hOrder, le_rfl⟩
      | pAboveHalf => exact hBrackets.elim
  | configured method share headReduction =>
      rcases hAdmitted with rfl | ⟨rfl, hPos, _⟩
      · have hMean :=
          average_between hSamples hLow hBrackets.1
            hBrackets.2 (headMean perHead)
        cases headReduction with
        | beforePooling => exact hMean
        | afterPooling =>
            simp only [pointValue, average_heads]
            exact hMean
      · cases headReduction with
        | beforePooling =>
            exact
              quantile_between hSamples hLow hPos hBrackets _
        | afterPooling =>
            -- Every quantile is an average here.
            rcases hBrackets with
              rfl | ⟨rfl, rfl, hBelow, hAbove⟩
            · simp only [pointValue]
              rw [average_head_quantiles (fun risk =>
                quantile_of_length_one
                  (trajectories_length risk) share)]
              have hLength :=
                trajectories_length (headMean perHead)
              simp only [quantile_of_length_one hLength]
              exact ⟨le_rfl, le_rfl⟩
            · simp only [pointValue]
              rw [average_head_quantiles (fun risk =>
                quantile_half_of_length_two
                  (trajectories_length risk))]
              refine average_between hSamples hLow ?_ ?_ _
              · push_cast
                linarith
              · push_cast
                linarith

end Order

------------------------------------------------------------
-- Samples outside the band
------------------------------------------------------------

section Outside

/-
  Risks between one quarter and three quarters whose point
  estimate lies outside the two quantiles of the band.
-/
structure Outside
    (pooling : ServedPooling ℝ)
    (low high : ℝ)
    {members samples : ℕ}
    (perHead : Fin members → Fin samples → ℝ) : Prop where
  bounds :
    ∀ member sample,
      1 / 4 ≤ perHead member sample ∧
        perHead member sample ≤ 3 / 4
  outside :
    pointValue pooling perHead <
        quantile low (trajectories (headMean perHead)) ∨
      quantile high (trajectories (headMean perHead)) <
        pointValue pooling perHead

/- Heads that agree have their common opinion as mean. -/
theorem headMean_same
    {members samples : ℕ}
    (hMembers : 0 < members)
    (risk : Fin samples → ℝ) :
    headMean (fun (_ : Fin members) => risk) = risk := by
  have hCast : (members : ℝ) ≠ 0 := by
    exact_mod_cast hMembers.ne'
  funext sample
  simp [headMean, average, hCast]

variable {count : ℕ}

/- One trajectory differs from all the others. -/
def oneOut
    (i : Fin (count + 1))
    (u v : ℝ) : Fin (count + 1) → ℝ :=
  Function.update (fun _ => v) i u

theorem oneOut_bounds
    (i : Fin (count + 1))
    {u v : ℝ}
    (hU : 1 / 4 ≤ u ∧ u ≤ 3 / 4)
    (hV : 1 / 4 ≤ v ∧ v ≤ 3 / 4)
    (sample : Fin (count + 1)) :
    1 / 4 ≤ oneOut i u v sample ∧
      oneOut i u v sample ≤ 3 / 4 := by
  unfold oneOut
  by_cases hSame : sample = i
  · subst hSame
    simpa using hU
  · simpa [Function.update_of_ne hSame] using hV

/- A trajectory below the others pulls the average down. -/
theorem average_lt_of_oneBelow
    (i : Fin (count + 1))
    {low : ℝ}
    (hPos : 0 ≤ low)
    (hLe : low ≤ 1)
    (hLow : 1 < ((count + 1 : ℕ) : ℝ) * low) :
    average (trajectories (oneOut i (1 / 4) (3 / 4))) <
      quantile low
        (trajectories (oneOut i (1 / 4) (3 / 4))) := by
  have hPerm :
      (trajectories (oneOut i (1 / 4 : ℝ) (3 / 4))).Perm _ :=
    ofFn_update_perm i (1 / 4) (3 / 4)
  rw [average_outlier hPerm,
    quantile_outlierBelow (by norm_num) hPerm hPos]
  push_cast at hLow
  have hCount : (0 : ℝ) < count + 1 := by positivity
  have hShare :
      (count : ℝ) / (count + 1) < min 1 (low * count) := by
    rw [lt_min_iff]
    constructor
    · rw [div_lt_one hCount]
      linarith
    · rw [div_lt_iff₀ hCount]
      have hSome : (0 : ℝ) < count := by
        by_contra hNone
        have hZero : (count : ℝ) = 0 :=
          le_antisymm (not_lt.mp hNone) (Nat.cast_nonneg _)
        rw [hZero] at hLow
        linarith
      nlinarith
  linarith

/- A trajectory above the others pulls the average up. -/
theorem lt_average_of_oneAbove
    (i : Fin (count + 1))
    {high : ℝ}
    (hPos : 0 ≤ high)
    (hLe : high ≤ 1)
    (hHigh : 1 < ((count + 1 : ℕ) : ℝ) * (1 - high)) :
    quantile high
        (trajectories (oneOut i (3 / 4) (1 / 4))) <
      average (trajectories (oneOut i (3 / 4) (1 / 4))) := by
  have hPerm :
      (trajectories (oneOut i (3 / 4 : ℝ) (1 / 4))).Perm _ :=
    ofFn_update_perm i (3 / 4) (1 / 4)
  rw [average_outlier hPerm,
    quantile_outlierAbove (by norm_num) hPerm hPos hLe]
  push_cast at hHigh
  have hCount : (0 : ℝ) < count + 1 := by positivity
  have hShare :
      (count : ℝ) / (count + 1) <
        min 1 ((1 - high) * count) := by
    rw [lt_min_iff]
    constructor
    · rw [div_lt_one hCount]
      linarith
    · rw [div_lt_iff₀ hCount]
      have hSome : (0 : ℝ) < count := by
        by_contra hNone
        have hZero : (count : ℝ) = 0 :=
          le_antisymm (not_lt.mp hNone) (Nat.cast_nonneg _)
        rw [hZero] at hHigh
        linarith
      nlinarith
  linarith

/- Evenly spaced trajectories. -/
noncomputable def rising
    (count : ℕ)
    (sample : Fin (count + 1)) : ℝ :=
  1 / 4 + 1 / (2 * count) * (sample : ℕ)

theorem quantile_rising
    (hSome : 0 < count)
    {share : ℝ}
    (hPos : 0 ≤ share)
    (hLe : share ≤ 1) :
    quantile share (trajectories (rising count)) =
      1 / 4 + share / 2 := by
  have hCount : (0 : ℝ) < count := by exact_mod_cast hSome
  have hSame :
      trajectories (rising count) =
        (List.range (count + 1)).map
          (fun (i : ℕ) =>
            (1 / 4 : ℝ) + 1 / (2 * count) * i) := by
    apply List.ext_getElem
    · simp [trajectories]
    · intro i hFirst hSecond
      simp only [trajectories, rising, List.getElem_ofFn,
        List.getElem_map, List.getElem_range]
  rw [hSame,
    quantile_evenlySpaced (by positivity) count hPos hLe]
  field_simp

theorem rising_bounds
    (hSome : 0 < count)
    (sample : Fin (count + 1)) :
    1 / 4 ≤ rising count sample ∧
      rising count sample ≤ 3 / 4 := by
  have hCount : (0 : ℝ) < count := by exact_mod_cast hSome
  have hSample : ((sample : ℕ) : ℝ) ≤ count := by
    exact_mod_cast Nat.lt_succ_iff.mp sample.isLt
  unfold rising
  constructor
  · have hNonneg :
        0 ≤ 1 / (2 * (count : ℝ)) * (sample : ℕ) := by
      positivity
    linarith
  · have hHalf :
        1 / (2 * (count : ℝ)) * (sample : ℕ) ≤ 1 / 2 := by
      rw [div_mul_eq_mul_div, one_mul,
        div_le_div_iff₀ (by positivity) (by norm_num)]
      linarith
    linarith

/- A pooling that takes the average of one head's risks. -/
theorem exists_outside_of_average
    {pooling : ServedPooling ℝ}
    (hValue :
      ∀ risk : Fin (count + 1) → ℝ,
        pointValue pooling (fun (_ : Fin 1) => risk) =
          average (trajectories risk))
    {low high : ℝ}
    (hLow : 0 ≤ low)
    (hOrder : low ≤ high)
    (hHigh : high ≤ 1)
    (hNot :
      ¬ (((count + 1 : ℕ) : ℝ) * low ≤ 1 ∧
        ((count + 1 : ℕ) : ℝ) * (1 - high) ≤ 1)) :
    ∃ risk : Fin (count + 1) → ℝ,
      Outside pooling low high
        (fun (_ : Fin 1) => risk) := by
  have hMean (risk : Fin (count + 1) → ℝ) :
      headMean (fun (_ : Fin 1) => risk) = risk :=
    headMean_same one_pos risk
  rw [not_and_or, not_le, not_le] at hNot
  rcases hNot with hBelow | hAbove
  · refine
      ⟨oneOut 0 (1 / 4) (3 / 4),
        { bounds := fun _ sample =>
            oneOut_bounds 0 (by norm_num) (by norm_num) sample
          outside := Or.inl ?_ }⟩
    rw [hValue, hMean]
    exact
      average_lt_of_oneBelow 0 hLow (hOrder.trans hHigh)
        hBelow
  · refine
      ⟨oneOut 0 (3 / 4) (1 / 4),
        { bounds := fun _ sample =>
            oneOut_bounds 0 (by norm_num) (by norm_num) sample
          outside := Or.inr ?_ }⟩
    rw [hValue, hMean]
    exact
      lt_average_of_oneAbove 0 (hLow.trans hOrder) hHigh
        hAbove

/- A pooling that takes a quantile of one head's risks. -/
theorem exists_outside_of_quantile
    {pooling : ServedPooling ℝ}
    {share : ℝ}
    (hValue :
      ∀ risk : Fin (count + 1) → ℝ,
        pointValue pooling (fun (_ : Fin 1) => risk) =
          quantile share (trajectories risk))
    (hPos : 0 ≤ share)
    (hLe : share ≤ 1)
    {low high : ℝ}
    (hLow : 0 ≤ low)
    (hOrder : low ≤ high)
    (hHigh : high ≤ 1)
    (hNot :
      ¬ (count + 1 = 1 ∨ low ≤ share ∧ share ≤ high)) :
    ∃ risk : Fin (count + 1) → ℝ,
      Outside pooling low high
        (fun (_ : Fin 1) => risk) := by
  rw [not_or, not_and_or, not_le, not_le] at hNot
  rcases hNot with ⟨hMany, hBetween⟩
  have hSome : 0 < count := by omega
  refine
    ⟨rising count,
      { bounds := fun _ sample => rising_bounds hSome sample
        outside := ?_ }⟩
  rw [hValue, headMean_same one_pos,
    quantile_rising hSome hPos hLe,
    quantile_rising hSome hLow (hOrder.trans hHigh),
    quantile_rising hSome (hLow.trans hOrder) hHigh]
  rcases hBetween with hBelow | hAbove
  · left
    linarith
  · right
    linarith

/- Each head singles out its own trajectory. -/
def diagonal
    (u v : ℝ)
    (member : Fin (count + 1)) : Fin (count + 1) → ℝ :=
  oneOut member u v

theorem diagonal_bounds
    {u v : ℝ}
    (hU : 1 / 4 ≤ u ∧ u ≤ 3 / 4)
    (hV : 1 / 4 ≤ v ∧ v ≤ 3 / 4)
    (member sample : Fin (count + 1)) :
    1 / 4 ≤ diagonal u v member sample ∧
      diagonal u v member sample ≤ 3 / 4 :=
  oneOut_bounds member hU hV sample

/- All trajectories have the same mean opinion. -/
theorem headMean_diagonal
    (u v : ℝ) :
    headMean (fun member : Fin (count + 1) =>
        diagonal u v member) =
      fun _ => u + count / (count + 1) * (v - u) := by
  funext sample
  have hColumn :
      (fun member => diagonal u v member sample) =
        oneOut sample u v := by
    funext member
    by_cases hSame : member = sample
    · subst hSame
      rfl
    · simp [diagonal, oneOut, Function.update_of_ne hSame,
        Function.update_of_ne (Ne.symm hSame)]
  rw [headMean, hColumn]
  exact average_outlier (ofFn_update_perm sample u v)

/- So every quantile of the mean opinions is the same. -/
theorem quantile_headMean_diagonal
    (u v : ℝ)
    {share : ℝ}
    (hPos : 0 ≤ share) :
    quantile share
        (trajectories
          (headMean (fun member : Fin (count + 1) =>
            diagonal u v member))) =
      u + count / (count + 1) * (v - u) := by
  rw [headMean_diagonal]
  have hSome :=
    trajectories_ne_nil (Nat.succ_pos count)
      (fun _ => u + (count : ℝ) / (count + 1) * (v - u))
  have hBounds :=
    quantile_bounds hSome
      (fun x hMem => by
        rw [trajectories, List.mem_ofFn] at hMem
        rcases hMem with ⟨_, rfl⟩
        exact ⟨le_rfl, le_rfl⟩) hPos
  exact le_antisymm hBounds.2 hBounds.1

/- Heads whose quantiles are the same pool to that value. -/
theorem average_diagonal
    {u v share value : ℝ}
    (hValue :
      ∀ member : Fin (count + 1),
        quantile share (trajectories (diagonal u v member)) =
          value) :
    average
        ((List.ofFn (fun member : Fin (count + 1) =>
          diagonal u v member)).map (fun risk =>
            quantile share (trajectories risk))) = value := by
  have hCount : ((count + 1 : ℕ) : ℝ) ≠ 0 := by positivity
  have hSame :
      (List.ofFn (fun member : Fin (count + 1) =>
        diagonal u v member)).map (fun risk =>
          quantile share (trajectories risk)) =
        List.replicate (count + 1) value := by
    rw [List.map_ofFn, ← List.ofFn_const]
    congr 1
    funext member
    exact hValue member
  rw [hSame, average, List.sum_replicate,
    List.length_replicate, nsmul_eq_mul]
  exact mul_div_cancel_left₀ value hCount

/-
  A share of the trajectories is that of one among all of
  them, or the outlier's weight tells them apart.
-/
theorem weight_ne
    {weight : ℝ}
    (hWeight : weight ≠ count / (count + 1)) :
    min 1 weight ≠ count / (count + 1) := by
  have hShare : (count : ℝ) / (count + 1) < 1 := by
    rw [div_lt_one (by positivity)]
    linarith
  rcases min_choice 1 weight with hOne | hSame
  · rw [hOne]
    exact hShare.ne'
  · rw [hSame]
    exact hWeight

/- After pooling, heads that differ leave the band. -/
theorem exists_outside_of_afterPooling
    {share : ℝ}
    (hPos : 0 ≤ share)
    (hLe : share ≤ 1)
    {low high : ℝ}
    (hLow : 0 ≤ low)
    (hOrder : low ≤ high)
    (hMany : 0 < count)
    (hNot : ¬ (count = 1 ∧ share = 1 / 2)) :
    ∃ u v : ℝ,
      Outside
        (.configured .quantile share .afterPooling) low high
        (fun member : Fin (count + 1) =>
          diagonal u v member) := by
  have hCount : (0 : ℝ) < count := by exact_mod_cast hMany
  by_cases hFirst : share * count = count / (count + 1)
  · have hSecond :
        (1 - share) * count ≠ count / (count + 1) := by
      intro hSame
      apply hNot
      have hNext : (0 : ℝ) < count + 1 := by positivity
      have hTwice :
          (count : ℝ) = 2 * (count / (count + 1)) := by
        linarith
      have hOne : (count : ℝ) = 1 := by
        field_simp at hTwice
        linarith
      refine ⟨by exact_mod_cast hOne, ?_⟩
      rw [hOne] at hFirst
      linarith
    refine
      ⟨3 / 4, 1 / 4,
        { bounds := diagonal_bounds (by norm_num) (by norm_num)
          outside := ?_ }⟩
    have hPoint :=
      average_diagonal (fun (member : Fin (count + 1)) =>
        quantile_outlierAbove (by norm_num)
          (ofFn_update_perm member (3 / 4) (1 / 4)) hPos hLe)
    have hNe := weight_ne hSecond
    rw [quantile_headMean_diagonal _ _ hLow,
      quantile_headMean_diagonal _ _ (hLow.trans hOrder)]
    simp only [pointValue]
    rw [hPoint]
    rcases lt_or_gt_of_ne hNe with hLess | hMore
    · right
      linarith
    · left
      linarith
  · refine
      ⟨1 / 4, 3 / 4,
        { bounds := diagonal_bounds (by norm_num) (by norm_num)
          outside := ?_ }⟩
    have hPoint :=
      average_diagonal (fun (member : Fin (count + 1)) =>
        quantile_outlierBelow (by norm_num)
          (ofFn_update_perm member (1 / 4) (3 / 4)) hPos)
    have hNe := weight_ne hFirst
    rw [quantile_headMean_diagonal _ _ hLow,
      quantile_headMean_diagonal _ _ (hLow.trans hOrder)]
    simp only [pointValue]
    rw [hPoint]
    rcases lt_or_gt_of_ne hNe with hLess | hMore
    · left
      linarith
    · right
      linarith

/-
  Without its condition every pooling leaves the band for
  some risks, of some ensemble with that many trajectories.
-/
theorem exists_outside
    {pooling : ServedPooling ℝ}
    (hAdmitted : pooling.Admitted)
    {low high : ℝ}
    (hLow : 0 ≤ low)
    (hOrder : low ≤ high)
    (hHigh : high ≤ 1)
    (hNot : ¬ pooling.Brackets low high (count + 1)) :
    ∃ members perMember : ℕ, 0 < members ∧
      members * perMember = count + 1 ∧
      ∃ perHead : Fin members → Fin (count + 1) → ℝ,
        Outside pooling low high perHead := by
  have hSingle
      (hExists :
        ∃ risk : Fin (count + 1) → ℝ,
          Outside pooling low high
            (fun (_ : Fin 1) => risk)) :
      ∃ members perMember : ℕ, 0 < members ∧
        members * perMember = count + 1 ∧
        ∃ perHead : Fin members → Fin (count + 1) → ℝ,
          Outside pooling low high perHead := by
    rcases hExists with ⟨risk, hOutside⟩
    exact
      ⟨1, count + 1, one_pos, one_mul _, _, hOutside⟩
  have hMean (risk : Fin (count + 1) → ℝ) :
      headMean (fun (_ : Fin 1) => risk) = risk :=
    headMean_same one_pos risk
  have hSome (risk : Fin (count + 1) → ℝ) :=
    trajectories_ne_nil (Nat.succ_pos count) risk
  cases pooling with
  | operatingPoint method share =>
      cases method with
      | mean =>
          apply hSingle
          refine
            exists_outside_of_average (fun risk => ?_) hLow
              hOrder hHigh hNot
          simp only [pointValue, hMean]
      | median =>
          apply hSingle
          refine
            exists_outside_of_quantile (fun risk => ?_)
              (by norm_num) (by norm_num) hLow hOrder hHigh
              hNot
          simp only [pointValue, hMean]
          exact median_eq_quantile (hSome risk)
      | quantile =>
          rcases hAdmitted rfl with ⟨q, rfl, hPos, hLe⟩
          apply hSingle
          refine
            exists_outside_of_quantile (fun risk => ?_) hPos
              hLe hLow hOrder hHigh (fun hBetween => hNot ?_)
          · simp only [pointValue, hMean, Option.getD_some]
          · intro q' hMem
            rw [Option.mem_some_iff.mp hMem] at hBetween
            exact hBetween
      | max =>
          apply hSingle
          refine
            exists_outside_of_quantile (fun risk => ?_)
              zero_le_one le_rfl hLow hOrder hHigh
              (fun hBetween => hNot ?_)
          · simp only [pointValue, hMean]
            exact largest_eq_quantile (hSome risk)
          · rcases hBetween with hOne | ⟨_, hTop⟩
            · exact Or.inl hOne
            · exact Or.inr (le_antisymm hHigh hTop)
      | pAboveHalf =>
          apply hSingle
          refine
            ⟨fun _ => 3 / 4,
              { bounds := fun _ _ => by norm_num
                outside := Or.inr ?_ }⟩
          rw [hMean]
          have hBounds :=
            quantile_bounds (hSome (fun _ => 3 / 4))
              (fun x hMem => by
                rw [trajectories, List.mem_ofFn] at hMem
                rcases hMem with ⟨_, rfl⟩
                exact ⟨le_rfl, le_rfl⟩)
              (hLow.trans hOrder)
          have hAll :
              pointValue (.operatingPoint .pAboveHalf share)
                (fun (_ : Fin 1) (_ : Fin (count + 1)) =>
                  (3 / 4 : ℝ)) = 1 := by
            have hCount : ((count + 1 : ℕ) : ℝ) ≠ 0 := by
              positivity
            have hRisky : (1 / 2 : ℝ) ≤ 3 / 4 := by norm_num
            simp only [pointValue, hMean, trajectories,
              aboveHalf, List.ofFn_const,
              List.map_replicate, if_pos hRisky, average,
              List.sum_replicate, List.length_replicate,
              nsmul_eq_mul, mul_one]
            exact div_self hCount
          rw [hAll]
          linarith [hBounds.2]
  | configured method share headReduction =>
      rcases hAdmitted with rfl | ⟨rfl, hPos, hLe⟩
      · apply hSingle
        refine
          exists_outside_of_average (fun risk => ?_) hLow
            hOrder hHigh hNot
        cases headReduction with
        | beforePooling => simp only [pointValue, hMean]
        | afterPooling =>
            simp only [pointValue, average_heads, hMean]
      · cases headReduction with
        | beforePooling =>
            apply hSingle
            refine
              exists_outside_of_quantile (fun risk => ?_) hPos
                hLe hLow hOrder hHigh hNot
            simp only [pointValue, hMean]
        | afterPooling =>
            rw [ServedPooling.Brackets, not_or] at hNot
            rcases hNot with ⟨hOne, hTwo⟩
            have hMany : 0 < count := by omega
            by_cases hHalf : count = 1 ∧ share = 1 / 2
            · rcases hHalf with ⟨rfl, rfl⟩
              apply hSingle
              refine
                exists_outside_of_quantile (fun risk => ?_)
                  hPos hLe hLow hOrder hHigh
                  (fun hBetween => ?_)
              · simp [pointValue, average]
              · rcases hBetween with hFew | hBetween
                · omega
                · exact hTwo ⟨rfl, rfl, hBetween⟩
            · rcases
                  exists_outside_of_afterPooling hPos hLe hLow
                    hOrder hMany hHalf with
                ⟨u, v, hOutside⟩
              exact
                ⟨count + 1, 1, Nat.succ_pos count, mul_one _,
                  _, hOutside⟩

end Outside

------------------------------------------------------------
-- Calibration
------------------------------------------------------------

section Calibration

variable {calibration : Option (List (Platt ℝ))}
variable
  (hSlopes :
    ∀ paramsByK, calibration = some paramsByK →
      ∀ params ∈ paramsByK, 0 < params.a)

theorem calibrateAt_bounds
    (k : ℕ)
    {risk : ℝ}
    (hRisk : 0 ≤ risk ∧ risk ≤ 1) :
    0 ≤ calibrateAt calibration k risk ∧
      calibrateAt calibration k risk ≤ 1 := by
  unfold calibrateAt
  split
  · exact hRisk
  · split
    · exact hRisk
    · exact applyPlatt_bounds _ _

include hSlopes

theorem calibrateAt_mono
    (k : ℕ)
    {first second : ℝ}
    (hLe : first ≤ second) :
    calibrateAt calibration k first ≤
      calibrateAt calibration k second := by
  unfold calibrateAt
  split
  · exact hLe
  · rename_i paramsByK
    split
    · exact hLe
    · rename_i params hParams
      exact
        applyPlatt_mono
          (hSlopes paramsByK rfl params
            (List.mem_of_getElem? hParams)) hLe

theorem calibrateAt_lt
    (k : ℕ)
    {first second : ℝ}
    (hLt : first < second)
    (hFirst : first < 1 - eps)
    (hSecond : eps < second) :
    calibrateAt calibration k first <
      calibrateAt calibration k second := by
  unfold calibrateAt
  split
  · exact hLt
  · rename_i paramsByK
    split
    · exact hLt
    · rename_i params hParams
      exact
        applyPlatt_lt
          (hSlopes paramsByK rfl params
            (List.mem_of_getElem? hParams)) hLt hFirst
          hSecond

end Calibration

------------------------------------------------------------
-- The exact condition
------------------------------------------------------------

section Exact

variable {members samples : ℕ}

/- The mean opinions lie where all the opinions lie. -/
theorem headMean_bounds
    (hMembers : 0 < members)
    {perHead : Fin members → Fin samples → ℝ}
    {low high : ℝ}
    (hBounds :
      ∀ member sample,
        low ≤ perHead member sample ∧
          perHead member sample ≤ high)
    (sample : Fin samples) :
    low ≤ headMean perHead sample ∧
      headMean perHead sample ≤ high := by
  apply average_bounds
  · rw [← List.length_pos_iff, List.length_ofFn]
    exact hMembers
  · intro x hMem
    rw [List.mem_ofFn] at hMem
    rcases hMem with ⟨member, rfl⟩
    exact hBounds member sample

theorem quantile_headMean_bounds
    (hMembers : 0 < members)
    (hSamples : 0 < samples)
    {perHead : Fin members → Fin samples → ℝ}
    {low high : ℝ}
    (hBounds :
      ∀ member sample,
        low ≤ perHead member sample ∧
          perHead member sample ≤ high)
    {share : ℝ}
    (hPos : 0 ≤ share) :
    low ≤ quantile share (trajectories (headMean perHead)) ∧
      quantile share (trajectories (headMean perHead)) ≤
        high := by
  refine
    quantile_bounds (trajectories_ne_nil hSamples _) ?_ hPos
  intro x hMem
  rw [trajectories, List.mem_ofFn] at hMem
  rcases hMem with ⟨sample, rfl⟩
  exact headMean_bounds hMembers hBounds sample

variable {cfg : ServingConfig ℝ}
variable (hAdmitted : cfg.Admitted)
variable (hSamples : 0 < samples)
include hAdmitted hSamples

/- Under the condition every horizon lies in its band. -/
theorem servedHorizon_banded
    (hMembers : 0 < members)
    (hBrackets :
      cfg.pooling.Brackets cfg.ciLowQuantile
        cfg.ciHighQuantile samples)
    {perHeadRisk :
      Fin members → Fin samples →
        Fin cfg.horizonLength → ℝ}
    (hUnit :
      ∀ member sample k,
        0 ≤ perHeadRisk member sample k ∧
          perHeadRisk member sample k ≤ 1)
    (projections : Fin cfg.horizonLength → Projection ℝ)
    (observation : Observation ℝ)
    (k : Fin cfg.horizonLength) :
    (servedHorizon perHeadRisk projections observation
      k).Banded := by
  have hSlopes paramsByK hSome :=
    (hAdmitted.slopes paramsByK hSome).2
  have hHigh : 0 ≤ cfg.ciHighQuantile :=
    hAdmitted.low_nonneg.trans hAdmitted.low_le_high
  have hBounds member sample :=
    hUnit member sample k
  have hBetween :=
    pointValue_between hAdmitted.pooling hSamples
      hAdmitted.low_nonneg hAdmitted.low_le_high hBrackets
      (atHorizon perHeadRisk k)
  refine ⟨?_, ?_, ?_, ?_⟩
  · exact
      (calibrateAt_bounds k
        (quantile_headMean_bounds hMembers hSamples hBounds
          hAdmitted.low_nonneg)).1
  · exact calibrateAt_mono hSlopes k hBetween.1
  · exact calibrateAt_mono hSlopes k hBetween.2
  · exact
      (calibrateAt_bounds k
        (quantile_headMean_bounds hMembers hSamples hBounds
          hHigh)).2

/- Risks outside the band make a horizon that is refused. -/
theorem not_alwaysServed_of_outside
    {perMember : ℕ}
    (hMembers : 0 < members)
    (hTotal : members * perMember = samples)
    {perHead : Fin members → Fin samples → ℝ}
    (hOutside :
      Outside cfg.pooling cfg.ciLowQuantile
        cfg.ciHighQuantile perHead) :
    ¬ AlwaysServed cfg samples := by
  intro hServed
  have hSlopes paramsByK hSome :=
    (hAdmitted.slopes paramsByK hSome).2
  have hHigh : 0 ≤ cfg.ciHighQuantile :=
    hAdmitted.low_nonneg.trans hAdmitted.low_le_high
  have hEps : (eps : ℝ) = 1 / 1000000 := rfl
  -- The same risks at every horizon, and nothing else.
  let projections :
      Fin cfg.horizonLength → Projection ℝ :=
    fun _ =>
      { stageMean := fun _ => 0
        predicted := fun _ => 0 }
  let observation : Observation ℝ :=
    { hostId := ""
      originTs := 0
      observedStage := .benign
      observedRisk := 0
      topSignals := []
      drivingWindow := 0
      modelVersion := "" }
  rcases
      hServed members perMember hMembers hTotal
        (fun member sample _ => perHead member sample)
        (fun member sample _ => by
          have hBounds := hOutside.bounds member sample
          constructor
          · linarith [hBounds.1]
          · linarith [hBounds.2])
        projections observation "" with
    ⟨result, hResult, hBanded, _⟩
  rcases
      forecast_eq_ok hAdmitted
        (fun member sample _ => perHead member sample)
        projections observation with
    ⟨result', hResult', _, hHorizons⟩
  rw [hResult, Except.ok.injEq] at hResult'
  subst hResult'
  let k : Fin cfg.horizonLength :=
    ⟨0, hAdmitted.horizon_pos⟩
  have hPoint :=
    hBanded _ (by
      rw [hHorizons]
      exact List.mem_map_of_mem (List.mem_finRange k))
  have hLowBounds :=
    quantile_headMean_bounds hMembers hSamples
      hOutside.bounds hAdmitted.low_nonneg
  have hHighBounds :=
    quantile_headMean_bounds hMembers hSamples
      hOutside.bounds hHigh
  rcases hOutside.outside with hBelow | hAbove
  · have hLt :=
      calibrateAt_lt hSlopes k hBelow
        (by
          rw [hEps]
          linarith [hLowBounds.2])
        (by
          rw [hEps]
          linarith [hLowBounds.1])
    exact absurd hPoint.2.1 (not_le.mpr hLt)
  · have hLt :=
      calibrateAt_lt hSlopes k hAbove
        (by
          rw [hEps]
          linarith [hHighBounds.2])
        (by
          rw [hEps]
          linarith [hHighBounds.1])
    exact absurd hPoint.2.2.1 (not_le.mpr hLt)

/-
  Every forecast of an admitted configuration is served, for
  all risks of a number of trajectories, if and only if its
  pooling meets the condition for that number.
-/
theorem alwaysServed_iff :
    AlwaysServed cfg samples ↔
      cfg.pooling.Brackets cfg.ciLowQuantile
        cfg.ciHighQuantile samples := by
  constructor
  · intro hServed
    by_contra hNot
    rcases Nat.exists_eq_succ_of_ne_zero hSamples.ne' with
      ⟨count, rfl⟩
    rcases
        exists_outside hAdmitted.pooling
          hAdmitted.low_nonneg hAdmitted.low_le_high
          hAdmitted.high_le_one hNot with
      ⟨members, perMember, hMembers, hTotal, perHead,
        hOutside⟩
    exact
      not_alwaysServed_of_outside hAdmitted hSamples hMembers
        hTotal hOutside hServed
  · intro hBrackets members perMember hMembers hTotal
      perHeadRisk hUnit projections observation tenantId
    rcases
        forecast_eq_ok hAdmitted perHeadRisk projections
          observation with
      ⟨result, hResult, hOrigin, hHorizons⟩
    have hBanded : ∀ point ∈ result.horizons, point.Banded := by
      intro point hMem
      rw [hHorizons] at hMem
      rcases List.mem_map.mp hMem with ⟨k, _, rfl⟩
      exact
        servedHorizon_banded hAdmitted hSamples hMembers
          hBrackets hUnit projections observation k
    exact
      ⟨result, hResult, hBanded,
        exists_build_ok_of_banded hAdmitted perHeadRisk
          projections observation hOrigin hHorizons hBanded
          tenantId⟩

end Exact

------------------------------------------------------------
-- Two configurations
------------------------------------------------------------

/- A band of nine tenths over six horizons of a minute. -/
noncomputable def ninetyBand
    (pooling : ServedPooling ℝ)
    (calibration : Option (List (Platt ℝ))) :
    ServingConfig ℝ :=
  { pooling := pooling
    ciLowQuantile := 1 / 20
    ciHighQuantile := 19 / 20
    calibration := calibration
    riskThreshold := 3 / 4
    horizonLength := 6
    windowSeconds := 60 }

/- The middle trajectory, calibrated. -/
noncomputable def calibratedMiddle : ServingConfig ℝ :=
  ninetyBand (.configured .quantile (1 / 2) .beforePooling)
    (some (List.replicate 6 { a := 2, b := 1 }))

theorem alwaysServed_calibratedMiddle :
    AlwaysServed calibratedMiddle 500 := by
  refine (alwaysServed_iff ?_ (by norm_num)).mpr ?_
  · refine
      { pooling := Or.inr ⟨rfl, by norm_num, by norm_num⟩
        low_nonneg := ?_
        low_le_high := ?_
        high_le_one := ?_
        slopes := ?_
        horizon_pos := by decide
        window_pos := ?_ }
    · norm_num [calibratedMiddle, ninetyBand]
    · norm_num [calibratedMiddle, ninetyBand]
    · norm_num [calibratedMiddle, ninetyBand]
    · intro paramsByK hSome
      cases hSome
      refine ⟨rfl, ?_⟩
      intro params hMem
      rw [List.eq_of_mem_replicate hMem]
      norm_num
    · norm_num [calibratedMiddle, ninetyBand]
  · right
    norm_num [calibratedMiddle, ninetyBand]

/- The riskiest trajectory, as an operating point may say. -/
noncomputable def frozenMax : ServingConfig ℝ :=
  ninetyBand (.operatingPoint .max none) none

theorem frozenMax_admitted : frozenMax.Admitted := by
  refine
    { pooling := fun hMethod => by contradiction
      low_nonneg := ?_
      low_le_high := ?_
      high_le_one := ?_
      slopes := fun _ hSome => by contradiction
      horizon_pos := by decide
      window_pos := ?_ }
  · norm_num [frozenMax, ninetyBand]
  · norm_num [frozenMax, ninetyBand]
  · norm_num [frozenMax, ninetyBand]
  · norm_num [frozenMax, ninetyBand]

/- Two trajectories at one and at three quarters. -/
theorem not_alwaysServed_frozenMax :
    ¬ AlwaysServed frozenMax 2 := by
  have hSome :=
    trajectories_ne_nil (Nat.succ_pos 1) (rising 1)
  have hMean :
      headMean (fun (_ : Fin 1) => rising 1) = rising 1 :=
    headMean_same one_pos _
  refine
    not_alwaysServed_of_outside frozenMax_admitted
      (Nat.succ_pos 1) one_pos (one_mul 2)
      { bounds := fun (_ : Fin 1) sample =>
          rising_bounds one_pos sample
        outside := Or.inr ?_ }
  simp only [frozenMax, ninetyBand, pointValue]
  rw [hMean, largest_eq_quantile hSome,
    quantile_rising one_pos (by norm_num) (by norm_num),
    quantile_rising one_pos (by norm_num) (by norm_num)]
  norm_num

end Serving

end Nidra
