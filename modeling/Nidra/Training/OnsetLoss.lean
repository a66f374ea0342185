import Nidra.Data.Hazard
import Nidra.Evaluation.Calibrate

/-
  This file defines the loss that a hazard head for onsets is
  trained on, a cross entropy over the buckets that each row
  is at risk in, and proves that it is the mean negative
  log-likelihood of what was observed under the curve that
  the head is served as.

  Key definitions include:
    * `bceWithLogits`
    * `rowTotal`, `bucketsAtRisk`, `hazardLoss`
    * `chanceFrom`, `chanceOf`

  Main declarations:
    * `bceWithLogits_one`, `bceWithLogits_zero`
    * `totalFrom_eq_neg_log`
    * `hazardLoss_eq_likelihood`
-/

namespace Nidra

namespace Training

open Data Evaluation

------------------------------------------------------------
-- The loss
------------------------------------------------------------

section Definitions

variable {𝕜 : Type}
variable [Field 𝕜] [LinearOrder 𝕜] [ExpLog 𝕜]

/- Binary cross entropy of a logit, in its stable form. -/
def bceWithLogits (logit target : 𝕜) : 𝕜 :=
  max logit 0 - logit * target +
    ExpLog.log (1 + ExpLog.exp (-|logit|))

/- The logits of an origin, with its hazard targets. -/
structure HazardRow (𝕜 : Type) where
  logits : List 𝕜
  targets : HazardTargets

/- What a bucket adds to the loss when it is at risk. -/
def bucketLoss (entry : 𝕜 × ℕ × Bool) : 𝕜 :=
  bceWithLogits entry.1 (entry.2.1 : 𝕜) *
    if entry.2.2 then 1 else 0

def rowTotal (row : HazardRow 𝕜) : 𝕜 :=
  ((row.logits.zip
    (row.targets.event.zip row.targets.atRisk)).map
      bucketLoss).sum

/- In how many buckets a row is at risk. -/
def bucketsAtRisk (row : HazardRow 𝕜) : ℕ :=
  row.targets.atRisk.count true

/- The mean over all buckets of the batch that are at risk. -/
def hazardLoss (batch : List (HazardRow 𝕜)) : 𝕜 :=
  (batch.map rowTotal).sum /
    max (((batch.map bucketsAtRisk).sum : ℕ) : 𝕜) 1

/- The curve that a hazard head is served as. -/
def onsetCurve (logits : List 𝕜) : List 𝕜 :=
  survivalToCumulative (logits.map sigmoid)

end Definitions

------------------------------------------------------------
-- What was observed
------------------------------------------------------------

section Chance

variable {𝕜 : Type}
variable [Field 𝕜]

/-
  The chance that a cumulative curve gives to an onset in the
  first horizon that it lies within, or to none by the last.
-/
def chanceFrom
    (minutes : Option ℚ) :
    𝕜 → List 𝕜 → List ℚ → 𝕜
  | before, p :: curve, h :: horizons =>
      if minutes.any (fun x => x ≤ h) then p - before
      else chanceFrom minutes p curve horizons
  | before, _, _ => 1 - before

def chanceOf
    (curve : List 𝕜)
    (horizonsMin : List ℚ)
    (minutes : Option ℚ) : 𝕜 :=
  chanceFrom minutes 0 curve horizonsMin

/- The same, from the hazards of the buckets in turn. -/
def hazardChance
    (minutes : Option ℚ) : List 𝕜 → List ℚ → 𝕜
  | p :: hazards, h :: horizons =>
      if minutes.any (fun x => x ≤ h) then p
      else (1 - p) * hazardChance minutes hazards horizons
  | _, _ => 1

/- What has survived so far scales the chance of the rest. -/
theorem chanceFrom_cumprodFrom
    (minutes : Option ℚ)
    (acc : 𝕜)
    (hazards : List 𝕜)
    (horizons : List ℚ) :
    chanceFrom minutes (1 - acc)
        ((List.cumprodFrom acc
          (hazards.map (fun x => 1 - x))).map
            (fun x => 1 - x))
        horizons =
      acc * hazardChance minutes hazards horizons := by
  induction hazards generalizing acc horizons with
  | nil => simp [List.cumprodFrom, chanceFrom, hazardChance]
  | cons p hazards ih =>
      cases horizons with
      | nil => simp [chanceFrom, hazardChance]
      | cons h horizons =>
          rw [List.map_cons, List.cumprodFrom, List.map_cons,
            chanceFrom, hazardChance]
          split
          · ring
          · rw [ih, mul_assoc]

end Chance

------------------------------------------------------------
-- Logits of chances
------------------------------------------------------------

theorem sigmoid_pos (z : ℝ) : 0 < sigmoid z := by
  simp only [sigmoid, ExpLog.exp]
  have hPos : 0 < Real.exp (-z) := Real.exp_pos _
  positivity

theorem one_sub_sigmoid (z : ℝ) :
    1 - sigmoid z = sigmoid (-z) := by
  have hPos : 0 < Real.exp (-z) := Real.exp_pos _
  have hInv : Real.exp z * Real.exp (-z) = 1 := by
    rw [← Real.exp_add, add_neg_cancel, Real.exp_zero]
  have hPos' : 0 < Real.exp z := Real.exp_pos _
  simp only [sigmoid, ExpLog.exp, neg_neg]
  field_simp
  linarith

/- The stable form is the softplus of the logit reversed. -/
theorem log_sigmoid (z : ℝ) :
    -Real.log (sigmoid z) =
      max z 0 - z + Real.log (1 + Real.exp (-|z|)) := by
  have hPos : 0 < 1 + Real.exp (-z) := by
    have := Real.exp_pos (-z)
    linarith
  simp only [sigmoid, ExpLog.exp]
  rw [one_div, Real.log_inv, neg_neg]
  rcases le_total 0 z with hNonneg | hNonpos
  · rw [max_eq_left hNonneg, abs_of_nonneg hNonneg]
    ring
  · rw [max_eq_right hNonpos, abs_of_nonpos hNonpos, neg_neg]
    have hFactor :
        1 + Real.exp (-z) =
          Real.exp (-z) * (1 + Real.exp z) := by
      rw [mul_add, mul_one, ← Real.exp_add, neg_add_cancel,
        Real.exp_zero]
      ring
    have hPos' : 0 < 1 + Real.exp z := by
      have := Real.exp_pos z
      linarith
    rw [hFactor, Real.log_mul (Real.exp_pos _).ne' hPos'.ne',
      Real.log_exp]
    ring

/- An event costs the logarithm of its chance. -/
theorem bceWithLogits_one (z : ℝ) :
    bceWithLogits z 1 = -Real.log (sigmoid z) := by
  rw [log_sigmoid, bceWithLogits, mul_one]
  rfl

theorem bceWithLogits_zero (z : ℝ) :
    bceWithLogits z 0 = -Real.log (1 - sigmoid z) := by
  rw [one_sub_sigmoid, log_sigmoid, bceWithLogits, mul_zero,
    abs_neg]
  have hMax : max (-z) 0 - -z = max z 0 - 0 := by
    rcases le_total 0 z with hNonneg | hNonpos
    · rw [max_eq_left hNonneg, max_eq_right (by linarith)]
      ring
    · rw [max_eq_right hNonpos, max_eq_left (by linarith)]
      ring
  rw [hMax]
  rfl

------------------------------------------------------------
-- The loss of a row
------------------------------------------------------------

theorem hazardChance_pos
    (minutes : Option ℚ)
    (logits : List ℝ)
    (horizons : List ℚ) :
    0 < hazardChance minutes (logits.map sigmoid) horizons := by
  induction logits generalizing horizons with
  | nil => simp [hazardChance]
  | cons z logits ih =>
      cases horizons with
      | nil => simp [hazardChance]
      | cons h horizons =>
          rw [List.map_cons, hazardChance]
          split
          · exact sigmoid_pos z
          · rw [one_sub_sigmoid]
            exact mul_pos (sigmoid_pos (-z)) (ih horizons)

/- The loss of the buckets from an edge on. -/
def totalFrom
    {𝕜 : Type}
    [Field 𝕜] [LinearOrder 𝕜] [ExpLog 𝕜]
    (geo : OriginGeometry)
    (low : ℚ)
    (logits : List 𝕜)
    (horizons : List ℚ) : 𝕜 :=
  let buckets := (low :: horizons).zip horizons
  ((logits.zip
    ((buckets.map (eventIn geo)).zip
      (buckets.map (atRiskIn geo)))).map bucketLoss).sum

theorem totalFrom_cons
    (geo : OriginGeometry)
    (low : ℚ)
    (z : ℝ)
    (logits : List ℝ)
    (h : ℚ)
    (horizons : List ℚ) :
    totalFrom geo low (z :: logits) (h :: horizons) =
      bucketLoss
          (z, eventIn geo (low, h), atRiskIn geo (low, h)) +
        totalFrom geo h logits horizons := rfl

/- After its onset a row is in no loss. -/
theorem totalFrom_of_not_beyond
    {geo : OriginGeometry}
    {low : ℚ}
    {horizons : List ℚ}
    (hSorted : (low :: horizons).Pairwise (fun a b => a ≤ b))
    (hPassed :
      (geo.inside || !beyond low geo.minutesToOnset) = true)
    (logits : List ℝ) :
    totalFrom geo low logits horizons = 0 := by
  induction horizons generalizing low logits with
  | nil => simp [totalFrom]
  | cons h horizons ih =>
      cases logits with
      | nil => simp [totalFrom]
      | cons z logits =>
          have hLow : low ≤ h :=
            List.rel_of_pairwise_cons hSorted (by simp)
          have hRisk : atRiskIn geo (low, h) = false := by
            unfold atRiskIn
            cases hInside : geo.inside with
            | true => rfl
            | false =>
                rw [hInside] at hPassed
                simpa using hPassed
          have hNext :
              (geo.inside || !beyond h geo.minutesToOnset) =
                true := by
            rw [Bool.or_eq_true] at hPassed ⊢
            rcases hPassed with hInside | hNot
            · exact Or.inl hInside
            · right
              rw [Bool.not_eq_true'] at hNot ⊢
              by_contra hBeyond
              rw [Bool.not_eq_false] at hBeyond
              rw [beyond_anti hLow _ hBeyond] at hNot
              cases hNot
          rw [totalFrom_cons, ih hSorted.tail hNext,
            bucketLoss, hRisk]
          simp

/-
  What a row adds up to is the negative logarithm of the
  chance of what was observed: the buckets it survived, and
  the one with its onset.
-/
theorem totalFrom_eq_neg_log
    {geo : OriginGeometry}
    (hOutside : geo.inside = false)
    {low : ℚ}
    {horizons : List ℚ}
    (hSorted : (low :: horizons).Pairwise (fun a b => a ≤ b))
    (hBeyond : beyond low geo.minutesToOnset = true)
    (logits : List ℝ) :
    totalFrom geo low logits horizons =
      -Real.log
        (hazardChance geo.minutesToOnset
          (logits.map sigmoid) horizons) := by
  induction horizons generalizing low logits with
  | nil =>
      have hChance :
          hazardChance geo.minutesToOnset
              (logits.map sigmoid) [] =
            (1 : ℝ) := by
        cases logits with
        | nil => rfl
        | cons z logits => rfl
      simp [totalFrom, hChance]
  | cons h horizons ih =>
      cases logits with
      | nil => simp [totalFrom, hazardChance]
      | cons z logits =>
          have hRisk : atRiskIn geo (low, h) = true := by
            simp [atRiskIn, hOutside, hBeyond]
          rw [totalFrom_cons, List.map_cons, hazardChance,
            bucketLoss, hRisk, if_pos rfl, mul_one]
          cases hEvent :
              geo.minutesToOnset.any (fun x => x ≤ h) with
          | true =>
              have hOne : eventIn geo (low, h) = 1 := by
                simp [eventIn, hOutside, hBeyond, hEvent]
              have hPassed :
                  (geo.inside ||
                      !beyond h geo.minutesToOnset) =
                    true := by
                rw [any_le_iff_not_beyond] at hEvent
                rw [hEvent, Bool.or_true]
              rw [hOne, Nat.cast_one, bceWithLogits_one,
                totalFrom_of_not_beyond hSorted.tail hPassed,
                add_zero, if_pos rfl]
          | false =>
              have hZero : eventIn geo (low, h) = 0 := by
                simp [eventIn, hEvent]
              have hNext :
                  beyond h geo.minutesToOnset = true := by
                rw [any_le_iff_not_beyond] at hEvent
                simpa using hEvent
              have hPos : 0 < 1 - sigmoid z := by
                rw [one_sub_sigmoid]
                exact sigmoid_pos (-z)
              rw [hZero, Nat.cast_zero, bceWithLogits_zero,
                ih hSorted.tail hNext,
                if_neg Bool.false_ne_true,
                Real.log_mul hPos.ne'
                  (hazardChance_pos _ _ _).ne',
                neg_add]

/- A sigmoid is a hazard as it is. -/
theorem onsetCurve_eq (logits : List ℝ) :
    onsetCurve logits =
      (List.cumprod
        ((logits.map sigmoid).map (fun x => 1 - x))).map
          (fun x => 1 - x) := by
  unfold onsetCurve survivalToCumulative
  rw [clip_of_unit]
  intro x hX
  rcases List.mem_map.mp hX with ⟨z, _, rfl⟩
  exact sigmoid_bounds z

theorem chanceOf_onsetCurve
    (logits : List ℝ)
    (horizonsMin : List ℚ)
    (minutes : Option ℚ) :
    chanceOf (onsetCurve logits) horizonsMin minutes =
      hazardChance minutes (logits.map sigmoid)
        horizonsMin := by
  have hFrom :=
    chanceFrom_cumprodFrom minutes (1 : ℝ)
      (logits.map sigmoid) horizonsMin
  rw [sub_self, one_mul] at hFrom
  rw [onsetCurve_eq]
  exact hFrom

------------------------------------------------------------
-- The loss of a batch
------------------------------------------------------------

/- An origin with the logits that a head gives it. -/
structure ScoredOrigin where
  geo : OriginGeometry
  logits : List ℝ

def ScoredOrigin.hazardRow
    (horizonsMin : List ℚ)
    (origin : ScoredOrigin) : HazardRow ℝ :=
  { logits := origin.logits
    targets := discreteHazardTargets origin.geo horizonsMin }

/-
  Over any batch, the loss is the sum of the negative
  log-likelihoods of what was observed at the origins outside
  episodes, under the curve that the head is served as, over
  the number of buckets at risk; origins inside an episode
  count for nothing.
-/
theorem hazardLoss_eq_likelihood
    {horizonsMin : List ℚ}
    (hIncreasing : horizonsMin.Pairwise (fun a b => a < b))
    (hPositive : ∀ h ∈ horizonsMin, 0 < h)
    (batch : List ScoredOrigin)
    (hMinutes :
      ∀ origin ∈ batch,
        ∀ x ∈ origin.geo.minutesToOnset, 0 < x) :
    hazardLoss
        (batch.map
          (fun origin => origin.hazardRow horizonsMin)) =
      ((batch.filter (fun origin => !origin.geo.inside)).map
          (fun origin =>
            -Real.log
              (chanceOf (onsetCurve origin.logits) horizonsMin
                origin.geo.minutesToOnset))).sum /
        max
          (((batch.map (fun origin =>
            bucketsAtRisk
              (origin.hazardRow horizonsMin))).sum : ℕ) : ℝ)
          1 := by
  have hEdges := edges_pairwise hIncreasing hPositive
  have hRows :
      ((batch.map
          (fun origin => origin.hazardRow horizonsMin)).map
            rowTotal).sum =
        ((batch.filter
          (fun origin => !origin.geo.inside)).map
            (fun origin =>
              -Real.log
                (chanceOf (onsetCurve origin.logits)
                  horizonsMin
                  origin.geo.minutesToOnset))).sum := by
    induction batch with
    | nil => rfl
    | cons origin rest ih =>
        rw [List.forall_mem_cons] at hMinutes
        have hRow :
            rowTotal (origin.hazardRow horizonsMin) =
              totalFrom origin.geo 0 origin.logits
                horizonsMin := rfl
        rw [List.map_cons, List.map_cons, List.sum_cons,
          ih hMinutes.2, hRow]
        cases hInside : origin.geo.inside with
        | true =>
            rw [totalFrom_of_not_beyond hEdges
              (by simp [hInside]), zero_add,
              List.filter_cons_of_neg (by simp [hInside])]
        | false =>
            have hBeyond :
                beyond 0 origin.geo.minutesToOnset = true := by
              cases hIs : origin.geo.minutesToOnset with
              | none => rfl
              | some x =>
                  have hPos := hMinutes.1 x hIs
                  simpa [beyond] using hPos
            rw [totalFrom_eq_neg_log hInside hEdges hBeyond,
              List.filter_cons_of_pos (by simp [hInside]),
              List.map_cons, List.sum_cons,
              chanceOf_onsetCurve]
  unfold hazardLoss
  rw [hRows, List.map_map]
  rfl

def originIn (minutes : Option ℚ) : OriginGeometry :=
  { inside := false
    minutesToOnset := minutes
    key := none }

/- An onset in seven minutes, none, and one under way. -/
def threeOrigins : List ScoredOrigin :=
  [{ geo := originIn (some 7)
     logits := [0, 0, 0] },
    { geo := originIn none
      logits := [0, 0, 0] },
    { geo := { originIn (some 3) with inside := true }
      logits := [0, 0, 0] }]

theorem hazardLoss_eq_likelihood_threeOrigins :
    hazardLoss
        (threeOrigins.map
          (fun origin => origin.hazardRow [1, 5, 10])) =
      ((threeOrigins.filter
        (fun origin => !origin.geo.inside)).map
          (fun origin =>
            -Real.log
              (chanceOf (onsetCurve origin.logits) [1, 5, 10]
                origin.geo.minutesToOnset))).sum /
        max
          (((threeOrigins.map (fun origin =>
            bucketsAtRisk
              (origin.hazardRow [1, 5, 10]))).sum : ℕ) : ℝ)
          1 :=
  hazardLoss_eq_likelihood (by decide) (by decide) threeOrigins
    (by simp [threeOrigins, originIn])

end Training

end Nidra
