import Nidra.Lib.Numeric

/-
  This file defines the Platt calibration of a probability:
  a logistic remap with its own slope and offset at every
  horizon.

  Key definitions include:
    * `Platt`
    * `logit`, `sigmoid`
    * `applyPlatt`

  Main declarations:
    * `applyPlatt_bounds`
    * `applyPlatt_mono`, `applyPlatt_lt`
-/

namespace Nidra

namespace Evaluation

/- The slope and the offset of a fitted remap. -/
structure Platt (𝕜 : Type) where
  a : 𝕜
  b : 𝕜

section Definitions

variable {𝕜 : Type}
variable [Field 𝕜] [LinearOrder 𝕜] [ExpLog 𝕜]

/- Probabilities are kept away from zero and one by this. -/
def eps : 𝕜 := 1 / 1000000

/- Keep a number inside an interval. -/
def clip (low high x : 𝕜) : 𝕜 :=
  min (max x low) high

def logit (p : 𝕜) : 𝕜 :=
  let clipped := clip eps (1 - eps) p
  ExpLog.log (clipped / (1 - clipped))

def sigmoid (x : 𝕜) : 𝕜 :=
  1 / (1 + ExpLog.exp (-x))

def applyPlatt
    (params : Platt 𝕜)
    (p : 𝕜) : 𝕜 :=
  sigmoid (params.a * logit p + params.b)

end Definitions

------------------------------------------------------------
-- Order
------------------------------------------------------------

theorem sigmoid_bounds
    (x : ℝ) :
    0 ≤ sigmoid x ∧ sigmoid x ≤ 1 := by
  have hPos : 0 < Real.exp (-x) := Real.exp_pos _
  simp only [sigmoid, ExpLog.exp]
  constructor
  · positivity
  · rw [div_le_one (by positivity)]
    linarith

theorem sigmoid_lt
    {x y : ℝ}
    (hLt : x < y) :
    sigmoid x < sigmoid y := by
  have hExp : Real.exp (-y) < Real.exp (-x) :=
    Real.exp_lt_exp.mpr (neg_lt_neg hLt)
  have hPos : 0 < Real.exp (-y) := Real.exp_pos _
  simp only [sigmoid, ExpLog.exp]
  exact one_div_lt_one_div_of_lt (by linarith) (by linarith)

/- Clipped probabilities lie strictly inside the unit. -/
theorem clip_bounds
    (p : ℝ) :
    0 < clip eps (1 - eps) p ∧
      clip eps (1 - eps) p < 1 := by
  have hEps : (eps : ℝ) = 1 / 1000000 := rfl
  constructor
  · rw [clip, lt_min_iff]
    constructor
    · exact lt_max_of_lt_right (by rw [hEps]; norm_num)
    · rw [hEps]
      norm_num
  · rw [clip]
    exact min_lt_of_right_lt (by rw [hEps]; norm_num)

/- The log odds of clipped probabilities are in order. -/
theorem logit_lt_of_clip_lt
    {p q : ℝ}
    (hLt :
      clip eps (1 - eps) p < clip eps (1 - eps) q) :
    logit p < logit q := by
  have hP := clip_bounds p
  have hQ := clip_bounds q
  simp only [logit, ExpLog.log]
  apply Real.log_lt_log
  · exact div_pos hP.1 (by linarith)
  · rw [div_lt_div_iff₀ (by linarith) (by linarith)]
    nlinarith

theorem logit_mono
    {p q : ℝ}
    (hLe : p ≤ q) :
    logit p ≤ logit q := by
  have hClip :
      clip eps (1 - eps) p ≤ clip eps (1 - eps) q :=
    min_le_min_right _ (max_le_max_right _ hLe)
  rcases hClip.eq_or_lt with hSame | hLt
  · rw [logit, logit, hSame]
  · exact (logit_lt_of_clip_lt hLt).le

theorem applyPlatt_bounds
    (params : Platt ℝ)
    (p : ℝ) :
    0 ≤ applyPlatt params p ∧ applyPlatt params p ≤ 1 :=
  sigmoid_bounds _

/- A remap with a positive slope keeps the order. -/
theorem applyPlatt_mono
    {params : Platt ℝ}
    (hSlope : 0 < params.a)
    {p q : ℝ}
    (hLe : p ≤ q) :
    applyPlatt params p ≤ applyPlatt params q := by
  rcases (logit_mono hLe).eq_or_lt with hSame | hLt
  · rw [applyPlatt, applyPlatt, hSame]
  · have hScaled := mul_lt_mul_of_pos_left hLt hSlope
    exact (sigmoid_lt (by linarith)).le

/- It keeps a strict order that the clipping keeps. -/
theorem applyPlatt_lt
    {params : Platt ℝ}
    (hSlope : 0 < params.a)
    {p q : ℝ}
    (hLt : p < q)
    (hLow : p < 1 - eps)
    (hHigh : eps < q) :
    applyPlatt params p < applyPlatt params q := by
  have hEps : (eps : ℝ) = 1 / 1000000 := rfl
  have hClip :
      clip eps (1 - eps) p < clip eps (1 - eps) q := by
    rw [clip, clip, lt_min_iff]
    constructor
    · refine lt_of_le_of_lt (min_le_left _ _) ?_
      exact
        max_lt (lt_max_of_lt_left hLt)
          (lt_max_of_lt_left hHigh)
    · refine lt_of_le_of_lt (min_le_left _ _) ?_
      exact max_lt hLow (by rw [hEps]; norm_num)
  have hScaled :=
    mul_lt_mul_of_pos_left (logit_lt_of_clip_lt hClip) hSlope
  exact sigmoid_lt (by linarith)

end Evaluation

end Nidra
