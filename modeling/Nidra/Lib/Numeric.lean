import Mathlib
import Nidra.Lib.Numerals

/-
  This file defines the number functions that exact versions
  of floating-point programs need: logarithm and exponential
  over an abstract field, rounding toward zero, and division
  that answers zero for a zero denominator.

  Key definitions include:
    * `ExpLog`, `ExpLog.tangent`
    * `truncate`
    * `roundHalfEven`
    * `roundTo`
    * `divOrZero`

  Main declarations:
    * `roundHalfEven_cases`
    * `roundHalfEven_mono`, `roundTo_mono`
    * `abs_roundHalfEven_sub_le`
-/

/-
  A number type with a logarithm and an exponential. No law
  is assumed here; the real instance is the exact one.
-/
class ExpLog (𝕜 : Type) where
  exp : 𝕜 → 𝕜
  log : 𝕜 → 𝕜

noncomputable instance : ExpLog ℝ where
  exp := Real.exp
  log := Real.log

/-
  Rational numbers with the tangents of the exponential at
  zero and of the logarithm at one, exact at these points.
-/
@[reducible]
def ExpLog.tangent : ExpLog ℚ where
  exp := fun x => 1 + x
  log := fun x => x - 1

section Rounding

variable {𝕜 : Type}
variable [Field 𝕜] [LinearOrder 𝕜] [FloorRing 𝕜]

/- Round toward zero. -/
def truncate (x : 𝕜) : ℤ :=
  if 0 ≤ x then ⌊x⌋ else ⌈x⌉

/- Round to the nearest integer, ties to the even one. -/
def roundHalfEven (x : 𝕜) : ℤ :=
  let below := ⌊x⌋
  let rest := x - below
  if rest < 1 / 2 then below
  else if 1 / 2 < rest then below + 1
  else if below % 2 = 0 then below
  else below + 1

/- Round to a number of decimal places. -/
def roundTo
    (places : ℕ)
    (x : 𝕜) : 𝕜 :=
  (roundHalfEven (x * 10 ^ places) : 𝕜) / 10 ^ places

/- A number is rounded down to its floor or up by one. -/
theorem roundHalfEven_cases (x : 𝕜) :
    (roundHalfEven x = ⌊x⌋ ∧ x - ⌊x⌋ ≤ 1 / 2) ∨
      (roundHalfEven x = ⌊x⌋ + 1 ∧ 1 / 2 ≤ x - ⌊x⌋) := by
  unfold roundHalfEven
  dsimp only
  by_cases hLow : x - (⌊x⌋ : 𝕜) < 1 / 2
  · rw [if_pos hLow]
    exact Or.inl ⟨rfl, hLow.le⟩
  · rw [if_neg hLow]
    by_cases hHigh : 1 / 2 < x - (⌊x⌋ : 𝕜)
    · rw [if_pos hHigh]
      exact Or.inr ⟨rfl, hHigh.le⟩
    · rw [if_neg hHigh]
      split
      · exact Or.inl ⟨rfl, not_lt.mp hHigh⟩
      · exact Or.inr ⟨rfl, not_lt.mp hLow⟩

theorem floor_le_roundHalfEven (x : 𝕜) :
    ⌊x⌋ ≤ roundHalfEven x := by
  rcases roundHalfEven_cases x with ⟨hDown, _⟩ | ⟨hUp, _⟩
  · omega
  · omega

variable [IsStrictOrderedRing 𝕜]

/- A larger number is not rounded to a smaller one. -/
theorem roundHalfEven_mono
    {x y : 𝕜}
    (hLe : x ≤ y) :
    roundHalfEven x ≤ roundHalfEven y := by
  have hFloors := Int.floor_mono hLe
  have hFloor := floor_le_roundHalfEven y
  rcases roundHalfEven_cases x with ⟨hX, _⟩ | ⟨hX, hHigh⟩
  · omega
  · rcases roundHalfEven_cases y with ⟨hY, hLow⟩ | ⟨hY, _⟩
    · rcases hFloors.lt_or_eq with hLt | hEq
      · omega
      · -- Both lie half way above the same floor.
        have hSame : x = y := by
          rw [hEq] at hHigh
          linarith
        rw [hSame]
    · omega

/- A whole number is its own rounding. -/
theorem roundHalfEven_intCast (n : ℤ) :
    roundHalfEven (n : 𝕜) = n := by
  unfold roundHalfEven
  simp

/- Rounding stays below a whole bound. -/
theorem roundHalfEven_le
    {x : 𝕜}
    {n : ℤ}
    (hLe : x ≤ n) :
    roundHalfEven x ≤ n :=
  (roundHalfEven_mono hLe).trans (roundHalfEven_intCast n).le

/- Rounding moves a number by at most one half. -/
theorem abs_roundHalfEven_sub_le (x : 𝕜) :
    |(roundHalfEven x : 𝕜) - x| ≤ 1 / 2 := by
  have hBelow := Int.floor_le x
  have hAbove := Int.lt_floor_add_one x
  rw [abs_le]
  rcases roundHalfEven_cases x with
    ⟨hDown, hLow⟩ | ⟨hUp, hHigh⟩
  · rw [hDown]
    constructor
    · linarith
    · linarith
  · rw [hUp]
    push_cast
    constructor
    · linarith
    · linarith

theorem roundTo_mono
    (places : ℕ)
    {x y : 𝕜}
    (hLe : x ≤ y) :
    roundTo places x ≤ roundTo places y := by
  have hPower : (0 : 𝕜) < 10 ^ places := by positivity
  have hScaled :=
    roundHalfEven_mono
      (mul_le_mul_of_nonneg_right hLe hPower.le)
  unfold roundTo
  exact
    div_le_div_of_nonneg_right (by exact_mod_cast hScaled)
      hPower.le

end Rounding

section Division

variable {𝕜 : Type}
variable [Field 𝕜] [DecidableEq 𝕜]

/- A ratio that is zero when its denominator is zero. -/
def divOrZero
    (numerator denominator : 𝕜) : 𝕜 :=
  if denominator = 0 then 0 else numerator / denominator

/- A field already divides by zero to zero. -/
@[simp] theorem divOrZero_eq_div
    (numerator denominator : 𝕜) :
    divOrZero numerator denominator =
      numerator / denominator := by
  by_cases hZero : denominator = 0
  · simp [divOrZero, hZero]
  · simp [divOrZero, hZero]

end Division
