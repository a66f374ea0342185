import Nidra.Lib.Numeric
import Nidra.Lib.PyText

/-
  This file defines the floats of Python: the finite ones by
  the rational they are, rounding of a rational to the nearest
  float of 64 or of 32 bits, sums and products of floats, and
  the float that a text stands for.

  Key definitions include:
    * `PyFloat`
    * `PyFloat.nearest`, `PyFloat.nearestSingle`
    * `PyFloat.ofRat`
    * `PyFloat.add`, `PyFloat.mul`, `PyFloat.div`
    * `PyFloat.toInt`
    * `PyFloat.ofText`

  Main declarations:
    * `PyFloat.nearest_intCast`, `PyFloat.nearest_le`
    * `PyFloat.isFinite_div`
-/

/-
  A float: a finite value, an infinity, or not a number. The
  two zeros are one value.
-/
inductive PyFloat where
  | finite (value : ℚ)
  | inf (negative : Bool)
  | nan
deriving DecidableEq, Repr

namespace PyFloat

------------------------------------------------------------
-- Kinds of floats
------------------------------------------------------------

def isFinite : PyFloat → Bool
  | .finite _ => true
  | .inf _ => false
  | .nan => false

def isInf : PyFloat → Bool
  | .finite _ => false
  | .inf _ => true
  | .nan => false

/- The rational a finite float is; zero for the others. -/
def value : PyFloat → ℚ
  | .finite value => value
  | .inf _ => 0
  | .nan => 0

/- A float with not-a-number read as zero. -/
def fillna : PyFloat → PyFloat
  | .nan => .finite 0
  | x => x

@[simp] theorem isFinite_fillna
    (x : PyFloat) :
    x.fillna.isFinite = !x.isInf := by
  cases x with
  | finite value => rfl
  | inf negative => rfl
  | nan => rfl

------------------------------------------------------------
-- Rounding
------------------------------------------------------------

/- The exponent of the leading bit of a positive rational. -/
def leadingBit (q : ℚ) : ℤ :=
  let guess : ℤ :=
    (q.num.natAbs.log2 : ℤ) - (q.den.log2 : ℤ)
  if (2 : ℚ) ^ guess ≤ q then guess else guess - 1

/- The exponent of the last bit that a float keeps. -/
def lastBit (q : ℚ) : ℤ :=
  max (leadingBit |q| - 52) (-1074)

/- The nearest multiple of a power of two, ties to even. -/
def nearestMultiple
    (bit : ℤ)
    (q : ℚ) : ℚ :=
  let unit : ℚ := (2 : ℚ) ^ bit
  (roundHalfEven (q / unit) : ℚ) * unit

/- The nearest value with the bits that a float keeps. -/
def nearest (q : ℚ) : ℚ :=
  nearestMultiple (lastBit q) q

/- The nearest value with the bits of a 32-bit float. -/
def nearestSingle (q : ℚ) : ℚ :=
  nearestMultiple (max (leadingBit |q| - 23) (-149)) q

/-
  The nearest float, ties to the even one; a rational that
  rounds past the largest float becomes an infinity.
-/
def ofRat (q : ℚ) : PyFloat :=
  if q = 0 then .finite 0
  else if (2 : ℚ) ^ (1024 : ℕ) ≤ |nearest q| then
    .inf (decide (q < 0))
  else .finite (nearest q)

/- The leading bit of a positive rational is a bit of it. -/
theorem zpow_leadingBit_le
    {q : ℚ}
    (hPos : 0 < q) :
    (2 : ℚ) ^ leadingBit q ≤ q := by
  unfold leadingBit
  dsimp only
  split
  · next hLe => exact hLe
  · -- The numerator has its leading bit, the denominator
    -- stays below the next power.
    have hNum : (0 : ℤ) < q.num := Rat.num_pos.mpr hPos
    have hNumBit : 2 ^ q.num.natAbs.log2 ≤ q.num.natAbs :=
      Nat.log2_self_le (by omega)
    have hDenBit : q.den < 2 ^ (q.den.log2 + 1) :=
      Nat.lt_log2_self
    have hNumRat :
        (2 : ℚ) ^ (q.num.natAbs.log2 : ℤ) ≤ (q.num : ℚ) := by
      have hAbs : (q.num.natAbs : ℤ) = q.num := by omega
      rw [zpow_natCast, ← hAbs, Int.cast_natCast]
      exact_mod_cast hNumBit
    have hDenRat :
        (q.den : ℚ) ≤ (2 : ℚ) ^ ((q.den.log2 : ℤ) + 1) := by
      have hLe : (q.den : ℚ) ≤ (2 : ℚ) ^ (q.den.log2 + 1) := by
        exact_mod_cast hDenBit.le
      exact_mod_cast hLe
    have hDenPos : (0 : ℚ) < q.den := by
      exact_mod_cast q.den_pos
    calc (2 : ℚ) ^
          ((q.num.natAbs.log2 : ℤ) - (q.den.log2 : ℤ) - 1)
        = (2 : ℚ) ^ (q.num.natAbs.log2 : ℤ) /
            (2 : ℚ) ^ ((q.den.log2 : ℤ) + 1) := by
          rw [sub_sub, zpow_sub₀ two_ne_zero]
      _ ≤ (q.num : ℚ) / q.den := by
          exact div_le_div₀ (by exact_mod_cast hNum.le)
            hNumRat hDenPos hDenRat
      _ = q := Rat.num_div_den q

/- A rational below a power of two leads below it. -/
theorem leadingBit_lt
    {q : ℚ}
    (hPos : 0 < q)
    {bits : ℤ}
    (hLt : q < (2 : ℚ) ^ bits) :
    leadingBit q < bits :=
  (zpow_lt_zpow_iff_right₀ one_lt_two).mp
    ((zpow_leadingBit_le hPos).trans_lt hLt)

/- Below 2 ^ 53 a float keeps at least the units. -/
theorem lastBit_nonpos
    {q : ℚ}
    (hLt : |q| < (2 : ℚ) ^ (53 : ℤ)) :
    lastBit q ≤ 0 := by
  unfold lastBit
  rcases (abs_nonneg q).eq_or_lt with hZero | hPos
  · rw [← hZero]
    decide +kernel
  · have hLead := leadingBit_lt hPos hLt
    omega

/- A float that keeps the units keeps a whole number. -/
theorem intCast_div_zpow
    (n : ℤ)
    {bit : ℤ}
    (hBit : bit ≤ 0) :
    (n : ℚ) / (2 : ℚ) ^ bit =
      ((n * 2 ^ (-bit).toNat : ℤ) : ℚ) := by
  have hPower :
      (2 : ℚ) ^ bit = ((2 : ℚ) ^ (-bit).toNat)⁻¹ := by
    rw [← zpow_natCast, ← zpow_neg]
    congr 1
    omega
  rw [hPower, div_inv_eq_mul]
  push_cast
  rfl

/- A whole number of at most 53 bits is a float. -/
theorem nearest_intCast
    {n : ℤ}
    (hLt : |(n : ℚ)| < (2 : ℚ) ^ (53 : ℤ)) :
    nearest n = n := by
  have hBit := lastBit_nonpos hLt
  unfold nearest nearestMultiple
  dsimp only
  rw [intCast_div_zpow n hBit, roundHalfEven_intCast,
    ← intCast_div_zpow n hBit]
  exact div_mul_cancel₀ _ (zpow_ne_zero _ two_ne_zero)

/- Rounding does not pass a whole number of 53 bits. -/
theorem nearest_le
    {q : ℚ}
    {n : ℤ}
    (hAbs : |q| < (2 : ℚ) ^ (53 : ℤ))
    (hLe : q ≤ n) :
    nearest q ≤ n := by
  have hBit := lastBit_nonpos hAbs
  have hUnit : (0 : ℚ) < (2 : ℚ) ^ lastBit q :=
    zpow_pos two_pos _
  have hScaled :
      q / (2 : ℚ) ^ lastBit q ≤
        ((n * 2 ^ (-lastBit q).toNat : ℤ) : ℚ) := by
    rw [← intCast_div_zpow n hBit]
    exact div_le_div_of_nonneg_right hLe hUnit.le
  have hRound := roundHalfEven_le hScaled
  have hCast :
      (roundHalfEven (q / (2 : ℚ) ^ lastBit q) : ℚ) ≤
        (n : ℚ) / (2 : ℚ) ^ lastBit q := by
    rw [intCast_div_zpow n hBit]
    exact_mod_cast hRound
  exact (le_div_iff₀ hUnit).mp hCast

------------------------------------------------------------
-- Arithmetic
------------------------------------------------------------

/- The sign of a product. -/
def isNegative : PyFloat → Bool
  | .finite value => decide (value < 0)
  | .inf negative => negative
  | .nan => false

/- Two infinities of different signs have no sum. -/
def add : PyFloat → PyFloat → PyFloat
  | .nan, _ => .nan
  | _, .nan => .nan
  | .inf a, .inf b => if a = b then .inf a else .nan
  | .inf a, .finite _ => .inf a
  | .finite _, .inf b => .inf b
  | .finite a, .finite b => ofRat (a + b)

/- Zero and an infinity have no product. -/
def mul : PyFloat → PyFloat → PyFloat
  | .nan, _ => .nan
  | _, .nan => .nan
  | .finite a, .finite b => ofRat (a * b)
  | x, y =>
      if x = .finite 0 ∨ y = .finite 0 then .nan
      else .inf (x.isNegative != y.isNegative)

/-
  The integer that a float is cut off to. An infinity and
  not a number have none (Python raises there).
-/
def toInt : PyFloat → Option ℤ
  | .finite value => some (truncate value)
  | .inf _ => none
  | .nan => none

/- Divide by a positive rational of at least one. -/
def div
    (x : PyFloat)
    (d : ℚ) : PyFloat :=
  match x with
  | .finite value => .finite (nearest (value / d))
  | .inf negative => .inf negative
  | .nan => .nan

@[simp] theorem isFinite_div
    (x : PyFloat)
    (d : ℚ) :
    (x.div d).isFinite = x.isFinite := by
  cases x with
  | finite value => rfl
  | inf negative => rfl
  | nan => rfl

------------------------------------------------------------
-- Float literals
------------------------------------------------------------

/- The exponent part of a literal: none, or all of it. -/
def exponentOf : List Char → Option ℤ
  | [] => some 0
  | c :: rest =>
      if c = 'e' || c = 'E' then do
        let (negative, digits) := PyText.sign rest
        let value ← PyText.digitsValue 10 digits
        return PyText.negateIf negative value
      else none

/- The digits after a point, and what follows them. -/
def fractionOf : List Char → List Char × List Char
  | '.' :: rest => rest.span PyText.isDigit
  | text => ([], text)

/- A decimal literal without a sign. -/
def ofDecimal
    (negative : Bool)
    (text : List Char) : Option PyFloat := do
  let (whole, rest) := text.span PyText.isDigit
  let (fraction, rest) := fractionOf rest
  let mantissa ← PyText.digitsValue 10 (whole ++ fraction)
  let exponent ← exponentOf rest
  let magnitude : ℚ :=
    (mantissa : ℚ) *
      (10 : ℚ) ^ (exponent - (fraction.length : ℤ))
  return ofRat (if negative then -magnitude else magnitude)

/- A literal without blanks and underscores. -/
def ofLiteral (text : List Char) : Option PyFloat :=
  let (negative, body) := PyText.sign text
  let word := String.ofList (body.map Char.toLower)
  if word = "inf" || word = "infinity" then
    some (.inf negative)
  else if word = "nan" then some .nan
  else ofDecimal negative body

/- The float a text stands for, if it stands for one. -/
def ofText (text : String) : Option PyFloat := do
  let body ←
    PyText.dropUnderscores PyText.isDigit
      (PyText.literal text)
  ofLiteral body

end PyFloat
