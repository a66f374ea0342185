import Nidra.Lib.PyFloat
import Nidra.Lib.RowWise

/-
  This file defines columns of numbers that are read from
  texts: one type of numbers is taken for a whole column from
  what its cells are read as. Integers of 64 bits wrap around,
  and become floats where they meet floats, or where signed
  ones meet unsigned ones.

  Key definitions include:
    * `Reading`, `NumericReader`
    * `NumberKind`, `kindOf`
    * `Number`, `Reading.number`
    * `Number.scale`, `Number.add`, `Number.between`
    * `Number.toInt64`, `Reading.toInt64`, `int64Column`
    * `Number.IsInt`

  Main declarations:
    * `nonneg_of_kindOf`
    * `Number.IsInt.scale`, `Number.IsInt.add`
    * `Number.IsInt.between`
    * `Reading.IsExact.toInt64_eq`, `int64Column_eq`
-/

------------------------------------------------------------
-- Readings
------------------------------------------------------------

/-
  What the text of a cell is read as: no number, which may
  make the column one of floats; an integer, with the float
  that it is in a column of floats; or a float.
-/
inductive Reading where
  | missing (forcesFloat : Bool)
  | int (value : ℤ) (asFloat : ℚ)
  | float (value : PyFloat)
deriving DecidableEq

/-
  How texts are read, whether a missing cell makes a column
  one of floats, and what a float beyond the 64-bit integers
  is cut off to.
-/
structure NumericReader where
  read : String → Reading
  missingForcesFloat : Bool
  overflow : ℚ → Int64

def NumericReader.cell (reader : NumericReader) :
    Option String → Reading
  | none => .missing reader.missingForcesFloat
  | some text => reader.read text

/-
  A reader of decimal literals. An integer is its nearest
  float, and floats of other sizes are cut off to the least
  integer.
-/
def NumericReader.decimal
    (missingForcesFloat : Bool) : NumericReader :=
  { read := fun text =>
      match PyText.intDecimal text with
      | some value => .int value (PyFloat.nearest value)
      | none =>
          match PyFloat.ofText text with
          | some value => .float value
          | none => .missing missingForcesFloat
    missingForcesFloat := missingForcesFloat
    overflow := fun _ => Int64.ofInt (-2 ^ 63) }

/- The integers of 64 bits, with a sign and without one. -/
def isInt64 (n : ℤ) : Bool :=
  -2 ^ 63 ≤ n ∧ n < 2 ^ 63

def isUInt64 (n : ℤ) : Bool :=
  0 ≤ n ∧ n < 2 ^ 64

theorem isInt64_iff
    {n : ℤ} :
    isInt64 n = true ↔ -2 ^ 63 ≤ n ∧ n < 2 ^ 63 :=
  decide_eq_true_iff

theorem isUInt64_iff
    {n : ℤ} :
    isUInt64 n = true ↔ 0 ≤ n ∧ n < 2 ^ 64 :=
  decide_eq_true_iff

namespace Reading

/- A reading that no column of integers can hold. -/
def forcesFloat : Reading → Bool
  | .missing forcesFloat => forcesFloat
  | .int value _ => !isInt64 value && !isUInt64 value
  | .float _ => true

def isNegative : Reading → Bool
  | .missing _ => false
  | .int value _ => decide (value < 0)
  | .float _ => false

/- A reading that no column of signed integers can hold. -/
def isLarge : Reading → Bool
  | .missing _ => false
  | .int value _ => decide (2 ^ 63 ≤ value)
  | .float _ => false

/- An integer that is its own float, of so many bits. -/
def IsShort
    (bits : ℕ) : Reading → Prop
  | .missing _ => False
  | .int value asFloat =>
      |value| < 2 ^ bits ∧ asFloat = value
  | .float _ => False

end Reading

------------------------------------------------------------
-- The numbers of a column
------------------------------------------------------------

inductive NumberKind where
  | int64
  | uint64
  | float64
deriving DecidableEq

/- The type of the numbers of a column. -/
def kindOf (cells : List Reading) : NumberKind :=
  if cells.any Reading.forcesFloat ||
      (cells.any Reading.isNegative &&
        cells.any Reading.isLarge) then .float64
  else if cells.any Reading.isLarge then .uint64
  else .int64

/- A column of unsigned integers holds none below zero. -/
theorem nonneg_of_kindOf
    {cells : List Reading}
    (hKind : kindOf cells = .uint64)
    {value : ℤ}
    {asFloat : ℚ}
    (hMem : .int value asFloat ∈ cells) :
    0 ≤ value := by
  unfold kindOf at hKind
  split_ifs at hKind with hFloat hLarge
  by_contra hNeg
  have hNegative : cells.any Reading.isNegative = true :=
    List.any_eq_true.mpr
      ⟨_, hMem, decide_eq_true (not_le.mp hNeg)⟩
  exact hFloat (by simp [hNegative, hLarge])

/- A number of a column. -/
inductive Number where
  | int64 (value : Int64)
  | uint64 (value : UInt64)
  | float64 (value : PyFloat)
deriving DecidableEq

/- The number that a cell is in a column of some type. -/
def Reading.number
    (kind : NumberKind) : Reading → Option Number
  | .missing _ => none
  | .int value asFloat =>
      match kind with
      | .int64 => some (.int64 (Int64.ofInt value))
      | .uint64 => some (.uint64 (UInt64.ofInt value))
      | .float64 => some (.float64 (.finite asFloat))
  | .float value => some (.float64 value)

namespace Number

------------------------------------------------------------
-- Arithmetic
------------------------------------------------------------

def toFloat : Number → PyFloat
  | .int64 value => .ofRat value.toInt
  | .uint64 value => .ofRat value.toNat
  | .float64 value => value

/- Multiply by a power of two. -/
def scale
    (bits : ℕ) : Number → Number
  | .int64 value => .int64 (value * Int64.ofInt (2 ^ bits))
  | .uint64 value =>
      .uint64 (value * UInt64.ofInt (2 ^ bits))
  | .float64 value => .float64 (value.mul (.finite (2 ^ bits)))

def add : Number → Number → Number
  | .int64 a, .int64 b => .int64 (a + b)
  | .uint64 a, .uint64 b => .uint64 (a + b)
  | a, b => .float64 (a.toFloat.add b.toFloat)

/- Infinities and not-a-number lie between no two bounds. -/
def between
    (low high : ℕ) : Number → Bool
  | .int64 value => (low : ℤ) ≤ value.toInt ∧ value.toInt ≤ high
  | .uint64 value => low ≤ value.toNat ∧ value.toNat ≤ high
  | .float64 (.finite value) => (low : ℚ) ≤ value ∧ value ≤ high
  | .float64 (.inf _) => false
  | .float64 .nan => false

/-
  As a 64-bit integer, not-a-number read as zero. An infinity
  is none, and raises.
-/
def toInt64
    (overflow : ℚ → Int64) : Number → Option Int64
  | .int64 value => some value
  | .uint64 value => some value.toInt64
  | .float64 (.finite value) =>
      if isInt64 (truncate value) then
        some (Int64.ofInt (truncate value))
      else some (overflow value)
  | .float64 (.inf _) => none
  | .float64 .nan => some 0

end Number

/- A cell as a 64-bit integer, a missing one as zero. -/
def Reading.toInt64
    (overflow : ℚ → Int64)
    (kind : NumberKind)
    (reading : Reading) : Option Int64 :=
  match reading.number kind with
  | none => some 0
  | some number => number.toInt64 overflow

/-
  Integers of any size as a column of 64-bit integers. Those
  that one unsigned column holds wrap around; others raise.
-/
def int64Column (values : List ℤ) : Option (List Int64) :=
  if values.all isInt64 || values.all isUInt64 then
    some (values.map Int64.ofInt)
  else none

namespace Number

------------------------------------------------------------
-- Integers of up to 53 bits
------------------------------------------------------------

/- A number that is an integer, whatever its type is. -/
def IsInt
    (n : ℤ) : Number → Prop
  | .int64 value => value.toInt = n
  | .uint64 value => (value.toNat : ℤ) = n
  | .float64 value => value = .finite n

theorem ofRat_intCast
    {n : ℤ}
    (hShort : |n| < 2 ^ 53) :
    PyFloat.ofRat n = .finite n := by
  have hAbs : |(n : ℚ)| < (2 : ℚ) ^ (53 : ℤ) := by
    exact_mod_cast hShort
  unfold PyFloat.ofRat
  rw [PyFloat.nearest_intCast hAbs]
  by_cases hZero : (n : ℚ) = 0
  · rw [if_pos hZero, hZero]
  · rw [if_neg hZero, if_neg]
    have hPower : (2 : ℚ) ^ (53 : ℤ) ≤ 2 ^ (1024 : ℕ) := by
      exact_mod_cast
        (pow_le_pow_right₀ one_le_two (by decide) :
          (2 : ℚ) ^ 53 ≤ 2 ^ 1024)
    exact not_le.mpr (hAbs.trans_le hPower)

theorem IsInt.toFloat
    {n : ℤ}
    {number : Number}
    (hInt : number.IsInt n)
    (hShort : |n| < 2 ^ 53) :
    number.toFloat = .finite n := by
  cases number with
  | int64 value =>
      change value.toInt = n at hInt
      change PyFloat.ofRat (value.toInt : ℚ) = .finite n
      rw [hInt]
      exact ofRat_intCast hShort
  | uint64 value =>
      change (value.toNat : ℤ) = n at hInt
      have hCast : (value.toNat : ℚ) = (n : ℚ) := by
        rw [← hInt]
        push_cast
        rfl
      change PyFloat.ofRat (value.toNat : ℚ) = .finite n
      rw [hCast]
      exact ofRat_intCast hShort
  | float64 value => exact hInt

/- What an integer that fits into 64 bits is read as. -/
theorem toInt_ofInt_short
    {n : ℤ}
    (hShort : |n| < 2 ^ 63) :
    (Int64.ofInt n).toInt = n := by
  have hBounds := abs_lt.mp hShort
  exact
    Int64.toInt_ofInt_of_le (by omega) (by omega)

theorem toNat_ofInt_short
    {n : ℤ}
    (hNonneg : 0 ≤ n)
    (hShort : n < 2 ^ 64) :
    ((UInt64.ofInt n).toNat : ℤ) = n := by
  unfold UInt64.ofInt
  rw [UInt64.toNat_ofNat', Nat.mod_eq_of_lt (by omega)]
  omega

theorem IsInt.scale
    {n : ℤ}
    {number : Number}
    (hInt : number.IsInt n)
    {bits : ℕ}
    (hBits : bits < 53)
    (hShort : |n * 2 ^ bits| < 2 ^ 53) :
    (number.scale bits).IsInt (n * 2 ^ bits) := by
  have hPower : (2 : ℤ) ^ bits < 2 ^ 53 :=
    pow_lt_pow_right₀ one_lt_two hBits
  have hPowerPos : (0 : ℤ) < 2 ^ bits := by positivity
  have hBounds := abs_lt.mp hShort
  cases number with
  | int64 value =>
      change value.toInt = n at hInt
      change (value * Int64.ofInt (2 ^ bits)).toInt = _
      rw [Int64.toInt_mul, hInt,
        toInt_ofInt_short (by rw [abs_of_pos hPowerPos]; omega)]
      exact Int.bmod_eq_of_le (by omega) (by omega)
  | uint64 value =>
      change (value.toNat : ℤ) = n at hInt
      change
        ((value * UInt64.ofInt (2 ^ bits)).toNat : ℤ) = _
      have hFactor :=
        toNat_ofInt_short hPowerPos.le (by omega)
      rw [UInt64.toNat_mul]
      push_cast
      rw [hInt, hFactor]
      exact Int.emod_eq_of_lt
        (mul_nonneg (by omega) hPowerPos.le) (by omega)
  | float64 value =>
      change value = .finite n at hInt
      change value.mul (.finite (2 ^ bits)) = _
      rw [hInt]
      have hProduct := ofRat_intCast hShort
      push_cast at hProduct ⊢
      exact hProduct

theorem IsInt.add
    {m n : ℤ}
    {a b : Number}
    (hA : a.IsInt m)
    (hB : b.IsInt n)
    (hM : |m| < 2 ^ 53)
    (hN : |n| < 2 ^ 53)
    (hSum : |m + n| < 2 ^ 53) :
    (a.add b).IsInt (m + n) := by
  have hBounds := abs_lt.mp hSum
  have hFloats :
      (Number.float64 (a.toFloat.add b.toFloat)).IsInt
        (m + n) := by
    rw [hA.toFloat hM, hB.toFloat hN]
    change PyFloat.ofRat ((m : ℚ) + n) = .finite _
    have hOfRat := ofRat_intCast hSum
    push_cast at hOfRat ⊢
    exact hOfRat
  cases a with
  | int64 x =>
      cases b with
      | int64 y =>
          change x.toInt = m at hA
          change y.toInt = n at hB
          change (x + y).toInt = m + n
          rw [Int64.toInt_add, hA, hB]
          exact Int.bmod_eq_of_le (by omega) (by omega)
      | uint64 y => exact hFloats
      | float64 y => exact hFloats
  | uint64 x =>
      cases b with
      | int64 y => exact hFloats
      | uint64 y =>
          change (x.toNat : ℤ) = m at hA
          change (y.toNat : ℤ) = n at hB
          change ((x + y).toNat : ℤ) = m + n
          rw [UInt64.toNat_add]
          push_cast
          rw [hA, hB]
          exact Int.emod_eq_of_lt (by omega) (by omega)
      | float64 y => exact hFloats
  | float64 x =>
      cases b with
      | int64 y => exact hFloats
      | uint64 y => exact hFloats
      | float64 y => exact hFloats

theorem IsInt.between
    {n : ℤ}
    {number : Number}
    (hInt : number.IsInt n)
    (low high : ℕ) :
    number.between low high =
      decide ((low : ℤ) ≤ n ∧ n ≤ high) := by
  cases number with
  | int64 value =>
      change value.toInt = n at hInt
      rw [← hInt]
      rfl
  | uint64 value =>
      change (value.toNat : ℤ) = n at hInt
      change
        decide (low ≤ value.toNat ∧ value.toNat ≤ high) = _
      rw [decide_eq_decide]
      omega
  | float64 value =>
      change value = .finite n at hInt
      rw [hInt]
      change decide ((low : ℚ) ≤ (n : ℚ) ∧ (n : ℚ) ≤ high) = _
      rw [decide_eq_decide]
      exact_mod_cast Iff.rfl

end Number

/- A short integer is the same in a column of any type. -/
theorem Reading.isInt_number
    {cells : List Reading}
    {value : ℤ}
    {asFloat : ℚ}
    (hMem : .int value asFloat ∈ cells)
    {bits : ℕ}
    (hBits : bits < 53)
    (hShort : (Reading.int value asFloat).IsShort bits) :
    ∃ number,
      (Reading.int value asFloat).number (kindOf cells) =
          some number ∧
        number.IsInt value := by
  have hPower : (2 : ℤ) ^ bits < 2 ^ 53 :=
    pow_lt_pow_right₀ one_lt_two hBits
  rcases hShort with ⟨hAbs, hFloat⟩
  have hBounds := abs_lt.mp hAbs
  cases hKind : kindOf cells with
  | int64 =>
      refine ⟨_, rfl, ?_⟩
      exact Number.toInt_ofInt_short (by omega)
  | uint64 =>
      refine ⟨_, rfl, ?_⟩
      have hNonneg := nonneg_of_kindOf hKind hMem
      exact Number.toNat_ofInt_short hNonneg (by omega)
  | float64 =>
      refine ⟨_, rfl, ?_⟩
      change PyFloat.finite asFloat = .finite value
      rw [hFloat]

------------------------------------------------------------
-- Columns of 64-bit integers
------------------------------------------------------------

/- An integer of 64 bits that is its own float. -/
def Reading.IsExact : Reading → Prop
  | .missing _ => True
  | .int value asFloat =>
      isInt64 value = true ∧ asFloat = value
  | .float _ => True

theorem toInt64_ofInt (n : ℤ) :
    (UInt64.ofInt n).toInt64 = Int64.ofInt n := by
  apply Int64.toBitVec_inj.mp
  change BitVec.ofNat 64 (n % 2 ^ 64).toNat = BitVec.ofInt 64 n
  apply BitVec.eq_of_toNat_eq
  rw [BitVec.toNat_ofNat, BitVec.toNat_ofInt,
    Nat.mod_eq_of_lt (by omega)]
  rfl

/- Only an infinity raises. -/
theorem Reading.toInt64_eq_none_iff
    {overflow : ℚ → Int64}
    {kind : NumberKind}
    {reading : Reading} :
    reading.toInt64 overflow kind = none ↔
      ∃ negative, reading = .float (.inf negative) := by
  cases reading with
  | missing forcesFloat =>
      simp [Reading.toInt64, Reading.number]
  | int value asFloat =>
      cases kind with
      | int64 =>
          simp [Reading.toInt64, Reading.number,
            Number.toInt64]
      | uint64 =>
          simp [Reading.toInt64, Reading.number,
            Number.toInt64]
      | float64 =>
          simp only [Reading.toInt64, Reading.number,
            Number.toInt64]
          split <;> simp
  | float value =>
      cases value with
      | finite q =>
          simp only [Reading.toInt64, Reading.number,
            Number.toInt64]
          split <;> simp
      | inf negative =>
          simp [Reading.toInt64, Reading.number,
            Number.toInt64]
      | nan =>
          simp [Reading.toInt64, Reading.number,
            Number.toInt64]

/- Such a cell is the same in a column of any type. -/
theorem Reading.IsExact.toInt64_eq
    {reading : Reading}
    (hExact : reading.IsExact)
    (overflow : ℚ → Int64)
    (kind kind' : NumberKind) :
    reading.toInt64 overflow kind =
      reading.toInt64 overflow kind' := by
  cases reading with
  | missing forcesFloat => rfl
  | int value asFloat =>
      rcases hExact with ⟨hFits, rfl⟩
      have hAny : ∀ k,
          (Reading.int value (value : ℚ)).toInt64 overflow k =
            some (Int64.ofInt value) := by
        intro k
        cases k with
        | int64 => rfl
        | uint64 =>
            change some (UInt64.ofInt value).toInt64 = _
            rw [toInt64_ofInt]
        | float64 =>
            have hWhole : truncate (value : ℚ) = value := by
              unfold truncate
              simp
            simp only [Reading.toInt64, Reading.number,
              Number.toInt64]
            rw [hWhole, if_pos hFits]
      rw [hAny, hAny]
  | float value => rfl

/- An integer by itself: it has to be one of 64 bits. -/
def wrapInt64 (n : ℤ) : Option Int64 :=
  if isInt64 n || isUInt64 n then some (Int64.ofInt n)
  else none

/- A number below zero and one that only fits unsigned. -/
def mixesSigns (values : List ℤ) : Bool :=
  values.any (fun n => n < 0) &&
    values.any (fun n => 2 ^ 63 ≤ n)

theorem mixesSigns_iff
    {values : List ℤ} :
    mixesSigns values = true ↔
      (∃ m ∈ values, m < 0) ∧ ∃ n ∈ values, 2 ^ 63 ≤ n := by
  simp [mixesSigns]

/- One type holds what fits by itself and mixes no signs. -/
theorem fits_iff
    {values : List ℤ} :
    (values.all isInt64 || values.all isUInt64) = true ↔
      ¬ mixesSigns values = true ∧
        ∀ n ∈ values, (isInt64 n || isUInt64 n) = true := by
  simp only [Bool.or_eq_true_iff, List.all_eq_true,
    isInt64_iff, isUInt64_iff, mixesSigns_iff]
  constructor
  · intro hFits
    constructor
    · rintro ⟨⟨m, hM, hBelow⟩, n, hN, hAbove⟩
      rcases hFits with hAll | hAll
      · have hFit := hAll n hN
        omega
      · have hFit := hAll m hM
        omega
    · intro n hMem
      exact
        hFits.imp (fun hAll => hAll n hMem)
          (fun hAll => hAll n hMem)
  · rintro ⟨hUnmixed, hEach⟩
    by_contra hNot
    rw [not_or] at hNot
    rcases hNot with ⟨hSigned, hUnsigned⟩
    push Not at hSigned hUnsigned
    rcases hSigned with ⟨n, hN, hLarge⟩
    rcases hUnsigned with ⟨m, hM, hBelow⟩
    have hNFits := hEach n hN
    have hMFits := hEach m hM
    apply hUnmixed
    exact ⟨⟨m, hM, by omega⟩, n, hN, by omega⟩

/- A column of integers is read one by one, or raises. -/
theorem int64Column_eq
    (values : List ℤ) :
    int64Column values =
      if mixesSigns values then none
      else values.mapM wrapInt64 := by
  unfold int64Column
  by_cases hFits :
      (values.all isInt64 || values.all isUInt64) = true
  · rcases fits_iff.mp hFits with ⟨hUnmixed, hEach⟩
    rw [if_pos hFits, if_neg hUnmixed, eq_comm]
    apply mapM_eq_some_map_iff.mpr
    intro n hMem
    exact if_pos (hEach n hMem)
  · rw [if_neg hFits]
    by_cases hMixed : mixesSigns values = true
    · rw [if_pos hMixed]
    · rw [if_neg hMixed, eq_comm]
      apply mapM_eq_none_iff.mpr
      by_contra hNone
      apply hFits
      refine fits_iff.mpr ⟨hMixed, ?_⟩
      intro n hMem
      by_contra hNot
      exact hNone ⟨n, hMem, if_neg hNot⟩
