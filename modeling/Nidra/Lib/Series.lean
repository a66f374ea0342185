import Nidra.Lib.Quantiles

/-
  This file defines columns with missing values and the
  statistics that leave these out.

  Key definitions include:
    * `Series`, `Series.present`, `Series.filled`
    * `Series.sum`, `Series.mean`, `Series.var`, `Series.max`
    * `Series.quantileAt`
    * `binOf`, `histogram`
-/

/- A column; a missing value is none. -/
abbrev Series (𝕜 : Type) :=
  List (Option 𝕜)

namespace Series

set_option linter.unusedSectionVars false

variable {𝕜 : Type}

/- The values that are present. -/
def present (s : Series 𝕜) : List 𝕜 :=
  s.reduceOption

/- The column with a value in place of the missing ones. -/
def filled
    (s : Series 𝕜)
    (value : 𝕜) : List 𝕜 :=
  s.map (fun x => x.getD value)

variable [Field 𝕜] [LinearOrder 𝕜]

def sum (s : Series 𝕜) : 𝕜 :=
  s.present.sum

/- The mean; a column of missing values has none. -/
def mean (s : Series 𝕜) : Option 𝕜 :=
  if s.present = [] then none else some (average s.present)

/- Mean squared distance from the mean. -/
def populationVariance (values : List 𝕜) : 𝕜 :=
  average
    (values.map (fun x => (x - average values) ^ 2))

def var (s : Series 𝕜) : Option 𝕜 :=
  if s.present = [] then none
  else some (populationVariance s.present)

def max (s : Series 𝕜) : Option 𝕜 :=
  s.present.max?

def quantileAt
    [FloorSemiring 𝕜]
    (s : Series 𝕜)
    (share : 𝕜) : Option 𝕜 :=
  if s.present = [] then none
  else some (quantile share s.present)

/- A column made of some rows has what these have. -/
theorem present_map
    {α : Type}
    (f : α → Option 𝕜)
    (rows : List α) :
    present (rows.map f) = rows.filterMap f := by
  unfold present List.reduceOption
  rw [List.filterMap_map]
  rfl

/- A column without gaps. -/
@[simp] theorem present_map_some (values : List 𝕜) :
    present (values.map some) = values := by
  rw [present_map]
  exact List.filterMap_some

@[simp] theorem filled_map_some
    (values : List 𝕜)
    (value : 𝕜) :
    filled (values.map some) value = values := by
  simp [filled]

/- The mean, where that of no value counts zero. -/
theorem mean_getD (s : Series 𝕜) :
    s.mean.getD 0 = average s.present := by
  unfold mean
  split
  · next hNone => simp [hNone, average]
  · rfl

/- The variance from the sums of values and of squares. -/
theorem populationVariance_eq
    [CharZero 𝕜]
    (values : List 𝕜) :
    populationVariance values =
      (values.map (fun x => x ^ 2)).sum / values.length -
        (values.sum / values.length) ^ 2 := by
  rcases eq_or_ne values [] with rfl | hSome
  · simp [populationVariance, average]
  · have hLength : (values.length : 𝕜) ≠ 0 := by
      exact_mod_cast (List.length_pos_of_ne_nil hSome).ne'
    have hSum :
        ∀ (a : 𝕜) (l : List 𝕜),
          (l.map (fun x => (x - a) ^ 2)).sum =
            (l.map (fun x => x ^ 2)).sum - 2 * a * l.sum +
              l.length * a ^ 2 := by
      intro a l
      induction l with
      | nil => simp
      | cons x l ih =>
          simp only [List.map_cons, List.sum_cons, ih,
            List.length_cons]
          push_cast
          ring
    unfold populationVariance average
    rw [hSum, List.length_map]
    field_simp
    ring

theorem populationVariance_nonneg
    [IsStrictOrderedRing 𝕜]
    (values : List 𝕜) :
    0 ≤ populationVariance values := by
  apply div_nonneg
  · apply List.sum_nonneg
    intro square hMem
    rcases List.mem_map.mp hMem with ⟨x, _, rfl⟩
    exact sq_nonneg _
  · exact Nat.cast_nonneg _

/- Values in another measure have their mean in it. -/
theorem average_map_div
    (values : List 𝕜)
    (c : 𝕜) :
    average (values.map (fun x => x / c)) =
      average values / c := by
  simp only [average, div_eq_mul_inv, List.sum_map_mul_right,
    List.map_id', List.length_map]
  ring

/- Their variance is in the square of the measure. -/
theorem populationVariance_map_div
    (values : List 𝕜)
    (c : 𝕜) :
    populationVariance (values.map (fun x => x / c)) =
      populationVariance values / c ^ 2 := by
  have hSquare :
      ∀ x : 𝕜,
        (x / c - average values / c) ^ 2 =
          (x - average values) ^ 2 / c ^ 2 := by
    intro x
    rw [← sub_div, div_pow]
  have hMean :=
    average_map_div
      (values.map (fun x => (x - average values) ^ 2))
      (c ^ 2)
  unfold populationVariance
  rw [average_map_div, ← hMean, List.map_map, List.map_map]
  congr 1
  apply List.map_congr_left
  intro x _
  exact hSquare x

/- Values without a mean and a variance are all zero. -/
theorem forall_eq_zero_iff
    [IsStrictOrderedRing 𝕜]
    {values : List 𝕜}
    (hSome : values ≠ []) :
    (∀ x ∈ values, x = 0) ↔
      average values = 0 ∧ populationVariance values = 0 := by
  have hLength : (values.length : 𝕜) ≠ 0 := by
    exact_mod_cast (List.length_pos_of_ne_nil hSome).ne'
  constructor
  · intro hZero
    have hMean : average values = 0 := by
      rw [average, List.sum_eq_zero hZero, zero_div]
    refine ⟨hMean, ?_⟩
    unfold populationVariance
    rw [average, List.sum_eq_zero, zero_div]
    intro square hSquare
    rcases List.mem_map.mp hSquare with ⟨x, hX, rfl⟩
    rw [hMean, hZero x hX]
    ring
  · rintro ⟨hMean, hVariance⟩ x hX
    unfold populationVariance at hVariance
    rw [hMean, average, List.length_map, div_eq_zero_iff,
      or_iff_left hLength] at hVariance
    have hSquare :
        (x - 0) ^ 2 = 0 := by
      apply
        List.all_zero_of_le_zero_le_of_sum_eq_zero ?_
          hVariance (List.mem_map_of_mem hX)
      intro square hMem
      rcases List.mem_map.mp hMem with ⟨y, _, rfl⟩
      exact sq_nonneg _
    simpa using hSquare

theorem populationVariance_of_length_le_one
    {values : List 𝕜}
    (hLength : values.length ≤ 1) :
    populationVariance values = 0 := by
  cases values with
  | nil => simp [populationVariance, average]
  | cons x values =>
      cases values with
      | nil => simp [populationVariance, average]
      | cons y values => simp at hLength

end Series

------------------------------------------------------------
-- Histograms
------------------------------------------------------------

section Histogram

variable {𝕜 : Type}
variable [Field 𝕜] [LinearOrder 𝕜] [FloorSemiring 𝕜]

/-
  The bin of a value, of `bins` bins of equal width from `lo`
  to `hi`; the last one includes its upper edge.
-/
def binOf
    (bins : ℕ)
    (lo hi value : 𝕜) : ℕ :=
  min ⌊(value - lo) * bins / (hi - lo)⌋₊ (bins - 1)

/- How many values fall into each bin. -/
def histogram
    (bins : ℕ)
    (values : List 𝕜) : List ℕ :=
  let lo := values.min?.getD 0
  let hi := values.max?.getD 0
  (List.range bins).map
    (fun bin =>
      values.countP (fun v => binOf bins lo hi v = bin))

end Histogram
