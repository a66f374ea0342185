import Mathlib
import Nidra.Lib.Numerals

/-
  This file defines the order statistics of a finite sample:
  linear interpolation between ranks, quantiles, the median,
  the mean and the maximum, and says how they are ordered.

  Key definitions include:
    * `interpolate`
    * `ranked`
    * `quantile`, `median`, `average`, `largest`

  Main declarations:
    * `interpolate_mono`
    * `quantile_mono`, `quantile_bounds`
    * `median_eq_quantile`, `largest_eq_quantile`
    * `largest_map`
    * `quantile_le_average`, `average_le_quantile`
    * `quantile_evenlySpaced`
    * `quantile_outlierBelow`, `quantile_outlierAbove`
-/

variable {𝕜 : Type}

------------------------------------------------------------
-- Interpolation
------------------------------------------------------------

section Interpolation

variable [Field 𝕜] [LinearOrder 𝕜] [FloorSemiring 𝕜]

/- Interpolate a sequence between two of its indices. -/
def interpolate
    (x : ℕ → 𝕜)
    (position : 𝕜) : 𝕜 :=
  let below := ⌊position⌋₊
  x below + (position - below) * (x (below + 1) - x below)

/- On an affine stretch the interpolation is affine. -/
theorem interpolate_of_affine
    {x : ℕ → 𝕜}
    {a b position : 𝕜}
    (hFloor : x ⌊position⌋₊ = a + b * ⌊position⌋₊)
    (hNext :
      x (⌊position⌋₊ + 1) = a + b * (⌊position⌋₊ + 1) ∨
        position = ⌊position⌋₊) :
    interpolate x position = a + b * position := by
  unfold interpolate
  rcases hNext with hNext | hWhole
  · simp only [hFloor, hNext]
    ring
  · simp only [hFloor]
    rw [← hWhole, sub_self, zero_mul, add_zero]

variable [IsStrictOrderedRing 𝕜]

@[simp] theorem interpolate_natCast
    (x : ℕ → 𝕜)
    (i : ℕ) :
    interpolate x i = x i := by
  simp [interpolate]

/- Between two indices a share of the step is added. -/
theorem interpolate_add
    (x : ℕ → 𝕜)
    (i : ℕ)
    {share : 𝕜}
    (hPos : 0 ≤ share)
    (hLt : share < 1) :
    interpolate x (i + share) =
      x i + share * (x (i + 1) - x i) := by
  have hFloor : ⌊(i : 𝕜) + share⌋₊ = i := by
    rw [Nat.floor_eq_iff (by positivity)]
    constructor
    · linarith
    · linarith
  simp [interpolate, hFloor]

variable {x : ℕ → 𝕜}
variable (hMono : Monotone x)
include hMono

theorem floor_le_interpolate
    {position : 𝕜}
    (hPos : 0 ≤ position) :
    x ⌊position⌋₊ ≤ interpolate x position := by
  have hStep : 0 ≤ x (⌊position⌋₊ + 1) - x ⌊position⌋₊ :=
    sub_nonneg.mpr (hMono (Nat.le_succ _))
  have hRest : 0 ≤ position - ⌊position⌋₊ :=
    sub_nonneg.mpr (Nat.floor_le hPos)
  exact le_add_of_nonneg_right (mul_nonneg hRest hStep)

theorem interpolate_le_succ
    {position : 𝕜} :
    interpolate x position ≤ x (⌊position⌋₊ + 1) := by
  have hStep : 0 ≤ x (⌊position⌋₊ + 1) - x ⌊position⌋₊ :=
    sub_nonneg.mpr (hMono (Nat.le_succ _))
  have hRest : position - ⌊position⌋₊ ≤ 1 := by
    have hLt := Nat.lt_floor_add_one position
    linarith
  unfold interpolate
  have hPart := mul_le_mul_of_nonneg_right hRest hStep
  linarith

/- A later position of a rising sequence has a higher value. -/
theorem interpolate_mono
    {first second : 𝕜}
    (hPos : 0 ≤ first)
    (hLe : first ≤ second) :
    interpolate x first ≤ interpolate x second := by
  have hFloors : ⌊first⌋₊ ≤ ⌊second⌋₊ := Nat.floor_mono hLe
  rcases hFloors.eq_or_lt with hSame | hLater
  · have hStep : 0 ≤ x (⌊second⌋₊ + 1) - x ⌊second⌋₊ :=
      sub_nonneg.mpr (hMono (Nat.le_succ _))
    have hPart :=
      mul_le_mul_of_nonneg_right
        (sub_le_sub_right hLe (⌊second⌋₊ : 𝕜)) hStep
    simp only [interpolate, hSame]
    linarith
  · calc
      interpolate x first ≤ x (⌊first⌋₊ + 1) :=
        interpolate_le_succ hMono
      _ ≤ x ⌊second⌋₊ := hMono hLater
      _ ≤ interpolate x second :=
        floor_le_interpolate hMono (hPos.trans hLe)

end Interpolation

------------------------------------------------------------
-- Ranks
------------------------------------------------------------

section Ranks

variable [Zero 𝕜] [LinearOrder 𝕜]

/-
  The value of a sample at a rank, from the smallest. Ranks
  from the last on have the largest value.
-/
def ranked
    (l : List 𝕜)
    (rank : ℕ) : 𝕜 :=
  (l.insertionSort (· ≤ ·)).getD (min rank (l.length - 1)) 0

theorem ranked_monotone (l : List 𝕜) : Monotone (ranked l) := by
  intro i j hLe
  rcases Nat.eq_zero_or_pos l.length with hZero | hPos
  · rw [List.length_eq_zero_iff] at hZero
    simp [ranked, hZero]
  · have hLength := List.length_insertionSort (· ≤ ·) l
    have hFirst :
        min i (l.length - 1) <
          (l.insertionSort (· ≤ ·)).length := by
      rw [hLength]
      omega
    have hSecond :
        min j (l.length - 1) <
          (l.insertionSort (· ≤ ·)).length := by
      rw [hLength]
      omega
    have hSorted :=
      (List.pairwise_insertionSort (· ≤ ·) l).sortedLE
    rw [ranked, ranked, List.getD_eq_getElem _ _ hFirst,
      List.getD_eq_getElem _ _ hSecond]
    apply hSorted.getElem_le_getElem_of_le
    exact min_le_min_right _ hLe

/- Every rank of a sample is one of its values. -/
theorem ranked_mem
    {l : List 𝕜}
    (hSome : l ≠ [])
    (rank : ℕ) :
    ranked l rank ∈ l := by
  have hPos := List.length_pos_iff.mpr hSome
  have hBound :
      min rank (l.length - 1) <
        (l.insertionSort (· ≤ ·)).length := by
    rw [List.length_insertionSort]
    omega
  rw [ranked, List.getD_eq_getElem _ _ hBound]
  exact
    (List.mem_insertionSort (· ≤ ·)).mp
      (List.getElem_mem hBound)

/- The ranks depend on the values, not on their order. -/
theorem ranked_of_sorted
    {l sorted : List 𝕜}
    (hPerm : l.Perm sorted)
    (hSorted : sorted.Pairwise (· ≤ ·))
    (rank : ℕ) :
    ranked l rank =
      sorted.getD (min rank (sorted.length - 1)) 0 := by
  have hEq : l.insertionSort (· ≤ ·) = sorted :=
    ((List.perm_insertionSort (· ≤ ·) l).trans
      hPerm).eq_of_pairwise'
        (List.pairwise_insertionSort (· ≤ ·) l) hSorted
  rw [ranked, hEq, hPerm.length_eq]

/- Every value of a sample has a rank. -/
theorem exists_ranked
    {l : List 𝕜}
    {v : 𝕜}
    (hMem : v ∈ l) :
    ∃ rank < l.length, ranked l rank = v := by
  have hSorted :=
    (List.mem_insertionSort (· ≤ ·)).mpr hMem
  rcases List.getElem_of_mem hSorted with
    ⟨rank, hBound, hValue⟩
  have hRank : rank < l.length := by
    rw [List.length_insertionSort] at hBound
    exact hBound
  refine ⟨rank, hRank, ?_⟩
  rw [ranked, min_eq_left (by omega),
    List.getD_eq_getElem _ _ hBound, hValue]

end Ranks

------------------------------------------------------------
-- Statistics
------------------------------------------------------------

section Statistics

variable [Field 𝕜] [LinearOrder 𝕜]

def average (l : List 𝕜) : 𝕜 :=
  l.sum / l.length

def largest (l : List 𝕜) : 𝕜 :=
  l.max?.getD 0

/- No value of a sample is larger than the largest. -/
theorem le_largest
    {l : List 𝕜}
    {x : 𝕜}
    (hMem : x ∈ l) :
    x ≤ largest l := by
  unfold largest
  cases hMax : l.max? with
  | none =>
      rw [List.max?_eq_none_iff] at hMax
      rw [hMax] at hMem
      cases hMem
  | some last =>
      exact (List.max?_eq_some_iff.mp hMax).2 x hMem

theorem largest_mem
    {l : List 𝕜}
    (hSome : l ≠ []) :
    largest l ∈ l := by
  unfold largest
  cases hMax : l.max? with
  | none => exact absurd (List.max?_eq_none_iff.mp hMax) hSome
  | some last => exact (List.max?_eq_some_iff.mp hMax).1

/- A map that keeps the order keeps the largest value. -/
theorem largest_map
    {f : 𝕜 → 𝕜}
    (hMono : Monotone f)
    {l : List 𝕜}
    (hSome : l ≠ []) :
    largest (l.map f) = f (largest l) := by
  apply le_antisymm
  · have hMem : largest (l.map f) ∈ l.map f :=
      largest_mem (by simpa using hSome)
    rcases List.mem_map.mp hMem with ⟨x, hX, hSame⟩
    rw [← hSame]
    exact hMono (le_largest hX)
  · exact
      le_largest (List.mem_map_of_mem (largest_mem hSome))

/- The middle value, or the average of the middle two. -/
def median (l : List 𝕜) : 𝕜 :=
  if l.length % 2 = 1 then ranked l (l.length / 2)
  else
    (ranked l (l.length / 2 - 1) +
      ranked l (l.length / 2)) / 2

/- The middle of a sample does not depend on its order. -/
theorem median_perm
    {l l' : List 𝕜}
    (hPerm : l.Perm l') :
    median l = median l' := by
  have hRanked :
      ∀ rank, ranked l rank = ranked l' rank := by
    intro rank
    exact
      (ranked_of_sorted
        (hPerm.trans (List.perm_insertionSort (· ≤ ·) l').symm)
        (List.pairwise_insertionSort (· ≤ ·) l') rank).trans
        (by rw [ranked, List.length_insertionSort])
  simp only [median, hPerm.length_eq, hRanked]

variable [FloorSemiring 𝕜]

/- The value that a share of the sample lies below. -/
def quantile
    (share : 𝕜)
    (l : List 𝕜) : 𝕜 :=
  interpolate (ranked l) (share * (l.length - 1))

variable [IsStrictOrderedRing 𝕜]

/- The positions of shares of a sample are in order. -/
private theorem span_nonneg
    {l : List 𝕜}
    (hSome : l ≠ []) :
    (0 : 𝕜) ≤ l.length - 1 := by
  have hPos : 1 ≤ l.length := List.length_pos_iff.mpr hSome
  have hCast : (1 : 𝕜) ≤ l.length := by
    exact_mod_cast hPos
  linarith

theorem quantile_mono
    {l : List 𝕜}
    (hSome : l ≠ [])
    {first second : 𝕜}
    (hPos : 0 ≤ first)
    (hLe : first ≤ second) :
    quantile first l ≤ quantile second l := by
  have hSpan := span_nonneg hSome
  exact
    interpolate_mono (ranked_monotone l)
      (mul_nonneg hPos hSpan)
      (mul_le_mul_of_nonneg_right hLe hSpan)

theorem quantile_one
    {l : List 𝕜}
    (hSome : l ≠ []) :
    quantile 1 l = ranked l (l.length - 1) := by
  have hPos : 1 ≤ l.length := List.length_pos_iff.mpr hSome
  have hCast : (l.length : 𝕜) - 1 = (l.length - 1 : ℕ) := by
    rw [Nat.cast_sub hPos, Nat.cast_one]
  rw [quantile, one_mul, hCast, interpolate_natCast]

theorem quantile_zero
    (l : List 𝕜) :
    quantile 0 l = ranked l 0 := by
  have hPosition :
      (0 : 𝕜) * (l.length - 1) = ((0 : ℕ) : 𝕜) := by
    simp
  rw [quantile, hPosition, interpolate_natCast]

/- A quantile lies where all values lie. -/
theorem quantile_bounds
    {l : List 𝕜}
    (hSome : l ≠ [])
    {low high : 𝕜}
    (hBounds : ∀ x ∈ l, low ≤ x ∧ x ≤ high)
    {share : 𝕜}
    (hPos : 0 ≤ share) :
    low ≤ quantile share l ∧ quantile share l ≤ high := by
  constructor
  · have hFirst := hBounds _ (ranked_mem hSome 0)
    have hLe := quantile_mono hSome le_rfl hPos
    rw [quantile_zero] at hLe
    exact hFirst.1.trans hLe
  · have hNext :=
      hBounds _
        (ranked_mem hSome
          (⌊share * ((l.length : 𝕜) - 1)⌋₊ + 1))
    exact
      (interpolate_le_succ (ranked_monotone l)).trans hNext.2

/- The median is the quantile of one half. -/
theorem median_eq_quantile
    {l : List 𝕜}
    (hSome : l ≠ []) :
    median l = quantile (1 / 2) l := by
  have hPos : 1 ≤ l.length := List.length_pos_iff.mpr hSome
  rcases Nat.even_or_odd' l.length with ⟨half, hEven | hOdd⟩
  · -- Half way between the two ranks in the middle.
    have hHalf : 1 ≤ half := by omega
    have hFloor :
        ⌊(1 / 2 : 𝕜) * ((l.length : 𝕜) - 1)⌋₊ = half - 1 := by
      rw [Nat.floor_eq_iff (by
        have hSpan := span_nonneg hSome
        positivity)]
      rw [hEven, Nat.cast_sub hHalf]
      push_cast
      constructor
      · linarith
      · linarith
    have hRest :
        (1 / 2 : 𝕜) * ((l.length : 𝕜) - 1) -
          ((half - 1 : ℕ) : 𝕜) = 1 / 2 := by
      rw [hEven, Nat.cast_sub hHalf]
      push_cast
      ring
    have hNotOdd : ¬ l.length % 2 = 1 := by omega
    have hDiv : l.length / 2 = half := by omega
    rw [median, if_neg hNotOdd, hDiv, quantile, interpolate]
    simp only [hFloor, hRest, Nat.sub_add_cancel hHalf]
    ring
  · have hPosition :
        (1 / 2 : 𝕜) * ((l.length : 𝕜) - 1) =
          ((half : ℕ) : 𝕜) := by
      rw [hOdd]
      push_cast
      ring
    have hIsOdd : l.length % 2 = 1 := by omega
    have hDiv : l.length / 2 = half := by omega
    rw [median, if_pos hIsOdd, hDiv, quantile, hPosition,
      interpolate_natCast]

/- The maximum is the quantile of everything. -/
theorem largest_eq_quantile
    {l : List 𝕜}
    (hSome : l ≠ []) :
    largest l = quantile 1 l := by
  have hPos := List.length_pos_iff.mpr hSome
  have hMax : l.max? = some (ranked l (l.length - 1)) := by
    rw [List.max?_eq_some_iff]
    refine ⟨ranked_mem hSome _, ?_⟩
    intro v hMem
    rcases exists_ranked hMem with ⟨rank, hRank, rfl⟩
    exact ranked_monotone l (by omega)
  rw [quantile_one hSome, largest, hMax, Option.getD_some]

omit [FloorSemiring 𝕜] [IsStrictOrderedRing 𝕜] in
/- The values of a sample are the values of its ranks. -/
theorem sum_ranked (l : List 𝕜) :
    l.sum = ∑ rank ∈ Finset.range l.length, ranked l rank := by
  have hLength := List.length_insertionSort (· ≤ ·) l
  have hSorted :
      l.insertionSort (· ≤ ·) =
        (List.range l.length).map (ranked l) := by
    apply List.ext_getElem
    · simp
    · intro i hFirst hSecond
      have hRank : i < l.length := hLength ▸ hFirst
      rw [List.getElem_map, List.getElem_range, ranked,
        min_eq_left (by omega),
        List.getD_eq_getElem _ _ hFirst]
  have hSum :=
    (List.perm_insertionSort (· ≤ ·) l).sum_eq
  rw [← hSum, hSorted]
  rfl

/-
  The quantile of a share of at most one value lies below the
  average.
-/
theorem quantile_le_average
    {l : List 𝕜}
    (hSome : l ≠ [])
    {share : 𝕜}
    (hPos : 0 ≤ share)
    (hShare : l.length * share ≤ 1) :
    quantile share l ≤ average l := by
  have hLength : 1 ≤ l.length := List.length_pos_iff.mpr hSome
  rcases Nat.exists_eq_add_of_le' hLength with ⟨rest, hRest⟩
  have hCast : (l.length : 𝕜) = rest + 1 := by
    rw [hRest]
    push_cast
    ring
  have hCount : (0 : 𝕜) < rest + 1 := by positivity
  have hMono := ranked_monotone l
  -- The position lies before the second rank.
  have hPosition :
      share * ((l.length : 𝕜) - 1) ≤
        ((0 : ℕ) : 𝕜) + rest / (rest + 1) := by
    rw [hCast] at hShare ⊢
    rw [Nat.cast_zero, zero_add, le_div_iff₀ hCount]
    nlinarith [Nat.cast_nonneg (α := 𝕜) rest]
  have hBefore : (rest : 𝕜) / (rest + 1) < 1 := by
    rw [div_lt_one hCount]
    linarith
  have hQuantile :
      quantile share l ≤
        ranked l 0 +
          rest / (rest + 1) * (ranked l 1 - ranked l 0) := by
    refine
      (interpolate_mono hMono ?_ hPosition).trans
        (interpolate_add (ranked l) 0 (by positivity)
          hBefore).le
    exact mul_nonneg hPos (span_nonneg hSome)
  have hSum :
      ranked l 0 + rest * ranked l 1 ≤ l.sum := by
    rw [sum_ranked, hRest, Finset.sum_range_succ']
    have hLater :
        ∑ _i ∈ Finset.range rest, ranked l 1 ≤
          ∑ i ∈ Finset.range rest, ranked l (i + 1) :=
      Finset.sum_le_sum (fun i _ => hMono (by omega))
    rw [Finset.sum_const, Finset.card_range,
      nsmul_eq_mul] at hLater
    linarith
  rw [average, hCast, le_div_iff₀ hCount]
  have hScaled :=
    mul_le_mul_of_nonneg_right hQuantile hCount.le
  have hSplit :
      (ranked l 0 +
          rest / (rest + 1) * (ranked l 1 - ranked l 0)) *
        (rest + 1) =
      ranked l 0 + rest * ranked l 1 := by
    field_simp
    ring
  linarith

/-
  The quantile of all but a share of at most one value lies
  above the average.
-/
theorem average_le_quantile
    {l : List 𝕜}
    (hSome : l ≠ [])
    {share : 𝕜}
    (hShare : l.length * (1 - share) ≤ 1) :
    average l ≤ quantile share l := by
  have hLength : 1 ≤ l.length := List.length_pos_iff.mpr hSome
  have hMono := ranked_monotone l
  rcases Nat.exists_eq_add_of_le' hLength with ⟨rest, hRest⟩
  cases rest with
  | zero =>
      have hSum : l.sum = ranked l 0 := by
        rw [sum_ranked, hRest]
        simp
      rw [average, quantile, hSum, hRest]
      simp [interpolate]
  | succ rest =>
      have hCast : (l.length : 𝕜) = rest + 2 := by
        rw [hRest]
        push_cast
        ring
      have hCount : (0 : 𝕜) < rest + 2 := by positivity
      -- The position lies after the last rank but one.
      have hPosition :
          (rest : 𝕜) + 1 / (rest + 2) ≤
            share * ((l.length : 𝕜) - 1) := by
        rw [hCast] at hShare ⊢
        have hOne : (1 : 𝕜) / (rest + 2) * (rest + 2) = 1 :=
          div_mul_cancel₀ 1 hCount.ne'
        have hLow : 1 - 1 / (rest + 2 : 𝕜) ≤ share := by
          rw [sub_le_comm, le_div_iff₀ hCount]
          linarith
        have hSpan : (0 : 𝕜) ≤ rest + 2 - 1 := by
          have hNonneg := Nat.cast_nonneg (α := 𝕜) rest
          linarith
        have hScaled :=
          mul_le_mul_of_nonneg_right hLow hSpan
        nlinarith
      have hBefore : (1 : 𝕜) / (rest + 2) < 1 := by
        rw [div_lt_one hCount]
        have hNonneg := Nat.cast_nonneg (α := 𝕜) rest
        linarith
      have hQuantile :
          ranked l rest +
              1 / (rest + 2) *
                (ranked l (rest + 1) - ranked l rest) ≤
            quantile share l :=
        (interpolate_add (ranked l) rest (by positivity)
          hBefore).symm.le.trans
          (interpolate_mono hMono (by positivity) hPosition)
      have hSum :
          l.sum ≤
            (rest + 1) * ranked l rest +
              ranked l (rest + 1) := by
        rw [sum_ranked, hRest, Finset.sum_range_succ]
        have hEarlier :
            ∑ i ∈ Finset.range (rest + 1), ranked l i ≤
              ∑ _i ∈ Finset.range (rest + 1),
                ranked l rest :=
          Finset.sum_le_sum
            (fun i hMem => hMono (by
              rw [Finset.mem_range] at hMem
              omega))
        rw [Finset.sum_const, Finset.card_range,
          nsmul_eq_mul] at hEarlier
        push_cast at hEarlier
        linarith
      rw [average, hCast, div_le_iff₀ hCount]
      have hScaled :=
        mul_le_mul_of_nonneg_right hQuantile hCount.le
      have hSplit :
          (ranked l rest +
              1 / (rest + 2) *
                (ranked l (rest + 1) - ranked l rest)) *
            (rest + 2) =
          (rest + 1) * ranked l rest +
            ranked l (rest + 1) := by
        field_simp
        ring
      linarith

/- The average lies where all values lie. -/
theorem average_bounds
    {l : List 𝕜}
    (hSome : l ≠ [])
    {low high : 𝕜}
    (hBounds : ∀ x ∈ l, low ≤ x ∧ x ≤ high) :
    low ≤ average l ∧ average l ≤ high := by
  have hFirst : quantile 0 l ≤ average l :=
    quantile_le_average hSome le_rfl (by simp)
  have hLast : average l ≤ quantile 1 l :=
    average_le_quantile hSome (by simp)
  exact
    ⟨(quantile_bounds hSome hBounds le_rfl).1.trans hFirst,
      hLast.trans
        (quantile_bounds hSome hBounds zero_le_one).2⟩

/- All quantiles of one value are that value. -/
theorem quantile_of_length_one
    {l : List 𝕜}
    (hOne : l.length = 1)
    (share : 𝕜) :
    quantile share l = average l := by
  rw [average, sum_ranked, quantile, hOne]
  simp [interpolate]

/- Half way between two values is their average. -/
theorem quantile_half_of_length_two
    {l : List 𝕜}
    (hTwo : l.length = 2) :
    quantile (1 / 2) l = average l := by
  have hSome : l ≠ [] := by
    rw [← List.length_pos_iff]
    omega
  rw [← median_eq_quantile hSome, median, average,
    sum_ranked, hTwo]
  simp [Finset.sum_range_succ]

omit [LinearOrder 𝕜] [FloorSemiring 𝕜]
  [IsStrictOrderedRing 𝕜] in
/- Averages may be taken by rows or by columns first. -/
theorem average_swap
    {rows columns : ℕ}
    (x : Fin rows → Fin columns → 𝕜) :
    average
        (List.ofFn (fun i => average (List.ofFn (x i)))) =
      average
        (List.ofFn (fun j =>
          average (List.ofFn (fun i => x i j)))) := by
  simp only [average, List.sum_ofFn, List.length_ofFn]
  rw [← Finset.sum_div, ← Finset.sum_div,
    Finset.sum_comm, div_right_comm]

------------------------------------------------------------
-- Samples of a known shape
------------------------------------------------------------

omit [Field 𝕜] [LinearOrder 𝕜] [FloorSemiring 𝕜]
  [IsStrictOrderedRing 𝕜] in
/- A sample in which one value differs from the others. -/
theorem ofFn_update_perm
    {count : ℕ}
    (i : Fin (count + 1))
    (u v : 𝕜) :
    (List.ofFn (Function.update (fun _ => v) i u)).Perm
      (u :: List.replicate count v) := by
  let x := Function.update (fun _ => v) i u
  have hRest :
      (Finset.univ.erase i).val.map x =
        Multiset.replicate count v := by
    have hSame :
        (Finset.univ.erase i).val.map x =
          (Finset.univ.erase i).val.map (fun _ => v) := by
      apply Multiset.map_congr rfl
      intro j hMem
      have hNe : j ≠ i :=
        Finset.ne_of_mem_erase (Finset.mem_def.mpr hMem)
      exact Function.update_of_ne hNe _ _
    rw [hSame, Multiset.map_const']
    simp
  rw [← Multiset.coe_eq_coe, ← Fin.univ_val_map]
  have hInsert := Finset.insert_erase (Finset.mem_univ i)
  rw [← hInsert, Finset.insert_val_of_notMem
    (Finset.notMem_erase i _), Multiset.map_cons]
  change x i ::ₘ (Finset.univ.erase i).val.map x = _
  rw [hRest, ← Multiset.cons_coe, Multiset.coe_replicate]
  simp [x]

omit [FloorSemiring 𝕜] in
/- The average of such a sample. -/
theorem average_outlier
    {l : List 𝕜}
    {u v : 𝕜}
    {count : ℕ}
    (hPerm : l.Perm (u :: List.replicate count v)) :
    average l =
      u + count / (count + 1) * (v - u) := by
  have hCount : (0 : 𝕜) < count + 1 := by positivity
  rw [average, hPerm.sum_eq, hPerm.length_eq]
  simp only [List.sum_cons, List.sum_replicate,
    List.length_cons, List.length_replicate, nsmul_eq_mul]
  push_cast
  field_simp
  ring

/- The quantiles of an evenly spaced sample are affine. -/
theorem quantile_evenlySpaced
    {first step : 𝕜}
    (hStep : 0 ≤ step)
    (count : ℕ)
    {share : 𝕜}
    (hPos : 0 ≤ share)
    (hLe : share ≤ 1) :
    quantile share
        ((List.range (count + 1)).map
          (fun (i : ℕ) => first + step * i)) =
      first + step * (share * count) := by
  let x : ℕ → 𝕜 := fun i => first + step * i
  have hMono : Monotone x := by
    intro i j hLe
    have hCast : (i : 𝕜) ≤ j := by exact_mod_cast hLe
    have hScaled := mul_le_mul_of_nonneg_left hCast hStep
    simp only [x]
    linarith
  have hRanked (i : ℕ) (hBound : i ≤ count) :
      ranked ((List.range (count + 1)).map x) i = x i := by
    rw [ranked_of_sorted (List.Perm.refl _)
      (List.pairwise_le_range.map x
        (fun _ _ hLe => hMono hLe))]
    have hMin :
        min i (((List.range (count + 1)).map x).length - 1) =
          i := by
      simpa using hBound
    rw [hMin]
    simp [Nat.lt_succ_of_le hBound]
  have hPosition : 0 ≤ share * (count : 𝕜) := by positivity
  have hEnd : share * (count : 𝕜) ≤ count :=
    mul_le_of_le_one_left (Nat.cast_nonneg count) hLe
  have hFloor : ⌊share * (count : 𝕜)⌋₊ ≤ count :=
    Nat.floor_le_of_le hEnd
  have hSpan :
      share *
          ((((List.range (count + 1)).map x).length : 𝕜) -
            1) =
        share * count := by
    simp
  change
    quantile share ((List.range (count + 1)).map x) = _
  rw [quantile, hSpan]
  apply interpolate_of_affine
  · exact hRanked _ hFloor
  · rcases hFloor.eq_or_lt with hLast | hBefore
    · right
      have hFloorLe := Nat.floor_le hPosition
      rw [hLast] at hFloorLe ⊢
      exact le_antisymm hEnd hFloorLe
    · left
      rw [hRanked _ hBefore]
      simp only [x, Nat.succ_eq_add_one]
      push_cast
      rfl

/- All but the smallest value of a sample are the same. -/
theorem quantile_outlierBelow
    {l : List 𝕜}
    {low high : 𝕜}
    (hLe : low ≤ high)
    {count : ℕ}
    (hPerm : l.Perm (low :: List.replicate count high))
    {share : 𝕜}
    (hPos : 0 ≤ share) :
    quantile share l =
      low + min 1 (share * count) * (high - low) := by
  have hSorted :
      (low :: List.replicate count high).Pairwise
        (· ≤ ·) := by
    rw [List.pairwise_cons]
    refine ⟨?_, List.pairwise_replicate.mpr (Or.inr le_rfl)⟩
    intro v hMem
    rw [List.eq_of_mem_replicate hMem]
    exact hLe
  have hFirst : ranked l 0 = low := by
    rw [ranked_of_sorted hPerm hSorted]
    simp
  have hLater (rank : ℕ) (hRank : 1 ≤ rank) (hSome : 1 ≤ count) :
      ranked l rank = high := by
    rw [ranked_of_sorted hPerm hSorted]
    rcases Nat.exists_eq_add_of_le'
        (show 1 ≤ min rank count by omega) with ⟨i, hIndex⟩
    have hBound : i < count := by omega
    simp [hIndex, hBound]
  have hSpan : share * ((l.length : 𝕜) - 1) = share * count := by
    rw [hPerm.length_eq]
    simp
  have hPosition : 0 ≤ share * (count : 𝕜) := by positivity
  rw [quantile, hSpan]
  rcases lt_or_ge (share * (count : 𝕜)) 1 with
    hBefore | hAfter
  · rw [min_eq_right hBefore.le]
    rcases Nat.eq_zero_or_pos count with rfl | hSome
    · simp [interpolate, hFirst]
    · have hShape :=
        interpolate_add (ranked l) 0 hPosition hBefore
      rw [Nat.cast_zero, zero_add] at hShape
      rw [hShape, hFirst, hLater _ le_rfl hSome]
  · have hSome : 1 ≤ count := by
      by_contra hNone
      have hZero : count = 0 := by omega
      rw [hZero, Nat.cast_zero, mul_zero] at hAfter
      linarith
    have hFloor : 1 ≤ ⌊share * (count : 𝕜)⌋₊ :=
      Nat.one_le_floor_iff _ |>.mpr hAfter
    rw [min_eq_left hAfter, interpolate,
      hLater _ hFloor hSome,
      hLater _ (Nat.le_succ_of_le hFloor) hSome]
    ring

/- All but the largest value of a sample are the same. -/
theorem quantile_outlierAbove
    {l : List 𝕜}
    {low high : 𝕜}
    (hLe : low ≤ high)
    {count : ℕ}
    (hPerm : l.Perm (high :: List.replicate count low))
    {share : 𝕜}
    (hPos : 0 ≤ share)
    (hShare : share ≤ 1) :
    quantile share l =
      high - min 1 ((1 - share) * count) * (high - low) := by
  have hSorted :
      (List.replicate count low ++ [high]).Pairwise
        (· ≤ ·) := by
    rw [List.pairwise_append]
    refine
      ⟨List.pairwise_replicate.mpr (Or.inr le_rfl),
        List.pairwise_singleton _ _, ?_⟩
    intro v hMem u hLast
    rw [List.eq_of_mem_replicate hMem,
      List.mem_singleton.mp hLast]
    exact hLe
  have hMoved :
      l.Perm (List.replicate count low ++ [high]) :=
    hPerm.trans
      (List.perm_append_singleton high _).symm
  have hEarlier (rank : ℕ) (hRank : rank < count) :
      ranked l rank = low := by
    have hMin : min rank count = rank := by omega
    rw [ranked_of_sorted hMoved hSorted]
    simp [hMin, hRank, List.getElem?_append]
  have hLast (rank : ℕ) (hRank : count ≤ rank) :
      ranked l rank = high := by
    have hMin : min rank count = count := by omega
    rw [ranked_of_sorted hMoved hSorted]
    simp [hMin]
  have hSpan : share * ((l.length : 𝕜) - 1) = share * count := by
    rw [hPerm.length_eq]
    simp
  have hPosition : 0 ≤ share * (count : 𝕜) := by positivity
  have hEnd : share * (count : 𝕜) ≤ count :=
    mul_le_of_le_one_left (Nat.cast_nonneg count) hShare
  have hFloorLe := Nat.floor_le hPosition
  have hFloorLt := Nat.lt_floor_add_one (share * (count : 𝕜))
  have hFloor : ⌊share * (count : 𝕜)⌋₊ ≤ count :=
    Nat.floor_le_of_le hEnd
  rw [quantile, hSpan, interpolate]
  rcases hFloor.eq_or_lt with hTop | hBelow
  · -- The whole sample lies below the last rank.
    rw [hTop] at hFloorLe ⊢
    have hWhole : share * (count : 𝕜) = count :=
      le_antisymm hEnd hFloorLe
    have hRest : (1 - share) * (count : 𝕜) = 0 := by
      rw [sub_mul, one_mul, hWhole, sub_self]
    rw [hRest, min_eq_right zero_le_one, hWhole,
      hLast _ le_rfl]
    ring
  · rw [hEarlier _ hBelow]
    rcases Nat.lt_or_ge (⌊share * (count : 𝕜)⌋₊ + 1) count with
      hInner | hOuter
    · have hCast :
          ((⌊share * (count : 𝕜)⌋₊ + 1 + 1 : ℕ) : 𝕜) ≤
            count := by
        exact_mod_cast hInner
      push_cast at hCast
      rw [hEarlier _ hInner, min_eq_left (by linarith)]
      ring
    · have hSame : ⌊share * (count : 𝕜)⌋₊ + 1 = count := by
        omega
      have hCast :
          ((⌊share * (count : 𝕜)⌋₊ : ℕ) : 𝕜) =
            count - 1 := by
        apply eq_sub_of_add_eq
        exact_mod_cast hSame
      rw [hLast _ hOuter, min_eq_right (by linarith), hCast]
      ring

end Statistics
