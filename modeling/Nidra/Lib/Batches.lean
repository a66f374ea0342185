import Nidra.Lib.Quantiles

/-
  This file cuts a list into batches of one size, of which the
  last may be smaller, and states that the batches make up the
  list, and that the mean of the list is that of the means of
  its parts when each counts by its length.

  Main declarations:
    * `batches`
    * `flatten_batches`
    * `average_flatten`
-/

section Batches

variable {α : Type}

/- The batches that begin at the multiples of a size. -/
def batches
    (size : ℕ)
    (l : List α) : List (List α) :=
  (List.range ((l.length + size - 1) / size)).map
    (fun batch => (l.drop (batch * size)).take size)

/- The first batches are what the list begins with. -/
theorem flatten_range_take
    (size : ℕ)
    (l : List α)
    (n : ℕ) :
    ((List.range n).map
        (fun batch =>
          (l.drop (batch * size)).take size)).flatten =
      l.take (n * size) := by
  induction n with
  | zero => simp
  | succ n ih =>
      rw [List.range_succ, List.map_append,
        List.flatten_append, ih, Nat.succ_mul, List.take_add]
      simp

theorem flatten_batches
    {size : ℕ}
    (hSize : 0 < size)
    (l : List α) :
    (batches size l).flatten = l := by
  unfold batches
  rw [flatten_range_take, List.take_of_length_le]
  have hDiv :=
    Nat.lt_div_mul_add hSize
      (a := l.length + size - 1)
  omega

section Means

variable {𝕜 : Type}
variable [Field 𝕜] [LinearOrder 𝕜] [IsStrictOrderedRing 𝕜]

theorem average_mul_length (l : List 𝕜) :
    average l * (l.length : 𝕜) = l.sum := by
  unfold average
  rcases eq_or_ne l [] with rfl | hMore
  · simp
  · have hLength : (l.length : 𝕜) ≠ 0 :=
      Nat.cast_ne_zero.mpr
        (List.length_pos_iff.mpr hMore).ne'
    exact div_mul_cancel₀ l.sum hLength

/- Parts that count by their lengths have the mean of all. -/
theorem average_flatten (parts : List (List 𝕜)) :
    (parts.map
          (fun l => average l * (l.length : 𝕜))).sum /
        (((parts.map List.length).sum : ℕ) : 𝕜) =
      average parts.flatten := by
  have hSums :
      parts.map (fun l => average l * (l.length : 𝕜)) =
        parts.map List.sum :=
    List.map_congr_left (fun l _ => average_mul_length l)
  rw [hSums, ← List.sum_flatten, ← List.length_flatten]
  rfl

end Means

end Batches
