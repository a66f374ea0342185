import Nidra.Lib.Groups
import Nidra.Lib.Quantiles

/-
  This file defines the differences between the neighbours
  of a list, and states how they relate to what the list
  spans.

  Key definitions include:
    * `gaps`
    * `spread`

  Main declarations:
    * `sum_gaps_sort`
    * `average_gaps_sort`
    * `largest_gaps_sort_le`
-/

section Gaps

variable {𝕜 : Type}
variable [Field 𝕜] [LinearOrder 𝕜]

/- From each value of a list to the next. -/
def gaps (values : List 𝕜) : List 𝕜 :=
  List.zipWith (fun a b => b - a) values values.tail

/- From the least value of a list to the greatest. -/
def spread (values : List 𝕜) : 𝕜 :=
  values.max?.getD 0 - values.min?.getD 0

omit [LinearOrder 𝕜] in
@[simp] theorem length_gaps (values : List 𝕜) :
    (gaps values).length = values.length - 1 := by
  simp [gaps]

omit [LinearOrder 𝕜] in
theorem gaps_cons_cons
    (a b : 𝕜)
    (rest : List 𝕜) :
    gaps (a :: b :: rest) = (b - a) :: gaps (b :: rest) := rfl

omit [LinearOrder 𝕜] in
/- The gaps add up to the way from the first to the last. -/
theorem sum_gaps
    (a : 𝕜)
    (rest : List 𝕜) :
    (gaps (a :: rest)).sum = rest.getLastD a - a := by
  induction rest generalizing a with
  | nil => simp [gaps]
  | cons b rest ih =>
      rw [gaps_cons_cons, List.sum_cons, ih,
        List.getLastD_cons]
      ring

set_option linter.unusedSectionVars false

variable [IsStrictOrderedRing 𝕜]

/- In a sorted list no gap is negative. -/
theorem gaps_nonneg
    {values : List 𝕜}
    (hSorted : values.Pairwise (fun a b => a ≤ b)) :
    ∀ gap ∈ gaps values, 0 ≤ gap := by
  induction values with
  | nil =>
      intro gap hMem
      simp [gaps] at hMem
  | cons a rest ih =>
      cases rest with
      | nil =>
          intro gap hMem
          simp [gaps] at hMem
      | cons b rest =>
          intro gap hMem
          rw [gaps_cons_cons, List.mem_cons] at hMem
          rcases hMem with rfl | hMem
          · rw [sub_nonneg]
            exact
              List.rel_of_pairwise_cons hSorted
                List.mem_cons_self
          · exact ih hSorted.of_cons gap hMem

/- The least and the greatest value of a sorted list. -/
theorem spread_of_sorted
    {a : 𝕜}
    {rest : List 𝕜}
    (hSorted : (a :: rest).Pairwise (fun a b => a ≤ b)) :
    spread (a :: rest) = rest.getLastD a - a := by
  have hMin : (a :: rest).min? = some a := by
    rw [List.min?_eq_some_iff]
    refine ⟨List.mem_cons_self, ?_⟩
    intro b hMem
    rcases List.mem_cons.mp hMem with rfl | hRest
    · exact le_refl _
    · exact List.rel_of_pairwise_cons hSorted hRest
  have hMax : (a :: rest).max? = some (rest.getLastD a) := by
    rw [List.max?_eq_some_iff]
    have hLast :
        rest.getLastD a =
          (a :: rest).getLast (List.cons_ne_nil a rest) := by
      rw [List.getLast_eq_getLastD]
    rw [hLast]
    refine ⟨List.getLast_mem _, ?_⟩
    intro b hMem
    rw [← List.dropLast_append_getLast
      (List.cons_ne_nil a rest)] at hSorted hMem
    rw [List.pairwise_append] at hSorted
    rcases List.mem_append.mp hMem with hInit | hEnd
    · exact hSorted.2.2 b hInit _ (List.mem_singleton.mpr rfl)
    · exact (List.mem_singleton.mp hEnd).le
  rw [spread, hMin, hMax]
  rfl

theorem spread_perm
    {l l' : List 𝕜}
    (hPerm : l.Perm l') :
    spread l = spread l' := by
  have hMin : l.min? = l'.min? := by
    cases hLeast : l.min? with
    | none =>
        rw [List.min?_eq_none_iff] at hLeast
        rw [hLeast, List.nil_perm] at hPerm
        rw [hPerm]
        rfl
    | some m =>
        rw [List.min?_eq_some_iff] at hLeast
        symm
        rw [List.min?_eq_some_iff]
        refine ⟨hPerm.mem_iff.mp hLeast.1, ?_⟩
        intro b hMem
        exact hLeast.2 b (hPerm.mem_iff.mpr hMem)
  have hMax : l.max? = l'.max? := by
    cases hMost : l.max? with
    | none =>
        rw [List.max?_eq_none_iff] at hMost
        rw [hMost, List.nil_perm] at hPerm
        rw [hPerm]
        rfl
    | some m =>
        rw [List.max?_eq_some_iff] at hMost
        symm
        rw [List.max?_eq_some_iff]
        refine ⟨hPerm.mem_iff.mp hMost.1, ?_⟩
        intro b hMem
        exact hMost.2 b (hPerm.mem_iff.mpr hMem)
  rw [spread, spread, hMin, hMax]

/- The gaps between sorted values add up to their spread. -/
theorem sum_gaps_sort (values : List 𝕜) :
    (gaps (sortByKey (fun v => v) values)).sum =
      spread values := by
  have hSorted := sortByKey_pairwise (fun v : 𝕜 => v) values
  rw [← spread_perm (sortByKey_perm (fun v => v) values)]
  generalize sortByKey (fun v : 𝕜 => v) values = l at hSorted ⊢
  cases l with
  | nil => simp [gaps, spread]
  | cons a rest => rw [sum_gaps, spread_of_sorted hSorted]

/- Their average, taken as often as there are gaps. -/
theorem average_gaps_sort
    {values : List 𝕜}
    (hTwo : 2 ≤ values.length) :
    average (gaps (sortByKey (fun v => v) values)) *
        (values.length - 1 : ℕ) =
      spread values := by
  have hLength :
      (gaps (sortByKey (fun v : 𝕜 => v) values)).length =
        values.length - 1 := by
    rw [length_gaps, (sortByKey_perm _ values).length_eq]
  have hPos : ((values.length - 1 : ℕ) : 𝕜) ≠ 0 := by
    have hNat : values.length - 1 ≠ 0 := by omega
    exact_mod_cast hNat
  rw [average, hLength, div_mul_cancel₀ _ hPos,
    sum_gaps_sort]

/- No gap is longer than the spread. -/
theorem largest_gaps_sort_le (values : List 𝕜) :
    largest (gaps (sortByKey (fun v => v) values)) ≤
      spread values := by
  have hNonneg :=
    gaps_nonneg (sortByKey_pairwise (fun v : 𝕜 => v) values)
  rw [← sum_gaps_sort]
  generalize gaps (sortByKey (fun v : 𝕜 => v) values) = l
    at hNonneg ⊢
  unfold largest
  cases hMax : l.max? with
  | none =>
      rw [List.max?_eq_none_iff] at hMax
      rw [hMax]
      exact le_refl _
  | some gap =>
      exact
        List.single_le_sum hNonneg gap (List.max?_mem hMax)

/- The average gap is at most the largest one. -/
theorem average_le_largest
    [FloorSemiring 𝕜]
    {values : List 𝕜}
    (hSome : values ≠ []) :
    average values ≤ largest values := by
  rw [largest_eq_quantile hSome]
  exact average_le_quantile hSome (by simp)

end Gaps
