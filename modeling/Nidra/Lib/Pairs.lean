import Mathlib
import Nidra.Lib.Numerals

/-
  This file counts the related pairs among the elements of a
  list, each element with the ones after it. For a symmetric
  relation the order of the list makes no difference: the
  count is half that of the ordered pairs of a finite set.

  Key definitions include:
    * `pairsAfter`
    * `relatedPairs`, `pairDensity`

  Main declarations:
    * `two_mul_pairsAfter`
    * `pairsAfter_density`
-/

section Pairs

variable {α : Type}
variable (R : α → α → Bool)

/- Each element with the related ones after it. -/
def pairsAfter : List α → ℕ
  | [] => 0
  | a :: rest =>
      (rest.filter (fun b => R a b)).length + pairsAfter rest

variable [DecidableEq α]

/- The ordered pairs of related elements of a set. -/
def relatedPairs (s : Finset α) : ℕ :=
  (s.offDiag.filter (fun p => R p.1 p.2)).card

/- The part of all ordered pairs that are related. -/
def pairDensity
    {𝕜 : Type}
    [Field 𝕜]
    (s : Finset α) : 𝕜 :=
  (relatedPairs R s : 𝕜) / ((s.card : 𝕜) * ((s.card : 𝕜) - 1))

variable {R}

/- A new element is paired with the others both ways. -/
theorem relatedPairs_insert
    (hSymm : ∀ a b, R a b = R b a)
    {a : α}
    {s : Finset α}
    (hNotMem : a ∉ s) :
    relatedPairs R (insert a s) =
      relatedPairs R s +
        2 * (s.filter (fun b => R a b)).card := by
  have hRow : Disjoint s.offDiag ({a} ×ˢ s) := by
    rw [Finset.disjoint_left]
    intro p hOld hNew
    rw [Finset.mem_product, Finset.mem_singleton] at hNew
    exact hNotMem (hNew.1 ▸ (Finset.mem_offDiag.mp hOld).1)
  have hColumn :
      Disjoint (s.offDiag ∪ {a} ×ˢ s) (s ×ˢ {a}) := by
    rw [Finset.disjoint_left]
    intro p hOld hNew
    rw [Finset.mem_product, Finset.mem_singleton] at hNew
    rcases Finset.mem_union.mp hOld with hOff | hIn
    · exact hNotMem
        (hNew.2 ▸ (Finset.mem_offDiag.mp hOff).2.1)
    · exact hNotMem (hNew.2 ▸ (Finset.mem_product.mp hIn).2)
  unfold relatedPairs
  rw [Finset.card_filter, Finset.offDiag_insert hNotMem,
    Finset.sum_union hColumn, Finset.sum_union hRow,
    Finset.sum_product, Finset.sum_product,
    Finset.sum_singleton, Finset.card_filter,
    Finset.card_filter]
  simp only [Finset.sum_singleton, hSymm _ a]
  ring

/- Counting in a list finds each pair in one direction. -/
theorem two_mul_pairsAfter
    (hSymm : ∀ a b, R a b = R b a)
    {l : List α}
    (hNodup : l.Nodup) :
    2 * pairsAfter R l = relatedPairs R l.toFinset := by
  induction l with
  | nil => rfl
  | cons a rest ih =>
      rcases List.nodup_cons.mp hNodup with ⟨hA, hRest⟩
      have hNotMem : a ∉ rest.toFinset := by
        rwa [List.mem_toFinset]
      have hCard :
          (rest.toFinset.filter (fun b => R a b)).card =
            (rest.filter (fun b => R a b)).length := by
        rw [← List.toFinset_filter,
          List.toFinset_card_of_nodup (hRest.filter _)]
      rw [pairsAfter, Nat.mul_add, ih hRest,
        List.toFinset_cons, relatedPairs_insert hSymm hNotMem,
        hCard]
      ring

/-
  The count over the number of pairs is the density, whatever
  the order in which a set is listed.
-/
theorem pairsAfter_density
    {𝕜 : Type}
    [Field 𝕜]
    [LinearOrder 𝕜]
    [IsStrictOrderedRing 𝕜]
    (hSymm : ∀ a b, R a b = R b a)
    {l : List α}
    (hNodup : l.Nodup) :
    (if l.length < 2 then 0
      else
        (pairsAfter R l : 𝕜) /
          ((l.length : 𝕜) * ((l.length : 𝕜) - 1) / 2)) =
      pairDensity R l.toFinset := by
  unfold pairDensity
  rw [← two_mul_pairsAfter hSymm hNodup,
    List.toFinset_card_of_nodup hNodup]
  split
  · next hShort =>
      interval_cases hLength : l.length
      · simp
      · simp
  · push_cast
    rw [div_div_eq_mul_div, mul_comm]

end Pairs
