import Mathlib
import Nidra.Lib.Numerals

/-
  This file defines the greedy choice from a list: an element
  is kept unless it conflicts with one that was kept before.
  What is kept has no conflicts, and what is dropped conflicts
  with something earlier that is kept to the end.

  Key definitions include:
    * `greedyFrom`

  Main declarations:
    * `greedyFrom_pairwise`
    * `exists_conflict_of_dropped`
-/

section Greedy

variable {α : Type}
variable (conflict : α → α → Bool)

/- Go on with a list, given what has been kept so far. -/
def greedyFrom : List α → List α → List α
  | kept, [] => kept
  | kept, a :: rest =>
      if kept.any (fun b => conflict a b) then
        greedyFrom kept rest
      else greedyFrom (kept ++ [a]) rest

variable {conflict}

/- What is kept stays kept. -/
theorem mem_greedyFrom_of_kept
    {kept rest : List α}
    {b : α}
    (hB : b ∈ kept) :
    b ∈ greedyFrom conflict kept rest := by
  induction rest generalizing kept with
  | nil => exact hB
  | cons a rest ih =>
      rw [greedyFrom]
      split
      · exact ih hB
      · exact ih (List.mem_append_left _ hB)

/- No two of what is kept are in conflict. -/
theorem greedyFrom_pairwise
    {kept rest : List α}
    (hKept :
      kept.Pairwise (fun b a => conflict a b = false)) :
    (greedyFrom conflict kept rest).Pairwise
      (fun b a => conflict a b = false) := by
  induction rest generalizing kept with
  | nil => exact hKept
  | cons a rest ih =>
      rw [greedyFrom]
      split
      · exact ih hKept
      · next hNone =>
          apply ih
          refine List.pairwise_append.mpr
            ⟨hKept, List.pairwise_singleton _ _, ?_⟩
          intro b hB c hC
          rw [List.mem_singleton.mp hC]
          rw [Bool.not_eq_true, List.any_eq_false] at hNone
          simpa using hNone b hB

/- What is dropped conflicts with something kept before it. -/
theorem exists_conflict_of_dropped
    {kept before after : List α}
    {a : α}
    (hDropped :
      a ∉ greedyFrom conflict kept (before ++ a :: after)) :
    ∃ b ∈ kept ++ before,
      b ∈ greedyFrom conflict kept (before ++ a :: after) ∧
        conflict a b = true := by
  induction before generalizing kept with
  | nil =>
      rw [List.nil_append, greedyFrom] at hDropped ⊢
      split at hDropped
      · next hSome =>
          rw [if_pos hSome]
          rcases List.any_eq_true.mp hSome with
            ⟨b, hB, hConflict⟩
          exact ⟨b, by simpa using hB,
            mem_greedyFrom_of_kept hB, hConflict⟩
      · exact absurd (mem_greedyFrom_of_kept (by simp))
          hDropped
  | cons c before ih =>
      rw [List.cons_append, greedyFrom] at hDropped ⊢
      split at hDropped
      · next hSome =>
          rw [if_pos hSome]
          rcases ih hDropped with ⟨b, hB, hRest⟩
          refine ⟨b, ?_, hRest⟩
          rcases List.mem_append.mp hB with hOld | hNew
          · exact List.mem_append_left _ hOld
          · exact List.mem_append_right _
              (List.mem_cons_of_mem _ hNew)
      · next hNone =>
          rw [if_neg hNone]
          rcases ih hDropped with ⟨b, hB, hRest⟩
          refine ⟨b, ?_, hRest⟩
          rwa [List.append_assoc, List.singleton_append] at hB

end Greedy
