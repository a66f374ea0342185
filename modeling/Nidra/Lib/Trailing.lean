import Nidra.Lib.History

/-
  This file defines how many elements at the end of a list
  have a property, and the first element that ends so many.

  Key definitions include:
    * `List.trailing`
    * `List.EndsRun`, `List.FirstEnds`

  Main declarations:
    * `List.trailing_concat`
    * `List.le_trailing_iff`
    * `List.FirstEnds.concat`
-/

namespace List

variable {α : Type}

------------------------------------------------------------
-- Counting from the end
------------------------------------------------------------

/- How many elements at the end have a property. -/
def trailing
    (p : α → Bool)
    (l : List α) : ℕ :=
  (l.reverse.takeWhile p).length

/- The last `m` elements are there and have a property. -/
def EndsRun
    (p : α → Bool)
    (m : ℕ)
    (l : List α) : Prop :=
  ∃ before run,
    l = before ++ run ∧ run.length = m ∧
      ∀ x ∈ run, p x = true

@[simp] theorem trailing_concat
    (p : α → Bool)
    (l : List α)
    (x : α) :
    trailing p (l ++ [x]) =
      if p x then trailing p l + 1 else 0 := by
  unfold trailing
  rw [List.reverse_concat, List.takeWhile_cons]
  split_ifs with hHas
  · rfl
  · rfl

/- A list ends so many if and only if it ends at least them. -/
theorem le_trailing_iff
    {p : α → Bool}
    {m : ℕ}
    {l : List α} :
    m ≤ trailing p l ↔ EndsRun p m l := by
  induction l using List.reverseRecOn generalizing m with
  | nil =>
      constructor
      · intro hLe
        exact ⟨[], [], rfl, (Nat.le_zero.mp hLe).symm, by simp⟩
      · rintro ⟨before, run, hSplit, hLength, _⟩
        have hEmpty := (List.append_eq_nil_iff.mp hSplit.symm).2
        rw [hEmpty] at hLength
        rw [← hLength]
        exact Nat.zero_le _
  | append_singleton l x ih =>
      cases m with
      | zero =>
          have hTrivial : EndsRun p 0 (l ++ [x]) :=
            ⟨l ++ [x], [], by simp, rfl, by simp⟩
          exact iff_of_true (Nat.zero_le _) hTrivial
      | succ m =>
          rw [trailing_concat]
          constructor
          · intro hLe
            have hHas : p x = true := by
              by_contra hNot
              rw [if_neg hNot] at hLe
              omega
            rw [if_pos hHas] at hLe
            rcases ih.mp (Nat.le_of_succ_le_succ hLe) with
              ⟨before, run, rfl, hLength, hRun⟩
            refine ⟨before, run ++ [x], by simp, by simp [hLength],
              ?_⟩
            intro y hMem
            rcases List.mem_append.mp hMem with hOld | hLast
            · exact hRun y hOld
            · rw [List.mem_singleton.mp hLast]
              exact hHas
          · rintro ⟨before, run, hSplit, hLength, hRun⟩
            rcases List.eq_nil_or_concat run with
              rfl | ⟨run, y, rfl⟩
            · cases hLength
            · rw [List.concat_eq_append] at *
              rw [← List.append_assoc] at hSplit
              rcases List.append_inj' hSplit rfl with
                ⟨rfl, hLast⟩
              cases hLast
              have hHas : p x = true := hRun x (by simp)
              rw [if_pos hHas]
              apply Nat.succ_le_succ
              apply ih.mpr
              refine ⟨before, run, rfl, ?_, ?_⟩
              · rw [List.length_append] at hLength
                exact Nat.succ_injective hLength
              · intro z hMem
                exact hRun z (List.mem_append_left _ hMem)

------------------------------------------------------------
-- The first to end a run
------------------------------------------------------------

/- An element is the first to end `m` with a property. -/
def FirstEnds
    (p : α → Bool)
    (m : ℕ)
    (l : List α)
    (x : α) : Prop :=
  ∃ before after,
    l = before ++ x :: after ∧
      EndsRun p m (before ++ [x]) ∧
        before.EachAfter
          (fun earlier y => ¬ EndsRun p m (earlier ++ [y]))

/- No element ends `m` with a property. -/
def NoneEnds
    (p : α → Bool)
    (m : ℕ)
    (l : List α) : Prop :=
  l.EachAfter (fun earlier y => ¬ EndsRun p m (earlier ++ [y]))

/- It stays the first as the list grows. -/
theorem FirstEnds.concat
    {p : α → Bool}
    {m : ℕ}
    {l : List α}
    {x : α}
    (hFirst : FirstEnds p m l x)
    (y : α) :
    FirstEnds p m (l ++ [y]) x := by
  rcases hFirst with ⟨before, after, rfl, hEnds, hNone⟩
  exact ⟨before, after ++ [y], by simp, hEnds, hNone⟩

/- And one more is it, if none was and it ends a run. -/
theorem NoneEnds.firstEnds
    {p : α → Bool}
    {m : ℕ}
    {l : List α}
    (hNone : NoneEnds p m l)
    {x : α}
    (hEnds : m ≤ trailing p (l ++ [x])) :
    FirstEnds p m (l ++ [x]) x :=
  ⟨l, [], rfl, le_trailing_iff.mp hEnds, hNone⟩

theorem NoneEnds.concat
    {p : α → Bool}
    {m : ℕ}
    {l : List α}
    (hNone : NoneEnds p m l)
    {x : α}
    (hShort : trailing p (l ++ [x]) < m) :
    NoneEnds p m (l ++ [x]) := by
  apply eachAfter_concat hNone
  rw [← le_trailing_iff]
  exact not_le.mpr hShort

end List
