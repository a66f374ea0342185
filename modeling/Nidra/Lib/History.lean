import Mathlib
import Nidra.Lib.Numerals

/-
  This file defines properties of a history that speak about
  each of its entries and what came before it, and states how
  such a property is kept as the history grows.

  Main declarations:
    * `List.split_of_concat`
    * `List.filterMap_concat`
    * `List.EachAfter`
    * `List.eachAfter_append`
    * `List.eachAfter_concat`
    * `List.pairwise_of_eachAfter`
    * `List.exists_root_of_eachAfter`
-/

/- An entry of a list is its last one, or comes before that. -/
theorem List.split_of_concat
    {α : Type}
    {history before after : List α}
    {last x : α}
    (hSplit : history ++ [last] = before ++ x :: after) :
    (before = history ∧ x = last ∧ after = []) ∨
      ∃ rest,
        history = before ++ x :: rest ∧
          after = rest ++ [last] := by
  rcases List.eq_nil_or_concat after with
    rfl | ⟨rest, x', rfl⟩
  · left
    rcases List.append_inj' hSplit rfl with ⟨hBefore, hLast⟩
    rw [List.cons.injEq] at hLast
    exact ⟨hBefore.symm, hLast.1.symm, rfl⟩
  · right
    rw [List.concat_eq_append] at hSplit ⊢
    rw [← List.cons_append, ← List.append_assoc] at hSplit
    rcases List.append_inj' hSplit rfl with ⟨hHistory, hLast⟩
    rw [List.cons.injEq] at hLast
    rw [← hLast.1]
    exact ⟨rest, hHistory, rfl⟩

theorem List.filterMap_concat
    {α β : Type}
    (f : α → Option β)
    (history : List α)
    (last : α) :
    (history ++ [last]).filterMap f =
      history.filterMap f ++ (f last).toList := by
  rw [List.filterMap_append]
  cases hLast : f last with
  | none => simp [hLast]
  | some b => simp [hLast]

/- Each entry is as it should be after those before it. -/
def List.EachAfter
    {α : Type}
    (fits : List α → α → Prop)
    (history : List α) : Prop :=
  ∀ before x after,
    history = before ++ x :: after → fits before x

namespace List

variable {α : Type}
variable {fits : List α → α → Prop}

theorem eachAfter_nil :
    ([] : List α).EachAfter fits := by
  intro before x after hEq
  simp at hEq

/-
  A longer history is as it should be when it was, and each
  entry added fits after everything before it.
-/
theorem eachAfter_append
    {history more : List α}
    (hHistory : history.EachAfter fits)
    (hMore :
      more.EachAfter
        (fun before x => fits (history ++ before) x)) :
    (history ++ more).EachAfter fits := by
  intro before x after hEq
  rcases List.append_eq_append_iff.mp hEq with
    ⟨added, hBefore, hSplit⟩ | ⟨rest, hSplit, hRest⟩
  · rw [hBefore]
    exact hMore added x after hSplit
  · cases rest with
    | nil =>
        rw [List.nil_append] at hRest
        rw [List.append_nil] at hSplit
        rw [← List.append_nil before, ← hSplit]
        exact hMore [] x after hRest.symm
    | cons head rest =>
        rw [List.cons_append, List.cons.injEq] at hRest
        rcases hRest with ⟨rfl, _⟩
        exact hHistory before x rest hSplit

/- One more entry that fits keeps the history as it should. -/
theorem eachAfter_concat
    {history : List α}
    (hHistory : history.EachAfter fits)
    {x : α}
    (hLast : fits history x) :
    (history ++ [x]).EachAfter fits := by
  apply eachAfter_append hHistory
  intro before y after hEq
  cases before with
  | nil =>
      rw [List.nil_append, List.cons.injEq] at hEq
      rcases hEq with ⟨rfl, _⟩
      rw [List.append_nil]
      exact hLast
  | cons z before => simp at hEq

/- What each entry has with those before it, each pair has. -/
theorem pairwise_of_eachAfter
    {related : α → α → Prop}
    {history : List α}
    (hEach :
      history.EachAfter
        (fun before x => ∀ y ∈ before, related y x)) :
    history.Pairwise related := by
  induction history using List.reverseRecOn with
  | nil => exact List.Pairwise.nil
  | append_singleton history x ih =>
      rw [List.pairwise_append]
      refine
        ⟨ih ?_, List.pairwise_singleton _ _, ?_⟩
      · intro before y after hSplit
        apply hEach before y (after ++ [x])
        rw [hSplit, List.append_assoc, List.cons_append]
      · intro y hOld z hLast
        rw [List.mem_singleton] at hLast
        subst hLast
        exact hEach history z [] rfl y hOld

/-
  Where each entry is a root or has a parent before it, each
  entry descends from a root.
-/
theorem exists_root_of_eachAfter
    {isRoot : α → Prop}
    {parent : α → α → Prop}
    {history : List α}
    (hEach :
      history.EachAfter
        (fun before x =>
          isRoot x ∨ ∃ p ∈ before, parent p x))
    {x : α}
    (hMem : x ∈ history) :
    ∃ root ∈ history,
      isRoot root ∧ Relation.ReflTransGen parent root x := by
  induction history using List.reverseRecOn generalizing x with
  | nil => cases hMem
  | append_singleton history last ih =>
      have hBefore :
          history.EachAfter
            (fun before x =>
              isRoot x ∨ ∃ p ∈ before, parent p x) := by
        intro before y after hSplit
        apply hEach before y (after ++ [last])
        rw [hSplit, List.append_assoc, List.cons_append]
      rw [List.mem_append, List.mem_singleton] at hMem
      rcases hMem with hOld | rfl
      · rcases ih hBefore hOld with ⟨root, hRoot, hFrom⟩
        exact ⟨root, List.mem_append_left _ hRoot, hFrom⟩
      · rcases hEach history x [] rfl with
          hIsRoot | ⟨p, hParent, hStep⟩
        · exact
            ⟨x, by simp, hIsRoot,
              Relation.ReflTransGen.refl⟩
        · rcases ih hBefore hParent with
            ⟨root, hRoot, hIsRoot, hFrom⟩
          exact
            ⟨root, List.mem_append_left _ hRoot, hIsRoot,
              hFrom.tail hStep⟩

end List
