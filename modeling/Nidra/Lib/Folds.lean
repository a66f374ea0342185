import Mathlib
import Nidra.Lib.Numerals

/-
  This file states the rules for folds over a list: what
  holds when the steps add facts to the accumulated value,
  what every step keeps along a run, and what an update of
  one entry keeps of all entries.

  Main declarations:
    * `List.foldl_iff_exists`
    * `List.foldl_zipWith`
    * `AllAlong`
    * `AllAlong.invariant`
    * `AllAlong.iff_of_step`
    * `List.forall_mem_modify`
-/

/-
  When every step makes a fact true in the cases `adds` and
  otherwise leaves it as it was, the fact holds after the
  fold if some element added it or it held before.
-/
theorem List.foldl_iff_exists
    {α β : Type}
    {step : α → β → α}
    {adds : β → Prop}
    (fact : α → Prop)
    (hStep : ∀ a b, fact (step a b) ↔ adds b ∨ fact a)
    (l : List β)
    (a : α) :
    fact (l.foldl step a) ↔ (∃ b ∈ l, adds b) ∨ fact a := by
  induction l generalizing a with
  | nil => simp
  | cons b l ih =>
      rw [List.foldl_cons, ih, hStep]
      simp only [List.mem_cons, exists_eq_or_imp]
      rw [← or_assoc]
      exact or_congr_left or_comm

/-
  A pass that updates one value for each entry of a list goes
  through the events for every entry on its own.
-/
theorem List.foldl_zipWith
    {γ σ ε : Type}
    (step : γ → σ → ε → σ)
    (start : γ → σ)
    (l : List γ)
    (events : List ε) :
    events.foldl
        (fun states e =>
          List.zipWith (fun c s => step c s e) l states)
        (l.map start) =
      l.map (fun c => events.foldl (step c) (start c)) := by
  induction events generalizing start with
  | nil => rfl
  | cons e rest ih =>
      have hOne :
          List.zipWith (fun c s => step c s e) l (l.map start) =
            l.map (fun c => step c (start c) e) := by
        rw [List.zipWith_map_right, List.zipWith_self]
      rw [List.foldl_cons, hOne, ih]
      rfl

/-
  Every element of a list meets a condition in the state that
  the elements before it lead to.
-/
def AllAlong
    {σ ε : Type}
    (step : σ → ε → σ)
    (condition : σ → ε → Prop) : σ → List ε → Prop
  | _, [] => True
  | s, e :: rest =>
      condition s e ∧ AllAlong step condition (step s e) rest

instance AllAlong.decidable
    {σ ε : Type}
    (step : σ → ε → σ)
    (condition : σ → ε → Prop)
    [∀ s e, Decidable (condition s e)]
    (s : σ)
    (events : List ε) :
    Decidable (AllAlong step condition s events) :=
  match events with
  | [] => isTrue trivial
  | e :: rest =>
      have := AllAlong.decidable step condition (step s e) rest
      inferInstanceAs
        (Decidable
          (condition s e ∧
            AllAlong step condition (step s e) rest))

/-
  What each step keeps under the condition, a run keeps when
  the condition is met all along it.
-/
theorem AllAlong.invariant
    {σ ε : Type}
    {step : σ → ε → σ}
    {condition : σ → ε → Prop}
    (inv : σ → Prop)
    (hStep : ∀ s e, inv s → condition s e → inv (step s e))
    {events : List ε}
    {s : σ}
    (hInv : inv s)
    (hAll : AllAlong step condition s events) :
    inv (events.foldl step s) := by
  induction events generalizing s with
  | nil => exact hInv
  | cons e rest ih =>
      rcases hAll with ⟨hFirst, hRest⟩
      exact ih (hStep s e hInv hFirst) hRest

/-
  What each step has under the condition, in states that meet
  an invariant of such steps, every step of the run has.
-/
theorem AllAlong.imp_of_invariant
    {σ ε : Type}
    {step : σ → ε → σ}
    {condition goal : σ → ε → Prop}
    (inv : σ → Prop)
    (hStep :
      ∀ s e, inv s → condition s e →
        goal s e ∧ inv (step s e))
    {events : List ε}
    {s : σ}
    (hInv : inv s)
    (hAll : AllAlong step condition s events) :
    AllAlong step goal s events := by
  induction events generalizing s with
  | nil => trivial
  | cons e rest ih =>
      rcases hAll with ⟨hFirst, hRest⟩
      rcases hStep s e hInv hFirst with ⟨hGoal, hNext⟩
      exact ⟨hGoal, ih hNext hRest⟩

/-
  A property that each step keeps exactly under the condition
  holds after a run if it held before and the condition is
  met all along.
-/
theorem AllAlong.iff_of_step
    {σ ε : Type}
    {step : σ → ε → σ}
    {condition : σ → ε → Prop}
    (inv good : σ → Prop)
    (hStep :
      ∀ s e, inv s →
        inv (step s e) ∧
          (good (step s e) ↔ good s ∧ condition s e))
    (events : List ε)
    {s : σ}
    (hInv : inv s) :
    good (events.foldl step s) ↔
      good s ∧ AllAlong step condition s events := by
  induction events generalizing s with
  | nil => exact (iff_of_eq (and_true (good s))).symm
  | cons e rest ih =>
      rcases hStep s e hInv with ⟨hNext, hGood⟩
      rw [List.foldl_cons, ih hNext, hGood, and_assoc]
      rfl

/- A run in two parts. -/
theorem allAlong_append
    {σ ε : Type}
    {step : σ → ε → σ}
    {condition : σ → ε → Prop}
    {first second : List ε}
    {s : σ} :
    AllAlong step condition s (first ++ second) ↔
      AllAlong step condition s first ∧
        AllAlong step condition (first.foldl step s)
          second := by
  induction first generalizing s with
  | nil => simp [AllAlong]
  | cons e first ih =>
      simp only [List.cons_append, AllAlong, List.foldl_cons,
        ih, and_assoc]

/- An update of one entry keeps what it keeps of that entry. -/
theorem List.forall_mem_modify_of_forall
    {α : Type}
    {P : α → Prop}
    {f : α → α}
    (hStep : ∀ a, P a → P (f a))
    {l : List α}
    (hAll : ∀ a ∈ l, P a)
    (i : ℕ) :
    ∀ a ∈ l.modify i f, P a := by
  induction l generalizing i with
  | nil =>
      rw [List.modify_nil]
      exact hAll
  | cons head l ih =>
      rw [List.forall_mem_cons] at hAll
      cases i with
      | zero =>
          rw [List.modify_zero_cons, List.forall_mem_cons]
          exact ⟨hStep head hAll.1, hAll.2⟩
      | succ i =>
          rw [List.modify_succ_cons, List.forall_mem_cons]
          exact ⟨hAll.1, ih hAll.2 i⟩

/-
  When an update keeps a fact of an entry under a condition,
  all entries have the fact after it exactly if they had it
  and the one entry meets the condition.
-/
theorem List.forall_mem_modify
    {α : Type}
    {P condition : α → Prop}
    {f : α → α}
    {l : List α}
    (hStep : ∀ a ∈ l, P (f a) ↔ P a ∧ condition a)
    (i : ℕ) :
    (∀ a ∈ l.modify i f, P a) ↔
      (∀ a ∈ l, P a) ∧ ∀ a ∈ l[i]?, condition a := by
  induction l generalizing i with
  | nil => simp
  | cons head l ih =>
      rw [List.forall_mem_cons] at hStep
      cases i with
      | zero =>
          rw [List.modify_zero_cons, List.forall_mem_cons,
            List.forall_mem_cons, hStep.1,
            List.getElem?_cons_zero]
          simp only [Option.mem_some_iff, forall_eq']
          exact and_right_comm
      | succ i =>
          rw [List.modify_succ_cons, List.forall_mem_cons,
            List.forall_mem_cons, ih hStep.2,
            List.getElem?_cons_succ, and_assoc]
