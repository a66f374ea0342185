import Mathlib
import Nidra.Lib.Numerals

/-
  This file states when a sequence of steps that may raise
  goes through, and what a traversal of a list with such a
  step gives or raises.

  Main declarations:
    * `Except.bind_eq_ok_iff`, `Except.bind_eq_error_iff`
    * `List.forall₂_of_mapM`
    * `List.mapM_eq_ok`
    * `List.map_eq_of_mapM`
    * `List.exists_mapM_iff`
    * `List.exists_mapM_forall₂`
    * `List.exists_of_mapM_error`
    * `List.length_of_mapM_some`
-/

variable {ε α β : Type}

/- A sequence goes through when both of its parts do. -/
theorem Except.bind_eq_ok_iff
    {x : Except ε α}
    {f : α → Except ε β}
    {b : β} :
    (x >>= f) = .ok b ↔ ∃ a, x = .ok a ∧ f a = .ok b := by
  cases x with
  | error error => simp [bind, Except.bind]
  | ok a => simp [bind, Except.bind]

/- A sequence raises what one of its parts raises. -/
theorem Except.bind_eq_error_iff
    {x : Except ε α}
    {f : α → Except ε β}
    {error : ε} :
    (x >>= f) = .error error ↔
      x = .error error ∨
        ∃ a, x = .ok a ∧ f a = .error error := by
  cases x with
  | error raised => simp [bind, Except.bind]
  | ok a => simp [bind, Except.bind]

namespace List

variable {f : α → Except ε β}

/- A traversal that goes through maps entry by entry. -/
theorem forall₂_of_mapM
    {l : List α}
    {results : List β}
    (hOk : l.mapM f = .ok results) :
    List.Forall₂ (fun a b => f a = .ok b) l results := by
  induction l generalizing results with
  | nil =>
      rw [List.mapM_nil] at hOk
      cases hOk
      exact .nil
  | cons a rest ih =>
      rw [List.mapM_cons, Except.bind_eq_ok_iff] at hOk
      rcases hOk with ⟨b, hHead, hOk⟩
      rw [Except.bind_eq_ok_iff] at hOk
      rcases hOk with ⟨others, hTail, hOk⟩
      cases hOk
      exact .cons hHead (ih hTail)

/- A traversal with a step that never raises is a map. -/
theorem mapM_eq_ok
    {g : α → β}
    {l : List α}
    (hStep : ∀ a ∈ l, f a = .ok (g a)) :
    l.mapM f = .ok (l.map g) := by
  induction l with
  | nil => rfl
  | cons a rest ih =>
      rw [List.mapM_cons, hStep a List.mem_cons_self,
        ih (fun x hMem =>
          hStep x (List.mem_cons_of_mem a hMem))]
      rfl

/- What every entry keeps, the traversal keeps in order. -/
theorem map_eq_of_mapM
    {γ : Type}
    {l : List α}
    {results : List β}
    {given : α → γ}
    {got : β → γ}
    (hStep : ∀ a b, f a = .ok b → got b = given a)
    (hOk : l.mapM f = .ok results) :
    results.map got = l.map given := by
  have hEntries := forall₂_of_mapM hOk
  clear hOk
  induction hEntries with
  | nil => rfl
  | cons hHead hTail ih =>
      rw [List.map_cons, List.map_cons, hStep _ _ hHead, ih]

/- A traversal goes through when every entry does. -/
theorem exists_mapM_iff
    {l : List α} :
    (∃ results, l.mapM f = .ok results) ↔
      ∀ a ∈ l, ∃ b, f a = .ok b := by
  induction l with
  | nil => exact ⟨by simp, fun _ => ⟨[], rfl⟩⟩
  | cons a rest ih =>
      constructor
      · intro hOk x hMem
        rcases hOk with ⟨results, hOk⟩
        rw [List.mapM_cons, Except.bind_eq_ok_iff] at hOk
        rcases hOk with ⟨b, hHead, hOk⟩
        rw [Except.bind_eq_ok_iff] at hOk
        rcases hOk with ⟨others, hTail, _⟩
        rcases List.mem_cons.mp hMem with rfl | hRest
        · exact ⟨b, hHead⟩
        · exact ih.mp ⟨others, hTail⟩ x hRest
      · intro hAll
        rcases hAll a (by simp) with ⟨b, hHead⟩
        rcases ih.mpr
            (fun x hMem => hAll x (List.mem_cons_of_mem a hMem))
          with ⟨others, hTail⟩
        exact
          ⟨b :: others, by
            simp [List.mapM_cons, hHead, hTail, bind,
              Except.bind, pure, Except.pure]⟩

/-
  Two traversals whose steps go through together give entries
  that are related.
-/
theorem exists_mapM_forall₂
    {γ : Type}
    {g : α → Except ε γ}
    {R : β → γ → Prop}
    {l : List α}
    (hStep :
      ∀ a ∈ l, ∀ b, f a = .ok b → ∃ c, g a = .ok c ∧ R b c)
    {results : List β}
    (hOk : l.mapM f = .ok results) :
    ∃ others, l.mapM g = .ok others ∧
      List.Forall₂ R results others := by
  have hEntries := forall₂_of_mapM hOk
  clear hOk
  induction hEntries with
  | nil => exact ⟨[], rfl, .nil⟩
  | @cons a b rest results hHead hTail ih =>
      rcases hStep a (by simp) b hHead with ⟨c, hC, hR⟩
      rcases ih (fun x hMem =>
          hStep x (List.mem_cons_of_mem a hMem))
        with ⟨others, hOthers, hAll⟩
      refine ⟨c :: others, ?_, .cons hR hAll⟩
      rw [List.mapM_cons, hC, hOthers]
      rfl

/- Entries that have a property are fewer than the related. -/
theorem length_filter_le_of_forall₂
    {γ : Type}
    {p : β → Bool}
    {q : γ → Bool}
    {l : List β}
    {l' : List γ}
    (hRelated :
      List.Forall₂ (fun b c => p b = true → q c = true) l l') :
    (l.filter p).length ≤ (l'.filter q).length := by
  induction hRelated with
  | nil => rfl
  | @cons b c rest rest' hHead hTail ih =>
      cases hB : p b with
      | false =>
          rw [List.filter_cons_of_neg (by simp [hB])]
          exact ih.trans
            (List.Sublist.length_le
              ((List.sublist_cons_self c rest').filter q))
      | true =>
          rw [List.filter_cons_of_pos hB,
            List.filter_cons_of_pos (hHead hB)]
          exact Nat.succ_le_succ ih

/- What a traversal raises is raised by an entry. -/
theorem exists_of_mapM_error
    {l : List α}
    {error : ε}
    (hError : l.mapM f = .error error) :
    ∃ a ∈ l, f a = .error error := by
  induction l with
  | nil =>
      rw [List.mapM_nil] at hError
      cases hError
  | cons a rest ih =>
      rw [List.mapM_cons] at hError
      cases hHead : f a with
      | error raised =>
          rw [hHead] at hError
          cases hError
          exact ⟨a, by simp, hHead⟩
      | ok b =>
          cases hTail : rest.mapM f with
          | error raised =>
              rw [hHead, hTail] at hError
              cases hError
              rcases ih hTail with ⟨x, hMem, hRaised⟩
              exact ⟨x, List.mem_cons_of_mem a hMem, hRaised⟩
          | ok others =>
              rw [hHead, hTail] at hError
              cases hError

/- A traversal without a value for none keeps the length. -/
theorem length_of_mapM_some
    {g : α → Option β}
    {l : List α}
    {results : List β}
    (hSome : l.mapM g = some results) :
    results.length = l.length := by
  induction l generalizing results with
  | nil =>
      rw [List.mapM_nil] at hSome
      cases hSome
      rfl
  | cons a rest ih =>
      rw [List.mapM_cons, Option.bind_eq_bind,
        Option.bind_eq_some_iff] at hSome
      rcases hSome with ⟨b, _, hSome⟩
      rw [Option.bind_eq_bind, Option.bind_eq_some_iff]
        at hSome
      rcases hSome with ⟨others, hTail, hSome⟩
      cases hSome
      rw [List.length_cons, List.length_cons, ih hTail]

end List
