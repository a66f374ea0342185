import Mathlib
import Nidra.Lib.Numerals

/-
  This file states when texts that are joined with a
  separator can be taken apart again: the part behind the
  last separator does not hold it, as the text of a number
  holds no sign but a minus.

  Main declarations:
    * `List.split_at_first`
    * `String.split_at_last`
    * `not_mem_toString_nat`, `not_mem_toString_int`
-/

/- Two lists are cut at the first of some element. -/
theorem List.split_at_first
    {α : Type}
    {sep : α}
    {x y a b : List α}
    (hX : sep ∉ x)
    (hY : sep ∉ y)
    (hSame : x ++ sep :: a = y ++ sep :: b) :
    x = y ∧ a = b := by
  induction x generalizing y with
  | nil =>
      cases y with
      | nil => simpa using hSame
      | cons c y =>
          rw [List.nil_append, List.cons_append,
            List.cons.injEq] at hSame
          exact absurd (by simp [hSame.1]) hY
  | cons c x ih =>
      cases y with
      | nil =>
          rw [List.nil_append, List.cons_append,
            List.cons.injEq] at hSame
          exact absurd (by simp [hSame.1]) hX
      | cons d y =>
          rw [List.cons_append, List.cons_append,
            List.cons.injEq] at hSame
          rw [List.mem_cons, not_or] at hX hY
          rcases ih hX.2 hY.2 hSame.2 with ⟨rfl, rfl⟩
          exact ⟨congrArg (· :: x) hSame.1, rfl⟩

/- Two texts are cut at the last of some character. -/
theorem String.split_at_last
    {sep : Char}
    {x y a b : String}
    (hA : sep ∉ a.toList)
    (hB : sep ∉ b.toList)
    (hSame :
      x ++ String.singleton sep ++ a =
        y ++ String.singleton sep ++ b) :
    x = y ∧ a = b := by
  have hList := congrArg (fun s => s.toList.reverse) hSame
  simp only [String.toList_append, String.toList_singleton,
    List.reverse_append, List.reverse_cons, List.reverse_nil,
    List.nil_append, List.singleton_append] at hList
  have hCut :=
    List.split_at_first
      (List.mem_reverse.not.mpr hA)
      (List.mem_reverse.not.mpr hB) hList
  exact
    ⟨String.toList_inj.mp (List.reverse_inj.mp hCut.2),
      String.toList_inj.mp (List.reverse_inj.mp hCut.1)⟩

/- The text of a number has digits only. -/
theorem not_mem_toString_nat
    {c : Char}
    (hDigit : c.isDigit = false)
    (n : ℕ) :
    c ∉ (toString n).toList := by
  intro hMem
  have hRepr : c ∈ Nat.toDigits 10 n := by
    simpa [Nat.repr] using hMem
  have hIs :=
    Nat.isDigit_of_mem_toDigits (by decide) (by decide) hRepr
  rw [hDigit] at hIs
  cases hIs

/- And a minus, if it is negative. -/
theorem not_mem_toString_int
    {c : Char}
    (hDigit : c.isDigit = false)
    (hMinus : c ≠ '-')
    (n : ℤ) :
    c ∉ (toString n).toList := by
  cases n with
  | ofNat n => exact not_mem_toString_nat hDigit n
  | negSucc n =>
      intro hMem
      change c ∈ ("-" ++ toString (n + 1)).toList at hMem
      rw [String.toList_append, List.mem_append] at hMem
      rcases hMem with hSign | hRest
      · exact hMinus (by simpa using hSign)
      · exact not_mem_toString_nat hDigit _ hRest

------------------------------------------------------------
-- A separator of two equal characters
------------------------------------------------------------

/-
  A text that a doubled separator cannot begin in: it neither
  holds one nor ends in half of one.
-/
def List.Solid
    {α : Type}
    (sep : α)
    (l : List α) : Prop :=
  ¬ [sep, sep] <:+: l ++ [sep]

theorem List.solid_of_not_mem
    {α : Type}
    {sep : α}
    {l : List α}
    (hSep : sep ∉ l) :
    l.Solid sep := by
  rintro ⟨front, back, hSame⟩
  -- The separator would be before the last place.
  have hCount := congrArg List.length hSame
  have hMem :
      (front ++ [sep, sep] ++ back)[front.length]? =
        some sep := by
    simp
  rw [hSame] at hMem
  have hLt : front.length < l.length := by
    simp only [List.length_append, List.length_cons,
      List.length_nil] at hCount
    omega
  rw [List.getElem?_append_left hLt] at hMem
  exact hSep (List.mem_of_getElem? hMem)

theorem List.Solid.of_cons
    {α : Type}
    {sep a : α}
    {l : List α}
    (hSolid : (a :: l).Solid sep) :
    l.Solid sep := by
  intro hIn
  exact hSolid (hIn.trans (List.suffix_cons a _).isInfix)

/- Two texts are cut at the first doubled separator. -/
theorem List.split_at_double
    {α : Type}
    {sep : α}
    {x y a b : List α}
    (hX : x.Solid sep)
    (hY : y.Solid sep)
    (hSame : x ++ sep :: sep :: a = y ++ sep :: sep :: b) :
    x = y ∧ a = b := by
  -- A solid text does not begin where another one has ended.
  have hNever :
      ∀ {c : α} {rest tail more : List α},
        (c :: rest).Solid sep →
          sep :: sep :: tail ≠
            c :: rest ++ sep :: sep :: more := by
    intro c rest tail more hSolid hEq
    rw [List.cons_append, List.cons.injEq] at hEq
    rcases hEq with ⟨rfl, hEq⟩
    cases rest with
    | nil => exact hSolid ⟨[], [], rfl⟩
    | cons d rest =>
        rw [List.cons_append, List.cons.injEq] at hEq
        rcases hEq with ⟨rfl, _⟩
        exact hSolid ⟨[], rest ++ [sep], rfl⟩
  induction x generalizing y with
  | nil =>
      cases y with
      | nil => simpa using hSame
      | cons c y => exact absurd hSame (hNever hY)
  | cons c x ih =>
      cases y with
      | nil => exact absurd hSame.symm (hNever hX)
      | cons d y =>
          rw [List.cons_append, List.cons_append,
            List.cons.injEq] at hSame
          rcases ih hX.of_cons hY.of_cons hSame.2 with
            ⟨rfl, rfl⟩
          exact ⟨congrArg (· :: x) hSame.1, rfl⟩

/- A part without the separator is put before a solid text. -/
theorem List.Solid.cons_part
    {α : Type}
    {sep a : α}
    {part l : List α}
    (hPart : sep ∉ part)
    (hHead : a ≠ sep)
    (hSolid : (a :: l).Solid sep) :
    (part ++ sep :: a :: l).Solid sep := by
  intro hIn
  induction part with
  | nil =>
      rcases List.infix_cons_iff.mp hIn with hFirst | hLater
      · have hTwo := List.cons_prefix_cons.mp hFirst
        exact hHead (List.cons_prefix_cons.mp hTwo.2).1.symm
      · exact hSolid hLater
  | cons c part ih =>
      rw [List.mem_cons, not_or] at hPart
      rcases List.infix_cons_iff.mp hIn with hFirst | hLater
      · exact hPart.1 (List.cons_prefix_cons.mp hFirst).1
      · exact ih hPart.2 hLater

/-
  Parts that are not empty and do not hold the separator are
  a solid text with one separator between any two.
-/
theorem List.solid_intercalate
    {α : Type}
    {sep : α}
    {parts : List (List α)}
    (hParts : ∀ part ∈ parts, part ≠ [] ∧ sep ∉ part) :
    ([sep].intercalate parts).Solid sep := by
  induction parts with
  | nil => exact List.solid_of_not_mem List.not_mem_nil
  | cons part parts ih =>
      rw [List.forall_mem_cons] at hParts
      rcases hParts with ⟨⟨_, hSep⟩, hRest⟩
      have hSolid := ih hRest
      cases parts with
      | nil =>
          rw [List.intercalate_singleton]
          exact List.solid_of_not_mem hSep
      | cons next parts =>
          rw [List.intercalate_cons_cons, List.append_assoc,
            List.singleton_append]
          -- What follows begins with the next part.
          have hNext := hRest next List.mem_cons_self
          have hHead :
              ∃ a l, a ≠ sep ∧
                [sep].intercalate (next :: parts) = a :: l := by
            rcases List.exists_cons_of_ne_nil hNext.1 with
              ⟨a, tail, rfl⟩
            rw [List.mem_cons, not_or] at hNext
            cases parts with
            | nil =>
                exact
                  ⟨a, tail, Ne.symm hNext.2.1,
                    List.intercalate_singleton⟩
            | cons more parts =>
                refine
                  ⟨a, tail ++ [sep] ++
                    [sep].intercalate (more :: parts),
                    Ne.symm hNext.2.1, ?_⟩
                rw [List.intercalate_cons_cons]
                rfl
          rcases hHead with ⟨a, l, hNe, hEq⟩
          rw [hEq] at hSolid ⊢
          exact hSolid.cons_part hSep hNe
