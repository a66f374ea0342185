import Mathlib
import Nidra.Lib.Numerals

/-
  This file defines what a list of labels does to a state,
  one label after the other, and states how a property of the
  state and of all labels so far is kept.

  Key definitions include:
    * `Replays`

  Main declarations:
    * `Replays.single`, `Replays.append`
    * `Replays.invariant`
-/

section Replays

variable {σ α : Type*}
variable {acts : σ → α → σ → Prop}

/- The labels lead from one state to another. -/
inductive Replays
    (acts : σ → α → σ → Prop)
    (s : σ) : List α → σ → Prop where
  | nil : Replays acts s [] s
  | concat
      {log : List α}
      {a : α}
      {t u : σ}
      (hLog : Replays acts s log t)
      (hActs : acts t a u) :
      Replays acts s (log ++ [a]) u

namespace Replays

variable {s t u : σ}
variable {log more : List α}

theorem single
    {a : α}
    (hActs : acts s a t) :
    Replays acts s [a] t := by
  rw [← List.nil_append [a]]
  exact concat nil hActs

theorem append
    (hLog : Replays acts s log t)
    (hMore : Replays acts t more u) :
    Replays acts s (log ++ more) u := by
  induction hMore with
  | nil =>
      rw [List.append_nil]
      exact hLog
  | concat _ hActs ih =>
      rw [← List.append_assoc]
      exact concat ih hActs

theorem cons
    {a : α}
    (hActs : acts s a t)
    (hMore : Replays acts t more u) :
    Replays acts s (a :: more) u :=
  append (single hActs) hMore

/-
  What one label more keeps of a log and the state after it,
  any number of labels keeps.
-/
theorem invariant
    (inv : List α → σ → Prop)
    (hStep :
      ∀ log s a t,
        inv log s → acts s a t → inv (log ++ [a]) t)
    (hInv : inv log s)
    (hMore : Replays acts s more t) :
    inv (log ++ more) t := by
  induction hMore with
  | nil =>
      rw [List.append_nil]
      exact hInv
  | concat _ hActs ih =>
      rw [← List.append_assoc]
      exact hStep _ _ _ _ ih hActs

end Replays

end Replays
