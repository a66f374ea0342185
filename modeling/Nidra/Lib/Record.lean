import Mathlib
import Nidra.Lib.Numerals

/-
  This file defines what a machine notes down along a run, at
  most one note a step, and states how a property of the notes
  and the state is kept, and how the notes of one machine are
  the steps of another.

  Main declarations:
    * `record`
    * `record_append`
    * `record_invariant`
    * `foldl_record`
-/

section Record

variable {σ ε ν : Type}
variable (step : σ → ε → σ)
variable (note : σ → ε → Option ν)

/- The notes of a run, in the order in which they are made. -/
def record : σ → List ε → List ν
  | _, [] => []
  | s, e :: rest =>
      (note s e).toList ++ record (step s e) rest

@[simp] theorem record_nil (s : σ) :
    record step note s [] = [] := rfl

theorem record_cons
    (s : σ)
    (e : ε)
    (rest : List ε) :
    record step note s (e :: rest) =
      (note s e).toList ++ record step note (step s e) rest :=
  rfl

/- A run in two parts notes down what its parts do. -/
theorem record_append
    (first second : List ε)
    (s : σ) :
    record step note s (first ++ second) =
      record step note s first ++
        record step note (first.foldl step s) second := by
  induction first generalizing s with
  | nil => rfl
  | cons e first ih =>
      rw [List.cons_append, record_cons, record_cons, ih,
        List.append_assoc, List.foldl_cons]

/-
  What each step keeps of the notes so far and the state, a
  run keeps.
-/
theorem record_invariant
    {step : σ → ε → σ}
    {note : σ → ε → Option ν}
    (inv : List ν → σ → Prop)
    (hStep :
      ∀ past s e,
        inv past s →
          inv (past ++ (note s e).toList) (step s e))
    {past : List ν}
    {s : σ}
    (hInv : inv past s)
    (events : List ε) :
    inv (past ++ record step note s events)
      (events.foldl step s) := by
  induction events generalizing past s with
  | nil =>
      rw [record_nil, List.append_nil]
      exact hInv
  | cons e rest ih =>
      rw [record_cons, ← List.append_assoc, List.foldl_cons]
      exact ih (hStep past s e hInv)

/-
  When a machine notes down the steps that it has another one
  take, the other has taken the steps that are noted down.
-/
theorem foldl_record
    {τ μ : Type}
    {step : σ → ε → σ}
    {move : σ → ε → Option μ}
    {inner : τ → μ → τ}
    (view : σ → τ)
    (hStep :
      ∀ s e,
        view (step s e) =
          (move s e).toList.foldl inner (view s))
    (events : List ε)
    (s : σ) :
    view (events.foldl step s) =
      (record step move s events).foldl inner (view s) := by
  induction events generalizing s with
  | nil => rfl
  | cons e rest ih =>
      rw [List.foldl_cons, ih, record_cons, List.foldl_append,
        hStep]

end Record
