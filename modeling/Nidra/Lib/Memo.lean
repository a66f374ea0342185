import Mathlib
import Nidra.Lib.Numerals

/-
  This file defines a table of results that were computed
  before. A demand is served from the table if its key is
  there, and computed and entered otherwise. Where equal keys
  mean equal results, what is served is what would have been
  computed, whatever was demanded before.

  Key definitions include:
    * `Memo`, `Memo.fetch`
    * `Memo.Agrees`

  Main declarations:
    * `Memo.agrees_empty`
    * `Memo.Agrees.fetch_same`
    * `Memo.Agrees.fetch`
-/

/- The results that are kept, by their keys. -/
abbrev Memo (κ ν : Type) :=
  κ → Option ν

namespace Memo

variable {δ κ ν : Type}

def empty : Memo κ ν :=
  fun _ => none

/- Read a result, or enter the one that is computed. -/
def fetch
    [DecidableEq κ]
    (memo : Memo κ ν)
    (key : κ)
    (computed : ν) : ν × Memo κ ν :=
  match memo key with
  | some value => (value, memo)
  | none => (computed, Function.update memo key (some computed))

section Agrees

variable (Demand : δ → Prop)
variable (keyOf : δ → κ)
variable (compute : δ → ν)
variable (Same : ν → ν → Prop)

/- What is kept for a demand is what it computes. -/
def Agrees (memo : Memo κ ν) : Prop :=
  ∀ d value, Demand d → memo (keyOf d) = some value →
    Same value (compute d)

variable {Demand keyOf compute Same}

theorem agrees_empty :
    (empty : Memo κ ν).Agrees Demand keyOf compute Same := by
  intro d value _ hValue
  cases hValue

variable {memo : Memo κ ν}
variable [DecidableEq κ]

/- What is served is what would be computed. -/
theorem Agrees.fetch_same
    (hRefl : ∀ value, Same value value)
    (hAgrees : memo.Agrees Demand keyOf compute Same)
    {d : δ}
    (hDemand : Demand d) :
    Same (memo.fetch (keyOf d) (compute d)).1 (compute d) := by
  unfold Memo.fetch
  split
  · next value hValue => exact hAgrees d value hDemand hValue
  · exact hRefl _

/-
  A result that is right for every demand with its key keeps
  the table right.
-/
theorem Agrees.fetch
    (hAgrees : memo.Agrees Demand keyOf compute Same)
    {key : κ}
    {computed : ν}
    (hTells :
      ∀ d, Demand d → keyOf d = key →
        Same computed (compute d)) :
    (memo.fetch key computed).2.Agrees Demand keyOf compute
      Same := by
  unfold Memo.fetch
  split
  · exact hAgrees
  · intro other value hOther hValue
    simp only [Function.update_apply] at hValue
    split at hValue
    · next hSame =>
        cases hValue
        exact hTells other hOther hSame
    · exact hAgrees other value hOther hValue

end Agrees

end Memo
