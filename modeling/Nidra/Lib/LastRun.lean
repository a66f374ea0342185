import Mathlib
import Nidra.Lib.Numerals

/-
  This file defines the run at the end of a list: its longest
  ending in which each element stands in a relation to the
  one before it.

  Key definitions include:
    * `List.IsLastRun`

  Main declarations:
    * `List.IsLastRun.extend`, `List.IsLastRun.restart`
    * `List.IsLastRun.unique`
-/

namespace List

variable {α : Type*}
variable {R : α → α → Prop}
variable {l run : List α}
variable {a b : α}

/- The longest ending of a list that is a chain. -/
structure IsLastRun
    (R : α → α → Prop)
    (l run : List α) : Prop where
  suffix : run <:+ l
  chain : run.IsChain R
  longest : ∀ s, s <:+ l → s.IsChain R → s <:+ run

namespace IsLastRun

/- A list has one run at its end. -/
theorem unique
    {run' : List α}
    (hRun : IsLastRun R l run)
    (hRun' : IsLastRun R l run') :
    run = run' := by
  have hLe := hRun'.longest run hRun.suffix hRun.chain
  have hGe := hRun.longest run' hRun'.suffix hRun'.chain
  exact hLe.eq_of_length_le hGe.length_le

/- The run of a list with an element is not empty. -/
theorem getLast?_eq
    (hRun : IsLastRun R l run) :
    run.getLast? = l.getLast? := by
  cases hLast : l.getLast? with
  | none =>
      have hEmpty : l = [] := List.getLast?_eq_none_iff.mp hLast
      subst hEmpty
      rw [List.suffix_nil.mp hRun.suffix]
      rfl
  | some b =>
      rcases List.getLast?_eq_some_iff.mp hLast with ⟨l', rfl⟩
      have hOne :=
        hRun.longest [b] (List.suffix_append l' [b])
          (List.IsChain.singleton b)
      rcases hOne with ⟨run', rfl⟩
      exact List.getLast?_concat

/- An element that stands in the relation joins the run. -/
theorem extend
    (hRun : IsLastRun R l run)
    (hLast : b ∈ l.getLast?)
    (hRel : R b a) :
    IsLastRun R (l ++ [a]) (run ++ [a]) := by
  refine
    { suffix := ?_
      chain := ?_
      longest := ?_ }
  · exact List.suffix_append_self_iff.mpr hRun.suffix
  · refine List.IsChain.append hRun.chain
      (List.IsChain.singleton a) ?_
    intro x hX y hY
    rw [hRun.getLast?_eq, hLast] at hX
    cases hX
    cases hY
    exact hRel
  · intro s hSuffix hChain
    rcases List.suffix_concat_iff.mp hSuffix with
      rfl | ⟨s', rfl, hSuffix'⟩
    · exact List.nil_suffix
    · have hChain' : s'.IsChain R := hChain.left_of_append
      exact
        List.suffix_append_self_iff.mpr
          (hRun.longest s' hSuffix' hChain')

/- One that does not is a run of its own. -/
theorem restart
    (hBreak : ∀ b ∈ l.getLast?, ¬ R b a) :
    IsLastRun R (l ++ [a]) [a] := by
  refine
    { suffix := List.suffix_append l [a]
      chain := List.IsChain.singleton a
      longest := ?_ }
  intro s hSuffix hChain
  rcases List.suffix_concat_iff.mp hSuffix with
    rfl | ⟨s', rfl, hSuffix'⟩
  · exact List.nil_suffix
  · cases hLast : s'.getLast? with
    | none =>
        rw [List.getLast?_eq_none_iff.mp hLast]
        exact List.suffix_refl [a]
    | some b =>
        rcases hSuffix' with ⟨l', rfl⟩
        have hEnd : b ∈ (l' ++ s').getLast? := by
          rw [List.getLast?_append, hLast]
          rfl
        have hJoined :=
          (List.isChain_append.mp hChain).2.2 b hLast a rfl
        exact absurd hJoined (hBreak b hEnd)

end IsLastRun

end List
