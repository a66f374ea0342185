import Mathlib
import Nidra.Lib.Numerals

/-
  This file states what it means for the rows of a table that
  a column has a different value in each of them: such a
  column finds its rows, and a row with a new value may be
  added.

  Main declarations:
    * `List.nodup_map_concat`
    * `List.find?_of_nodup_map`
-/

namespace List

variable {α β : Type}

/- A value that no row has may be added to a column. -/
theorem nodup_map_concat
    {f : α → β}
    {rows : List α}
    (hRows : (rows.map f).Nodup)
    {x : α}
    (hNew : ∀ row ∈ rows, f row ≠ f x) :
    ((rows ++ [x]).map f).Nodup := by
  rw [List.map_append, List.nodup_append]
  refine ⟨hRows, List.nodup_singleton _, ?_⟩
  intro a hA b hB
  rw [List.map_singleton, List.mem_singleton] at hB
  subst hB
  rcases List.mem_map.mp hA with ⟨row, hRow, rfl⟩
  exact hNew row hRow

/- A search for the value of a row finds that row. -/
theorem find?_of_nodup_map
    [DecidableEq β]
    {f : α → β}
    {rows : List α}
    (hNodup : (rows.map f).Nodup)
    {x : α}
    (hMem : x ∈ rows) :
    rows.find? (fun row => f row = f x) = some x := by
  induction rows with
  | nil => cases hMem
  | cons row rest ih =>
      rw [List.map_cons, List.nodup_cons] at hNodup
      rcases List.mem_cons.mp hMem with rfl | hRest
      · exact List.find?_cons_of_pos (by simp)
      · rw [List.find?_cons_of_neg]
        · exact ih hNodup.2 hRest
        · intro hSame
          apply hNodup.1
          rw [of_decide_eq_true hSame]
          exact List.mem_map_of_mem hRest

end List
