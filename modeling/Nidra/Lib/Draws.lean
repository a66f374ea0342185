import Mathlib
import Nidra.Lib.Numerals

/-
  This file defines a random generator as far as samples from
  lists need it: it draws positions, each at most once or with
  repetition, permutes a range, and goes on to a next state.

  Key definitions include:
    * `Generator`
    * `List.pickAt`
    * `Generator.choice`, `Generator.shuffle`

  Main declarations:
    * `List.pickAt_subperm`
    * `Generator.choice_subperm`, `Generator.choice_length`
    * `Generator.shuffle_perm`
-/

------------------------------------------------------------
-- Positions of a List
------------------------------------------------------------

namespace List

variable {α : Type}

/- The entries at some positions. -/
def pickAt
    (l : List α)
    (positions : List ℕ) : List α :=
  positions.filterMap (fun i => l[i]?)

theorem pickAt_range (l : List α) :
    l.pickAt (List.range l.length) = l := by
  induction l with
  | nil => rfl
  | cons a rest ih =>
      rw [pickAt, List.length_cons, List.range_succ_eq_map,
        List.filterMap_cons, List.filterMap_map]
      exact congrArg (a :: ·) ih

/- Each position once, the entries are a part of the list. -/
theorem pickAt_subperm
    {l : List α}
    {positions : List ℕ}
    (hNodup : positions.Nodup)
    (hIn : ∀ i ∈ positions, i < l.length) :
    (l.pickAt positions).Subperm l := by
  have hSub : positions.Subperm (List.range l.length) :=
    hNodup.subperm
      (fun i hMem => List.mem_range.mpr (hIn i hMem))
  rcases hSub with ⟨ordered, hPerm, hSublist⟩
  refine ⟨l.pickAt ordered, hPerm.filterMap _, ?_⟩
  have hAll := hSublist.filterMap (fun i => l[i]?)
  rwa [← pickAt, ← pickAt, pickAt_range] at hAll

/- Different positions of different entries. -/
theorem nodup_pickAt
    {l : List α}
    {positions : List ℕ}
    (hEntries : l.Nodup)
    (hNodup : positions.Nodup)
    (hIn : ∀ i ∈ positions, i < l.length) :
    (l.pickAt positions).Nodup := by
  rcases pickAt_subperm hNodup hIn with
    ⟨ordered, hPerm, hSublist⟩
  exact hPerm.nodup_iff.mp (hEntries.sublist hSublist)

theorem length_pickAt
    {l : List α}
    {positions : List ℕ}
    (hIn : ∀ i ∈ positions, i < l.length) :
    (l.pickAt positions).length = positions.length := by
  unfold pickAt
  induction positions with
  | nil => rfl
  | cons i rest ih =>
      have hLt := hIn i (by simp)
      rw [List.filterMap_cons, List.getElem?_eq_getElem hLt,
        List.length_cons, List.length_cons,
        ih (fun j hMem => hIn j (by simp [hMem]))]

end List

------------------------------------------------------------
-- Generators
------------------------------------------------------------

/-
  What a generator draws from the positions below a bound.
  A draw without replacement has no position twice.
-/
structure Generator (σ : Type) where
  draw : σ → ℕ → ℕ → List ℕ × σ
  redraw : σ → ℕ → ℕ → List ℕ × σ
  permute : σ → ℕ → List ℕ × σ
  draw_length :
    ∀ s n size, size ≤ n → (draw s n size).1.length = size
  draw_nodup : ∀ s n size, (draw s n size).1.Nodup
  draw_lt : ∀ s n size, ∀ i ∈ (draw s n size).1, i < n
  permute_perm :
    ∀ s n, (permute s n).1.Perm (List.range n)

namespace Generator

variable {σ α : Type}
variable (g : Generator σ)

/- A sample of a list, with or without replacement. -/
def choice
    (s : σ)
    (pool : List α)
    (size : ℕ)
    (replace : Bool) : List α × σ :=
  let drawn :=
    if replace then g.redraw s pool.length size
    else g.draw s pool.length size
  (pool.pickAt drawn.1, drawn.2)

def shuffle
    (s : σ)
    (l : List α) : List α × σ :=
  let order := g.permute s l.length
  (l.pickAt order.1, order.2)

/- Without replacement the sample is a part of the list. -/
theorem choice_subperm
    (s : σ)
    (pool : List α)
    (size : ℕ) :
    (g.choice s pool size false).1.Subperm pool :=
  List.pickAt_subperm (g.draw_nodup s _ size)
    (g.draw_lt s _ size)

theorem choice_length
    (s : σ)
    {pool : List α}
    {size : ℕ}
    (hSize : size ≤ pool.length) :
    (g.choice s pool size false).1.length = size := by
  unfold choice
  dsimp only [Bool.false_eq_true, if_false]
  rw [if_neg Bool.false_ne_true,
    List.length_pickAt (g.draw_lt s _ size),
    g.draw_length s _ size hSize]

/- A shuffled list has the same entries. -/
theorem shuffle_perm
    (s : σ)
    (l : List α) :
    (g.shuffle s l).1.Perm l := by
  have hPerm :=
    (g.permute_perm s l.length).filterMap (fun i => l[i]?)
  have hAll : (List.range l.length).filterMap
      (fun i => l[i]?) = l := List.pickAt_range l
  rwa [hAll] at hPerm

end Generator

/- The generator that always draws the first positions. -/
def Generator.first : Generator Unit where
  draw := fun s n size => ((List.range n).take size, s)
  redraw := fun s n size =>
    (List.replicate (if n = 0 then 0 else size) 0, s)
  permute := fun s n => (List.range n, s)
  draw_length := by
    intro s n size hLe
    rw [List.length_take, List.length_range]
    omega
  draw_nodup := by
    intro s n size
    exact List.nodup_range.sublist (List.take_sublist _ _)
  draw_lt := by
    intro s n size i hMem
    exact List.mem_range.mp (List.mem_of_mem_take hMem)
  permute_perm := fun _ _ => .refl _
