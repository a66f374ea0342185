import Nidra.Lib.Groups

/-
  This file compares two ways to have the latest entries of a
  list at hand: a query that sorts by a key backwards, takes
  so many and sorts them forwards again, and a buffer that
  each entry is appended to and that is trimmed to so many.

  Key definitions include:
    * `latest`
    * `List.ending`

  Main declarations:
    * `latest_eq_ending`
    * `List.ending_concat_ending`
-/

/- The last entries of a list, up to a number of them. -/
def List.ending
    {α : Type}
    (limit : ℕ)
    (l : List α) : List α :=
  l.drop (l.length - limit)

section Latest

variable {α β κ : Type}

------------------------------------------------------------
-- Endings
------------------------------------------------------------

/- Trimming along the way keeps what is trimmed at the end. -/
theorem List.ending_concat_ending
    {limit : ℕ}
    (hPos : 0 < limit)
    (l : List α)
    (a : α) :
    List.ending limit (List.ending limit l ++ [a]) =
      List.ending limit (l ++ [a]) := by
  unfold List.ending
  have hKeep :
      (l ++ [a]).length - limit ≤ l.length := by
    simp only [List.length_append, List.length_singleton]
    omega
  have hDropped :
      ((l.drop (l.length - limit)) ++ [a]).length - limit ≤
        (l.drop (l.length - limit)).length := by
    simp only [List.length_append, List.length_singleton]
    omega
  rw [List.drop_append_of_le_length hKeep,
    List.drop_append_of_le_length hDropped, List.drop_drop]
  congr 2
  simp only [List.length_append, List.length_drop,
    List.length_singleton]
  omega

theorem List.map_ending
    (f : α → β)
    (limit : ℕ)
    (l : List α) :
    (List.ending limit l).map f =
      List.ending limit (l.map f) := by
  unfold List.ending
  rw [List.map_drop, List.length_map]

/- Backwards, the last entries are the first ones. -/
theorem List.take_reverse_eq_ending
    (limit : ℕ)
    (l : List α) :
    l.reverse.take limit = (List.ending limit l).reverse := by
  unfold List.ending
  rw [List.take_reverse]

/- With entries in it, a list ends as its ending does. -/
theorem List.getLast?_ending
    {limit : ℕ}
    (hPos : 0 < limit)
    (l : List α) :
    (List.ending limit l).getLast? = l.getLast? := by
  unfold List.ending
  rw [List.getLast?_drop]
  split_ifs with hShort
  · have hNil : l = [] := by
      rw [← List.length_eq_zero_iff]
      omega
    rw [hNil]
    rfl
  · rfl

------------------------------------------------------------
-- The Query
------------------------------------------------------------

variable [LinearOrder κ]

/- The latest entries by a key, earliest first. -/
def latest
    (key : α → κ)
    (limit : ℕ)
    (rows : List α) : List α :=
  let recent :=
    (sortByKey (fun row => OrderDual.toDual (key row))
      rows).take limit
  sortByKey key recent

/- Distinct keys can be sorted in one way only. -/
theorem sortByKey_eq_of_perm
    {key : α → κ}
    {rows sorted : List α}
    (hPerm : rows.Perm sorted)
    (hSorted :
      sorted.Pairwise (fun a b => key a < key b)) :
    sortByKey key rows = sorted := by
  have hDistinct : (rows.map key).Nodup := by
    rw [(hPerm.map key).nodup_iff]
    exact List.pairwise_map.mpr (hSorted.imp ne_of_lt)
  refine List.Perm.eq_of_pairwise ?_
    (sortByKey_pairwise_lt hDistinct) hSorted
    ((sortByKey_perm key rows).trans hPerm)
  intro a b _ _ hLt hGt
  exact absurd hGt (lt_asymm hLt)

/-
  On rows with distinct keys the query gives what the sorted
  rows end with.
-/
theorem latest_eq_ending
    {key : α → κ}
    {rows sorted : List α}
    (hPerm : rows.Perm sorted)
    (hSorted :
      sorted.Pairwise (fun a b => key a < key b))
    (limit : ℕ) :
    latest key limit rows = List.ending limit sorted := by
  have hBackwards :
      sortByKey (fun row => OrderDual.toDual (key row)) rows =
        sorted.reverse := by
    apply sortByKey_eq_of_perm
    · exact hPerm.trans (List.reverse_perm sorted).symm
    · exact List.pairwise_reverse.mpr hSorted
  unfold latest
  dsimp only
  rw [hBackwards, List.take_reverse_eq_ending]
  exact sortByKey_eq_of_perm (List.reverse_perm _)
    (hSorted.sublist (List.drop_sublist _ _))

end Latest
