import Nidra.Lib.Groups
import Nidra.Lib.Slices

/-
  This file defines where a list that is sorted by a key is
  cut so that every slice has the entries of one key: at the
  first place of each key, and at the end.

  Key definitions include:
    * `firstPlaces`, `cuts`

  Main declarations:
    * `cuts_pairwise`
    * `exists_cut`
    * `filter_eq_slice_of_cut`
-/

section Cuts

variable {κ : Type}
variable [LinearOrder κ]

/- Where each key occurs first, in the order of the keys. -/
def firstPlaces (keys : List κ) : List ℕ :=
  (sortByKey id keys.eraseDups).map (fun k => keys.idxOf k)

/- The first places in order, and the end. -/
def cuts (keys : List κ) : List ℕ :=
  sortByKey id (firstPlaces keys) ++ [keys.length]

variable {keys : List κ}

theorem mem_firstPlaces
    {i : ℕ} :
    i ∈ firstPlaces keys ↔ ∃ k ∈ keys, keys.idxOf k = i := by
  unfold firstPlaces
  simp only [List.mem_map, mem_sortByKey, List.mem_eraseDups]

theorem mem_cuts
    {i : ℕ} :
    i ∈ cuts keys ↔
      (∃ k ∈ keys, keys.idxOf k = i) ∨ i = keys.length := by
  unfold cuts
  rw [List.mem_append, mem_sortByKey, mem_firstPlaces,
    List.mem_singleton]

theorem nodup_firstPlaces (keys : List κ) :
    (firstPlaces keys).Nodup := by
  unfold firstPlaces
  apply List.Nodup.map_on
  · intro k hK k' hK' hSame
    rw [mem_sortByKey, List.mem_eraseDups] at hK
    exact (List.idxOf_inj hK).mp hSame
  · exact (sortByKey_perm id _).nodup_iff.mpr
      (List.nodup_eraseDups keys)

/- The cuts rise. -/
theorem cuts_pairwise (keys : List κ) :
    (cuts keys).Pairwise (fun a b => a < b) := by
  unfold cuts
  rw [List.pairwise_append]
  refine ⟨?_, List.pairwise_singleton _ _, ?_⟩
  · apply sortByKey_pairwise_lt
    simpa only [id, List.map_id'] using nodup_firstPlaces keys
  · intro i hI j hJ
    rw [mem_sortByKey, mem_firstPlaces] at hI
    rcases hI with ⟨k, hK, rfl⟩
    rw [List.mem_singleton.mp hJ]
    exact List.idxOf_lt_length_iff.mpr hK

/- The first place of a key is not after any place of it. -/
theorem idxOf_le_of_getElem?
    {k : κ}
    {i : ℕ}
    (hAt : keys[i]? = some k) :
    keys.idxOf k ≤ i := by
  rcases List.getElem?_eq_some_iff.mp hAt with ⟨hLt, hEq⟩
  by_contra hAfter
  have hNot := List.not_of_lt_findIdx (Nat.lt_of_not_le hAfter)
  rw [hEq, beq_self_eq_true] at hNot
  exact Bool.noConfusion hNot

/- Every place lies between two cuts. -/
theorem exists_cut
    {i : ℕ}
    (hLt : i < keys.length) :
    ∃ span ∈ List.consecutive (cuts keys),
      span.1 ≤ i ∧ i < span.2 := by
  have hFirst :
      keys.idxOf keys[i] ∈ cuts keys :=
    mem_cuts.mpr (Or.inl ⟨keys[i], List.getElem_mem hLt, rfl⟩)
  have hBefore : keys.idxOf keys[i] ≤ i :=
    idxOf_le_of_getElem? (List.getElem?_eq_getElem hLt)
  have hEnd : keys.length ∈ cuts keys :=
    mem_cuts.mpr (Or.inr rfl)
  have hSorted := cuts_pairwise keys
  cases hCuts : cuts keys with
  | nil =>
      rw [hCuts] at hEnd
      exact absurd hEnd List.not_mem_nil
  | cons first rest =>
      rw [hCuts] at hFirst hEnd hSorted
      have hLe : first ≤ i := by
        rcases List.mem_cons.mp hFirst with hHead | hRest
        · omega
        · have hLater := List.rel_of_pairwise_cons hSorted hRest
          omega
      exact List.exists_consecutive hLe
        ⟨keys.length, hEnd, hLt⟩

------------------------------------------------------------
-- Slices of one key
------------------------------------------------------------

/- In sorted keys, what is between equal keys is equal. -/
theorem le_of_getElem?
    (hSorted : keys.Pairwise (fun a b => a ≤ b))
    {i j : ℕ}
    {a b : κ}
    (hA : keys[i]? = some a)
    (hB : keys[j]? = some b)
    (hLe : i ≤ j) :
    a ≤ b := by
  rcases List.getElem?_eq_some_iff.mp hA with ⟨hI, rfl⟩
  rcases List.getElem?_eq_some_iff.mp hB with ⟨hJ, rfl⟩
  rcases hLe.lt_or_eq with hLt | rfl
  · exact List.pairwise_iff_getElem.mp hSorted i j hI hJ hLt
  · exact le_rfl

/- Between two cuts are the places of one key. -/
theorem exists_key_of_cut
    (hSorted : keys.Pairwise (fun a b => a ≤ b))
    {lo hi : ℕ}
    (hSpan : (lo, hi) ∈ List.consecutive (cuts keys)) :
    ∃ k ∈ keys, keys.idxOf k = lo ∧ lo < hi ∧
      hi ≤ keys.length ∧
      ∀ i b, keys[i]? = some b →
        (b = k ↔ lo ≤ i ∧ i < hi) := by
  rcases List.not_between_consecutive (cuts_pairwise keys) hSpan
    with ⟨hLo, hHi, hLt, hBetween⟩
  have hHiLe : hi ≤ keys.length := by
    rcases mem_cuts.mp hHi with ⟨k, hK, rfl⟩ | hEnd
    · exact (List.idxOf_lt_length_iff.mpr hK).le
    · exact hEnd.le
  rcases mem_cuts.mp hLo with ⟨k, hK, hFirst⟩ | hEnd
  swap
  · omega
  have hAtLo : keys[lo]? = some k :=
    hFirst ▸ List.getElem?_idxOf hK
  refine ⟨k, hK, hFirst, hLt, hHiLe, ?_⟩
  intro i b hB
  constructor
  · intro hSame
    rw [hSame] at hB
    refine ⟨hFirst ▸ idxOf_le_of_getElem? hB, ?_⟩
    by_contra hAfter
    -- The next cut would be the first place of the same key.
    rcases List.getElem?_eq_some_iff.mp hB with ⟨hI, _⟩
    rcases mem_cuts.mp hHi with ⟨k', hK', hNext⟩ | hEnd
    · have hAtHi : keys[hi]? = some k' :=
        hNext ▸ List.getElem?_idxOf hK'
      have hUp := le_of_getElem? hSorted hAtLo hAtHi hLt.le
      have hDown :=
        le_of_getElem? hSorted hAtHi hB (by omega)
      have hEq : k' = k := le_antisymm hDown hUp
      rw [hEq, hFirst] at hNext
      omega
    · omega
  · rintro ⟨hFrom, hTo⟩
    have hMem : b ∈ keys := List.mem_of_getElem? hB
    have hCut : keys.idxOf b ∈ cuts keys :=
      mem_cuts.mpr (Or.inl ⟨b, hMem, rfl⟩)
    have hPlace := idxOf_le_of_getElem? hB
    have hBefore : keys.idxOf b ≤ lo := by
      rcases hBetween _ hCut with hLe | hGe
      · exact hLe
      · omega
    exact le_antisymm
      (le_of_getElem? hSorted (List.getElem?_idxOf hMem) hAtLo
        hBefore)
      (le_of_getElem? hSorted hAtLo hB hFrom)

variable {α : Type}

/- What is selected by place is a slice. -/
theorem filter_eq_slice
    {p : α → Bool}
    {l : List α}
    {lo hi : ℕ}
    (hIff :
      ∀ (i : ℕ) a, l[i]? = some a →
        (p a = true ↔ lo ≤ i ∧ i < hi)) :
    l.filter p = (l.drop lo).take (hi - lo) := by
  have hBefore : (l.take lo).filter p = [] := by
    apply List.filter_eq_nil_iff.mpr
    intro a hA hIs
    rcases List.getElem?_of_mem hA with ⟨i, hI⟩
    rw [List.getElem?_take] at hI
    split_ifs at hI with hLt
    have hPlace := (hIff i a hI).mp hIs
    omega
  have hIn :
      ((l.drop lo).take (hi - lo)).filter p =
        (l.drop lo).take (hi - lo) := by
    apply List.filter_eq_self.mpr
    intro a hA
    rcases List.getElem?_of_mem hA with ⟨i, hI⟩
    rw [List.getElem?_take] at hI
    split_ifs at hI with hLt
    rw [List.getElem?_drop] at hI
    exact (hIff _ a hI).mpr ⟨by omega, by omega⟩
  have hAfter : ((l.drop lo).drop (hi - lo)).filter p = [] := by
    apply List.filter_eq_nil_iff.mpr
    intro a hA hIs
    rcases List.getElem?_of_mem hA with ⟨i, hI⟩
    rw [List.getElem?_drop, List.getElem?_drop] at hI
    have hPlace := (hIff _ a hI).mp hIs
    omega
  calc
    l.filter p =
        (l.take lo ++ ((l.drop lo).take (hi - lo) ++
          (l.drop lo).drop (hi - lo))).filter p := by
      rw [List.take_append_drop, List.take_append_drop]
    _ = (l.drop lo).take (hi - lo) := by
      rw [List.filter_append, List.filter_append, hBefore, hIn,
        hAfter, List.nil_append, List.append_nil]

/- The slice between two cuts is what has the key there. -/
theorem filter_eq_slice_of_cut
    {key : α → κ}
    {l : List α}
    (hSorted : l.Pairwise (fun a b => key a ≤ key b))
    {lo hi : ℕ}
    (hSpan : (lo, hi) ∈ List.consecutive (cuts (l.map key))) :
    ∃ k ∈ l.map key, (l.map key).idxOf k = lo ∧ lo < hi ∧
      hi ≤ l.length ∧
      l.filter (fun a => key a = k) =
        (l.drop lo).take (hi - lo) := by
  have hKeys : (l.map key).Pairwise (fun a b => a ≤ b) :=
    List.pairwise_map.mpr hSorted
  rcases exists_key_of_cut hKeys hSpan with
    ⟨k, hK, hFirst, hLt, hLe, hIff⟩
  rw [List.length_map] at hLe
  refine ⟨k, hK, hFirst, hLt, hLe, filter_eq_slice ?_⟩
  intro i a hA
  rw [decide_eq_true_iff]
  apply hIff
  rw [List.getElem?_map, hA, Option.map_some]

end Cuts
