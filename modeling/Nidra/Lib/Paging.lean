import Nidra.Lib.Groups

/-
  This file defines queries that sort the rows of a table by a
  key: a page of the result, and the first row of each group.
  It says what a reader gets who fetches page after page from
  a table that grows in between.

  Key definitions include:
    * `page`, `rank`
    * `distinctOn`

  Main declarations:
    * `mem_page_iff`, `rank_mono`
    * `exists_page_of_short`
    * `flatMap_page`
    * `mem_distinctOn_sortByKey`
-/

section Paging

variable {α κ : Type}
variable [LinearOrder κ]

------------------------------------------------------------
-- Pages
------------------------------------------------------------

/- So many rows after the first `offset`, in order. -/
def page
    (key : α → κ)
    (limit offset : ℕ)
    (rows : List α) : List α :=
  ((sortByKey key rows).drop offset).take limit

/- How many rows come before a key. -/
def rank
    (key : α → κ)
    (k : κ)
    (rows : List α) : ℕ :=
  rows.countP (fun row => key row < k)

theorem rank_perm
    {key : α → κ}
    {rows rows' : List α}
    (hPerm : rows.Perm rows')
    (k : κ) :
    rank key k rows = rank key k rows' :=
  hPerm.countP_eq _

/- More rows only move a key back. -/
theorem rank_mono
    {key : α → κ}
    {rows rows' : List α}
    (hGrown : rows.Sublist rows')
    (k : κ) :
    rank key k rows ≤ rank key k rows' :=
  hGrown.countP_le

/- In order, a row stands where its rank says. -/
theorem rank_of_sorted
    {key : α → κ}
    {before after : List α}
    {row : α}
    (hSorted :
      (before ++ row :: after).Pairwise
        (fun a b => key a < key b)) :
    rank key (key row) (before ++ row :: after) =
      before.length := by
  rw [List.pairwise_append, List.pairwise_cons] at hSorted
  rcases hSorted with ⟨_, ⟨hAfter, _⟩, hBefore⟩
  have hAll :
      before.countP (fun b => key b < key row) =
        before.length := by
    rw [List.countP_eq_length]
    intro b hB
    have hLt : key b < key row :=
      hBefore b hB row List.mem_cons_self
    exact decide_eq_true hLt
  have hNone :
      (row :: after).countP (fun b => key b < key row) =
        0 := by
    rw [List.countP_eq_zero]
    intro b hB hLt
    have hBefore' : key b < key row := of_decide_eq_true hLt
    rcases List.mem_cons.mp hB with rfl | hRest
    · exact lt_irrefl (key b) hBefore'
    · exact lt_asymm (hAfter b hRest) hBefore'
  unfold rank
  rw [List.countP_append, hAll, hNone, Nat.add_zero]

/- A row is on the page that its rank falls on. -/
theorem mem_page_iff
    {key : α → κ}
    {rows : List α}
    (hDistinct : (rows.map key).Nodup)
    {row : α}
    (hMem : row ∈ rows)
    (limit offset : ℕ) :
    row ∈ page key limit offset rows ↔
      offset ≤ rank key (key row) rows ∧
        rank key (key row) rows < offset + limit := by
  have hSorted := sortByKey_pairwise_lt hDistinct
  have hSome : row ∈ sortByKey key rows :=
    mem_sortByKey.mpr hMem
  rcases List.append_of_mem hSome with
    ⟨before, after, hSplit⟩
  rw [← rank_perm (sortByKey_perm key rows)]
  unfold page
  rw [hSplit] at hSorted ⊢
  rw [rank_of_sorted hSorted, List.mem_iff_getElem?]
  -- Its place in the sorted rows is the only one.
  have hNodup : (before ++ row :: after).Nodup := by
    apply hSorted.imp
    intro a b hLt hSame
    exact hLt.ne (congrArg key hSame)
  have hPlace :
      ∀ i, (before ++ row :: after)[i]? = some row →
        i = before.length := by
    intro i hAt
    have hSelf :
        (before ++ row :: after)[before.length]? =
          some row := by
      simp
    rw [← hSelf] at hAt
    have hBound : i < (before ++ row :: after).length := by
      rw [hSelf] at hAt
      exact (List.getElem?_eq_some_iff.mp hAt).1
    exact (List.getElem?_inj hBound hNodup).mp hAt
  constructor
  · rintro ⟨i, hAt⟩
    rw [List.getElem?_take] at hAt
    split at hAt
    · rw [List.getElem?_drop] at hAt
      have hIndex := hPlace _ hAt
      omega
    · cases hAt
  · rintro ⟨hFrom, hTo⟩
    refine ⟨before.length - offset, ?_⟩
    rw [List.getElem?_take, if_pos (by omega),
      List.getElem?_drop, Nat.add_sub_cancel' hFrom]
    simp

theorem length_page
    (key : α → κ)
    (limit offset : ℕ)
    (rows : List α) :
    (page key limit offset rows).length =
      min limit (rows.length - offset) := by
  unfold page
  rw [List.length_take, List.length_drop,
    (sortByKey_perm key rows).length_eq]

theorem mem_of_mem_page
    {key : α → κ}
    {limit offset : ℕ}
    {rows : List α}
    {row : α}
    (hMem : row ∈ page key limit offset rows) :
    row ∈ rows :=
  mem_sortByKey.mp
    (List.mem_of_mem_drop (List.mem_of_mem_take hMem))

/- A rank is a place in the table. -/
theorem rank_lt_length
    {key : α → κ}
    {rows : List α}
    {row : α}
    (hMem : row ∈ rows) :
    rank key (key row) rows < rows.length := by
  apply List.countP_lt_length_iff.mpr
  refine ⟨row, hMem, ?_⟩
  simp

------------------------------------------------------------
-- Reading Page After Page
------------------------------------------------------------

/-
  A row that is there at the start, and is not on the pages up
  to one, is behind all of them: rows are added before it or
  after it, and either way it does not come forward.
-/
theorem rank_of_not_seen
    {key : α → κ}
    {limit : ℕ}
    {tables : ℕ → List α}
    (hGrown : ∀ i, (tables i).Sublist (tables (i + 1)))
    (hDistinct : ∀ i, ((tables i).map key).Nodup)
    {row : α}
    (hMem : ∀ i, row ∈ tables i)
    {n : ℕ}
    (hUnseen :
      ∀ i < n, row ∉ page key limit (i * limit) (tables i)) :
    n * limit ≤ rank key (key row) (tables n) := by
  induction n with
  | zero => simp
  | succ n ih =>
      have hBehind :
          n * limit ≤ rank key (key row) (tables n) :=
        ih (fun i hI => hUnseen i (Nat.lt_succ_of_lt hI))
      have hNot := hUnseen n (Nat.lt_succ_self n)
      rw [mem_page_iff (hDistinct n) (hMem n)] at hNot
      have hNext :
          n * limit + limit ≤
            rank key (key row) (tables n) := by
        by_contra hLt
        exact hNot ⟨hBehind, Nat.not_le.mp hLt⟩
      calc
        (n + 1) * limit = n * limit + limit :=
          Nat.succ_mul n limit
        _ ≤ rank key (key row) (tables n) := hNext
        _ ≤ rank key (key row) (tables (n + 1)) :=
          rank_mono (hGrown n) _

/-
  Whoever reads page after page until one is not full has seen
  every row that was there at the start.
-/
theorem exists_page_of_short
    {key : α → κ}
    {limit : ℕ}
    {tables : ℕ → List α}
    (hGrown : ∀ i, (tables i).Sublist (tables (i + 1)))
    (hDistinct : ∀ i, ((tables i).map key).Nodup)
    {last : ℕ}
    (hShort :
      (page key limit (last * limit)
        (tables last)).length < limit)
    {row : α}
    (hMem : row ∈ tables 0) :
    ∃ i ≤ last,
      row ∈ page key limit (i * limit) (tables i) := by
  have hStays : ∀ i, row ∈ tables i := by
    intro i
    induction i with
    | zero => exact hMem
    | succ i ih => exact (hGrown i).subset ih
  by_contra hNone
  have hUnseen :
      ∀ i < last + 1,
        row ∉ page key limit (i * limit) (tables i) := by
    intro i hI hSeen
    exact hNone ⟨i, Nat.le_of_lt_succ hI, hSeen⟩
  have hBehind :
      last * limit ≤ rank key (key row) (tables last) :=
    rank_of_not_seen hGrown hDistinct hStays
      (fun i hI => hUnseen i (Nat.lt_succ_of_lt hI))
  have hLast := hUnseen last (Nat.lt_succ_self last)
  rw [mem_page_iff (hDistinct last) (hStays last)] at hLast
  have hRank :
      rank key (key row) (tables last) <
        (tables last).length :=
    rank_lt_length (hStays last)
  rw [length_page] at hShort
  omega

/- Pages of a table that stays as it is are its rows in order. -/
theorem flatMap_page
    (key : α → κ)
    (limit count : ℕ)
    (rows : List α) :
    (List.range count).flatMap
        (fun i => page key limit (i * limit) rows) =
      (sortByKey key rows).take (count * limit) := by
  induction count with
  | zero => simp
  | succ count ih =>
      rw [List.range_succ, List.flatMap_append, ih,
        List.flatMap_singleton, Nat.succ_mul, List.take_add]
      rfl

end Paging

------------------------------------------------------------
-- The First Row of Each Group
------------------------------------------------------------

section DistinctOn

variable {α β κ : Type}
variable [DecidableEq β]

/- The first row of each group, in order. -/
def distinctOn
    (group : α → β)
    (rows : List α) : List α :=
  (groupsBy group rows).filterMap (fun g => g.2.head?)

/- A row is kept when none of its group comes before it. -/
theorem mem_distinctOn
    {group : α → β}
    {rows : List α}
    {row : α} :
    row ∈ distinctOn group rows ↔
      (rows.filter (fun r => group r = group row)).head? =
        some row := by
  unfold distinctOn
  rw [List.mem_filterMap]
  constructor
  · rintro ⟨⟨k, g⟩, hGroup, hHead⟩
    rcases mem_groupsBy.mp hGroup with ⟨_, rfl⟩
    have hMem :=
      List.mem_of_mem_head? (Option.mem_def.mpr hHead)
    have hKey : group row = k :=
      of_decide_eq_true (List.mem_filter.mp hMem).2
    rw [hKey]
    exact hHead
  · intro hHead
    have hMem :=
      List.mem_of_mem_head? (Option.mem_def.mpr hHead)
    exact
      ⟨(group row, _),
        mem_groupsBy.mpr
          ⟨⟨row, (List.mem_filter.mp hMem).1, rfl⟩, rfl⟩,
        hHead⟩

/- Every group has a row that is kept. -/
theorem exists_mem_distinctOn
    (group : α → β)
    {rows : List α}
    {row : α}
    (hMem : row ∈ rows) :
    ∃ r ∈ distinctOn group rows, group r = group row := by
  cases hHead :
      (rows.filter (fun r => group r = group row)).head? with
  | none =>
      rw [List.head?_eq_none_iff,
        List.filter_eq_nil_iff] at hHead
      exact absurd (decide_eq_true rfl) (hHead row hMem)
  | some r =>
      have hIn :=
        List.mem_of_mem_head? (Option.mem_def.mpr hHead)
      have hGroup : group r = group row :=
        of_decide_eq_true (List.mem_filter.mp hIn).2
      refine ⟨r, mem_distinctOn.mpr ?_, hGroup⟩
      rw [hGroup]
      exact hHead

/- No two rows that are kept are of one group. -/
theorem nodup_map_distinctOn
    (group : α → β)
    (rows : List α) :
    ((distinctOn group rows).map group).Nodup := by
  have hKeys :
      (distinctOn group rows).map group =
        (rows.map group).eraseDups := by
    unfold distinctOn groupsBy
    rw [List.filterMap_map]
    have hEach :
        ∀ k ∈ (rows.map group).eraseDups,
          ((rows.filter (fun a => group a = k)).head?).map
              group =
            some k := by
      intro k hKey
      rw [List.mem_eraseDups] at hKey
      rcases List.mem_map.mp hKey with ⟨a, hA, rfl⟩
      rcases exists_mem_distinctOn group hA with
        ⟨b, hKept, hGroup⟩
      have hHead := mem_distinctOn.mp hKept
      rw [hGroup] at hHead
      rw [hHead, Option.map_some, hGroup]
    rw [List.map_filterMap]
    exact
      (List.filterMap_congr hEach).trans List.filterMap_some
  rw [hKeys]
  exact List.nodup_eraseDups _

/- The first of sorted rows is the least. -/
theorem head?_eq_some_of_sorted
    [LinearOrder κ]
    {key : α → κ}
    {rows : List α}
    (hSorted : rows.Pairwise (fun a b => key a < key b))
    {row : α} :
    rows.head? = some row ↔
      row ∈ rows ∧ ∀ r ∈ rows, key row ≤ key r := by
  cases rows with
  | nil => simp
  | cons first rest =>
      rw [List.pairwise_cons] at hSorted
      rw [List.head?_cons, Option.some.injEq]
      constructor
      · rintro rfl
        refine ⟨List.mem_cons_self, ?_⟩
        intro r hR
        rcases List.mem_cons.mp hR with rfl | hRest
        · exact le_rfl
        · exact (hSorted.1 r hRest).le
      · rintro ⟨hMem, hLeast⟩
        rcases List.mem_cons.mp hMem with hSame | hRest
        · exact hSame.symm
        · exact
            absurd (hSorted.1 row hRest)
              (not_lt.mpr (hLeast first List.mem_cons_self))

/- Of sorted rows, the least of each group is kept. -/
theorem mem_distinctOn_sortByKey
    [LinearOrder κ]
    {key : α → κ}
    {rows : List α}
    (hDistinct : (rows.map key).Nodup)
    {group : α → β}
    {row : α} :
    row ∈ distinctOn group (sortByKey key rows) ↔
      row ∈ rows ∧
        ∀ r ∈ rows, group r = group row → key row ≤ key r := by
  have hSorted := sortByKey_pairwise_lt hDistinct
  rw [mem_distinctOn,
    head?_eq_some_of_sorted (hSorted.filter _),
    List.mem_filter, mem_sortByKey]
  constructor
  · rintro ⟨⟨hMem, _⟩, hLeast⟩
    refine ⟨hMem, ?_⟩
    intro r hR hGroup
    exact
      hLeast r
        (List.mem_filter.mpr
          ⟨mem_sortByKey.mpr hR, decide_eq_true hGroup⟩)
  · rintro ⟨hMem, hLeast⟩
    refine ⟨⟨hMem, decide_eq_true rfl⟩, ?_⟩
    intro r hR
    rcases List.mem_filter.mp hR with ⟨hIn, hGroup⟩
    exact
      hLeast r (mem_sortByKey.mp hIn)
        (of_decide_eq_true hGroup)

end DistinctOn
