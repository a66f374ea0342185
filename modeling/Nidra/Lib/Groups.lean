import Mathlib
import Nidra.Lib.Numerals

/-
  This file defines sorting and grouping by a key: a stable
  sort, the groups of a list in the order in which their keys
  first appear, and what is left of a concatenation over the
  groups when one key is selected.

  Key definitions include:
    * `sortByKey`
    * `groupsBy`
    * `inGroups`

  Main declarations:
    * `sortByKey_filter`
    * `inGroups_perm`, `inGroups_of_sorted`
    * `groupsBy_map`
-/

------------------------------------------------------------
-- Sorting by a Key
------------------------------------------------------------

section SortByKey

variable {α κ : Type}
variable [LinearOrder κ]

/- Sort by a key; equal keys keep their order. -/
def sortByKey
    (key : α → κ)
    (l : List α) : List α :=
  l.insertionSort (fun a b => key a ≤ key b)

theorem sortByKey_perm
    (key : α → κ)
    (l : List α) :
    (sortByKey key l).Perm l :=
  List.perm_insertionSort _ l

@[simp] theorem mem_sortByKey
    {key : α → κ}
    {l : List α}
    {a : α} :
    a ∈ sortByKey key l ↔ a ∈ l :=
  (sortByKey_perm key l).mem_iff

theorem sortByKey_pairwise
    (key : α → κ)
    (l : List α) :
    (sortByKey key l).Pairwise
      (fun a b => key a ≤ key b) := by
  have hTotal :
      Std.Total (fun a b : α => key a ≤ key b) :=
    ⟨fun a b => le_total (key a) (key b)⟩
  have hTrans :
      IsTrans α (fun a b => key a ≤ key b) :=
    ⟨fun _ _ _ => le_trans⟩
  exact List.pairwise_insertionSort _ l

/- Distinct keys are sorted strictly. -/
theorem sortByKey_pairwise_lt
    {key : α → κ}
    {l : List α}
    (hDistinct : (l.map key).Nodup) :
    (sortByKey key l).Pairwise
      (fun a b => key a < key b) := by
  have hNodup : ((sortByKey key l).map key).Nodup :=
    ((sortByKey_perm key l).map key).nodup_iff.mpr hDistinct
  have hNe :
      (sortByKey key l).Pairwise
        (fun a b => key a ≠ key b) :=
    List.pairwise_map.mp hNodup
  refine ((sortByKey_pairwise key l).and hNe).imp ?_
  intro a b hBoth
  exact lt_of_le_of_ne hBoth.1 hBoth.2

theorem sortByKey_of_pairwise
    {key : α → κ}
    {l : List α}
    (hSorted : l.Pairwise (fun a b => key a ≤ key b)) :
    sortByKey key l = l :=
  hSorted.insertionSort_eq

theorem orderedInsert_filter
    {key : α → κ}
    (p : α → Bool)
    (a : α)
    {l : List α}
    (hSorted : l.Pairwise (fun a b => key a ≤ key b)) :
    (l.orderedInsert (fun a b => key a ≤ key b) a).filter p =
      if p a then
        (l.filter p).orderedInsert
          (fun a b => key a ≤ key b) a
      else l.filter p := by
  induction l with
  | nil =>
      cases hA : p a with
      | true => simp [hA]
      | false => simp [hA]
  | cons b rest ih =>
      rw [List.orderedInsert_cons]
      by_cases hLe : key a ≤ key b
      · rw [if_pos hLe]
        cases hA : p a with
        | false => simp [hA]
        | true =>
            -- What is kept of the list is not before `a`.
            have hAll :
                ∀ c ∈ (b :: rest).filter p,
                  key a ≤ key c := by
              intro c hC
              rcases List.mem_cons.mp
                (List.mem_of_mem_filter hC) with rfl | hRest
              · exact hLe
              · exact hLe.trans
                  (List.rel_of_pairwise_cons hSorted hRest)
            rw [List.filter_cons_of_pos hA, if_pos rfl]
            cases hKept : (b :: rest).filter p with
            | nil => rfl
            | cons c kept =>
                rw [List.orderedInsert_cons, if_pos]
                exact hAll c (by simp [hKept])
      · rw [if_neg hLe]
        cases hB : p b with
        | false =>
            rw [List.filter_cons_of_neg (by simp [hB]),
              List.filter_cons_of_neg (by simp [hB]),
              ih hSorted.tail]
        | true =>
            rw [List.filter_cons_of_pos hB,
              List.filter_cons_of_pos hB, ih hSorted.tail]
            cases hA : p a with
            | false => simp
            | true =>
                rw [if_pos rfl, if_pos rfl,
                  List.orderedInsert_cons, if_neg hLe]

/- Sorting keeps the order of what a filter keeps. -/
theorem sortByKey_filter
    (key : α → κ)
    (p : α → Bool)
    (l : List α) :
    (sortByKey key l).filter p =
      sortByKey key (l.filter p) := by
  induction l with
  | nil => rfl
  | cons a rest ih =>
      have hStep :=
        orderedInsert_filter p a (sortByKey_pairwise key rest)
      cases hA : p a with
      | true =>
          rw [hA, if_pos rfl, ih] at hStep
          rw [List.filter_cons_of_pos hA]
          exact hStep
      | false =>
          rw [hA, if_neg (by simp), ih] at hStep
          rw [List.filter_cons_of_neg (by simp [hA])]
          exact hStep

theorem sortByKey_map
    {β : Type}
    (key : β → κ)
    (f : α → β)
    (l : List α) :
    sortByKey key (l.map f) =
      (sortByKey (fun a => key (f a)) l).map f :=
  (List.map_insertionSort _ _ f l
    (fun _ _ _ _ => Iff.rfl)).symm

end SortByKey

section Groups

variable {α κ : Type}
variable [DecidableEq κ]

------------------------------------------------------------
-- First Occurrences
------------------------------------------------------------

theorem List.nodup_eraseDups (l : List κ) :
    l.eraseDups.Nodup := by
  induction hLength : l.length using Nat.strong_induction_on
    generalizing l with
  | _ n ih =>
      cases l with
      | nil => simp
      | cons a rest =>
          rw [List.eraseDups_cons]
          have hShorter :
              (rest.filter (fun b => !b == a)).length < n := by
            have hFilter :=
              List.length_filter_le (fun b => !b == a) rest
            simp only [List.length_cons] at hLength
            omega
          refine List.nodup_cons.mpr
            ⟨?_, ih _ hShorter _ rfl⟩
          simp [List.mem_eraseDups]

------------------------------------------------------------
-- Groups
------------------------------------------------------------

/-
  The groups of a list. Each group keeps the order of its
  elements.
-/
def groupsBy
    (key : α → κ)
    (l : List α) : List (κ × List α) :=
  (l.map key).eraseDups.map
    (fun k => (k, l.filter (fun a => key a = k)))

theorem mem_groupsBy
    {key : α → κ}
    {l : List α}
    {k : κ}
    {group : List α} :
    (k, group) ∈ groupsBy key l ↔
      (∃ a ∈ l, key a = k) ∧
        group = l.filter (fun a => key a = k) := by
  constructor
  · intro hMem
    rcases List.mem_map.mp hMem with ⟨k', hKey, hEq⟩
    rw [Prod.mk.injEq] at hEq
    rcases hEq with ⟨rfl, rfl⟩
    rw [List.mem_eraseDups] at hKey
    exact ⟨List.mem_map.mp hKey, rfl⟩
  · rintro ⟨hKey, rfl⟩
    refine List.mem_map.mpr ⟨k, ?_, rfl⟩
    rw [List.mem_eraseDups]
    exact List.mem_map.mpr hKey

/- What is computed for every group, one after the other. -/
def inGroups
    {β : Type}
    (key : α → κ)
    (f : κ → List α → List β)
    (l : List α) : List β :=
  (groupsBy key l).flatMap (fun g => f g.1 g.2)

/-
  When every result of a group carries the group's key, the
  results with one key are the results of that key's group.
-/
theorem inGroups_filter
    {β : Type}
    {key : α → κ}
    {f : κ → List α → List β}
    {keyOf : β → κ}
    (hKeyOf : ∀ k g, ∀ b ∈ f k g, keyOf b = k)
    (l : List α)
    (k : κ) :
    (inGroups key f l).filter (fun b => keyOf b = k) =
      if k ∈ l.map key then
        f k (l.filter (fun a => key a = k))
      else [] := by
  have hOne :
      ∀ k', (f k' (l.filter (fun a => key a = k'))).filter
          (fun b => keyOf b = k) =
        if k' = k then f k (l.filter (fun a => key a = k))
        else [] := by
    intro k'
    by_cases hKey : k' = k
    · subst hKey
      rw [if_pos rfl]
      apply List.filter_eq_self.mpr
      intro b hMem
      exact decide_eq_true (hKeyOf _ _ b hMem)
    · rw [if_neg hKey]
      apply List.filter_eq_nil_iff.mpr
      intro b hMem
      rw [hKeyOf _ _ b hMem]
      simpa using hKey
  have hKeys :
      ∀ keys : List κ,
        keys.Nodup →
          (keys.flatMap
            (fun k' => f k' (l.filter (fun a => key a = k')))).filter
              (fun b => keyOf b = k) =
            if k ∈ keys then
              f k (l.filter (fun a => key a = k))
            else [] := by
    intro keys hNodup
    induction keys with
    | nil => simp
    | cons k' rest ih =>
        rcases List.nodup_cons.mp hNodup with
          ⟨hNotMem, hRest⟩
        rw [List.flatMap_cons, List.filter_append, hOne,
          ih hRest]
        by_cases hKey : k' = k
        · subst hKey
          simp [hNotMem]
        · simp [hKey, Ne.symm hKey]
  unfold inGroups groupsBy
  rw [List.flatMap_map]
  have hAll := hKeys (l.map key).eraseDups (l.map key).nodup_eraseDups
  simpa only [List.mem_eraseDups] using hAll

/- The groups hold the elements of the list. -/
theorem inGroups_perm
    (key : α → κ)
    (l : List α) :
    (inGroups key (fun _ group => group) l).Perm l := by
  have hKeys :
      ∀ (keys : List κ) (rest : List α),
        keys.Nodup →
        (∀ a ∈ rest, key a ∈ keys) →
          (keys.flatMap
            (fun k => rest.filter (fun a => key a = k))).Perm
              rest := by
    intro keys
    induction keys with
    | nil =>
        intro rest _ hAll
        cases rest with
        | nil => exact List.Perm.refl _
        | cons a rest =>
            exact absurd (hAll a List.mem_cons_self) (by simp)
    | cons k keys ih =>
        intro rest hNodup hAll
        rcases List.nodup_cons.mp hNodup with ⟨hNew, hKeys⟩
        -- The other groups take nothing of this one.
        have hOthers :
            keys.flatMap
                (fun k' => rest.filter (fun a => key a = k')) =
              keys.flatMap (fun k' =>
                (rest.filter (fun a => !decide (key a = k))).filter
                  (fun a => key a = k')) := by
          apply List.flatMap_congr
          intro k' hK'
          rw [List.filter_filter]
          apply List.filter_congr
          intro a _
          by_cases hKey : key a = k'
          · have hNe : k' ≠ k := by
              rintro rfl
              exact hNew hK'
            simp [hKey, hNe]
          · simp [hKey]
        have hRest :=
          ih (rest.filter (fun a => !decide (key a = k))) hKeys
            (by
              intro a hA
              rcases List.mem_filter.mp hA with ⟨hA, hNe⟩
              rcases List.mem_cons.mp (hAll a hA) with hK | hK
              · simp [hK] at hNe
              · exact hK)
        rw [List.flatMap_cons, hOthers]
        exact
          (hRest.append_left _).trans
            (List.filter_append_perm
              (fun a => decide (key a = k)) rest)
  unfold inGroups groupsBy
  rw [List.flatMap_map]
  apply hKeys _ _ (l.map key).nodup_eraseDups
  intro a hA
  rw [List.mem_eraseDups]
  exact List.mem_map.mpr ⟨a, hA, rfl⟩

/- The results are the results of the groups. -/
theorem mem_inGroups
    {β : Type}
    {key : α → κ}
    {f : κ → List α → List β}
    {l : List α}
    {b : β} :
    b ∈ inGroups key f l ↔
      ∃ k, (∃ a ∈ l, key a = k) ∧
        b ∈ f k (l.filter (fun a => key a = k)) := by
  constructor
  · intro hMem
    rcases List.mem_flatMap.mp hMem with ⟨⟨k, g⟩, hGroup, hIn⟩
    rcases mem_groupsBy.mp hGroup with ⟨hKey, rfl⟩
    exact ⟨k, hKey, hIn⟩
  · rintro ⟨k, hKey, hIn⟩
    exact List.mem_flatMap.mpr
      ⟨_, mem_groupsBy.mpr ⟨hKey, rfl⟩, hIn⟩

/- No group is empty. -/
theorem groupsBy_ne_nil
    {key : α → κ}
    {l : List α}
    {k : κ}
    {group : List α}
    (hMem : (k, group) ∈ groupsBy key l) :
    group ≠ [] := by
  rcases mem_groupsBy.mp hMem with ⟨⟨a, hA, hKey⟩, rfl⟩
  apply List.ne_nil_of_mem
  exact List.mem_filter.mpr ⟨hA, decide_eq_true hKey⟩

/- A map that keeps the keys maps the groups. -/
theorem groupsBy_map
    {β : Type}
    {key : α → κ}
    {key' : β → κ}
    {f : α → β}
    (hKey : ∀ a, key' (f a) = key a)
    (l : List α) :
    groupsBy key' (l.map f) =
      (groupsBy key l).map (fun g => (g.1, g.2.map f)) := by
  have hKeys : (l.map f).map key' = l.map key := by
    rw [List.map_map]
    exact List.map_congr_left (fun a _ => hKey a)
  unfold groupsBy
  rw [hKeys, List.map_map]
  apply List.map_congr_left
  intro k _
  simp [List.filter_map, Function.comp_def, hKey]

/- A total over the elements is one over the groups. -/
theorem sum_groupsBy
    {M : Type}
    [AddCommMonoid M]
    (key : α → κ)
    (f : α → M)
    (l : List α) :
    ((groupsBy key l).map (fun g => (g.2.map f).sum)).sum =
      (l.map f).sum := by
  rw [← ((inGroups_perm key l).map f).sum_eq]
  unfold inGroups
  induction groupsBy key l with
  | nil => rfl
  | cons g rest ih =>
      rw [List.map_cons, List.sum_cons, List.flatMap_cons,
        List.map_append, List.sum_append, ih]

/- The groups of what is left after the first group. -/
theorem inGroups_cons
    (key : α → κ)
    (a : α)
    (rest : List α) :
    inGroups key (fun _ group => group) (a :: rest) =
      (a :: rest).filter (fun b => key b = key a) ++
        inGroups key (fun _ group => group)
          (rest.filter (fun b => key b ≠ key a)) := by
  have hKeys :
      (rest.map key).filter (fun k => !k == key a) =
        (rest.filter (fun b => key b ≠ key a)).map key := by
    rw [List.filter_map]
    apply congrArg
    apply List.filter_congr
    intro b _
    rw [Function.comp_apply, beq_eq_decide]
    simp
  unfold inGroups groupsBy
  rw [List.map_cons, List.eraseDups_cons, List.map_cons,
    List.flatMap_cons, hKeys]
  apply congrArg
  rw [List.flatMap_map, List.flatMap_map]
  apply List.flatMap_congr
  intro k hK
  rw [List.mem_eraseDups, List.mem_map] at hK
  rcases hK with ⟨b, hB, rfl⟩
  have hNe : key b ≠ key a := by
    simpa using (List.mem_filter.mp hB).2
  rw [List.filter_cons_of_neg (by simpa using hNe.symm),
    List.filter_filter]
  apply List.filter_congr
  intro c _
  by_cases hC : key c = key b
  · simp [hC, hNe]
  · simp [hC]

/- In a sorted list what has the least key comes first. -/
theorem filter_append_of_sorted
    [PartialOrder κ]
    {key : α → κ}
    {l : List α}
    (hSorted : l.Pairwise (fun a b => key a ≤ key b))
    {k : κ}
    (hLeast : ∀ a ∈ l, k ≤ key a) :
    l.filter (fun a => key a = k) ++
        l.filter (fun a => key a ≠ k) = l := by
  induction l with
  | nil => rfl
  | cons a rest ih =>
      by_cases hKey : key a = k
      · rw [List.filter_cons_of_pos (by simpa using hKey),
          List.filter_cons_of_neg (by simpa using hKey),
          List.cons_append,
          ih hSorted.of_cons
            (fun b hB => hLeast b (List.mem_cons_of_mem _ hB))]
      · -- Nothing after a greater key has the least one.
        have hNone :
            (a :: rest).filter (fun b => key b = k) = [] := by
          rw [List.filter_eq_nil_iff]
          intro b hB
          have hGreater : k < key a :=
            lt_of_le_of_ne (hLeast a List.mem_cons_self)
              (Ne.symm hKey)
          rcases List.mem_cons.mp hB with rfl | hRest
          · simpa using hKey
          · have hLe := List.rel_of_pairwise_cons hSorted hRest
            simpa using (hGreater.trans_le hLe).ne'
        have hAll :
            (a :: rest).filter (fun b => key b ≠ k) =
              a :: rest := by
          rw [List.filter_eq_self]
          intro b hB
          rw [List.filter_eq_nil_iff] at hNone
          simpa using hNone b hB
        rw [hNone, hAll, List.nil_append]

/- The groups of a list that is sorted by key are in order. -/
theorem inGroups_of_sorted
    [PartialOrder κ]
    {key : α → κ}
    {l : List α}
    (hSorted : l.Pairwise (fun a b => key a ≤ key b)) :
    inGroups key (fun _ group => group) l = l := by
  induction hLength : l.length using Nat.strong_induction_on
    generalizing l with
  | _ n ih =>
      cases l with
      | nil => rfl
      | cons a rest =>
          have hShorter :
              (rest.filter (fun b => key b ≠ key a)).length <
                n := by
            have hLe :=
              List.length_filter_le
                (fun b => decide (key b ≠ key a)) rest
            simp only [List.length_cons] at hLength
            omega
          have hLeast : ∀ b ∈ a :: rest, key a ≤ key b := by
            intro b hB
            rcases List.mem_cons.mp hB with rfl | hRest
            · exact le_refl _
            · exact List.rel_of_pairwise_cons hSorted hRest
          have hOthers :
              (a :: rest).filter (fun b => key b ≠ key a) =
                rest.filter (fun b => key b ≠ key a) :=
            List.filter_cons_of_neg (by simp)
          rw [inGroups_cons,
            ih _ hShorter (hSorted.of_cons.filter _) rfl,
            ← hOthers]
          exact filter_append_of_sorted hSorted hLeast

end Groups
