import Mathlib
import Nidra.Lib.Numerals

/-
  This file defines tallies: finite maps from keys to
  numbers in which a missing key counts zero.

  Key definitions include:
    * `Tally`
    * `Tally.count`
    * `Tally.set`
    * `Tally.bump`
    * `Tally.merge`
    * `Tally.Same`
    * `TallyMap`
    * `TallyMap.tally`
    * `TallyMap.bump`
-/

/- A finite map from keys to amounts. -/
structure Tally (κ 𝕜 : Type) where
  entries : AList (fun _ : κ => 𝕜)

namespace Tally

variable {κ 𝕜 : Type}
variable [DecidableEq κ]

/- The tally that counts nothing. -/
def empty : Tally κ 𝕜 :=
  ⟨∅⟩

/- The keys that have an amount. -/
def keys (t : Tally κ 𝕜) : List κ :=
  t.entries.keys

/- The keys with their amounts. -/
def toList (t : Tally κ 𝕜) : List (κ × 𝕜) :=
  t.entries.entries.map (fun e => (e.1, e.2))

/- The amounts, one for each key. -/
def values (t : Tally κ 𝕜) : List 𝕜 :=
  t.entries.entries.map Sigma.snd

/- The amount of a key, zero when it has none. -/
def count
    [Zero 𝕜]
    (t : Tally κ 𝕜)
    (k : κ) : 𝕜 :=
  (t.entries.lookup k).getD 0

/- The amount of a key, if it has one. -/
def lookup
    (t : Tally κ 𝕜)
    (k : κ) : Option 𝕜 :=
  t.entries.lookup k

/- Replace the amount of a key. -/
def set
    (t : Tally κ 𝕜)
    (k : κ)
    (amount : 𝕜) : Tally κ 𝕜 :=
  ⟨t.entries.insert k amount⟩

/- Add to the amount of a key. -/
def bump
    [Zero 𝕜]
    [Add 𝕜]
    (t : Tally κ 𝕜)
    (k : κ)
    (amount : 𝕜) : Tally κ 𝕜 :=
  ⟨t.entries.insert k (t.count k + amount)⟩

/- Add every amount of one tally to another. -/
def merge
    [Zero 𝕜]
    [Add 𝕜]
    (t increments : Tally κ 𝕜) : Tally κ 𝕜 :=
  increments.toList.foldl (fun acc e => acc.bump e.1 e.2) t

omit [DecidableEq κ] in
theorem keys_nodup (t : Tally κ 𝕜) :
    t.keys.Nodup :=
  AList.keys_nodup t.entries

omit [DecidableEq κ] in
@[simp] theorem keys_empty :
    (empty : Tally κ 𝕜).keys = [] := rfl

@[simp] theorem mem_keys_bump
    [Zero 𝕜]
    [Add 𝕜]
    (t : Tally κ 𝕜)
    (k k' : κ)
    (amount : 𝕜) :
    k' ∈ (t.bump k amount).keys ↔ k' = k ∨ k' ∈ t.keys := by
  simp only [keys, bump, ← AList.mem_keys, AList.mem_insert]

@[simp] theorem count_empty
    [Zero 𝕜]
    (k : κ) :
    (empty : Tally κ 𝕜).count k = 0 := by
  simp [count, empty]

@[simp] theorem count_bump
    [Zero 𝕜]
    [Add 𝕜]
    (t : Tally κ 𝕜)
    (k k' : κ)
    (amount : 𝕜) :
    (t.bump k amount).count k' =
      if k' = k then t.count k + amount else t.count k' := by
  by_cases hKey : k' = k
  · subst hKey
    simp [count, bump]
  · simp [count, bump, AList.lookup_insert_ne hKey, hKey]

/- Amounts of distinct keys are added one by one. -/
theorem count_bumpAll
    [AddMonoid 𝕜]
    (t : Tally κ 𝕜)
    (entries : List (Sigma (fun _ : κ => 𝕜)))
    (hNodup : entries.NodupKeys)
    (k : κ) :
    ((entries.map (fun e => (e.1, e.2))).foldl
        (fun acc e => acc.bump e.1 e.2) t).count k =
      t.count k + (entries.dlookup k).getD 0 := by
  induction entries generalizing t with
  | nil => simp
  | cons e entries ih =>
      rcases List.nodupKeys_cons.mp hNodup with ⟨hNew, hRest⟩
      rw [List.map_cons, List.foldl_cons, ih _ hRest,
        count_bump]
      by_cases hKey : k = e.1
      · subst hKey
        rw [if_pos rfl, List.dlookup_cons_eq,
          List.dlookup_eq_none.mpr hNew, Option.getD_none,
          add_zero, Option.getD_some]
      · rw [if_neg hKey, List.dlookup_cons_ne _ _ hKey]

/- Merging adds the amounts of every key. -/
@[simp] theorem count_merge
    [AddMonoid 𝕜]
    (t increments : Tally κ 𝕜)
    (k : κ) :
    (t.merge increments).count k =
      t.count k + increments.count k :=
  count_bumpAll t _ increments.entries.nodupKeys k

------------------------------------------------------------
-- Amounts by key
------------------------------------------------------------

theorem count_eq_lookup
    [Zero 𝕜]
    (t : Tally κ 𝕜)
    (k : κ) :
    t.count k = (t.lookup k).getD 0 :=
  rfl

@[simp] theorem lookup_empty
    (k : κ) :
    (empty : Tally κ 𝕜).lookup k = none := by
  simp [lookup, empty]

theorem mem_keys_iff
    {t : Tally κ 𝕜}
    {k : κ} :
    k ∈ t.keys ↔ (t.lookup k).isSome := by
  unfold lookup keys
  rw [AList.lookup_isSome, AList.mem_keys]

theorem mem_toList
    {t : Tally κ 𝕜}
    {k : κ}
    {amount : 𝕜} :
    (k, amount) ∈ t.toList ↔ t.lookup k = some amount := by
  unfold toList lookup
  rw [← Option.mem_def, AList.mem_lookup_iff]
  simp only [List.mem_map, Prod.mk.injEq]
  constructor
  · rintro ⟨⟨_, _⟩, hMem, rfl, rfl⟩
    exact hMem
  · intro hMem
    exact ⟨⟨k, amount⟩, hMem, rfl, rfl⟩

@[simp] theorem lookup_set
    (t : Tally κ 𝕜)
    (k k' : κ)
    (amount : 𝕜) :
    (t.set k amount).lookup k' =
      if k' = k then some amount else t.lookup k' := by
  by_cases hKey : k' = k
  · subst hKey
    simp [lookup, set]
  · simp [lookup, set, AList.lookup_insert_ne hKey, hKey]

@[simp] theorem lookup_bump
    [Zero 𝕜]
    [Add 𝕜]
    (t : Tally κ 𝕜)
    (k k' : κ)
    (amount : 𝕜) :
    (t.bump k amount).lookup k' =
      if k' = k then some (t.count k + amount)
      else t.lookup k' := by
  by_cases hKey : k' = k
  · subst hKey
    simp [lookup, bump]
  · simp [lookup, bump, AList.lookup_insert_ne hKey, hKey]

/-
  What is read for a key once every amount was put into some
  place, when each put changes what is read for its own key.
-/
theorem read_foldl_toList
    {α : Type}
    (put : α → κ → 𝕜 → α)
    (read : α → κ → Option 𝕜)
    (hPut :
      ∀ place k amount k',
        read (put place k amount) k' =
          if k' = k then some amount else read place k')
    (t : Tally κ 𝕜)
    (place : α)
    (k : κ) :
    read (t.toList.foldl (fun acc e => put acc e.1 e.2) place)
        k =
      (t.lookup k).or (read place k) := by
  have hEntries :
      ∀ entries : List (Sigma (fun _ : κ => 𝕜)),
        entries.NodupKeys → ∀ acc : α,
          read
              ((entries.map (fun e => (e.1, e.2))).foldl
                (fun acc e => put acc e.1 e.2) acc) k =
            (entries.dlookup k).or (read acc k) := by
    intro entries hNodup acc
    induction entries generalizing acc with
    | nil => rfl
    | cons e entries ih =>
        rcases List.nodupKeys_cons.mp hNodup with
          ⟨hNew, hRest⟩
        rw [List.map_cons, List.foldl_cons, ih hRest, hPut]
        by_cases hKey : k = e.1
        · subst hKey
          rw [if_pos rfl, List.dlookup_cons_eq,
            List.dlookup_eq_none.mpr hNew]
          rfl
        · rw [if_neg hKey, List.dlookup_cons_ne _ _ hKey]
  exact hEntries _ t.entries.nodupKeys place

section Merge

variable [AddCommMonoid 𝕜]

/- A bump adds to what a key has. -/
theorem lookup_bump_merge
    (t : Tally κ 𝕜)
    (k k' : κ)
    (amount : 𝕜) :
    (t.bump k amount).lookup k' =
      (t.lookup k').merge (· + ·)
        (if k' = k then some amount else none) := by
  rw [lookup_bump]
  by_cases hKey : k' = k
  · subst hKey
    rw [if_pos rfl, if_pos rfl, count_eq_lookup]
    cases t.lookup k' with
    | none => simp
    | some held => simp
  · rw [if_neg hKey, if_neg hKey, Option.merge_none_right]

/- Merging adds what both have under a key. -/
theorem lookup_merge
    (t increments : Tally κ 𝕜)
    (k : κ) :
    (t.merge increments).lookup k =
      (t.lookup k).merge (· + ·) (increments.lookup k) := by
  have hEntries :
      ∀ entries : List (Sigma (fun _ : κ => 𝕜)),
        entries.NodupKeys → ∀ acc : Tally κ 𝕜,
          ((entries.map (fun e => (e.1, e.2))).foldl
              (fun acc e => acc.bump e.1 e.2) acc).lookup k =
            (acc.lookup k).merge (· + ·)
              (entries.dlookup k) := by
    intro entries hNodup acc
    induction entries generalizing acc with
    | nil => simp
    | cons e entries ih =>
        rcases List.nodupKeys_cons.mp hNodup with
          ⟨hNew, hRest⟩
        rw [List.map_cons, List.foldl_cons, ih hRest,
          lookup_bump_merge]
        by_cases hKey : k = e.1
        · subst hKey
          rw [if_pos rfl, List.dlookup_cons_eq,
            List.dlookup_eq_none.mpr hNew,
            Option.merge_none_right]
        · rw [if_neg hKey, List.dlookup_cons_ne _ _ hKey,
            Option.merge_none_right]
  exact hEntries _ increments.entries.nodupKeys t

theorem mem_keys_merge
    (t increments : Tally κ 𝕜)
    (k : κ) :
    k ∈ (t.merge increments).keys ↔
      k ∈ t.keys ∨ k ∈ increments.keys := by
  rw [mem_keys_iff, mem_keys_iff, mem_keys_iff, lookup_merge]
  cases t.lookup k <;> cases increments.lookup k <;> simp

/-
  What a key has after some tallies are merged, one after the
  other.
-/
theorem lookup_foldl_merge
    (t : Tally κ 𝕜)
    (increments : List (Tally κ 𝕜))
    (k : κ) :
    (increments.foldl merge t).lookup k =
      (increments.map (fun inc => inc.lookup k)).foldl
        (Option.merge (· + ·)) (t.lookup k) := by
  induction increments generalizing t with
  | nil => rfl
  | cons inc increments ih =>
      rw [List.foldl_cons, ih, lookup_merge]
      rfl

end Merge

/- Two tallies with the same amount for every key. -/
def Same (t t' : Tally κ 𝕜) : Prop :=
  ∀ k, t.lookup k = t'.lookup k

theorem Same.mem_keys
    {t t' : Tally κ 𝕜}
    (hSame : t.Same t')
    (k : κ) :
    k ∈ t.keys ↔ k ∈ t'.keys := by
  rw [mem_keys_iff, mem_keys_iff, hSame k]

/- The entries are the same up to their order. -/
theorem Same.perm
    {t t' : Tally κ 𝕜}
    (hSame : t.Same t') :
    t.entries.entries.Perm t'.entries.entries := by
  apply List.lookup_ext t.entries.nodupKeys
    t'.entries.nodupKeys
  intro k amount
  exact iff_of_eq (congrArg (amount ∈ ·) (hSame k))

theorem Same.toList_perm
    {t t' : Tally κ 𝕜}
    (hSame : t.Same t') :
    t.toList.Perm t'.toList :=
  hSame.perm.map _

theorem Same.values_perm
    {t t' : Tally κ 𝕜}
    (hSame : t.Same t') :
    t.values.Perm t'.values :=
  hSame.perm.map _

/- Merged tallies add up. -/
theorem count_foldl_merge
    [AddMonoid 𝕜]
    (t : Tally κ 𝕜)
    (increments : List (Tally κ 𝕜))
    (k : κ) :
    (increments.foldl merge t).count k =
      t.count k +
        (increments.map (fun inc => inc.count k)).sum := by
  induction increments generalizing t with
  | nil => simp
  | cons inc increments ih =>
      rw [List.foldl_cons, ih, count_merge, List.map_cons,
        List.sum_cons, add_assoc]

/- A tally that counts a list has its values and how often. -/
theorem positive_perm
    [Semiring 𝕜]
    [LinearOrder 𝕜]
    [IsStrictOrderedRing 𝕜]
    {t : Tally κ 𝕜}
    {l : List κ}
    (hCount : ∀ k, t.count k = (l.count k : 𝕜)) :
    (t.toList.filter (fun e => decide (0 < e.2))).Perm
      (l.dedup.map (fun k => (k, (l.count k : 𝕜)))) := by
  have hKeys : t.toList.map Prod.fst = t.keys := by
    unfold toList keys AList.keys List.keys
    rw [List.map_map]
    rfl
  have hNodup : t.toList.Nodup := by
    apply List.Nodup.of_map Prod.fst
    rw [hKeys]
    exact t.keys_nodup
  have hNodup' :
      (l.dedup.map (fun k => (k, (l.count k : 𝕜)))).Nodup := by
    apply List.Nodup.of_map Prod.fst
    rw [List.map_map]
    simpa [Function.comp_def] using l.nodup_dedup
  apply
    (List.perm_ext_iff_of_nodup (hNodup.filter _) hNodup').mpr
  rintro ⟨k, amount⟩
  simp only [List.mem_filter, mem_toList, decide_eq_true_eq,
    List.mem_map, List.mem_dedup, Prod.mk.injEq]
  have hAmount := hCount k
  rw [count_eq_lookup] at hAmount
  constructor
  · rintro ⟨hLookup, hPos⟩
    rw [hLookup, Option.getD_some] at hAmount
    subst hAmount
    refine ⟨k, ?_, rfl, rfl⟩
    exact List.count_pos_iff.mp (by exact_mod_cast hPos)
  · rintro ⟨k, hMem, rfl, rfl⟩
    have hPos : (0 : 𝕜) < (l.count k : 𝕜) := by
      exact_mod_cast List.count_pos_iff.mpr hMem
    refine ⟨?_, hPos⟩
    cases hLookup : t.lookup k with
    | none =>
        rw [hLookup, Option.getD_none] at hAmount
        exact absurd hAmount hPos.ne
    | some found =>
        rw [hLookup, Option.getD_some] at hAmount
        rw [hAmount]

/- The order in which tallies are merged does not matter. -/
theorem same_foldl_merge
    [AddCommMonoid 𝕜]
    {t t' : Tally κ 𝕜}
    (hSame : t.Same t')
    {increments increments' : List (Tally κ 𝕜)}
    (hPerm : increments.Perm increments') :
    (increments.foldl merge t).Same
      (increments'.foldl merge t') := by
  intro k
  rw [lookup_foldl_merge, lookup_foldl_merge, hSame k]
  have hRight : RightCommutative
      (Option.merge ((· + ·) : 𝕜 → 𝕜 → 𝕜)) :=
    { right_comm := by
        intro a b c
        cases a <;> cases b <;> cases c <;>
          simp [add_comm, add_left_comm] }
  exact (hPerm.map _).foldl_eq _

end Tally

------------------------------------------------------------
-- Tallies under keys
------------------------------------------------------------

/- A dictionary of tallies, each empty until it is used. -/
structure TallyMap (κ ν 𝕜 : Type) where
  entries : AList (fun _ : κ => Tally ν 𝕜)

namespace TallyMap

variable {κ ν 𝕜 : Type}
variable [DecidableEq κ] [DecidableEq ν]

def empty : TallyMap κ ν 𝕜 :=
  ⟨∅⟩

/- The tally under a key, empty when the key is missing. -/
def tally
    (m : TallyMap κ ν 𝕜)
    (k : κ) : Tally ν 𝕜 :=
  (m.entries.lookup k).getD .empty

/- The keys that have a tally. -/
def keys (m : TallyMap κ ν 𝕜) : Finset κ :=
  m.entries.keys.toFinset

/- Add to one amount of the tally under a key. -/
def bump
    [Zero 𝕜]
    [Add 𝕜]
    (m : TallyMap κ ν 𝕜)
    (k : κ)
    (v : ν)
    (amount : 𝕜) : TallyMap κ ν 𝕜 :=
  ⟨m.entries.insert k ((m.tally k).bump v amount)⟩

omit [DecidableEq ν] in
@[simp] theorem tally_empty
    (k : κ) :
    (empty : TallyMap κ ν 𝕜).tally k = .empty := by
  simp [tally, empty]

@[simp] theorem mem_keys_tally_bump
    [Zero 𝕜]
    [Add 𝕜]
    (m : TallyMap κ ν 𝕜)
    (k k' : κ)
    (v v' : ν)
    (amount : 𝕜) :
    v' ∈ ((m.bump k v amount).tally k').keys ↔
      (k' = k ∧ v' = v) ∨ v' ∈ (m.tally k').keys := by
  by_cases hKey : k' = k
  · subst hKey
    simp [tally, bump]
  · simp [tally, bump, AList.lookup_insert_ne hKey, hKey]

@[simp] theorem mem_keys_bump
    [Zero 𝕜]
    [Add 𝕜]
    (m : TallyMap κ ν 𝕜)
    (k k' : κ)
    (v : ν)
    (amount : 𝕜) :
    k' ∈ (m.bump k v amount).keys ↔
      k' = k ∨ k' ∈ m.keys := by
  simp only [keys, List.mem_toFinset, bump,
    ← AList.mem_keys, AList.mem_insert]

end TallyMap
