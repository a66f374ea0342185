import Mathlib
import Nidra.Lib.Numerals

/-
  This file defines the values of a YAML file as a program
  handles them: scalars, lists and mappings. It says what is
  found under a key, under a path of keys, and anywhere
  inside a value.

  Key definitions include:
    * `Yaml.Key`, `Yaml`
    * `Yaml.set`, `Yaml.drop`
    * `Yaml.within`, `Yaml.under`
    * `Yaml.Distinct`

  Main declarations:
    * `Yaml.lookup_set`
    * `Yaml.lookup_drop`
    * `Yaml.distinct_mapping`
-/

/- A key is a text, or one of the scalars that are none. -/
inductive Yaml.Key where
  | text (s : String)
  | other (n : ℕ)
deriving DecidableEq

/-
  A value of a YAML file. Of a scalar that is neither null
  nor a text only its truth value and its name are kept.
-/
inductive Yaml where
  | null
  | text (s : String)
  | scalar (truth : Bool) (name : ℕ)
  | list (items : List Yaml)
  | mapping (entries : List (Yaml.Key × Yaml))

namespace Yaml

/- A dictionary, in the order in which it was filled. -/
abbrev Dict :=
  List (Key × Yaml)

/- What counts as true: no null, and nothing empty. -/
def truthy : Yaml → Bool
  | .null => false
  | .text s => decide (s ≠ "")
  | .scalar truth _ => truth
  | .list items => !items.isEmpty
  | .mapping entries => !entries.isEmpty

/- Assign to a key; one that is there stays in its place. -/
def set
    (d : Dict)
    (key : Key)
    (value : Yaml) : Dict :=
  match d with
  | [] => [(key, value)]
  | entry :: rest =>
      if entry.1 = key then (key, value) :: rest
      else entry :: set rest key value

/- All entries but the one of a key. -/
def drop
    (d : Dict)
    (key : Key) : Dict :=
  d.filter (fun entry => entry.1 ≠ key)

theorem lookup_set
    (d : Dict)
    (key : Key)
    (value : Yaml)
    (k : Key) :
    (set d key value).lookup k =
      if k = key then some value else d.lookup k := by
  induction d with
  | nil =>
      unfold set
      rw [List.lookup_cons]
      by_cases hKey : k = key
      · rw [if_pos hKey, beq_iff_eq.mpr hKey]
      · rw [if_neg hKey, beq_eq_false_iff_ne.mpr hKey]
  | cons entry rest ih =>
      rcases entry with ⟨other, old⟩
      unfold set
      split
      · rename_i hSame
        dsimp only at hSame
        subst hSame
        rw [List.lookup_cons, List.lookup_cons]
        by_cases hKey : k = other
        · rw [if_pos hKey, beq_iff_eq.mpr hKey]
        · rw [if_neg hKey, beq_eq_false_iff_ne.mpr hKey]
      · rename_i hOther
        dsimp only at hOther
        rw [List.lookup_cons, List.lookup_cons, ih]
        by_cases hKey : k = key
        · subst hKey
          have hNe : (k == other) = false := by
            simpa using fun hEq => hOther hEq.symm
          rw [hNe, if_pos rfl]
        · rw [if_neg hKey, if_neg hKey]

theorem lookup_drop
    (d : Dict)
    (key k : Key) :
    (drop d key).lookup k =
      if k = key then none else d.lookup k := by
  induction d with
  | nil => simp [drop]
  | cons entry rest ih =>
      rcases entry with ⟨other, old⟩
      unfold drop at ih ⊢
      rw [List.filter_cons]
      by_cases hSame : other = key
      · subst hSame
        rw [if_neg (by simp), ih, List.lookup_cons]
        by_cases hKey : k = other
        · rw [if_pos hKey, if_pos hKey]
        · have hNe : (k == other) = false := by
            simpa using hKey
          rw [hNe]
      · rw [if_pos (by simpa using hSame), List.lookup_cons,
          List.lookup_cons, ih]
        by_cases hKey : k = key
        · subst hKey
          have hNe : (k == other) = false := by
            simpa using fun hEq => hSame hEq.symm
          rw [hNe, if_pos rfl]
        · rw [if_neg hKey, if_neg hKey]

------------------------------------------------------------
-- Inside a value
------------------------------------------------------------

/- One step into a value. -/
inductive Step where
  | key (k : Key)
  | index (i : ℕ)

/- What a step leads to. -/
def next : Yaml → Step → Option Yaml
  | .mapping entries, .key k => entries.lookup k
  | .list items, .index i => items[i]?
  | _, _ => none

/- What is found inside a value. -/
def within
    (value : Yaml) : List Step → Option Yaml
  | [] => some value
  | step :: steps =>
      (value.next step).bind (fun inner => inner.within steps)

/- What is found under a path of keys. -/
def under
    (value : Yaml)
    (path : List Key) : Option Yaml :=
  value.within (path.map Step.key)

theorem under_cons
    (value : Yaml)
    (k : Key)
    (path : List Key) :
    value.under (k :: path) =
      (value.next (.key k)).bind
        (fun inner => inner.under path) := rfl

/- The keys of every mapping inside a value differ. -/
def Distinct (value : Yaml) : Prop :=
  ∀ steps entries,
    value.within steps = some (.mapping entries) →
      (entries.map Prod.fst).Nodup

/- No mapping inside a value has a key. -/
def Without
    (key : Key)
    (value : Yaml) : Prop :=
  ∀ steps entries,
    value.within steps = some (.mapping entries) →
      entries.lookup key = none

theorem Distinct.next
    {value inner : Yaml}
    (hDistinct : value.Distinct)
    {step : Step}
    (hNext : value.next step = some inner) :
    inner.Distinct := by
  intro steps entries hWithin
  apply hDistinct (step :: steps) entries
  unfold within
  rw [hNext]
  exact hWithin

theorem within_append
    (value : Yaml)
    (steps steps' : List Step) :
    value.within (steps ++ steps') =
      (value.within steps).bind
        (fun inner => inner.within steps') := by
  induction steps generalizing value with
  | nil => rfl
  | cons step steps ih =>
      change
        (value.next step).bind
            (fun inner => inner.within (steps ++ steps')) =
          ((value.next step).bind
            (fun inner => inner.within steps)).bind
            (fun inner => inner.within steps')
      rw [Option.bind_assoc]
      exact Option.bind_congr (fun inner _ => ih inner)

theorem distinct_of_next
    {value : Yaml}
    (hTop :
      ∀ entries, value = .mapping entries →
        (entries.map Prod.fst).Nodup)
    (hNext :
      ∀ step inner, value.next step = some inner →
        inner.Distinct) :
    value.Distinct := by
  intro steps entries hWithin
  cases steps with
  | nil => exact hTop entries (Option.some.inj hWithin)
  | cons step steps =>
      rcases Option.bind_eq_some_iff.mp hWithin with
        ⟨inner, hInner, hRest⟩
      exact hNext step inner hInner steps entries hRest

/- A mapping of distinct values whose keys differ. -/
theorem distinct_mapping
    {entries : Dict}
    (hKeys : (entries.map Prod.fst).Nodup)
    (hValues : ∀ entry ∈ entries, entry.2.Distinct) :
    (Yaml.mapping entries).Distinct := by
  apply distinct_of_next
  · intro entries' hSame
    cases hSame
    exact hKeys
  · intro step inner hNext
    cases step with
    | key k =>
        obtain ⟨before, after, rfl, _⟩ :=
          List.lookup_eq_some_iff.mp hNext
        exact
          hValues (k, inner)
            (List.mem_append_right _ List.mem_cons_self)
    | index i => cases hNext

theorem distinct_text (s : String) : (Yaml.text s).Distinct := by
  apply distinct_of_next
  · intro entries hSame
    cases hSame
  · intro step inner hNext
    cases step <;> cases hNext

theorem distinct_scalar
    (truth : Bool)
    (name : ℕ) :
    (Yaml.scalar truth name).Distinct := by
  apply distinct_of_next
  · intro entries hSame
    cases hSame
  · intro step inner hNext
    cases step <;> cases hNext

theorem distinct_nil : (Yaml.mapping []).Distinct :=
  distinct_mapping List.nodup_nil (List.forall_mem_nil _)

theorem Distinct.nodup_keys
    {d : Dict}
    (hDistinct : (Yaml.mapping d).Distinct) :
    (d.map Prod.fst).Nodup :=
  hDistinct [] d rfl

theorem Distinct.drop
    {d : Dict}
    (hDistinct : (Yaml.mapping d).Distinct)
    (key : Key) :
    (Yaml.mapping (drop d key)).Distinct := by
  apply distinct_of_next
  · intro entries hSame
    cases hSame
    exact
      hDistinct.nodup_keys.sublist
        (List.filter_sublist.map Prod.fst)
  · intro step inner hNext
    cases step with
    | key k =>
        change (Yaml.drop d key).lookup k = some inner at hNext
        rw [lookup_drop] at hNext
        split at hNext
        · cases hNext
        · have hSame :
              (Yaml.mapping d).next (.key k) = some inner :=
            hNext
          exact hDistinct.next hSame
    | index i => cases hNext

end Yaml
