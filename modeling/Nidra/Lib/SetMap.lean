import Mathlib
import Nidra.Lib.Numerals

/-
  This file defines dictionaries whose values are sets, read
  with the empty set for a missing key, and what is read
  after one addition or after a list of additions.

  Key definitions include:
    * `SetMap`
    * `SetMap.members`
    * `SetMap.add`
    * `SetMap.touch`
-/

/- A dictionary from keys to finite sets. -/
structure SetMap (κ ν : Type) where
  entries : AList (fun _ : κ => Finset ν)

namespace SetMap

variable {κ ν : Type}
variable [DecidableEq κ]

def empty : SetMap κ ν :=
  ⟨∅⟩

/- The set under a key, empty when the key is missing. -/
def members
    (m : SetMap κ ν)
    (k : κ) : Finset ν :=
  (m.entries.lookup k).getD ∅

/- The keys that have a set, empty or not. -/
def keys (m : SetMap κ ν) : Finset κ :=
  m.entries.keys.toFinset

/- Add one value to the set under a key. -/
def add
    [DecidableEq ν]
    (m : SetMap κ ν)
    (k : κ)
    (v : ν) : SetMap κ ν :=
  ⟨m.entries.insert k (insert v (m.members k))⟩

/- Give a missing key the empty set. -/
def touch
    (m : SetMap κ ν)
    (k : κ) : SetMap κ ν :=
  match m.entries.lookup k with
  | some _ => m
  | none => ⟨m.entries.insert k ∅⟩

@[simp] theorem members_empty
    (k : κ) :
    (empty : SetMap κ ν).members k = ∅ := by
  simp [members, empty]

@[simp] theorem mem_members_add
    [DecidableEq ν]
    (m : SetMap κ ν)
    (k k' : κ)
    (v v' : ν) :
    v' ∈ (m.add k v).members k' ↔
      (k' = k ∧ v' = v) ∨ v' ∈ m.members k' := by
  by_cases hKey : k' = k
  · subst hKey
    simp [members, add]
  · simp [members, add, AList.lookup_insert_ne hKey, hKey]

@[simp] theorem members_touch
    (m : SetMap κ ν)
    (k k' : κ) :
    (m.touch k).members k' = m.members k' := by
  unfold touch
  cases hLookup : m.entries.lookup k with
  | some s => rfl
  | none =>
      by_cases hKey : k' = k
      · subst hKey
        simp [members, hLookup]
      · simp [members, AList.lookup_insert_ne hKey]

@[simp] theorem mem_keys_add
    [DecidableEq ν]
    (m : SetMap κ ν)
    (k k' : κ)
    (v : ν) :
    k' ∈ (m.add k v).keys ↔ k' = k ∨ k' ∈ m.keys := by
  simp only [keys, List.mem_toFinset, add,
    ← AList.mem_keys, AList.mem_insert]

end SetMap
