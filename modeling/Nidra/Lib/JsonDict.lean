import Mathlib
import Nidra.Lib.Numerals

/-
  This file defines the values of a JSON file as a program
  handles them, with the numbers of a type of its own, and
  the dictionaries of which such a file consists.

  Key definitions include:
    * `JsonValue`, `JsonObject`
    * `JsonObject.update`
    * `JsonValue.array?`, `JsonValue.fields?`

  Main declarations:
    * `JsonObject.lookup_update`
    * `List.mapM_map_eq_some`
-/

inductive JsonValue (ν : Type) where
  | null
  | natural (n : ℕ)
  | number (x : ν)
  | text (s : String)
  | array (values : List (JsonValue ν))
  | object (fields : List (String × JsonValue ν))

/- A dictionary, whose keys differ. -/
abbrev JsonObject (ν : Type) :=
  List (String × JsonValue ν)

section Reading

variable {ν α β : Type}

namespace JsonValue

def text? : JsonValue ν → Option String
  | .text s => some s
  | _ => none

def natural? : JsonValue ν → Option ℕ
  | .natural n => some n
  | _ => none

/- A whole number is a number, too. -/
def number? [NatCast ν] : JsonValue ν → Option ν
  | .natural n => some n
  | .number x => some x
  | _ => none

@[simp] theorem text?_text (s : String) :
    text? (ν := ν) (.text s) = some s := rfl

@[simp] theorem natural?_natural (n : ℕ) :
    natural? (ν := ν) (.natural n) = some n := rfl

@[simp] theorem number?_number [NatCast ν] (x : ν) :
    number? (.number x) = some x := rfl

/- The entries of an array, each read on its own. -/
def array?
    (read : JsonValue ν → Option α) :
    JsonValue ν → Option (List α)
  | .array values => values.mapM read
  | _ => none

/- The entries of a dictionary, each read on its own. -/
def fields?
    (read : JsonValue ν → Option α) :
    JsonValue ν → Option (List (String × α))
  | .object fields =>
      fields.mapM
        (fun entry => (read entry.2).map (entry.1, ·))
  | _ => none

end JsonValue

/- What is written entry by entry is read entry by entry. -/
theorem List.mapM_map_eq_some
    {read : β → Option α}
    {write : α → β}
    (hRead : ∀ a, read (write a) = some a)
    (l : List α) :
    (l.map write).mapM read = some l := by
  induction l with
  | nil => rfl
  | cons a l ih => simp [hRead, ih]

namespace JsonValue

theorem array?_map
    {read : JsonValue ν → Option α}
    {write : α → JsonValue ν}
    (hRead : ∀ a, read (write a) = some a)
    (l : List α) :
    (JsonValue.array (l.map write)).array? read = some l :=
  List.mapM_map_eq_some hRead l

theorem fields?_map
    {read : JsonValue ν → Option α}
    {write : α → JsonValue ν}
    (hRead : ∀ a, read (write a) = some a)
    (l : List (String × α)) :
    (JsonValue.object
        (l.map (fun entry =>
          (entry.1, write entry.2)))).fields? read =
      some l := by
  apply List.mapM_map_eq_some
  intro entry
  rw [hRead]
  rfl

end JsonValue

namespace JsonObject

/-
  Overwrite a dictionary with another one. What it has
  already stays in its place.
-/
def update (d e : JsonObject ν) : JsonObject ν :=
  d.map (fun entry =>
      (entry.1, (e.lookup entry.1).getD entry.2)) ++
    e.filter (fun entry => (d.lookup entry.1).isNone)

theorem lookup_map_overwrite
    (d e : JsonObject ν)
    (key : String) :
    (d.map (fun entry =>
        (entry.1, (e.lookup entry.1).getD entry.2))).lookup
          key =
      (d.lookup key).map
        (fun value => (e.lookup key).getD value) := by
  induction d with
  | nil => rfl
  | cons entry d ih =>
      rcases entry with ⟨other, value⟩
      rcases eq_or_ne key other with rfl | hNe
      · simp [List.lookup]
      · have hFalse : (key == other) = false := by
          simpa using hNe
        simp only [List.map_cons, List.lookup_cons, hFalse]
        exact ih

theorem lookup_filter_absent
    (d e : JsonObject ν)
    {key : String}
    (hAbsent : d.lookup key = none) :
    (e.filter (fun entry =>
        (d.lookup entry.1).isNone)).lookup key =
      e.lookup key := by
  induction e with
  | nil => rfl
  | cons entry e ih =>
      rcases entry with ⟨other, value⟩
      rcases eq_or_ne key other with rfl | hNe
      · simp [List.lookup, hAbsent]
      · have hFalse : (key == other) = false := by
          simpa using hNe
        rw [List.filter_cons]
        split
        · rw [List.lookup_cons, List.lookup_cons, hFalse]
          exact ih
        · rw [List.lookup_cons, hFalse]
          exact ih

/- The overwriting dictionary goes first. -/
theorem lookup_update
    (d e : JsonObject ν)
    (key : String) :
    (update d e).lookup key =
      (e.lookup key).or (d.lookup key) := by
  rw [update, List.lookup_append, lookup_map_overwrite]
  cases hD : d.lookup key with
  | none =>
      rw [lookup_filter_absent d e hD]
      simp
  | some value =>
      cases e.lookup key with
      | none => rfl
      | some written => rfl

end JsonObject

end Reading
