import Nidra.Lib.Program
import Nidra.Lib.TtlStore

/-
  This file states when a program keeps to its part of a
  shared state: on states that agree inside that part it does
  the same, and outside of it nothing is seen of it.

  Key definitions include:
    * `Program.Confined`
    * `TtlStore.AgreeOn`

  Main declarations:
    * `Program.Confined.bind`
    * `TtlStore.AgreeOn.get`
    * `TtlStore.AgreeOn.put`, `TtlStore.agreeOn_put`
-/

------------------------------------------------------------
-- Programs
------------------------------------------------------------

namespace Program

variable {σ α β : Type}
variable {inside outside : σ → σ → Prop}

/-
  From states that agree inside, a program has the same value
  and leaves states that agree inside; outside, the state is
  as it was.
-/
structure Confined
    (inside outside : σ → σ → Prop)
    (p : Program σ α) : Prop where
  same :
    ∀ s s', inside s s' →
      p.eval s = p.eval s' ∧ inside (p.exec s) (p.exec s')
  unseen : ∀ s, outside s (p.exec s)

theorem confined_pure
    (hRefl : ∀ s, outside s s)
    (a : α) :
    Confined inside outside (pure a : Program σ α) :=
  { same := fun _ _ hInside => ⟨rfl, hInside⟩
    unseen := hRefl }

/- Programs in sequence keep to their part when each does. -/
theorem Confined.bind
    (hTrans :
      ∀ s s' s'', outside s s' → outside s' s'' →
        outside s s'')
    {p : Program σ α}
    {f : α → Program σ β}
    (hP : Confined inside outside p)
    (hF : ∀ a, Confined inside outside (f a)) :
    Confined inside outside (p >>= f) := by
  constructor
  · intro s s' hInside
    rcases hP.same s s' hInside with ⟨hValue, hAfter⟩
    rw [eval_bind, eval_bind, exec_bind, exec_bind, ← hValue]
    exact (hF _).same _ _ hAfter
  · intro s
    rw [exec_bind]
    exact hTrans _ _ _ (hP.unseen s) ((hF _).unseen _)

theorem confined_read
    (hRefl : ∀ s, outside s s)
    {f : σ → α}
    (hSame : ∀ s s', inside s s' → f s = f s') :
    Confined inside outside (read f) :=
  { same := fun s s' hInside => ⟨hSame s s' hInside, hInside⟩
    unseen := hRefl }

theorem confined_write
    {f : σ → σ}
    (hSame :
      ∀ s s', inside s s' → inside (f s) (f s'))
    (hUnseen : ∀ s, outside s (f s)) :
    Confined inside outside (write f) :=
  { same := fun s s' hInside => ⟨rfl, hSame s s' hInside⟩
    unseen := hUnseen }

theorem confined_step
    {f : σ → α × σ}
    (hSame :
      ∀ s s', inside s s' →
        (f s).1 = (f s').1 ∧ inside (f s).2 (f s').2)
    (hUnseen : ∀ s, outside s (f s).2) :
    Confined inside outside (step f) :=
  { same := hSame
    unseen := hUnseen }

end Program

------------------------------------------------------------
-- Stores
------------------------------------------------------------

namespace TtlStore

variable {τ κ ν : Type}
variable [DecidableEq κ]

/- Two stores have the same entries at some of the keys. -/
def AgreeOn
    (part : κ → Prop)
    (s s' : TtlStore τ κ ν) : Prop :=
  ∀ k, part k → s.entries.lookup k = s'.entries.lookup k

section Agree

variable {part : κ → Prop}
variable {s s' s'' : TtlStore τ κ ν}

@[simp] theorem agreeOn_refl : AgreeOn part s s :=
  fun _ _ => rfl

theorem AgreeOn.symm
    (hAgree : AgreeOn part s s') :
    AgreeOn part s' s :=
  fun k hPart => (hAgree k hPart).symm

theorem AgreeOn.trans
    (hFirst : AgreeOn part s s')
    (hSecond : AgreeOn part s' s'') :
    AgreeOn part s s'' :=
  fun k hPart => (hFirst k hPart).trans (hSecond k hPart)

/- A removal in both stores. -/
theorem AgreeOn.delete
    (hAgree : AgreeOn part s s')
    (k : κ) :
    AgreeOn part (s.delete k) (s'.delete k) := by
  intro k' hPart
  by_cases hKey : k' = k
  · subst hKey
    rw [TtlStore.delete, TtlStore.delete,
      AList.lookup_erase, AList.lookup_erase]
  · rw [TtlStore.delete, TtlStore.delete,
      AList.lookup_erase_ne hKey, AList.lookup_erase_ne hKey]
    exact hAgree k' hPart

/- A removal elsewhere. -/
theorem agreeOn_delete
    {k : κ}
    (hNot : ¬ part k) :
    AgreeOn part s (s.delete k) := by
  intro k' hPart
  have hKey : k' ≠ k := by
    rintro rfl
    exact hNot hPart
  rw [TtlStore.delete, AList.lookup_erase_ne hKey]

theorem AgreeOn.foldl_delete
    {α : Type}
    (hAgree : AgreeOn part s s')
    (key : α → κ)
    (members : List α) :
    AgreeOn part
      (members.foldl (fun s a => s.delete (key a)) s)
      (members.foldl (fun s a => s.delete (key a)) s') := by
  induction members generalizing s s' with
  | nil => exact hAgree
  | cons a rest ih => exact ih (hAgree.delete (key a))

theorem agreeOn_foldl_delete
    {α : Type}
    (key : α → κ)
    (hNot : ∀ a, ¬ part (key a))
    (members : List α) :
    AgreeOn part s
      (members.foldl (fun s a => s.delete (key a)) s) := by
  induction members generalizing s with
  | nil => exact agreeOn_refl
  | cons a rest ih =>
      exact (agreeOn_delete (hNot a)).trans ih

variable [LinearOrder τ]

theorem AgreeOn.entry
    (hAgree : AgreeOn part s s')
    {k : κ}
    (hPart : part k)
    (now : τ) :
    s.entry now k = s'.entry now k := by
  unfold TtlStore.entry
  rw [hAgree k hPart]

/- What is read at a key of the part is the same. -/
theorem AgreeOn.get
    (hAgree : AgreeOn part s s')
    {k : κ}
    (hPart : part k)
    (now : τ) :
    s.get now k = s'.get now k := by
  unfold TtlStore.get
  rw [hAgree.entry hPart]

/- A write in both stores. -/
theorem AgreeOn.put
    (hAgree : AgreeOn part s s')
    {k : κ}
    (hPart : part k)
    (now : τ)
    (v : ν) :
    AgreeOn part (s.put now k v) (s'.put now k v) := by
  intro k' hPart'
  unfold TtlStore.put
  rw [hAgree.entry hPart]
  by_cases hKey : k' = k
  · subst hKey
    rw [AList.lookup_insert, AList.lookup_insert]
  · rw [AList.lookup_insert_ne hKey,
      AList.lookup_insert_ne hKey]
    exact hAgree k' hPart'

/- A write elsewhere. -/
theorem agreeOn_put
    {k : κ}
    (hNot : ¬ part k)
    (now : τ)
    (v : ν) :
    AgreeOn part s (s.put now k v) := by
  intro k' hPart
  have hKey : k' ≠ k := by
    rintro rfl
    exact hNot hPart
  rw [TtlStore.put, AList.lookup_insert_ne hKey]

variable [Add τ]

/- A deadline that is set in both stores. -/
theorem AgreeOn.expire
    (hAgree : AgreeOn part s s')
    {k : κ}
    (hPart : part k)
    (now ttl : τ) :
    AgreeOn part (s.expire now ttl k)
      (s'.expire now ttl k) := by
  unfold TtlStore.expire
  rw [hAgree.entry hPart]
  cases s'.entry now k with
  | none => exact hAgree
  | some e =>
      intro k' hPart'
      by_cases hKey : k' = k
      · subst hKey
        rw [AList.lookup_insert, AList.lookup_insert]
      · rw [AList.lookup_insert_ne hKey,
          AList.lookup_insert_ne hKey]
        exact hAgree k' hPart'

/- A deadline that is set elsewhere. -/
theorem agreeOn_expire
    {k : κ}
    (hNot : ¬ part k)
    (now ttl : τ) :
    AgreeOn part s (s.expire now ttl k) := by
  unfold TtlStore.expire
  cases s.entry now k with
  | none => exact agreeOn_refl
  | some e =>
      intro k' hPart
      have hKey : k' ≠ k := by
        rintro rfl
        exact hNot hPart
      rw [AList.lookup_insert_ne hKey]

theorem AgreeOn.renew
    (hAgree : AgreeOn part s s')
    {k : κ}
    (hPart : part k)
    (now ttl : τ)
    (v : ν) :
    AgreeOn part (s.renew now ttl k v)
      (s'.renew now ttl k v) :=
  (hAgree.put hPart now v).expire hPart now ttl

theorem agreeOn_renew
    {k : κ}
    (hNot : ¬ part k)
    (now ttl : τ)
    (v : ν) :
    AgreeOn part s (s.renew now ttl k v) :=
  (agreeOn_put hNot now v).trans (agreeOn_expire hNot now ttl)

end Agree

end TtlStore
