import Mathlib
import Nidra.Lib.Numerals

/-
  This file defines key-value stores whose keys expire: a
  finite map from keys to values, each with the deadline
  from which it counts as absent, if it has one.

  Key definitions include:
    * `TtlEntry`
    * `TtlEntry.liveAt`
    * `TtlStore`
    * `TtlStore.get`
    * `TtlStore.put`
    * `TtlStore.expire`
    * `TtlStore.renew`
    * `TtlStore.delete`
    * `TtlStore.written`, `TtlStore.Kept`, `TtlStore.Lasts`
    * `TtlStore.liveKeys`
-/

/- A stored value with the time from which it is absent. -/
structure TtlEntry (τ ν : Type) where
  value : ν
  deadline : Option τ

/- Whether an entry still counts as present at a time. -/
def TtlEntry.liveAt
    {τ ν : Type}
    [LinearOrder τ]
    (e : TtlEntry τ ν)
    (now : τ) : Bool :=
  match e.deadline with
  | none => true
  | some d => decide (now < d)

/- A finite map whose entries may expire. -/
structure TtlStore (τ κ ν : Type) where
  entries : AList (fun _ : κ => TtlEntry τ ν)

namespace TtlStore

variable {τ κ ν : Type}
variable [DecidableEq κ]

------------------------------------------------------------
-- Operations
------------------------------------------------------------

/- The store that holds nothing. -/
def empty : TtlStore τ κ ν :=
  ⟨∅⟩

section Operations

variable [LinearOrder τ]

/- The entry of a key, if it is present at a time. -/
def entry
    (s : TtlStore τ κ ν)
    (now : τ)
    (k : κ) : Option (TtlEntry τ ν) :=
  (s.entries.lookup k).filter (fun e => e.liveAt now)

/- The value of a key, if it is present at a time. -/
def get
    (s : TtlStore τ κ ν)
    (now : τ)
    (k : κ) : Option ν :=
  (s.entry now k).map TtlEntry.value

/-
  Write a key. A present key keeps its deadline, and an
  absent one is created without a deadline.
-/
def put
    (s : TtlStore τ κ ν)
    (now : τ)
    (k : κ)
    (v : ν) : TtlStore τ κ ν :=
  ⟨s.entries.insert k
    { value := v
      deadline :=
        (s.entry now k).bind TtlEntry.deadline }⟩

/- Set the deadline of a key that is present. -/
def expire
    [Add τ]
    (s : TtlStore τ κ ν)
    (now ttl : τ)
    (k : κ) : TtlStore τ κ ν :=
  match s.entry now k with
  | none => s
  | some e =>
      ⟨s.entries.insert k
        { e with deadline := some (now + ttl) }⟩

/- The value written last to a key, expired or not. -/
def written
    (s : TtlStore τ κ ν)
    (k : κ) : Option ν :=
  (s.entries.lookup k).map TtlEntry.value

/- What was written last to a key is still present. -/
def Kept
    (s : TtlStore τ κ ν)
    (now : τ)
    (k : κ) : Prop :=
  s.get now k = s.written k

/- Every deadline in the store comes after a time. -/
def Lasts
    (s : TtlStore τ κ ν)
    (last : τ) : Prop :=
  ∀ k, ∀ e ∈ s.entries.lookup k, ∀ d ∈ e.deadline, last < d

/- Write a key and set its deadline. -/
def renew
    [Add τ]
    (s : TtlStore τ κ ν)
    (now ttl : τ)
    (k : κ)
    (v : ν) : TtlStore τ κ ν :=
  (s.put now k v).expire now ttl k

/- Remove a key. -/
def delete
    (s : TtlStore τ κ ν)
    (k : κ) : TtlStore τ κ ν :=
  ⟨s.entries.erase k⟩

/- The keys that are present at a time. -/
def liveKeys
    (s : TtlStore τ κ ν)
    (now : τ) : List κ :=
  s.entries.keys.filter
    (fun k => (s.entry now k).isSome)

end Operations

------------------------------------------------------------
-- Reading after an operation
------------------------------------------------------------

section Lemmas

variable [LinearOrder τ]

@[simp] theorem get_empty
    (now : τ)
    (k : κ) :
    (empty : TtlStore τ κ ν).get now k = none := by
  simp [get, entry, empty]

@[simp] theorem get_put_ne
    (s : TtlStore τ κ ν)
    (now later : τ)
    {k k' : κ}
    (v : ν)
    (hNe : k' ≠ k) :
    (s.put now k v).get later k' = s.get later k' := by
  simp [get, entry, put, AList.lookup_insert_ne hNe]

/- An entry found at a time is present at that time. -/
theorem liveAt_of_entry
    {s : TtlStore τ κ ν}
    {now : τ}
    {k : κ}
    {e : TtlEntry τ ν}
    (hEntry : s.entry now k = some e) :
    e.liveAt now = true := by
  unfold entry at hEntry
  exact (Option.filter_eq_some_iff.mp hEntry).2

/- Keeping a deadline keeps an entry present. -/
private theorem liveAt_keptDeadline
    (s : TtlStore τ κ ν)
    (now : τ)
    (k : κ)
    (v : ν) :
    ({ value := v
       deadline :=
        (s.entry now k).bind TtlEntry.deadline } :
      TtlEntry τ ν).liveAt now = true := by
  cases hEntry : s.entry now k with
  | none => rfl
  | some e =>
      have hLive := liveAt_of_entry hEntry
      exact hLive

/- What was just written is present. -/
@[simp] theorem get_put_self
    (s : TtlStore τ κ ν)
    (now : τ)
    (k : κ)
    (v : ν) :
    (s.put now k v).get now k = some v := by
  have hLive := liveAt_keptDeadline s now k v
  simp only [get, put]
  rw [entry, AList.lookup_insert, Option.filter_some,
    if_pos hLive]
  rfl

@[simp] theorem get_delete_self
    (s : TtlStore τ κ ν)
    (now : τ)
    (k : κ) :
    (s.delete k).get now k = none := by
  simp [get, entry, delete]

@[simp] theorem get_delete_ne
    (s : TtlStore τ κ ν)
    (now : τ)
    {k k' : κ}
    (hNe : k' ≠ k) :
    (s.delete k).get now k' = s.get now k' := by
  simp [get, entry, delete, AList.lookup_erase_ne hNe]

/- After some keys are removed, the others are as before. -/
theorem get_foldl_delete
    (s : TtlStore τ κ ν)
    (keys : List κ)
    (now : τ)
    (k : κ) :
    (keys.foldl delete s).get now k =
      if k ∈ keys then none else s.get now k := by
  induction keys generalizing s with
  | nil => simp
  | cons key keys ih =>
      rw [List.foldl_cons, ih]
      by_cases hKey : k = key
      · subst hKey
        simp
      · simp [hKey, get_delete_ne]

theorem mem_liveKeys
    {s : TtlStore τ κ ν}
    {now : τ}
    {k : κ} :
    k ∈ s.liveKeys now ↔ (s.get now k).isSome := by
  have hMem :
      (s.entry now k).isSome → k ∈ s.entries.keys := by
    intro hSome
    rcases Option.isSome_iff_exists.mp hSome with
      ⟨e, hEntry⟩
    have hLookup := (Option.filter_eq_some_iff.mp hEntry).1
    exact
      AList.lookup_isSome.mp (Option.isSome_of_eq_some hLookup)
  simp only [liveKeys, List.mem_filter, get, Option.isSome_map]
  exact ⟨fun hBoth => hBoth.2, fun hSome => ⟨hMem hSome, hSome⟩⟩

theorem nodup_liveKeys
    (s : TtlStore τ κ ν)
    (now : τ) :
    (s.liveKeys now).Nodup :=
  s.entries.keys_nodup.filter _

/- An entry found at a time is there until its deadline. -/
theorem get_of_entry
    {s : TtlStore τ κ ν}
    {now : τ}
    {k : κ}
    {e : TtlEntry τ ν}
    (hEntry : s.entry now k = some e)
    (later : τ) :
    s.get later k =
      if e.liveAt later then some e.value else none := by
  unfold entry at hEntry
  rw [Option.filter_eq_some_iff] at hEntry
  unfold get entry
  rw [hEntry.1, Option.filter_some]
  split
  · rfl
  · rfl

/- Writing a present key does not change how long it is. -/
theorem get_put_later
    {s : TtlStore τ κ ν}
    {now : τ}
    {k : κ}
    {old : ν}
    (hGet : s.get now k = some old)
    (v : ν)
    (later : τ) :
    (s.put now k v).get later k =
      (s.get later k).map (fun _ => v) := by
  unfold get at hGet
  rw [Option.map_eq_some_iff] at hGet
  rcases hGet with ⟨e, hEntry, _⟩
  rw [get_of_entry hEntry]
  unfold get put entry
  rw [AList.lookup_insert, Option.filter_some]
  unfold entry at hEntry
  rw [hEntry, Option.bind_some]
  by_cases hLive : e.liveAt later = true
  · rw [if_pos hLive]
    exact congrArg (Option.map TtlEntry.value) (if_pos hLive)
  · rw [if_neg hLive]
    exact congrArg (Option.map TtlEntry.value) (if_neg hLive)

/- A key present later is present already. -/
theorem get_of_get_later
    {s : TtlStore τ κ ν}
    {now later : τ}
    (hLater : now ≤ later)
    {k : κ}
    {v : ν}
    (hGet : s.get later k = some v) :
    s.get now k = some v := by
  simp only [get, entry, Option.map_eq_some_iff,
    Option.filter_eq_some_iff] at hGet ⊢
  rcases hGet with ⟨e, ⟨hLookup, hLive⟩, hValue⟩
  refine ⟨e, ⟨hLookup, ?_⟩, hValue⟩
  unfold TtlEntry.liveAt at hLive ⊢
  cases hDeadline : e.deadline with
  | none => rfl
  | some d =>
      simp only [hDeadline, decide_eq_true_eq] at hLive ⊢
      exact lt_of_le_of_lt hLater hLive

variable [Add τ]

@[simp] theorem get_expire_ne
    (s : TtlStore τ κ ν)
    (now later ttl : τ)
    {k k' : κ}
    (hNe : k' ≠ k) :
    (s.expire now ttl k).get later k' =
      s.get later k' := by
  unfold expire
  cases s.entry now k with
  | none => rfl
  | some e =>
      simp [get, entry, AList.lookup_insert_ne hNe]

/-
  A key whose deadline was just set is present with its
  value until that deadline.
-/
theorem get_expire_self
    {s : TtlStore τ κ ν}
    {now : τ}
    {k : κ}
    {v : ν}
    (hGet : s.get now k = some v)
    (ttl later : τ) :
    (s.expire now ttl k).get later k =
      if later < now + ttl then some v else none := by
  simp only [get, Option.map_eq_some_iff] at hGet
  rcases hGet with ⟨e, hEntry, rfl⟩
  unfold expire
  rw [hEntry]
  simp only [get, entry, AList.lookup_insert,
    Option.filter_some, TtlEntry.liveAt,
    decide_eq_true_eq]
  by_cases hBefore : later < now + ttl
  · rw [if_pos hBefore, if_pos hBefore]
    rfl
  · rw [if_neg hBefore, if_neg hBefore]
    rfl

/- Setting the deadline of an absent key changes nothing. -/
theorem expire_of_get_none
    {s : TtlStore τ κ ν}
    {now : τ}
    {k : κ}
    (hGet : s.get now k = none)
    (ttl : τ) :
    s.expire now ttl k = s := by
  simp only [get, Option.map_eq_none_iff] at hGet
  simp [expire, hGet]

/- Setting a later deadline leaves what is read now. -/
theorem get_expire_now
    (s : TtlStore τ κ ν)
    {now ttl : τ}
    (hLater : now < now + ttl)
    (k k' : κ) :
    (s.expire now ttl k).get now k' = s.get now k' := by
  by_cases hKey : k' = k
  · subst hKey
    cases hGet : s.get now k' with
    | none => rw [expire_of_get_none hGet, hGet]
    | some v => rw [get_expire_self hGet, if_pos hLater]
  · exact get_expire_ne s now now ttl hKey

/- A renewed key is present until its deadline. -/
theorem get_renew_self
    (s : TtlStore τ κ ν)
    (now ttl later : τ)
    (k : κ)
    (v : ν) :
    (s.renew now ttl k v).get later k =
      if later < now + ttl then some v else none :=
  get_expire_self (get_put_self s now k v) ttl later

@[simp] theorem get_renew_ne
    (s : TtlStore τ κ ν)
    (now ttl later : τ)
    {k k' : κ}
    (v : ν)
    (hNe : k' ≠ k) :
    (s.renew now ttl k v).get later k' =
      s.get later k' := by
  rw [renew, get_expire_ne _ _ _ _ hNe,
    get_put_ne _ _ _ _ hNe]

/- A renewed key is read with its new value or not at all. -/
theorem eq_of_get_renew_self
    {s : TtlStore τ κ ν}
    {now ttl later : τ}
    {k : κ}
    {v v' : ν}
    (hGet : (s.renew now ttl k v).get later k = some v') :
    v' = v := by
  rw [get_renew_self] at hGet
  split at hGet
  · exact (Option.some_inj.mp hGet).symm
  · contradiction

/- What is written last is the value of a renewal. -/
@[simp] theorem written_renew_self
    (s : TtlStore τ κ ν)
    (now ttl : τ)
    (k : κ)
    (v : ν) :
    (s.renew now ttl k v).written k = some v := by
  have hGet := get_put_self s now k v
  simp only [get, Option.map_eq_some_iff] at hGet
  rcases hGet with ⟨e, hEntry, rfl⟩
  simp [renew, expire, hEntry, written]

theorem written_renew_ne
    (s : TtlStore τ κ ν)
    (now ttl : τ)
    {k k' : κ}
    (v : ν)
    (hNe : k' ≠ k) :
    (s.renew now ttl k v).written k' = s.written k' := by
  unfold renew expire
  cases (s.put now k v).entry now k with
  | none => simp [written, put, AList.lookup_insert_ne hNe]
  | some e =>
      simp [written, put, AList.lookup_insert_ne hNe]

/- Setting a deadline writes nothing. -/
@[simp] theorem written_expire
    (s : TtlStore τ κ ν)
    (now ttl : τ)
    (k k' : κ) :
    (s.expire now ttl k).written k' = s.written k' := by
  unfold expire
  cases hEntry : s.entry now k with
  | none => rfl
  | some e =>
      have hLookup :=
        (Option.filter_eq_some_iff.mp hEntry).1
      by_cases hKey : k' = k
      · subst hKey
        simp [written, hLookup]
      · simp [written, AList.lookup_insert_ne hKey]

omit [Add τ]

omit [LinearOrder τ] in
@[simp] theorem written_delete_self
    (s : TtlStore τ κ ν)
    (k : κ) :
    (s.delete k).written k = none := by
  simp [written, delete]

omit [LinearOrder τ] in
@[simp] theorem written_empty
    (k : κ) :
    (empty : TtlStore τ κ ν).written k = none := by
  simp [written, empty]

@[simp] theorem written_put_self
    (s : TtlStore τ κ ν)
    (now : τ)
    (k : κ)
    (v : ν) :
    (s.put now k v).written k = some v := by
  simp [written, put]

theorem written_put_ne
    (s : TtlStore τ κ ν)
    (now : τ)
    {k k' : κ}
    (v : ν)
    (hNe : k' ≠ k) :
    (s.put now k v).written k' = s.written k' := by
  simp [written, put, AList.lookup_insert_ne hNe]

omit [LinearOrder τ] in
theorem written_delete_ne
    (s : TtlStore τ κ ν)
    {k k' : κ}
    (hNe : k' ≠ k) :
    (s.delete k).written k' = s.written k' := by
  simp [written, delete, AList.lookup_erase_ne hNe]

omit [LinearOrder τ] in
theorem written_foldl_delete_ne
    (s : TtlStore τ κ ν)
    {keys : List κ}
    {k : κ}
    (hKey : k ∉ keys) :
    (keys.foldl delete s).written k = s.written k := by
  induction keys generalizing s with
  | nil => rfl
  | cons key keys ih =>
      rw [List.mem_cons, not_or] at hKey
      rcases hKey with ⟨hNe, hRest⟩
      rw [List.foldl_cons, ih _ hRest, written_delete_ne s hNe]

/- A value that is read is the one written last. -/
theorem written_of_get
    {s : TtlStore τ κ ν}
    {now : τ}
    {k : κ}
    {v : ν}
    (hGet : s.get now k = some v) :
    s.written k = some v := by
  simp only [get, entry, Option.map_eq_some_iff,
    Option.filter_eq_some_iff] at hGet
  rcases hGet with ⟨e, ⟨hLookup, _⟩, hValue⟩
  rw [written, hLookup, Option.map_some, hValue]

------------------------------------------------------------
-- Deadlines
------------------------------------------------------------

/- What lasts is still present. -/
theorem Lasts.kept
    {s : TtlStore τ κ ν}
    {last now : τ}
    (hLasts : s.Lasts last)
    (hNow : now ≤ last)
    (k : κ) :
    s.Kept now k := by
  unfold Kept get written entry
  cases hLookup : s.entries.lookup k with
  | none => rfl
  | some e =>
      have hLive : e.liveAt now = true := by
        unfold TtlEntry.liveAt
        cases hDeadline : e.deadline with
        | none => rfl
        | some d =>
            have hBefore := hLasts k e hLookup d hDeadline
            simpa using lt_of_le_of_lt hNow hBefore
      rw [Option.filter_some, if_pos hLive]

theorem lasts_empty
    (last : τ) :
    (empty : TtlStore τ κ ν).Lasts last := by
  intro k e hLookup
  simp [empty] at hLookup

/- A write keeps the deadline that its key had. -/
theorem Lasts.put
    {s : TtlStore τ κ ν}
    {last : τ}
    (hLasts : s.Lasts last)
    (now : τ)
    (k : κ)
    (v : ν) :
    (s.put now k v).Lasts last := by
  intro k' e hLookup d hDeadline
  by_cases hKey : k' = k
  · subst hKey
    rw [TtlStore.put, AList.lookup_insert] at hLookup
    cases hLookup
    rcases Option.bind_eq_some_iff.mp hDeadline with
      ⟨old, hOld, hDeadline⟩
    have hOldLookup := (Option.filter_eq_some_iff.mp hOld).1
    exact hLasts k' old hOldLookup d hDeadline
  · rw [TtlStore.put, AList.lookup_insert_ne hKey] at hLookup
    exact hLasts k' e hLookup d hDeadline

theorem Lasts.expire
    [Add τ]
    {s : TtlStore τ κ ν}
    {last now ttl : τ}
    (hLasts : s.Lasts last)
    (hTtl : last < now + ttl)
    (k : κ) :
    (s.expire now ttl k).Lasts last := by
  unfold TtlStore.expire
  cases s.entry now k with
  | none => exact hLasts
  | some found =>
      intro k' e hLookup d hDeadline
      by_cases hKey : k' = k
      · subst hKey
        rw [AList.lookup_insert] at hLookup
        cases hLookup
        cases hDeadline
        exact hTtl
      · rw [AList.lookup_insert_ne hKey] at hLookup
        exact hLasts k' e hLookup d hDeadline

theorem Lasts.renew
    [Add τ]
    {s : TtlStore τ κ ν}
    {last now ttl : τ}
    (hLasts : s.Lasts last)
    (hTtl : last < now + ttl)
    (k : κ)
    (v : ν) :
    (s.renew now ttl k v).Lasts last :=
  (hLasts.put now k v).expire hTtl k

theorem Lasts.delete
    {s : TtlStore τ κ ν}
    {last : τ}
    (hLasts : s.Lasts last)
    (k : κ) :
    (s.delete k).Lasts last := by
  intro k' e hLookup d hDeadline
  by_cases hKey : k' = k
  · subst hKey
    rw [TtlStore.delete, AList.lookup_erase] at hLookup
    cases hLookup
  · rw [TtlStore.delete, AList.lookup_erase_ne hKey] at hLookup
    exact hLasts k' e hLookup d hDeadline

theorem Lasts.foldl_delete
    {α : Type}
    {s : TtlStore τ κ ν}
    {last : τ}
    (hLasts : s.Lasts last)
    (key : α → κ)
    (members : List α) :
    (members.foldl (fun s x => s.delete (key x)) s).Lasts
      last := by
  induction members generalizing s with
  | nil => exact hLasts
  | cons x members ih => exact ih (hLasts.delete (key x))

end Lemmas

end TtlStore
