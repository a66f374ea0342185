import Nidra.Api.RateLimit

/-
  This file says when the time that a refused caller is told
  to wait is exact: a hit after it is allowed, and a hit a
  second before it is not. The hits of one caller on one
  scope come one after the other, while the clock of Redis
  goes on between their commands.

  Key definitions include:
    * `Program.runAmid`
    * `Arrival`, `Caller`
    * `RetryExact`, `StillCounted`
    * `Caller.Fits`

  Main declarations:
    * `fits_after`
    * `allowed_of_gone`, `refused_of_full`
    * `retryExact_iff`
    * `stillCounted_of_soon`
-/

/-
  Run a program to its end, while something else happens to
  the state before each effect, as long as it is given.
-/
def Program.runAmid
    {σ α : Type} :
    Program σ α → List (σ → σ) → σ → α × σ
  | .done a, _, s => (a, s)
  | .effect update next, [], s =>
      (next s).runAmid [] (update s)
  | .effect update next, event :: events, s =>
      (next (event s)).runAmid events (update (event s))

namespace Nidra

namespace Api

------------------------------------------------------------
-- Hits one after the other
------------------------------------------------------------

/- Time passes on the server. -/
def Redis.wait
    (nowMs : ℤ)
    (r : Redis) : Redis :=
  { r with nowMs := max r.nowMs nowMs }

/-
  A hit with its stamp, and what the clock of Redis reads
  when it counts the hit, takes it back, and is asked for the
  oldest one.
-/
structure Arrival where
  atMs : ℕ
  countAt : ℤ
  removeAt : ℤ
  askAt : ℤ

/- Redis, and the number of hits that there were. -/
structure Caller where
  redis : Redis
  hits : ℕ

section Hits

variable (name : String)
variable (limit : Limit)

def Caller.entry
    (c : Caller)
    (a : Arrival) : Entry :=
  { atMs := a.atMs
    uuid := c.hits }

/- The next hit of the caller. -/
def Caller.hit
    (c : Caller)
    (a : Arrival) : Decision × Caller :=
  let outcome :=
    (Api.hit name limit (c.entry a)).runAmid
      [Redis.wait a.countAt, Redis.wait a.removeAt,
        Redis.wait a.askAt]
      c.redis
  (outcome.1,
    { redis := outcome.2
      hits := c.hits + 1 })

/- A caller that has hit nothing, at a time of Redis. -/
def Caller.start (nowMs : ℤ) : Caller :=
  { redis :=
      { nowMs := nowMs
        sets := .empty }
    hits := 0 }

def Caller.after
    (c : Caller)
    (arrivals : List Arrival) : Caller :=
  arrivals.foldl (fun c a => (c.hit name limit a).2) c

/-
  After a refusal, a hit is allowed once the time it was told
  has passed, and refused a second before, if that is later
  than the refused one.
-/
structure RetryExact
    (c : Caller)
    (refused next : Arrival)
    (retryAfter : ℤ) : Prop where
  allowed :
    (refused.atMs : ℤ) + 1000 * retryAfter ≤ next.atMs →
      (c.hit name limit next).1.allowed = true
  refused :
    1 < retryAfter →
      (next.atMs : ℤ) =
          refused.atMs + 1000 * (retryAfter - 1) →
        (c.hit name limit next).1.allowed = false

/-
  When a hit is counted, its key is still there, with the
  hits before it.
-/
def StillCounted
    (c : Caller)
    (a : Arrival) : Prop :=
  (c.redis.wait a.countAt).set
    (windowKey limit.scope name) ≠ ∅

------------------------------------------------------------
-- The sets that commands leave
------------------------------------------------------------

/- Time leaves a set as it is, or its key expires. -/
theorem set_wait
    (nowMs : ℤ)
    (r : Redis)
    (key : String) :
    (r.wait nowMs).set key = r.set key ∨
      (r.wait nowMs).set key = ∅ := by
  unfold Redis.set
  cases hGet : (r.wait nowMs).sets.get (r.wait nowMs).nowMs key
    with
  | none => exact Or.inr rfl
  | some entries =>
      left
      have hBefore : r.sets.get r.nowMs key = some entries :=
        TtlStore.get_of_get_later (le_max_left _ _) hGet
      rw [hBefore]

theorem set_zrem
    (r : Redis)
    (key : String)
    (entry : Entry) :
    (r.zrem key entry).set key = (r.set key).erase entry := by
  unfold Redis.zrem Redis.set
  cases hGet : r.sets.get r.nowMs key with
  | none =>
      rw [hGet]
      rfl
  | some entries =>
      dsimp only
      split
      · rename_i hEmpty
        rw [TtlStore.get_delete_self]
        exact hEmpty.symm
      · rw [TtlStore.get_put_self]
        rfl

/- A set that was just counted is there. -/
theorem set_renew
    (r : Redis)
    (key : String)
    (entries : Finset Entry) :
    Redis.set
        { r with
          sets :=
            r.sets.renew r.nowMs limit.windowMs key entries }
        key = entries := by
  unfold Redis.set
  dsimp only
  rw [TtlStore.get_renew_self,
    if_pos (lt_add_of_pos_right _ limit.windowMs_pos)]
  rfl

------------------------------------------------------------
-- One hit
------------------------------------------------------------

/- The set that a hit is counted in, with it. -/
def Caller.counted
    (c : Caller)
    (a : Arrival) : Finset Entry :=
  (c.redis.wait a.countAt).counted
    (windowKey limit.scope name) limit.windowMs (c.entry a)

/- Redis once a hit is counted. -/
def Caller.renewed
    (c : Caller)
    (a : Arrival) : Redis :=
  let r := c.redis.wait a.countAt
  { r with
    sets :=
      r.sets.renew r.nowMs limit.windowMs
        (windowKey limit.scope name)
        (c.counted name limit a) }

/- Redis once a refused hit has asked for the oldest one. -/
def Caller.refusedAt
    (c : Caller)
    (a : Arrival) : Redis :=
  (((c.renewed name limit a).wait a.removeAt).zrem
    (windowKey limit.scope name) (c.entry a)).wait a.askAt

/- The count decides how a hit goes on. -/
theorem runAmid_hit
    (c : Caller)
    (a : Arrival) :
    (Api.hit name limit (c.entry a)).runAmid
        [Redis.wait a.countAt, Redis.wait a.removeAt,
          Redis.wait a.askAt]
        c.redis =
      (if ((c.counted name limit a).card : ℤ) ≤ limit.limit
        then
          (.done {
            allowed := true
            limit := limit
            remaining :=
              limit.limit - (c.counted name limit a).card
            retryAfter := 0 } : Program Redis Decision)
        else refuse name limit (c.entry a)).runAmid
          [Redis.wait a.removeAt, Redis.wait a.askAt]
          (c.renewed name limit a) :=
  rfl

/- A hit that fits is allowed, with those before it. -/
theorem hit_of_fits
    {c : Caller}
    {a : Arrival}
    (hFits :
      ((c.counted name limit a).card : ℤ) ≤ limit.limit) :
    (c.hit name limit a).1.allowed = true ∧
      (c.hit name limit a).2 =
        { redis := c.renewed name limit a
          hits := c.hits + 1 } := by
  unfold Caller.hit
  dsimp only
  rw [runAmid_hit, if_pos hFits]
  exact ⟨rfl, rfl⟩

/-
  One that does not is refused, and told the time from the
  oldest one that is left.
-/
theorem hit_of_not_fits
    {c : Caller}
    {a : Arrival}
    (hMore :
      ¬ ((c.counted name limit a).card : ℤ) ≤ limit.limit) :
    (c.hit name limit a).1 =
        { allowed := false
          limit := limit
          remaining := 0
          retryAfter :=
            retryAfter limit a.atMs
              ((c.refusedAt name limit a).oldest
                (windowKey limit.scope name)) } ∧
      (c.hit name limit a).2 =
        { redis := c.refusedAt name limit a
          hits := c.hits + 1 } := by
  unfold Caller.hit
  dsimp only
  rw [runAmid_hit, if_neg hMore]
  exact ⟨rfl, rfl⟩

------------------------------------------------------------
-- Every history
------------------------------------------------------------

/-
  The hits that are held are earlier ones, stamped by a clock
  that reads no negative time, and no more than the limit.
-/
structure Caller.Fits (c : Caller) : Prop where
  earlier :
    ∀ e ∈ c.redis.set (windowKey limit.scope name),
      0 ≤ e.atMs ∧ e.uuid < c.hits
  card_le :
    ((c.redis.set (windowKey limit.scope name)).card : ℤ) ≤
      limit.limit

variable {name} {limit}

/- The hits that are still in the window of another one. -/
theorem counted_eq
    (c : Caller)
    (a : Arrival) :
    c.counted name limit a =
      insert (c.entry a)
        (trimmed
          ((c.redis.wait a.countAt).set
            (windowKey limit.scope name))
          (a.atMs - limit.windowMs)) :=
  rfl

theorem mem_wait
    {c : Caller}
    {nowMs : ℤ}
    {key : String}
    {e : Entry}
    (hMem : e ∈ (c.redis.wait nowMs).set key) :
    e ∈ c.redis.set key := by
  rcases set_wait nowMs c.redis key with hSame | hGone
  · rw [← hSame]
    exact hMem
  · rw [hGone] at hMem
    exact absurd hMem (Finset.notMem_empty e)

/- No hit before has the UUID of another one. -/
theorem entry_notMem
    {c : Caller}
    (hFits : c.Fits name limit)
    (a : Arrival)
    (most : ℤ) :
    c.entry a ∉
      trimmed
        ((c.redis.wait a.countAt).set
          (windowKey limit.scope name)) most := by
  intro hMem
  have hIn := mem_wait (Finset.mem_of_mem_filter _ hMem)
  exact absurd (hFits.earlier _ hIn).2 (lt_irrefl c.hits)

/- A refused hit leaves the hits before it, if any. -/
theorem set_refusedAt
    {c : Caller}
    (hFits : c.Fits name limit)
    (a : Arrival) :
    let left :=
      (c.refusedAt name limit a).set
        (windowKey limit.scope name)
    left = ∅ ∨
      left =
        trimmed
          ((c.redis.wait a.countAt).set
            (windowKey limit.scope name))
          (a.atMs - limit.windowMs) := by
  intro left
  have hRenewed :
      (c.renewed name limit a).set
          (windowKey limit.scope name) =
        c.counted name limit a :=
    set_renew limit _ _ _
  unfold left Caller.refusedAt
  rcases set_wait a.askAt
      (((c.renewed name limit a).wait a.removeAt).zrem
        (windowKey limit.scope name) (c.entry a))
      (windowKey limit.scope name) with hSame | hGone
  · rw [hSame, set_zrem]
    rcases set_wait a.removeAt (c.renewed name limit a)
        (windowKey limit.scope name) with hHeld | hGone
    · right
      rw [hHeld, hRenewed, counted_eq]
      exact Finset.erase_insert (entry_notMem hFits a _)
    · left
      rw [hGone]
      exact Finset.erase_empty _
  · exact Or.inl hGone

theorem fits_start
    (hLimit : 1 ≤ limit.limit)
    (nowMs : ℤ) :
    (Caller.start nowMs).Fits name limit := by
  have hEmpty :
      (Caller.start nowMs).redis.set
        (windowKey limit.scope name) = ∅ := by
    unfold Caller.start Redis.set
    rw [TtlStore.get_empty]
    rfl
  refine
    { earlier := ?_
      card_le := ?_ }
  · intro e hMem
    rw [hEmpty] at hMem
    exact absurd hMem (Finset.notMem_empty e)
  · rw [hEmpty, Finset.card_empty]
    exact_mod_cast zero_le_one.trans hLimit

/- The hits in the window are earlier ones. -/
theorem earlier_of_mem_counted
    {c : Caller}
    (hFits : c.Fits name limit)
    {a : Arrival}
    {e : Entry}
    (hMem : e ∈ c.counted name limit a) :
    0 ≤ e.atMs ∧ e.uuid < c.hits + 1 := by
  rw [counted_eq] at hMem
  rcases Finset.mem_insert.mp hMem with rfl | hBefore
  · exact ⟨Int.natCast_nonneg _, Nat.lt_succ_self _⟩
  · have hIn := mem_wait (Finset.mem_of_mem_filter _ hBefore)
    have hEarlier := hFits.earlier e hIn
    exact ⟨hEarlier.1, hEarlier.2.trans (Nat.lt_succ_self _)⟩

/- What is in the window is no more than what was held. -/
theorem card_trimmed_le
    {c : Caller}
    (hFits : c.Fits name limit)
    (a : Arrival)
    (most : ℤ) :
    ((trimmed
      ((c.redis.wait a.countAt).set
        (windowKey limit.scope name)) most).card : ℤ) ≤
          limit.limit := by
  refine le_trans ?_ hFits.card_le
  have hSubset :
      trimmed
          ((c.redis.wait a.countAt).set
            (windowKey limit.scope name)) most ⊆
        c.redis.set (windowKey limit.scope name) :=
    fun e hMem => mem_wait (Finset.mem_of_mem_filter _ hMem)
  exact_mod_cast Finset.card_le_card hSubset

/- Each hit leaves no more hits than the limit. -/
theorem fits_hit
    {c : Caller}
    (hLimit : 1 ≤ limit.limit)
    (hFits : c.Fits name limit)
    (a : Arrival) :
    (c.hit name limit a).2.Fits name limit := by
  by_cases hAllowed :
      ((c.counted name limit a).card : ℤ) ≤ limit.limit
  · have hSet :
        (c.renewed name limit a).set
            (windowKey limit.scope name) =
          c.counted name limit a :=
      set_renew limit _ _ _
    rw [(hit_of_fits name limit hAllowed).2]
    refine
      { earlier := ?_
        card_le := ?_ }
    · intro e hMem
      rw [hSet] at hMem
      exact earlier_of_mem_counted hFits hMem
    · rw [hSet]
      exact hAllowed
  · rw [(hit_of_not_fits name limit hAllowed).2]
    rcases set_refusedAt hFits a with hGone | hLeft
    · refine
        { earlier := ?_
          card_le := ?_ }
      · intro e hMem
        rw [hGone] at hMem
        exact absurd hMem (Finset.notMem_empty e)
      · rw [hGone, Finset.card_empty]
        exact_mod_cast zero_le_one.trans hLimit
    · refine
        { earlier := ?_
          card_le := ?_ }
      · intro e hMem
        rw [hLeft] at hMem
        apply earlier_of_mem_counted hFits
        rw [counted_eq]
        exact Finset.mem_insert_of_mem hMem
      · rw [hLeft]
        exact card_trimmed_le hFits a _

theorem fits_after
    (hLimit : 1 ≤ limit.limit)
    {c : Caller}
    (hFits : c.Fits name limit)
    (history : List Arrival) :
    (c.after name limit history).Fits name limit := by
  induction history generalizing c with
  | nil => exact hFits
  | cons a history ih => exact ih (fits_hit hLimit hFits a)

------------------------------------------------------------
-- The time to wait
------------------------------------------------------------

/- After it the oldest hit has left the window. -/
theorem le_add_retryAfter
    (limit : Limit)
    (atMs oldest : ℤ) :
    oldest + limit.windowMs ≤
      atMs + 1000 * retryAfter limit atMs (some oldest) := by
  have hCeil :=
    Int.le_ceil
      (((oldest + limit.windowMs - atMs : ℤ) : ℚ) /
        milliseconds)
  have hMax :
      ⌈((oldest + limit.windowMs - atMs : ℤ) : ℚ) /
          milliseconds⌉ ≤
        retryAfter limit atMs (some oldest) :=
    le_max_right _ _
  have hRat :
      ((oldest + limit.windowMs - atMs : ℤ) : ℚ) /
          milliseconds ≤
        (retryAfter limit atMs (some oldest) : ℚ) :=
    hCeil.trans (by exact_mod_cast hMax)
  unfold milliseconds at hRat
  rw [div_le_iff₀ (by norm_num)] at hRat
  have hInt :
      oldest + limit.windowMs - atMs ≤
        retryAfter limit atMs (some oldest) * 1000 := by
    exact_mod_cast hRat
  omega

/- A second before it, it has not. -/
theorem add_retryAfter_lt
    {limit : Limit}
    {atMs oldest : ℤ}
    (hLater : 1 < retryAfter limit atMs (some oldest)) :
    atMs + 1000 * (retryAfter limit atMs (some oldest) - 1) <
      oldest + limit.windowMs := by
  have hCeil :
      retryAfter limit atMs (some oldest) =
        ⌈((oldest + limit.windowMs - atMs : ℤ) : ℚ) /
          milliseconds⌉ := by
    refine max_eq_right ?_
    by_contra hLess
    have hOne :
        retryAfter limit atMs (some oldest) = 1 :=
      max_eq_left (not_le.mp hLess).le
    omega
  have hBefore :
      ((retryAfter limit atMs (some oldest) - 1 : ℤ) : ℚ) <
        ((oldest + limit.windowMs - atMs : ℤ) : ℚ) /
          milliseconds := by
    apply Int.lt_ceil.mp
    rw [← hCeil]
    exact sub_one_lt _
  unfold milliseconds at hBefore
  rw [lt_div_iff₀ (by norm_num)] at hBefore
  have hInt :
      (retryAfter limit atMs (some oldest) - 1) * 1000 <
        oldest + limit.windowMs - atMs := by
    exact_mod_cast hBefore
  omega

/- The oldest hit that is held. -/
theorem oldest_spec
    {r : Redis}
    {key : String}
    (hSome : r.set key ≠ ∅) :
    ∃ e ∈ r.set key,
      r.oldest key = some e.atMs ∧
        ∀ e' ∈ r.set key, e.atMs ≤ e'.atMs := by
  have hNonempty : (r.set key).Nonempty :=
    Finset.nonempty_iff_ne_empty.mpr hSome
  rcases Finset.exists_min_image (r.set key) Entry.atMs
      hNonempty with ⟨e, hMem, hLeast⟩
  refine ⟨e, hMem, ?_, hLeast⟩
  change
    ((r.set key).image Entry.atMs).min =
      ((e.atMs : ℤ) : WithTop ℤ)
  apply le_antisymm
  · exact Finset.min_le (Finset.mem_image_of_mem _ hMem)
  · apply Finset.le_min
    intro atMs hIn
    rcases Finset.mem_image.mp hIn with ⟨e', hMem', rfl⟩
    exact WithTop.coe_le_coe.mpr (hLeast e' hMem')

------------------------------------------------------------
-- After a refusal
------------------------------------------------------------

/- A refused hit leaves as many hits as the limit, or none. -/
theorem full_of_refused
    {c : Caller}
    (hFits : c.Fits name limit)
    {a : Arrival}
    (hRefused : (c.hit name limit a).1.allowed = false) :
    let r := (c.hit name limit a).2.redis
    let key := windowKey limit.scope name
    (c.hit name limit a).1.retryAfter =
        retryAfter limit a.atMs (r.oldest key) ∧
      (r.set key = ∅ ∨
        ((r.set key).card : ℤ) = limit.limit) := by
  intro r key
  have hMore :
      ¬ ((c.counted name limit a).card : ℤ) ≤
        limit.limit := by
    intro hAllowed
    rw [(hit_of_fits name limit hAllowed).1] at hRefused
    cases hRefused
  have hHit := hit_of_not_fits name limit hMore
  have hRedis : r = c.refusedAt name limit a := by
    unfold r
    rw [hHit.2]
  rw [hRedis, hHit.1]
  refine ⟨rfl, ?_⟩
  rcases set_refusedAt hFits a with hGone | hLeft
  · exact Or.inl hGone
  · right
    have hAtMost :=
      card_trimmed_le hFits a (a.atMs - limit.windowMs)
    rw [counted_eq,
      Finset.card_insert_of_notMem (entry_notMem hFits a _)]
      at hMore
    push_cast at hMore
    rw [hLeft]
    omega

/- With no hits before it, a hit is allowed. -/
theorem allowed_of_empty
    {c : Caller}
    (hLimit : 1 ≤ limit.limit)
    {a : Arrival}
    (hGone : ¬ StillCounted name limit c a) :
    (c.hit name limit a).1.allowed = true := by
  apply (hit_of_fits name limit _).1
  rw [counted_eq, not_not.mp hGone]
  exact_mod_cast hLimit

/- One hit has to leave the window for another one. -/
theorem allowed_of_gone
    {c : Caller}
    (hFits : c.Fits name limit)
    {a : Arrival}
    {e : Entry}
    (hMem :
      e ∈ (c.redis.wait a.countAt).set
        (windowKey limit.scope name))
    (hGone : e.atMs + limit.windowMs ≤ a.atMs) :
    (c.hit name limit a).1.allowed = true := by
  apply (hit_of_fits name limit _).1
  have hHeld := hFits.earlier e (mem_wait hMem)
  have hLess :
      (trimmed
        ((c.redis.wait a.countAt).set
          (windowKey limit.scope name))
        (a.atMs - limit.windowMs)).card <
        ((c.redis.wait a.countAt).set
          (windowKey limit.scope name)).card := by
    apply Finset.card_lt_card
    apply Finset.filter_ssubset.mpr
    refine ⟨e, hMem, not_not.mpr ⟨hHeld.1, ?_⟩⟩
    omega
  have hAll :
      ((c.redis.wait a.countAt).set
        (windowKey limit.scope name)).card ≤
        (c.redis.set (windowKey limit.scope name)).card :=
    Finset.card_le_card (fun _ hIn => mem_wait hIn)
  have hMost := hFits.card_le
  rw [counted_eq,
    Finset.card_insert_of_notMem (entry_notMem hFits a _)]
  push_cast
  omega

/- With as many hits as the limit in the window, none fits. -/
theorem refused_of_full
    {c : Caller}
    (hFits : c.Fits name limit)
    {a : Arrival}
    (hFull :
      (((c.redis.wait a.countAt).set
        (windowKey limit.scope name)).card : ℤ) =
          limit.limit)
    (hWithin :
      ∀ e ∈ (c.redis.wait a.countAt).set
          (windowKey limit.scope name),
        (a.atMs : ℤ) < e.atMs + limit.windowMs) :
    (c.hit name limit a).1.allowed = false := by
  have hAll :
      trimmed
          ((c.redis.wait a.countAt).set
            (windowKey limit.scope name))
          (a.atMs - limit.windowMs) =
        (c.redis.wait a.countAt).set
          (windowKey limit.scope name) := by
    apply Finset.filter_true_of_mem
    rintro e hMem ⟨_, hMost⟩
    have hIn := hWithin e hMem
    omega
  have hNotIn := entry_notMem hFits a (a.atMs - limit.windowMs)
  have hMore :
      ¬ ((c.counted name limit a).card : ℤ) ≤
        limit.limit := by
    rw [counted_eq, Finset.card_insert_of_notMem hNotIn, hAll]
    push_cast
    omega
  rw [(hit_of_not_fits name limit hMore).1]

variable (name) (limit)

/-
  After any history, the time that a refused hit is told is
  exact if and only if the key is still there for a hit that
  comes a second too early.
-/
theorem retryExact_iff
    (hLimit : 1 ≤ limit.limit)
    (nowMs : ℤ)
    (history : List Arrival)
    (refused next : Arrival)
    (told : ℤ)
    (hRefused :
      let d :=
        (((Caller.start nowMs).after name limit history).hit
          name limit refused).1
      d.allowed = false ∧ d.retryAfter = told) :
    let c :=
      (Caller.start nowMs).after name limit
        (history ++ [refused])
    RetryExact name limit c refused next told ↔
      (1 < told →
        (next.atMs : ℤ) = refused.atMs + 1000 * (told - 1) →
          StillCounted name limit c next) := by
  intro c
  let before := (Caller.start nowMs).after name limit history
  have hBefore : before.Fits name limit :=
    fits_after hLimit (fits_start hLimit nowMs) history
  have hCaller : c = (before.hit name limit refused).2 := by
    simp [c, before, Caller.after]
  have hFits : c.Fits name limit := by
    rw [hCaller]
    exact fits_hit hLimit hBefore refused
  have hAfter := full_of_refused hBefore hRefused.1
  dsimp only at hAfter
  rw [← hCaller] at hAfter
  have hTold :
      told =
        retryAfter limit refused.atMs
          (c.redis.oldest (windowKey limit.scope name)) :=
    hRefused.2.symm.trans hAfter.1
  by_cases hCounted : StillCounted name limit c next
  · refine iff_of_true ?_ (fun _ _ => hCounted)
    have hSame :
        (c.redis.wait next.countAt).set
            (windowKey limit.scope name) =
          c.redis.set (windowKey limit.scope name) :=
      (set_wait _ _ _).resolve_right hCounted
    have hSome :
        c.redis.set (windowKey limit.scope name) ≠ ∅ := by
      rw [← hSame]
      exact hCounted
    have hFull := hAfter.2.resolve_left hSome
    rcases oldest_spec hSome with
      ⟨oldest, hMem, hOldest, hLeast⟩
    rw [hOldest] at hTold
    refine
      { allowed := ?_
        refused := ?_ }
    · intro hLater
      rw [hTold] at hLater
      have hWaited :=
        le_add_retryAfter limit refused.atMs oldest.atMs
      apply allowed_of_gone hFits (e := oldest)
      · rw [hSame]
        exact hMem
      · exact hWaited.trans hLater
    · intro hLater hEarly
      rw [hTold] at hLater hEarly
      have hNotYet := add_retryAfter_lt hLater
      apply refused_of_full hFits
      · rw [hSame]
        exact hFull
      · intro e hIn
        rw [hSame] at hIn
        have hFirst := hLeast e hIn
        omega
  · have hAllowed := allowed_of_empty hLimit hCounted
    constructor
    · intro hExact hLater hEarly
      have hNo := hExact.refused hLater hEarly
      rw [hAllowed] at hNo
      cases hNo
    · intro hLate
      exact
        { allowed := fun _ => hAllowed
          refused := fun hLater hEarly =>
            absurd (hLate hLater hEarly) hCounted }

------------------------------------------------------------
-- A key that is still there
------------------------------------------------------------

variable {name} {limit}

/- Writing a renewed key keeps its deadline. -/
theorem get_put_renew
    {κ ν : Type}
    [DecidableEq κ]
    (sets : TtlStore ℤ κ ν)
    {now ttl later last : ℤ}
    (key : κ)
    (old new : ν)
    (hLater : later < now + ttl)
    (hLast : last < now + ttl) :
    ((sets.renew now ttl key old).put later key new).get last
        key = some new := by
  have hGet := TtlStore.get_put_self sets now key old
  simp only [TtlStore.get, Option.map_eq_some_iff] at hGet
  rcases hGet with ⟨e, hEntry, rfl⟩
  have hLookup :
      (sets.renew now ttl key e.value).entries.lookup key =
        some { e with deadline := some (now + ttl) } := by
    simp [TtlStore.renew, TtlStore.expire, hEntry]
  have hHeld :
      (sets.renew now ttl key e.value).entry later key =
        some { e with deadline := some (now + ttl) } := by
    unfold TtlStore.entry
    rw [hLookup]
    exact if_pos (decide_eq_true hLater)
  unfold TtlStore.put TtlStore.get
  rw [hHeld]
  unfold TtlStore.entry
  rw [AList.lookup_insert, Option.filter_some]
  exact congrArg _ (if_pos (decide_eq_true hLast))

/-
  The key is still there for a hit that Redis counts within a
  window after it has counted the refused one.
-/
theorem stillCounted_of_soon
    {c : Caller}
    (hLimit : 1 ≤ limit.limit)
    {refused next : Arrival}
    (hRefused :
      (c.hit name limit refused).1.allowed = false)
    (hSoon :
      ((c.hit name limit refused).2.redis.wait
          next.countAt).nowMs <
        (c.redis.wait refused.countAt).nowMs +
          limit.windowMs) :
    StillCounted name limit (c.hit name limit refused).2
      next := by
  have hMore :
      ¬ ((c.counted name limit refused).card : ℤ) ≤
        limit.limit := by
    intro hAllowed
    rw [(hit_of_fits name limit hAllowed).1] at hRefused
    cases hRefused
  rw [(hit_of_not_fits name limit hMore).2] at hSoon ⊢
  let key := windowKey limit.scope name
  let counting := c.redis.wait refused.countAt
  let entries := c.counted name limit refused
  let left := entries.erase (c.entry refused)
  let removing :=
    (c.renewed name limit refused).wait refused.removeAt
  have hLeft : left ≠ ∅ := by
    intro hEmpty
    have hOne : entries.card ≤ 1 :=
      Finset.card_le_one.mpr (fun x hX y hY => by
        rw [Finset.erase_eq_empty_iff] at hEmpty
        rcases hEmpty with hNone | hSingle
        · rw [hNone] at hX
          exact absurd hX (Finset.notMem_empty x)
        · rw [hSingle, Finset.mem_singleton] at hX hY
          exact hX.trans hY.symm)
    apply hMore
    exact le_trans (by exact_mod_cast hOne) hLimit
  -- The clock is before the deadline at every command.
  have hRemoving :
      removing.nowMs < counting.nowMs + limit.windowMs := by
    refine lt_of_le_of_lt ?_ hSoon
    have hAsked :
        removing.nowMs ≤
          (c.refusedAt name limit refused).nowMs := by
      rw [← nowMs_zrem removing key (c.entry refused)]
      exact le_max_left _ _
    exact hAsked.trans (le_max_left _ _)
  have hGet :
      removing.sets.get removing.nowMs key = some entries := by
    have hRenewed :=
      TtlStore.get_renew_self counting.sets counting.nowMs
        limit.windowMs removing.nowMs key entries
    rw [if_pos hRemoving] at hRenewed
    exact hRenewed
  have hTaken :
      removing.zrem key (c.entry refused) =
        { removing with
          sets :=
            removing.sets.put removing.nowMs key left } := by
    unfold Redis.zrem
    rw [hGet]
    exact if_neg hLeft
  have hHeld :
      ∀ last, last < counting.nowMs + limit.windowMs →
        (removing.zrem key (c.entry refused)).sets.get last
          key = some left := by
    intro last hLast
    rw [hTaken]
    exact
      get_put_renew counting.sets key entries left hRemoving
        hLast
  have hSet :
      Redis.set
          ((c.refusedAt name limit refused).wait
            next.countAt) key = left :=
    congrArg (fun set => Option.getD set ∅) (hHeld _ hSoon)
  unfold StillCounted
  rw [hSet]
  exact hLeft

end Hits

------------------------------------------------------------
-- Two histories
------------------------------------------------------------

/- One request in five seconds. -/
def onePerFive : Limit :=
  { scope := .general
    limit := 1
    windowS := 5 }

/- A hit that Redis counts at some time, in one go. -/
def arrival
    (atMs : ℕ)
    (countAt : ℤ) : Arrival :=
  { atMs := atMs
    countAt := countAt
    removeAt := countAt
    askAt := countAt }

/-
  A hit at 100 is told 5 s, and one at 4100, which Redis
  counts in time, is still refused.
-/
theorem retryExact_iff_punctual :
    RetryExact "tenant:a" onePerFive
      ((Caller.start 0).after "tenant:a" onePerFive
        ([arrival 0 0] ++ [arrival 100 100]))
      (arrival 100 100) (arrival 4100 4100) 5 := by
  let before :=
    (Caller.start 0).after "tenant:a" onePerFive
      [arrival 0 0]
  have hCounted :
      StillCounted "tenant:a" onePerFive
        (before.hit "tenant:a" onePerFive
          (arrival 100 100)).2
        (arrival 4100 4100) :=
    stillCounted_of_soon (by decide) (by decide +kernel)
      (by decide +kernel)
  refine
    (retryExact_iff "tenant:a" onePerFive ?_ 0 [arrival 0 0]
      (arrival 100 100) (arrival 4100 4100) 5 ?_).mpr
      (fun _ _ => hCounted)
  · decide
  · decide +kernel

/-
  The hit that is stamped at 4100 is counted when the key has
  expired, and allowed.
-/
theorem not_retryExact_stalled :
    let before :=
      (Caller.start 0).after "tenant:a" onePerFive
        [arrival 0 0]
    let refused :=
      before.hit "tenant:a" onePerFive (arrival 100 100)
    refused.1.allowed = false ∧ refused.1.retryAfter = 5 ∧
      ¬ RetryExact "tenant:a" onePerFive refused.2
        (arrival 100 100) (arrival 4100 5101) 5 := by
  refine ⟨by decide +kernel, by decide +kernel, ?_⟩
  intro hExact
  have hRefused :=
    hExact.refused (by decide) (by decide)
  revert hRefused
  decide +kernel

end Api

end Nidra
