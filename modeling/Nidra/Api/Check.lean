import Nidra.Api.SlidingWindow
import Nidra.Lib.PyText

/-
  This file defines what a request is checked against: the
  general ceiling and, for an upload, that of uploads after
  it. It proves when a refused request costs its caller
  nothing: an upload that the second ceiling refuses stays
  counted against the first, and a request that the first
  refuses still renews its window, which outlives what is in
  it for hits that come late.

  Key definitions include:
    * `Request`, `limitsFor`, `check`
    * `Turn`, `Limiter`, `Limiter.runTurns`
    * `CostsNothing`, `RefusedForFree`
    * `FullTogether`, `NotProlonged`

  Main declarations:
    * `refused_hit`, `allowed_hit`
    * `refusedForFree_iff`
-/

namespace Nidra

namespace Api

------------------------------------------------------------
-- The check of a request
------------------------------------------------------------

/- A request, and the caller that it is counted for. -/
structure Request where
  method : String
  path : String
  caller : String

def ingestPath : String := "/api/v1/ingest"

def ingestMethod : String := "POST"

/- Whether a request is an upload. -/
def Request.isUpload (request : Request) : Bool :=
  request.method = ingestMethod ∧
    PyText.rstripChar '/' request.path = ingestPath

variable (settings : RateLimitSettings)

/- The ceilings of a request, the tightest last. -/
def limitsFor (request : Request) : List Limit :=
  if request.isUpload then
    [settings.general, settings.ingest]
  else [settings.general]

/-
  A hit against each ceiling, up to the first that refuses.
  Each hit draws a UUID.
-/
def checkLimits
    (caller : String)
    (atMs : ℤ) :
    List Limit → ℕ → Program Redis (Option Decision)
  | [], _ => pure none
  | limit :: rest, uuid => do
      let decision ←
        hit caller limit
          { atMs := atMs
            uuid := uuid }
      if decision.allowed then
        checkLimits caller atMs rest (uuid + 1)
      else return some decision

/- The first ceiling that a request exceeds, if any. -/
def check
    (request : Request)
    (atMs : ℤ)
    (uuid : ℕ) : Program Redis (Option Decision) :=
  checkLimits request.caller atMs (limitsFor settings request)
    uuid

------------------------------------------------------------
-- One request after another
------------------------------------------------------------

/-
  Time passes on the server, or a request is checked. Redis
  may become unreachable after some of its commands; the
  request is allowed then.
-/
inductive Turn where
  | wait (nowMs : ℤ)
  | check
      (request : Request)
      (atMs : ℤ)
      (failsAfter : Option ℕ)

/- Redis, and the number of UUIDs that were drawn. -/
structure Limiter where
  redis : Redis
  drawn : ℕ

def Limiter.start (nowMs : ℤ) : Limiter :=
  { redis :=
      { nowMs := nowMs
        sets := .empty }
    drawn := 0 }

/- What a check does that may be cut short. -/
def checked
    (request : Request)
    (atMs : ℤ)
    (uuid : ℕ)
    (failsAfter : Option ℕ)
    (r : Redis) : Redis :=
  match failsAfter with
  | none => (check settings request atMs uuid).exec r
  | some commands =>
      ((check settings request atMs uuid).attempt commands r).2

def Limiter.step
    (s : Limiter) : Turn → Limiter
  | .wait nowMs =>
      { s with
        redis :=
          { s.redis with nowMs := max s.redis.nowMs nowMs } }
  | .check request atMs failsAfter =>
      { redis :=
          checked settings request atMs s.drawn failsAfter
            s.redis
        drawn :=
          s.drawn + (limitsFor settings request).length }

def Limiter.runTurns
    (s : Limiter)
    (turns : List Turn) : Limiter :=
  turns.foldl (Limiter.step settings) s

------------------------------------------------------------
-- What a refusal may cost
------------------------------------------------------------

/- The members that a window has at a time. -/
def Redis.live
    (r : Redis)
    (scope : Scope)
    (caller : String)
    (atMs : ℤ) : Finset Entry :=
  (r.set (windowKey scope caller)).filter
    (fun e =>
      atMs - (settings.limitOf scope).windowMs < e.atMs)

/- The same sets by another clock. -/
def Redis.atTime (r : Redis) (nowMs : ℤ) : Redis :=
  { r with nowMs := nowMs }

/- Whether a hit would be allowed. -/
def Redis.allows
    (r : Redis)
    (scope : Scope)
    (caller : String)
    (entry : Entry) : Bool :=
  ((hit caller (settings.limitOf scope) entry).eval r).allowed

/-
  All windows of a caller have the members that they had, and
  no later hit is decided in another way, whenever it reaches
  the server.
-/
structure CostsNothing
    (r r' : Redis)
    (caller : String)
    (atMs : ℤ) : Prop where
  live :
    ∀ scope,
      r'.live settings scope caller atMs =
        r.live settings scope caller atMs
  later :
    ∀ scope entry laterMs,
      r.nowMs ≤ laterMs → atMs ≤ entry.atMs →
        (r'.atTime laterMs).allows settings scope caller
            entry =
          (r.atTime laterMs).allows settings scope caller
            entry

/- If a request is refused, that costs its caller nothing. -/
def RefusedForFree
    (s : Limiter)
    (request : Request)
    (atMs : ℤ) : Prop :=
  ((check settings request atMs s.drawn).eval
      s.redis).isSome →
    CostsNothing settings s.redis
      ((check settings request atMs s.drawn).exec s.redis)
      request.caller atMs

/- A window has no room for one more hit. -/
def Redis.full
    (r : Redis)
    (scope : Scope)
    (caller : String)
    (atMs : ℤ) : Prop :=
  (settings.limitOf scope).limit <
    (trimmed (r.set (windowKey scope caller))
      (atMs - (settings.limitOf scope).windowMs)).card + 1

/-
  A request is no upload, or finds the general window full
  whenever it finds that of uploads full.
-/
def FullTogether
    (s : Limiter)
    (request : Request)
    (atMs : ℤ) : Prop :=
  request.isUpload →
    s.redis.full settings .ingest request.caller atMs →
      s.redis.full settings .general request.caller atMs

/- To renew a window now does not change when it ends. -/
def Redis.justRenewed
    (r : Redis)
    (scope : Scope)
    (caller : String) : Prop :=
  ∃ e ∈ r.sets.entry r.nowMs (windowKey scope caller),
    e.deadline =
      some (r.nowMs + (settings.limitOf scope).windowMs)

/-
  When the general window is full, it has just been renewed,
  or has no room for anyone.
-/
def NotProlonged
    (s : Limiter)
    (request : Request)
    (atMs : ℤ) : Prop :=
  s.redis.full settings .general request.caller atMs →
    settings.general.limit ≤ 0 ∨
      s.redis.justRenewed settings .general request.caller

------------------------------------------------------------
-- Sets
------------------------------------------------------------

/- Trimming again for a later hit is trimming for it. -/
theorem trimmed_trimmed
    (entries : Finset Entry)
    {most later : ℤ}
    (hLater : most ≤ later) :
    trimmed (trimmed entries most) later =
      trimmed entries later := by
  unfold trimmed
  rw [Finset.filter_filter]
  apply Finset.filter_congr
  intro e _
  omega

/- What is live is not trimmed. -/
theorem filter_trimmed
    (entries : Finset Entry)
    (most : ℤ) :
    (trimmed entries most).filter (fun e => most < e.atMs) =
      entries.filter (fun e => most < e.atMs) := by
  unfold trimmed
  rw [Finset.filter_filter]
  apply Finset.filter_congr
  intro e _
  omega

theorem set_renew_self
    (r : Redis)
    (key : String)
    {windowMs : ℤ}
    (hPos : 0 < windowMs)
    (entries : Finset Entry) :
    Redis.set
        { r with
          sets := r.sets.renew r.nowMs windowMs key entries }
        key =
      entries := by
  have hBefore : r.nowMs < r.nowMs + windowMs := by
    omega
  unfold Redis.set
  dsimp only
  rw [TtlStore.get_renew_self, if_pos hBefore]
  rfl

theorem set_renew_ne
    (r : Redis)
    {key key' : String}
    (windowMs : ℤ)
    (entries : Finset Entry)
    (hNe : key' ≠ key)
    (laterMs : ℤ) :
    (Redis.atTime
        { r with
          sets := r.sets.renew r.nowMs windowMs key entries }
        laterMs).set key' =
      (r.atTime laterMs).set key' := by
  unfold Redis.set Redis.atTime
  rw [TtlStore.get_renew_ne _ _ _ _ _ hNe]

theorem set_zrem_ne
    (r : Redis)
    {key key' : String}
    (entry : Entry)
    (hNe : key' ≠ key)
    (laterMs : ℤ) :
    ((r.zrem key entry).atTime laterMs).set key' =
      (r.atTime laterMs).set key' := by
  unfold Redis.zrem
  cases hGet : r.sets.get r.nowMs key with
  | none => rfl
  | some entries =>
      dsimp only
      split_ifs with hLeft
      · simp [Redis.atTime, Redis.set,
          TtlStore.get_delete_ne _ _ hNe]
      · simp [Redis.atTime, Redis.set,
          TtlStore.get_put_ne _ _ _ _ hNe]

------------------------------------------------------------
-- One hit
------------------------------------------------------------

/- Redis after the transaction of a hit. -/
def Redis.afterCount
    (r : Redis)
    (scope : Scope)
    (caller : String)
    (entry : Entry) : Redis :=
  let key := windowKey scope caller
  let windowMs := (settings.limitOf scope).windowMs
  { r with
    sets :=
      r.sets.renew r.nowMs windowMs key
        (r.counted key windowMs entry) }

theorem allows_eq
    (r : Redis)
    (scope : Scope)
    (caller : String)
    (entry : Entry) :
    r.allows settings scope caller entry =
      decide
        ((r.counted (windowKey scope caller)
            (settings.limitOf scope).windowMs entry).card ≤
          (settings.limitOf scope).limit) := by
  unfold Redis.allows hit countHit
  rw [limitOf_scope, Program.eval_bind, Program.eval_step]
  dsimp only
  split_ifs with hRoom
  · rw [decide_eq_true hRoom]
    rfl
  · rw [decide_eq_false hRoom]
    rfl

/- An allowed hit is counted, -/
theorem allowed_hit
    {r : Redis}
    {scope : Scope}
    {caller : String}
    {entry : Entry}
    (hAllows : r.allows settings scope caller entry = true) :
    (hit caller (settings.limitOf scope) entry).exec r =
      r.afterCount settings scope caller entry := by
  rw [allows_eq, decide_eq_true_eq] at hAllows
  unfold hit countHit
  rw [limitOf_scope, Program.exec_bind, Program.eval_step]
  dsimp only
  rw [if_pos hAllows]
  rfl

/- and a refused one is taken back. -/
theorem refused_hit
    {r : Redis}
    {scope : Scope}
    {caller : String}
    {entry : Entry}
    (hRefuses : r.allows settings scope caller entry = false) :
    (hit caller (settings.limitOf scope) entry).exec r =
      (r.afterCount settings scope caller entry).zrem
        (windowKey scope caller) entry := by
  rw [allows_eq, decide_eq_false_iff_not] at hRefuses
  unfold hit countHit
  rw [limitOf_scope, Program.exec_bind, Program.eval_step]
  dsimp only
  rw [if_neg hRefuses]
  unfold refuse
  rw [limitOf_scope, Program.exec_bind, Program.exec_write]
  rfl

/- The window of a hit has the hit after its transaction, -/
theorem set_afterCount_self
    (r : Redis)
    (scope : Scope)
    (caller : String)
    (entry : Entry) :
    (r.afterCount settings scope caller entry).set
        (windowKey scope caller) =
      insert entry
        (trimmed (r.set (windowKey scope caller))
          (entry.atMs -
            (settings.limitOf scope).windowMs)) :=
  set_renew_self r _ (Limit.windowMs_pos _) _

theorem windowKey_ne
    {scope scope' : Scope}
    (caller : String)
    (hNe : scope' ≠ scope) :
    windowKey scope' caller ≠ windowKey scope caller :=
  fun hKey => hNe (windowKey_inj hKey).1

/- and no other window is changed. -/
theorem set_afterCount_ne
    (r : Redis)
    {scope scope' : Scope}
    (caller : String)
    (entry : Entry)
    (hNe : scope' ≠ scope)
    (laterMs : ℤ) :
    ((r.afterCount settings scope caller entry).atTime
        laterMs).set (windowKey scope' caller) =
      (r.atTime laterMs).set (windowKey scope' caller) :=
  set_renew_ne r _ _ (windowKey_ne caller hNe) laterMs

/- A hit that is no member yet takes up room. -/
theorem allows_iff
    {r : Redis}
    {scope : Scope}
    {caller : String}
    {entry : Entry}
    (hFresh : entry ∉ r.set (windowKey scope caller)) :
    r.allows settings scope caller entry = true ↔
      ¬ r.full settings scope caller entry.atMs := by
  have hNotMem :
      entry ∉ trimmed (r.set (windowKey scope caller))
        (entry.atMs - (settings.limitOf scope).windowMs) :=
    fun hMem => hFresh (Finset.mem_of_mem_filter entry hMem)
  rw [allows_eq, decide_eq_true_eq]
  unfold Redis.counted Redis.full
  rw [Finset.card_insert_of_notMem hNotMem]
  push_cast
  exact not_lt.symm

/-
  Later on the window is there for its whole length from now
  on, however long it was there before.
-/
theorem set_refused_later
    {r : Redis}
    {scope : Scope}
    {caller : String}
    {entry : Entry}
    (hFresh : entry ∉ r.set (windowKey scope caller))
    (laterMs : ℤ) :
    (((r.afterCount settings scope caller entry).zrem
        (windowKey scope caller) entry).atTime laterMs).set
        (windowKey scope caller) =
      if laterMs <
          r.nowMs + (settings.limitOf scope).windowMs then
        trimmed (r.set (windowKey scope caller))
          (entry.atMs - (settings.limitOf scope).windowMs)
      else ∅ := by
  have hPos := Limit.windowMs_pos (settings.limitOf scope)
  have hNow :
      r.nowMs < r.nowMs + (settings.limitOf scope).windowMs := by
    omega
  have hGet :
      ∀ laterMs,
        (r.afterCount settings scope caller entry).sets.get
            laterMs (windowKey scope caller) =
          if laterMs <
              r.nowMs + (settings.limitOf scope).windowMs then
            some
              (r.counted (windowKey scope caller)
                (settings.limitOf scope).windowMs entry)
          else none :=
    fun laterMs => TtlStore.get_renew_self _ _ _ laterMs _ _
  have hGetNow := hGet r.nowMs
  rw [if_pos hNow] at hGetNow
  have hLeft :
      (r.counted (windowKey scope caller)
          (settings.limitOf scope).windowMs entry).erase
            entry =
        trimmed (r.set (windowKey scope caller))
          (entry.atMs -
            (settings.limitOf scope).windowMs) := by
    apply Finset.erase_insert
    exact
      fun hMem => hFresh (Finset.mem_of_mem_filter entry hMem)
  have hClock :
      (r.afterCount settings scope caller entry).nowMs =
        r.nowMs := rfl
  unfold Redis.zrem
  rw [hClock, hGetNow]
  dsimp only
  rw [hLeft]
  by_cases hEmpty :
      trimmed (r.set (windowKey scope caller))
          (entry.atMs - (settings.limitOf scope).windowMs) = ∅
  · rw [if_pos hEmpty, hEmpty, ite_self]
    simp [Redis.set, Redis.atTime]
  · rw [if_neg hEmpty]
    unfold Redis.set Redis.atTime
    dsimp only
    rw [TtlStore.get_put_later hGetNow, hGet]
    split
    · rfl
    · rfl

------------------------------------------------------------
-- What a refusal costs
------------------------------------------------------------

/- A live window is there until its deadline. -/
theorem set_atTime_of_entry
    {r : Redis}
    {key : String}
    {e : TtlEntry ℤ (Finset Entry)}
    (hEntry : r.sets.entry r.nowMs key = some e)
    (laterMs : ℤ) :
    (r.atTime laterMs).set key =
      if e.liveAt laterMs then r.set key else ∅ := by
  have hNow := TtlStore.get_of_entry hEntry r.nowMs
  rw [if_pos (TtlStore.liveAt_of_entry hEntry)] at hNow
  unfold Redis.set Redis.atTime
  dsimp only
  rw [TtlStore.get_of_entry hEntry laterMs, hNow]
  split
  · rfl
  · rfl

/- A window without room for anyone refuses every hit. -/
theorem allows_of_limit_nonpos
    {scope : Scope}
    (hLimit : (settings.limitOf scope).limit ≤ 0)
    (r : Redis)
    (caller : String)
    (entry : Entry) :
    r.allows settings scope caller entry = false := by
  rw [allows_eq]
  apply decide_eq_false
  have hCard :
      0 < (r.counted (windowKey scope caller)
        (settings.limitOf scope).windowMs entry).card :=
    Finset.card_pos.mpr ⟨entry, Finset.mem_insert_self _ _⟩
  omega

/- Sets that only differ in what is trimmed count alike. -/
theorem allows_congr
    {r r' : Redis}
    {scope : Scope}
    {caller : String}
    {most : ℤ}
    {entry : Entry}
    (hMost :
      most ≤ entry.atMs - (settings.limitOf scope).windowMs)
    (hSets :
      r'.set (windowKey scope caller) =
        trimmed (r.set (windowKey scope caller)) most) :
    r'.allows settings scope caller entry =
      r.allows settings scope caller entry := by
  rw [allows_eq, allows_eq]
  unfold Redis.counted
  rw [hSets, trimmed_trimmed _ hMost]

/- An empty window has room, if there is room for anyone. -/
theorem allows_of_set_empty
    {r : Redis}
    {scope : Scope}
    {caller : String}
    (hLimit : 0 < (settings.limitOf scope).limit)
    (hEmpty : r.set (windowKey scope caller) = ∅)
    (entry : Entry) :
    r.allows settings scope caller entry = true := by
  rw [allows_eq, decide_eq_true_eq]
  unfold Redis.counted
  rw [hEmpty]
  exact_mod_cast hLimit

/- A window that is as full as another one refuses alike. -/
theorem not_allows_of_full
    {r r' : Redis}
    {scope : Scope}
    {caller : String}
    {entry : Entry}
    (hFull : r.full settings scope caller entry.atMs)
    (hNew : entry ∉ r'.set (windowKey scope caller))
    (hSame :
      trimmed (r'.set (windowKey scope caller))
          (entry.atMs - (settings.limitOf scope).windowMs) =
        trimmed (r.set (windowKey scope caller))
          (entry.atMs -
            (settings.limitOf scope).windowMs)) :
    r'.allows settings scope caller entry = false := by
  rw [Bool.eq_false_iff, ne_eq, allows_iff settings hNew]
  unfold Redis.full at hFull ⊢
  rw [hSame]
  exact not_not_intro hFull

/- A full window with room for someone has its key. -/
theorem exists_entry_of_full
    {r : Redis}
    {scope : Scope}
    {caller : String}
    {atMs : ℤ}
    (hFull : r.full settings scope caller atMs)
    (hLimit : 0 < (settings.limitOf scope).limit) :
    ∃ e,
      r.sets.entry r.nowMs (windowKey scope caller) =
        some e := by
  cases hEntry :
      r.sets.entry r.nowMs (windowKey scope caller) with
  | some e => exact ⟨e, rfl⟩
  | none =>
      have hNone : r.set (windowKey scope caller) = ∅ := by
        unfold Redis.set TtlStore.get
        rw [hEntry]
        rfl
      unfold Redis.full at hFull
      rw [hNone] at hFull
      have hZero :
          (trimmed ∅
            (atMs - (settings.limitOf scope).windowMs)).card =
              0 := rfl
      omega

section Refused

variable {r : Redis}
variable {scope : Scope}
variable {caller : String}
variable {entry : Entry}

/- What a refused hit leaves. -/
def Redis.afterRefusal
    (r : Redis)
    (scope : Scope)
    (caller : String)
    (entry : Entry) : Redis :=
  (r.afterCount settings scope caller entry).zrem
    (windowKey scope caller) entry

/- At the time of the hit these are the sets themselves. -/
theorem afterRefusal_atTime :
    (r.afterRefusal settings scope caller entry).atTime
        r.nowMs =
      r.afterRefusal settings scope caller entry := by
  have hNow :
      (r.afterRefusal settings scope caller entry).nowMs =
        r.nowMs :=
    nowMs_zrem _ _ _
  unfold Redis.atTime
  rw [← hNow]

theorem set_afterRefusal_ne
    {scope' : Scope}
    (hNe : scope' ≠ scope)
    (laterMs : ℤ) :
    ((r.afterRefusal settings scope caller entry).atTime
        laterMs).set (windowKey scope' caller) =
      (r.atTime laterMs).set (windowKey scope' caller) := by
  unfold Redis.afterRefusal
  rw [set_zrem_ne _ _ (windowKey_ne caller hNe),
    set_afterCount_ne settings _ _ _ hNe]

/-
  A refusal is free where nothing is ever allowed, and where
  the window does not end later for it.
-/
theorem costsNothing_afterRefusal
    (hFresh : entry ∉ r.set (windowKey scope caller))
    (hFree :
      (settings.limitOf scope).limit ≤ 0 ∨
        r.justRenewed settings scope caller) :
    CostsNothing settings r
      (r.afterRefusal settings scope caller entry) caller
      entry.atMs := by
  have hPos := Limit.windowMs_pos (settings.limitOf scope)
  constructor
  · intro scope'
    unfold Redis.live
    rcases eq_or_ne scope' scope with rfl | hNe
    · have hNow :=
        set_refused_later settings hFresh r.nowMs
      rw [if_pos (by omega)] at hNow
      have hSet :
          (r.afterRefusal settings scope' caller entry).set
              (windowKey scope' caller) =
            trimmed (r.set (windowKey scope' caller))
              (entry.atMs -
                (settings.limitOf scope').windowMs) := by
        rw [← afterRefusal_atTime]
        exact hNow
      rw [hSet, filter_trimmed]
    · have hSet :
          (r.afterRefusal settings scope caller entry).set
              (windowKey scope' caller) =
            r.set (windowKey scope' caller) := by
        rw [← afterRefusal_atTime]
        exact set_afterRefusal_ne settings hNe r.nowMs
      rw [hSet]
  · intro scope' entry' laterMs _ hLater
    rcases eq_or_ne scope' scope with rfl | hNe
    · rcases hFree with hLimit | ⟨e, hEntry, hDeadline⟩
      · rw [allows_of_limit_nonpos settings hLimit,
          allows_of_limit_nonpos settings hLimit]
      · -- Both end at the same time.
        have hMost :
            entry.atMs - (settings.limitOf scope').windowMs ≤
              entry'.atMs -
                (settings.limitOf scope').windowMs := by
          omega
        apply allows_congr settings hMost
        refine
          (set_refused_later settings hFresh laterMs).trans ?_
        rw [set_atTime_of_entry hEntry]
        unfold TtlEntry.liveAt
        rw [hDeadline]
        simp only [decide_eq_true_eq]
        split
        · rfl
        · rfl
    · rw [allows_eq, allows_eq]
      unfold Redis.counted
      rw [set_afterRefusal_ne settings hNe]

/- A window that would have ended before now goes on. -/
theorem not_costsNothing_of_endsBefore
    (hFresh : entry ∉ r.set (windowKey scope caller))
    (hFull : r.full settings scope caller entry.atMs)
    (hLimit : 0 < (settings.limitOf scope).limit)
    {e : TtlEntry ℤ (Finset Entry)}
    (hEntry :
      r.sets.entry r.nowMs (windowKey scope caller) = some e)
    {d : ℤ}
    (hDeadline : e.deadline = some d)
    (hBefore :
      d < r.nowMs + (settings.limitOf scope).windowMs) :
    ¬ CostsNothing settings r
      (r.afterRefusal settings scope caller entry) caller
      entry.atMs := by
  intro hCosts
  have hNow := TtlStore.liveAt_of_entry hEntry
  have hGone := set_atTime_of_entry hEntry d
  unfold TtlEntry.liveAt at hNow hGone
  rw [hDeadline] at hNow hGone
  simp only [lt_self_iff_false, decide_false,
    Bool.false_eq_true, if_false] at hGone
  have hKept := set_refused_later settings hFresh d
  rw [if_pos hBefore] at hKept
  have hNew :
      entry ∉ trimmed (r.set (windowKey scope caller))
        (entry.atMs - (settings.limitOf scope).windowMs) :=
    fun hMem => hFresh (Finset.mem_of_mem_filter entry hMem)
  have hLater :=
    hCosts.later scope entry d (of_decide_eq_true hNow).le
      le_rfl
  unfold Redis.afterRefusal at hLater
  rw [allows_of_set_empty settings hLimit hGone,
    not_allows_of_full settings hFull
      (by rw [hKept]; exact hNew)
      (by rw [hKept, trimmed_trimmed _ le_rfl])] at hLater
  cases hLater

/- A window that would have gone on now ends. -/
theorem not_costsNothing_of_endsAfter
    (hFresh : entry ∉ r.set (windowKey scope caller))
    (hFull : r.full settings scope caller entry.atMs)
    (hLimit : 0 < (settings.limitOf scope).limit)
    {e : TtlEntry ℤ (Finset Entry)}
    (hEntry :
      r.sets.entry r.nowMs (windowKey scope caller) = some e)
    (hLive :
      e.liveAt
          (r.nowMs + (settings.limitOf scope).windowMs) =
        true) :
    ¬ CostsNothing settings r
      (r.afterRefusal settings scope caller entry) caller
      entry.atMs := by
  intro hCosts
  have hPos := Limit.windowMs_pos (settings.limitOf scope)
  have hGone :=
    set_refused_later settings hFresh
      (r.nowMs + (settings.limitOf scope).windowMs)
  rw [if_neg (lt_irrefl _)] at hGone
  have hKept :=
    set_atTime_of_entry hEntry
      (r.nowMs + (settings.limitOf scope).windowMs)
  rw [if_pos hLive] at hKept
  have hLater :=
    hCosts.later scope entry
      (r.nowMs + (settings.limitOf scope).windowMs)
      (by omega) le_rfl
  unfold Redis.afterRefusal at hLater
  rw [allows_of_set_empty settings hLimit hGone,
    not_allows_of_full settings hFull
      (by rw [hKept]; exact hFresh) (by rw [hKept])]
    at hLater
  cases hLater

/-
  Anywhere else a late hit is decided in another way: between
  the two ends of the window.
-/
theorem not_costsNothing_afterRefusal
    (hFresh : entry ∉ r.set (windowKey scope caller))
    (hFull : r.full settings scope caller entry.atMs)
    (hLimit : 0 < (settings.limitOf scope).limit)
    (hNot : ¬ r.justRenewed settings scope caller) :
    ¬ CostsNothing settings r
      (r.afterRefusal settings scope caller entry) caller
      entry.atMs := by
  rcases exists_entry_of_full settings hFull hLimit with
    ⟨e, hEntry⟩
  have hAfter :=
    not_costsNothing_of_endsAfter settings hFresh hFull hLimit
      hEntry
  unfold TtlEntry.liveAt at hAfter
  cases hDeadline : e.deadline with
  | none =>
      rw [hDeadline] at hAfter
      exact hAfter rfl
  | some d =>
      rw [hDeadline] at hAfter
      rcases lt_trichotomy d
          (r.nowMs + (settings.limitOf scope).windowMs) with
        hLt | hEq | hGt
      · exact
          not_costsNothing_of_endsBefore settings hFresh hFull
            hLimit hEntry hDeadline hLt
      · rw [hEq] at hDeadline
        exact absurd ⟨e, hEntry, hDeadline⟩ hNot
      · exact hAfter (decide_eq_true hGt)

end Refused

------------------------------------------------------------
-- UUIDs
------------------------------------------------------------

/- No member has a UUID that was not drawn yet. -/
def Drawn (uuids : ℕ) (r : Redis) : Prop :=
  ∀ key, ∀ e ∈ r.members key, e.uuid < uuids

theorem Drawn.mono
    {uuids uuids' : ℕ}
    {r : Redis}
    (hDrawn : Drawn uuids r)
    (hLe : uuids ≤ uuids') :
    Drawn uuids' r :=
  fun key e hMem => lt_of_lt_of_le (hDrawn key e hMem) hLe

/- What can be read was written. -/
theorem mem_members_of_mem_set
    {r : Redis}
    {key : String}
    {e : Entry}
    (hMem : e ∈ r.set key) :
    e ∈ r.members key := by
  unfold Redis.set at hMem
  cases hGet : r.sets.get r.nowMs key with
  | none =>
      rw [hGet] at hMem
      exact absurd hMem (Finset.notMem_empty e)
  | some entries =>
      rw [hGet] at hMem
      unfold Redis.members
      rw [TtlStore.written_of_get hGet]
      exact hMem

theorem Drawn.notMem
    {uuids : ℕ}
    {r : Redis}
    (hDrawn : Drawn uuids r)
    (key : String)
    {entry : Entry}
    (hNew : uuids ≤ entry.uuid) :
    entry ∉ r.set key := by
  intro hMem
  have hLt := hDrawn key entry (mem_members_of_mem_set hMem)
  omega

/- A member that is taken back was one. -/
theorem mem_members_of_zrem
    {r : Redis}
    {key key' : String}
    {entry e : Entry}
    (hMem : e ∈ (r.zrem key' entry).members key) :
    e ∈ r.members key := by
  unfold Redis.zrem at hMem
  cases hGet : r.sets.get r.nowMs key' with
  | none =>
      rw [hGet] at hMem
      exact hMem
  | some entries =>
      rw [hGet] at hMem
      dsimp only at hMem
      by_cases hKey : key = key'
      · subst hKey
        split_ifs at hMem with hLeft
        · unfold Redis.members at hMem
          rw [TtlStore.written_delete_self] at hMem
          exact absurd hMem (Finset.notMem_empty e)
        · unfold Redis.members at hMem ⊢
          rw [TtlStore.written_put_self] at hMem
          rw [TtlStore.written_of_get hGet]
          exact Finset.mem_of_mem_erase hMem
      · unfold Redis.members at hMem ⊢
        split_ifs at hMem with hLeft
        · rwa [TtlStore.written_delete_ne _ hKey] at hMem
        · rwa [TtlStore.written_put_ne _ _ _ hKey] at hMem

/- Every command of a hit adds no member but its own. -/
theorem keeps_hit
    (caller : String)
    (limit : Limit)
    {entry : Entry}
    {uuids : ℕ}
    (hOwn : entry.uuid < uuids) :
    Program.Keeps (Drawn uuids) (hit caller limit entry) := by
  have hCount :
      Program.Keeps (Drawn uuids)
        (countHit (windowKey limit.scope caller) limit.windowMs
          entry) := by
    refine .effect _ _ ?_ (fun _ _ => .done _)
    intro r hDrawn key e hMem
    unfold Redis.members at hMem
    dsimp only at hMem
    by_cases hKey : key = windowKey limit.scope caller
    · subst hKey
      rw [TtlStore.written_renew_self] at hMem
      rcases Finset.mem_insert.mp hMem with rfl | hOld
      · exact hOwn
      · apply hDrawn _ e
        exact
          mem_members_of_mem_set
            (Finset.mem_of_mem_filter e hOld)
    · rw [TtlStore.written_renew_ne _ _ _ _ hKey] at hMem
      exact hDrawn key e hMem
  have hRefuse :
      Program.Keeps (Drawn uuids) (refuse caller limit entry) := by
    refine .effect _ _ ?_ (fun _ _ => ?_)
    · intro r hDrawn key e hMem
      exact hDrawn key e (mem_members_of_zrem hMem)
    · exact .effect _ _ (fun _ hDrawn => hDrawn)
        (fun _ _ => .done _)
  refine hCount.bind (fun used => ?_)
  split_ifs with hRoom
  · exact .done _
  · exact hRefuse

theorem keeps_checkLimits
    (caller : String)
    (atMs : ℤ)
    (limits : List Limit)
    {uuid uuids : ℕ}
    (hOwn : uuid + limits.length ≤ uuids) :
    Program.Keeps (Drawn uuids)
      (checkLimits caller atMs limits uuid) := by
  induction limits generalizing uuid with
  | nil => exact .done _
  | cons limit rest ih =>
      rw [List.length_cons] at hOwn
      have hHit :
          Program.Keeps (Drawn uuids)
            (hit caller limit
              { atMs := atMs
                uuid := uuid }) :=
        keeps_hit caller limit (show uuid < uuids by omega)
      refine hHit.bind (fun decision => ?_)
      split_ifs with hAllowed
      · exact ih (by omega)
      · exact .done _

/- After any history, every member has a UUID drawn in it. -/
theorem drawn_runTurns
    (nowMs : ℤ)
    (turns : List Turn) :
    let s := (Limiter.start nowMs).runTurns settings turns
    Drawn s.drawn s.redis := by
  induction turns using List.reverseRecOn with
  | nil =>
      intro s key e hMem
      change e ∈ (∅ : Finset Entry) at hMem
      exact absurd hMem (Finset.notMem_empty e)
  | append_singleton turns turn ih =>
      unfold Limiter.runTurns at ih ⊢
      rw [List.foldl_concat]
      revert ih
      generalize turns.foldl (Limiter.step settings)
        (Limiter.start nowMs) = s
      intro hDrawn
      cases turn with
      | wait later => exact hDrawn
      | check request atMs failsAfter =>
          have hKeeps :=
            keeps_checkLimits request.caller atMs
              (limitsFor settings request)
              (le_refl (s.drawn +
                (limitsFor settings request).length))
          have hMore :=
            hDrawn.mono
              (Nat.le_add_right s.drawn
                (limitsFor settings request).length)
          cases failsAfter with
          | none => exact hKeeps.run hMore
          | some commands => exact hKeeps.attempt commands hMore

------------------------------------------------------------
-- When a refusal is free
------------------------------------------------------------

/- A check goes on after a ceiling that allows, -/
theorem checkLimits_allowed
    {scope : Scope}
    {caller : String}
    {atMs : ℤ}
    (rest : List Limit)
    {uuid : ℕ}
    {r : Redis}
    (hAllows :
      r.allows settings scope caller
        { atMs := atMs
          uuid := uuid } = true) :
    let p :=
      checkLimits caller atMs (settings.limitOf scope :: rest)
        uuid
    let q := checkLimits caller atMs rest (uuid + 1)
    let counted :=
      r.afterCount settings scope caller
        { atMs := atMs
          uuid := uuid }
    p.eval r = q.eval counted ∧ p.exec r = q.exec counted := by
  intro p q counted
  have hAllowed := hAllows
  unfold Redis.allows at hAllowed
  simp only [p, checkLimits, Program.eval_bind,
    Program.exec_bind, hAllowed, allowed_hit settings hAllows,
    if_true, q, counted, and_self]

/- and ends with one that refuses. -/
theorem checkLimits_refused
    {scope : Scope}
    {caller : String}
    {atMs : ℤ}
    (rest : List Limit)
    {uuid : ℕ}
    {r : Redis}
    (hRefuses :
      r.allows settings scope caller
        { atMs := atMs
          uuid := uuid } = false) :
    let p :=
      checkLimits caller atMs (settings.limitOf scope :: rest)
        uuid
    let counted :=
      r.afterCount settings scope caller
        { atMs := atMs
          uuid := uuid }
    (p.eval r).isSome = true ∧
      p.exec r =
        counted.zrem (windowKey scope caller)
          { atMs := atMs
            uuid := uuid } := by
  intro p counted
  have hRefused := hRefuses
  unfold Redis.allows at hRefused
  simp only [p, checkLimits, Program.eval_bind,
    Program.exec_bind, hRefused, refused_hit settings hRefuses,
    Bool.false_eq_true, if_false, Program.eval_pure,
    Program.exec_pure, Option.isSome_some, counted, and_self]

/- What only the second refuses is not. -/
theorem not_costsNothing_of_ingest_refused
    {r : Redis}
    {caller : String}
    {entry other : Entry}
    (hFresh : entry ∉ r.set (windowKey .general caller)) :
    ¬ CostsNothing settings r
      (((r.afterCount settings .general caller entry).afterCount
          settings .ingest caller other).zrem
        (windowKey .ingest caller) other)
      caller entry.atMs := by
  intro hCosts
  have hLive := hCosts.live .general
  have hNe : Scope.general ≠ Scope.ingest := by decide
  have hPos := Limit.windowMs_pos (settings.limitOf .general)
  have hNow :
      entry.atMs - (settings.limitOf .general).windowMs <
        entry.atMs := by
    omega
  have hSet :
      (((r.afterCount settings .general caller
          entry).afterCount settings .ingest caller
            other).zrem (windowKey .ingest caller) other).set
          (windowKey .general caller) =
        insert entry
          (trimmed (r.set (windowKey .general caller))
            (entry.atMs -
              (settings.limitOf .general).windowMs)) := by
    have hOther :
        (((r.afterCount settings .general caller
            entry).afterRefusal settings .ingest caller
              other).atTime r.nowMs).set
            (windowKey .general caller) =
          (r.afterCount settings .general caller entry).set
            (windowKey .general caller) :=
      set_afterRefusal_ne settings hNe r.nowMs
    rw [← set_afterCount_self, ← hOther]
    exact
      congrArg
        (fun r' => Redis.set r' (windowKey .general caller))
        (afterRefusal_atTime settings).symm
  unfold Redis.live at hLive
  rw [hSet] at hLive
  have hMem :
      entry ∈ (r.set (windowKey .general caller)).filter
        (fun e =>
          entry.atMs - (settings.limitOf .general).windowMs <
            e.atMs) := by
    rw [← hLive]
    exact
      Finset.mem_filter.mpr
        ⟨Finset.mem_insert_self _ _, hNow⟩
  exact hFresh (Finset.mem_of_mem_filter entry hMem)

------------------------------------------------------------
-- The three outcomes
------------------------------------------------------------

/- The hits of a request against its two ceilings. -/
def Limiter.entry
    (s : Limiter)
    (atMs : ℤ) : Entry :=
  { atMs := atMs
    uuid := s.drawn }

def Limiter.secondEntry
    (s : Limiter)
    (atMs : ℤ) : Entry :=
  { atMs := atMs
    uuid := s.drawn + 1 }

section Outcomes

variable {s : Limiter}
variable (request : Request)
variable (atMs : ℤ)

theorem entry_fresh
    (hDrawn : Drawn s.drawn s.redis)
    (key : String) :
    s.entry atMs ∉ s.redis.set key :=
  hDrawn.notMem _ (le_refl s.drawn)

/- The general ceiling refuses, which may prolong it. -/
theorem refusedForFree_full_iff
    (hDrawn : Drawn s.drawn s.redis)
    (hFull :
      s.redis.full settings .general request.caller atMs) :
    RefusedForFree settings s request atMs ↔
      settings.general.limit ≤ 0 ∨
        s.redis.justRenewed settings .general
          request.caller := by
  have hFresh :
      s.entry atMs ∉
        s.redis.set (windowKey .general request.caller) :=
    entry_fresh atMs hDrawn _
  have hRefuses :
      s.redis.allows settings .general request.caller
        (s.entry atMs) = false := by
    rw [Bool.eq_false_iff, ne_eq, allows_iff settings hFresh]
    exact not_not_intro hFull
  have hLimits :
      limitsFor settings request =
        settings.limitOf .general ::
          (if request.isUpload then [settings.ingest]
            else []) := by
    unfold limitsFor
    split_ifs <;> rfl
  have hEnds :=
    checkLimits_refused settings
      (if request.isUpload then [settings.ingest] else [])
      hRefuses
  unfold RefusedForFree check
  rw [hLimits]
  constructor
  · intro hFree
    have hCosts := hFree hEnds.1
    rw [hEnds.2] at hCosts
    by_contra hNot
    rw [not_or, not_le] at hNot
    exact
      not_costsNothing_afterRefusal settings hFresh hFull
        hNot.1 hNot.2 hCosts
  · intro hFree _
    rw [hEnds.2]
    exact
      costsNothing_afterRefusal settings hFresh hFree

/- The only ceiling allows, and nothing is refused. -/
theorem refusedForFree_of_other
    (hDrawn : Drawn s.drawn s.redis)
    (hRoom :
      ¬ s.redis.full settings .general request.caller atMs)
    (hOther : request.isUpload = false) :
    RefusedForFree settings s request atMs := by
  have hAllows :
      s.redis.allows settings .general request.caller
        (s.entry atMs) = true :=
    (allows_iff settings (entry_fresh atMs hDrawn _)).mpr hRoom
  have hLimits :
      limitsFor settings request =
        [settings.limitOf .general] := by
    unfold limitsFor
    rw [hOther]
    rfl
  intro hRefused
  unfold check at hRefused
  rw [hLimits, (checkLimits_allowed settings [] hAllows).1]
    at hRefused
  cases hRefused

/- An upload is counted, and the second ceiling decides. -/
theorem refusedForFree_upload_iff
    (hDrawn : Drawn s.drawn s.redis)
    (hRoom :
      ¬ s.redis.full settings .general request.caller atMs)
    (hUpload : request.isUpload = true) :
    RefusedForFree settings s request atMs ↔
      ¬ s.redis.full settings .ingest request.caller atMs := by
  have hAllows :
      s.redis.allows settings .general request.caller
        (s.entry atMs) = true :=
    (allows_iff settings (entry_fresh atMs hDrawn _)).mpr hRoom
  have hGoesOn :=
    checkLimits_allowed settings [settings.limitOf .ingest]
      hAllows
  have hLimits :
      limitsFor settings request =
        [settings.limitOf .general, settings.limitOf .ingest]
      := by
    unfold limitsFor
    rw [hUpload]
    rfl
  let counted :=
    s.redis.afterCount settings .general request.caller
      (s.entry atMs)
  let rest :=
    checkLimits request.caller atMs [settings.limitOf .ingest]
      (s.drawn + 1)
  have hSame :
      counted.set (windowKey .ingest request.caller) =
        s.redis.set (windowKey .ingest request.caller) :=
    set_afterCount_ne settings _ _ _ (by decide) s.redis.nowMs
  have hFreshSecond :
      s.secondEntry atMs ∉
        counted.set (windowKey .ingest request.caller) := by
    rw [hSame]
    exact hDrawn.notMem _ (Nat.le_succ s.drawn)
  have hDecides :
      counted.allows settings .ingest request.caller
          (s.secondEntry atMs) = true ↔
        ¬ s.redis.full settings .ingest request.caller atMs := by
    rw [allows_iff settings hFreshSecond]
    unfold Redis.full
    rw [hSame]
    rfl
  unfold RefusedForFree check
  rw [hLimits, hGoesOn.1, hGoesOn.2, ← hDecides]
  constructor
  · intro hFree
    by_contra hRefuses
    have hEnds :=
      checkLimits_refused settings []
        (Bool.eq_false_iff.mpr hRefuses)
    have hCosts :
        CostsNothing settings s.redis (rest.exec counted)
          request.caller atMs :=
      hFree hEnds.1
    rw [hEnds.2] at hCosts
    exact
      not_costsNothing_of_ingest_refused settings
        (entry_fresh atMs hDrawn _) hCosts
  · intro hPasses hRefused
    change (rest.eval counted).isSome = true at hRefused
    rw [(checkLimits_allowed settings [] hPasses).1] at hRefused
    cases hRefused

end Outcomes

/-
  After any history, a refused request costs its caller
  nothing if and only if it is no upload, or the general
  window is full whenever that of uploads is, and the general
  window, when it is full, does not end later for it.
-/
theorem refusedForFree_iff
    (nowMs : ℤ)
    (turns : List Turn)
    (request : Request)
    (atMs : ℤ) :
    let s := (Limiter.start nowMs).runTurns settings turns
    RefusedForFree settings s request atMs ↔
      FullTogether settings s request atMs ∧
        NotProlonged settings s request atMs := by
  intro s
  have hDrawn : Drawn s.drawn s.redis :=
    drawn_runTurns settings nowMs turns
  unfold FullTogether NotProlonged
  by_cases hFull :
      s.redis.full settings .general request.caller atMs
  · rw [refusedForFree_full_iff settings request atMs hDrawn
      hFull]
    constructor
    · exact fun hFree => ⟨fun _ _ => hFull, fun _ => hFree⟩
    · exact fun hBoth => hBoth.2 hFull
  · cases hUpload : request.isUpload with
    | false =>
        apply iff_of_true
        · exact
            refusedForFree_of_other settings request atMs hDrawn
              hFull hUpload
        · constructor
          · intro hIs
            cases hIs
          · exact fun hIs => absurd hIs hFull
    | true =>
        rw [refusedForFree_upload_iff settings request atMs
          hDrawn hFull hUpload]
        constructor
        · intro hRoom
          constructor
          · exact fun _ hFullIngest =>
              absurd hFullIngest hRoom
          · exact fun hIs => absurd hIs hFull
        · intro hBoth hFullIngest
          exact hFull (hBoth.1 rfl hFullIngest)

------------------------------------------------------------
-- An upload that stays counted
------------------------------------------------------------

/- Two requests in a minute, and no upload in an hour. -/
def noUploads : RateLimitSettings :=
  { general :=
      { scope := .general
        limit := 2
        windowS := 60 }
    ingest :=
      { scope := .ingest
        limit := 0
        windowS := 3600 }
    general_scope := rfl
    ingest_scope := rfl }

def upload : Request :=
  { method := "POST"
    path := "/api/v1/ingest/"
    caller := "tenant:acme" }

def listing : Request :=
  { method := "GET"
    path := "/api/v1/alerts"
    caller := "tenant:acme" }

/-
  The refused upload takes the second place of the minute, so
  that the next listing is refused.
-/
theorem not_refusedForFree_upload :
    ¬ RefusedForFree noUploads
      ((Limiter.start 0).runTurns noUploads
        [.check listing 0 none])
      upload 1000 := by
  intro hFree
  have hCosts := hFree (by decide +kernel)
  have hLater :=
    hCosts.later .general
      { atMs := 2000
        uuid := 7 }
      1000 (by decide +kernel) (by decide)
  revert hLater
  decide +kernel

/-
  Without the request that is refused at 500, the window of
  the first one is gone at 1200, and a hit that was stamped
  600 and comes that late is allowed.
-/
example :
    ¬ RefusedForFree onePerSecond
      ((Limiter.start 0).runTurns onePerSecond
        [.check listing 0 none, .wait 500])
      listing 500 := by
  intro hFree
  have hCosts := hFree (by decide +kernel)
  have hLater :=
    hCosts.later .general
      { atMs := 600
        uuid := 7 }
      1200 (by decide +kernel) (by decide)
  revert hLater
  decide +kernel

end Api

end Nidra
