import Nidra.Lib.Numeric
import Nidra.Lib.Program
import Nidra.Lib.TtlStore

/-
  This file defines the rate limiter of the API: a Redis
  sorted set for each scope and caller, and the hits of any
  number of requests whose commands Redis executes in any
  order.

  Key definitions include:
    * `Limit`, `RateLimitSettings`
    * `Entry`, `Redis`
    * `hit`
    * `Server`, `Move`, `Server.step`
-/

namespace Nidra

namespace Api

------------------------------------------------------------
-- Settings
------------------------------------------------------------

/- What a ceiling is for. -/
inductive Scope where
  | general
  | ingest
deriving DecidableEq

def Scope.text : Scope → String
  | .general => "general"
  | .ingest => "ingest"

/- One ceiling: `limit` requests in `windowS` seconds. -/
structure Limit where
  scope : Scope
  limit : ℤ
  windowS : ℚ
deriving DecidableEq

def milliseconds : ℚ := 1000

def Limit.windowMs (l : Limit) : ℤ :=
  max (truncate (l.windowS * milliseconds)) 1

theorem Limit.windowMs_pos (l : Limit) : 0 < l.windowMs :=
  lt_of_lt_of_le Int.one_pos (le_max_right _ _)

/- Both ceilings. -/
structure RateLimitSettings where
  general : Limit
  ingest : Limit
  general_scope : general.scope = .general
  ingest_scope : ingest.scope = .ingest

def RateLimitSettings.limitOf
    (settings : RateLimitSettings) : Scope → Limit
  | .general => settings.general
  | .ingest => settings.ingest

@[simp] theorem limitOf_scope
    (settings : RateLimitSettings)
    (scope : Scope) :
    (settings.limitOf scope).scope = scope := by
  cases scope with
  | general => exact settings.general_scope
  | ingest => exact settings.ingest_scope

------------------------------------------------------------
-- The sorted sets
------------------------------------------------------------

/-
  A member of a sorted set, the text of a stamp and a UUID,
  with the stamp as its score. No UUID is drawn twice.
-/
structure Entry where
  atMs : ℤ
  uuid : ℕ
deriving DecidableEq

/- The clock of the server and its sorted sets. -/
structure Redis where
  nowMs : ℤ
  sets : TtlStore ℤ String (Finset Entry)

def keyPrefix : String := "rl"

/- The key of the sorted set of a scope and a caller. -/
def windowKey
    (scope : Scope)
    (caller : String) : String :=
  keyPrefix ++ ":" ++ scope.text ++ ":" ++ caller

/- The sorted set of a key; a missing one is empty. -/
def Redis.set
    (r : Redis)
    (key : String) : Finset Entry :=
  (r.sets.get r.nowMs key).getD ∅

/- Drop the members with a score from 0 to `most`. -/
def trimmed
    (entries : Finset Entry)
    (most : ℤ) : Finset Entry :=
  entries.filter (fun e => ¬ (0 ≤ e.atMs ∧ e.atMs ≤ most))

/- The set that the transaction of a hit leaves. -/
def Redis.counted
    (r : Redis)
    (key : String)
    (windowMs : ℤ)
    (entry : Entry) : Finset Entry :=
  insert entry
    (trimmed (r.set key) (entry.atMs - windowMs))

/- Remove one member; an empty set is no key any more. -/
def Redis.zrem
    (r : Redis)
    (key : String)
    (entry : Entry) : Redis :=
  match r.sets.get r.nowMs key with
  | none => r
  | some entries =>
      let left := entries.erase entry
      if left = ∅ then
        { r with sets := r.sets.delete key }
      else { r with sets := r.sets.put r.nowMs key left }

/- Taking a member back does not move the clock. -/
theorem nowMs_zrem
    (r : Redis)
    (key : String)
    (entry : Entry) :
    (r.zrem key entry).nowMs = r.nowMs := by
  unfold Redis.zrem
  split
  · rfl
  · dsimp only
    split <;> rfl

/- The least score of a set. -/
def Redis.oldest
    (r : Redis)
    (key : String) : Option ℤ :=
  ((r.set key).image Entry.atMs).min

------------------------------------------------------------
-- One hit
------------------------------------------------------------

/- The outcome of one hit against one ceiling. -/
structure Decision where
  allowed : Bool
  limit : Limit
  remaining : ℤ
  retryAfter : ℤ

/- When a refused caller may try again, in seconds. -/
def retryAfter
    (limit : Limit)
    (atMs : ℤ) : Option ℤ → ℤ
  | some oldest =>
      let freeAtMs := oldest + limit.windowMs
      max 1 ⌈((freeAtMs - atMs : ℤ) : ℚ) / milliseconds⌉
  | none => max 1 ⌈limit.windowS⌉

/-
  One transaction: trim what has left the window, add the
  hit, count, and renew the key.
-/
def countHit
    (key : String)
    (windowMs : ℤ)
    (entry : Entry) : Program Redis ℕ :=
  .step (fun r =>
    let entries := r.counted key windowMs entry
    (entries.card,
      { r with
        sets := r.sets.renew r.nowMs windowMs key entries }))

/- Over the ceiling: take the entry back. -/
def refuse
    (caller : String)
    (limit : Limit)
    (entry : Entry) : Program Redis Decision := do
  let key := windowKey limit.scope caller
  .write (fun r => r.zrem key entry)
  let oldest ← .read (fun r => r.oldest key)
  return {
    allowed := false
    limit := limit
    remaining := 0
    retryAfter := retryAfter limit entry.atMs oldest }

/- Record a request and say whether it is allowed. -/
def hit
    (caller : String)
    (limit : Limit)
    (entry : Entry) : Program Redis Decision := do
  let key := windowKey limit.scope caller
  let used ← countHit key limit.windowMs entry
  if used ≤ limit.limit then
    return {
      allowed := true
      limit := limit
      remaining := limit.limit - used
      retryAfter := 0 }
  else refuse caller limit entry

------------------------------------------------------------
-- Any number of requests
------------------------------------------------------------

/- A hit, and what is left of it to do. -/
structure Hit where
  scope : Scope
  caller : String
  entry : Entry
  rest : Program Redis Decision

/- Redis, and the hits in the order of their transactions. -/
structure Server where
  redis : Redis
  hits : List Hit

def Server.start (nowMs : ℤ) : Server :=
  { redis :=
      { nowMs := nowMs
        sets := .empty }
    hits := [] }

/-
  Time passes on the server; the transaction of a hit that
  was stamped at `atMs` is executed; or the next command of
  an earlier hit is.
-/
inductive Move where
  | wait (nowMs : ℤ)
  | hit (scope : Scope) (caller : String) (atMs : ℤ)
  | advance (index : ℕ)

section Steps

variable (settings : RateLimitSettings)

/- The next command of a program, for a hit. -/
def Server.resume
    (s : Server)
    (scope : Scope)
    (caller : String)
    (entry : Entry)
    (program : Program Redis Decision) : Hit × Redis :=
  let resumed := program.resume s.redis
  ({ scope := scope
     caller := caller
     entry := entry
     rest := resumed.1 }, resumed.2)

def Server.step
    (s : Server) : Move → Server
  | .wait nowMs =>
      { s with
        redis :=
          { s.redis with nowMs := max s.redis.nowMs nowMs } }
  | .hit scope caller atMs =>
      let entry : Entry :=
        { atMs := atMs
          uuid := s.hits.length }
      let resumed :=
        s.resume scope caller entry
          (hit caller (settings.limitOf scope) entry)
      { redis := resumed.2
        hits := s.hits ++ [resumed.1] }
  | .advance index =>
      match s.hits[index]? with
      | none => s
      | some h =>
          let resumed :=
            s.resume h.scope h.caller h.entry h.rest
          { redis := resumed.2
            hits := s.hits.set index resumed.1 }

def Server.runMoves
    (s : Server)
    (moves : List Move) : Server :=
  moves.foldl (Server.step settings) s

end Steps

/- A hit that was decided, and allowed. -/
def Hit.allowed (h : Hit) : Bool :=
  match h.rest with
  | .done decision => decision.allowed
  | .effect _ _ => false

end Api

end Nidra
