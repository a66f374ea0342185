import Nidra.Api.RateLimit
import Nidra.Lib.Folds

/-
  This file states the bound of the rate limiter, and proves
  it of every run in which no key expires that still holds a
  hit of the window.

  Key definitions include:
    * `InOrder`, `KeyAlive`
    * `RateBound`
    * `Hit.Stage`, `Sliding`

  Main declarations:
    * `Sliding.hit`, `Sliding.advance`
    * `rateBound_of_keyAlive`
-/

namespace Nidra

namespace Api

variable (settings : RateLimitSettings)

------------------------------------------------------------
-- The bound
------------------------------------------------------------

/- An allowed hit of a caller after `start`, in one window. -/
def Hit.within
    (scope : Scope)
    (caller : String)
    (start : ℤ)
    (h : Hit) : Bool :=
  h.allowed ∧ h.scope = scope ∧ h.caller = caller ∧
    start < h.entry.atMs ∧
      h.entry.atMs ≤
        start + (settings.limitOf scope).windowMs

/- No window has more allowed hits than the limit. -/
def RateBound (s : Server) : Prop :=
  ∀ scope caller start,
    (s.hits.filter
      (Hit.within settings scope caller start)).length ≤
        (settings.limitOf scope).limit.toNat

/- Stamps do not go back, for each scope and caller. -/
def InOrder (s : Server) : Move → Prop
  | .wait _ => True
  | .advance _ => True
  | .hit scope caller atMs =>
      ∀ h ∈ s.hits, h.scope = scope → h.caller = caller →
        h.entry.atMs ≤ atMs

/-
  The key of a hit has not expired while it held a member
  that is still in the window.
-/
def KeyAlive (s : Server) : Move → Prop
  | .wait _ => True
  | .advance _ => True
  | .hit scope caller atMs =>
      ∀ e ∈
          (s.redis.sets.written
            (windowKey scope caller)).getD ∅,
        atMs - (settings.limitOf scope).windowMs < e.atMs →
          (s.redis.sets.get s.redis.nowMs
            (windowKey scope caller)).isSome

instance
    (s : Server)
    (move : Move) :
    Decidable (InOrder s move) := by
  cases move <;> unfold InOrder <;> infer_instance

instance
    (s : Server)
    (move : Move) :
    Decidable (KeyAlive settings s move) := by
  cases move <;> unfold KeyAlive <;> infer_instance

------------------------------------------------------------
-- Keys
------------------------------------------------------------

/- Two scopes or two callers never share a key. -/
theorem windowKey_inj
    {scope scope' : Scope}
    {caller caller' : String}
    (hKey :
      windowKey scope caller = windowKey scope' caller') :
    scope = scope' ∧ caller = caller' := by
  have hChars := congrArg String.toList hKey
  cases scope <;> cases scope' <;>
    simp [windowKey, keyPrefix, Scope.text] at hChars ⊢
  · exact String.toList_inj.mp hChars
  · exact String.toList_inj.mp hChars

------------------------------------------------------------
-- The stages of a hit
------------------------------------------------------------

/- What reading the oldest member leaves of a hit. -/
def askOldest
    (caller : String)
    (limit : Limit)
    (entry : Entry) : Program Redis Decision := do
  let oldest ←
    .read (fun r => r.oldest (windowKey limit.scope caller))
  return {
    allowed := false
    limit := limit
    remaining := 0
    retryAfter := retryAfter limit entry.atMs oldest }

/- How far a hit is after its transaction. -/
inductive Hit.Stage (h : Hit) : Prop where
  | allowed
      (decision : Decision)
      (hRest : h.rest = .done decision)
      (hAllowed : decision.allowed = true)
  | removing
      (hRest :
        h.rest =
          refuse h.caller (settings.limitOf h.scope) h.entry)
  | asking
      (hRest :
        h.rest =
          askOldest h.caller (settings.limitOf h.scope)
            h.entry)
  | refused
      (decision : Decision)
      (hRest : h.rest = .done decision)
      (hRefused : decision.allowed = false)

/- A transaction decides whether its hit is allowed. -/
theorem resume_hit
    (r : Redis)
    (scope : Scope)
    (caller : String)
    (entry : Entry) :
    let key := windowKey scope caller
    let limit := settings.limitOf scope
    let entries := r.counted key limit.windowMs entry
    ((hit caller limit entry).resume r).2 =
        { r with
          sets :=
            r.sets.renew r.nowMs limit.windowMs key entries } ∧
      ((hit caller limit entry).resume r).1 =
        if entries.card ≤ limit.limit then
          .done {
            allowed := true
            limit := limit
            remaining := limit.limit - entries.card
            retryAfter := 0 }
        else refuse caller limit entry := by
  intro key limit entries
  have hKey : windowKey limit.scope caller = key := by
    simp [limit, key]
  constructor
  · simp only [hit, hKey]
    rfl
  · simp only [hit, hKey]
    change
      (if (entries.card : ℤ) ≤ limit.limit then _ else _) = _
    rfl

------------------------------------------------------------
-- What is written
------------------------------------------------------------

/- The members that were written, whether expired or not. -/
def Redis.members
    (r : Redis)
    (key : String) : Finset Entry :=
  (r.sets.written key).getD ∅

/- A live key has the members that were written. -/
theorem Redis.set_of_live
    {r : Redis}
    {key : String}
    (hLive : (r.sets.get r.nowMs key).isSome) :
    r.set key = r.members key := by
  rcases Option.isSome_iff_exists.mp hLive with
    ⟨entries, hGet⟩
  unfold Redis.set Redis.members
  rw [hGet, TtlStore.written_of_get hGet]

/- Taking a member back leaves the others. -/
theorem mem_members_zrem
    {r : Redis}
    {key key' : String}
    {entry e : Entry}
    (hMem : e ∈ r.members key)
    (hNe : e ≠ entry) :
    e ∈ (r.zrem key' entry).members key := by
  unfold Redis.zrem
  cases hGet : r.sets.get r.nowMs key' with
  | none => exact hMem
  | some entries =>
      dsimp only
      by_cases hKey : key = key'
      · subst hKey
        have hLeft : e ∈ entries.erase entry := by
          apply Finset.mem_erase_of_ne_of_mem hNe
          unfold Redis.members at hMem
          rw [TtlStore.written_of_get hGet] at hMem
          exact hMem
        rw [if_neg (Finset.ne_empty_of_mem hLeft)]
        unfold Redis.members
        rw [TtlStore.written_put_self]
        exact hLeft
      · unfold Redis.members at hMem ⊢
        split
        · rw [TtlStore.written_delete_ne _ hKey]
          exact hMem
        · rw [TtlStore.written_put_ne _ _ _ hKey]
          exact hMem

------------------------------------------------------------
-- The invariant
------------------------------------------------------------

/-
  Every hit has a UUID of its own and is at one of its
  stages. An allowed hit is a member, unless a hit of its
  scope and caller came when it had left the window; and the
  bound holds.
-/
structure Sliding (s : Server) : Prop where
  uuid :
    s.hits.map (fun h => h.entry.uuid) =
      List.range s.hits.length
  stage : ∀ h ∈ s.hits, h.Stage settings
  held :
    ∀ h ∈ s.hits, h.allowed →
      h.entry ∈
          s.redis.members (windowKey h.scope h.caller) ∨
        ∃ h' ∈ s.hits,
          h'.scope = h.scope ∧ h'.caller = h.caller ∧
            h.entry.atMs +
                (settings.limitOf h.scope).windowMs ≤
              h'.entry.atMs
  bound : RateBound settings s

theorem Sliding.start (nowMs : ℤ) :
    Sliding settings (Server.start nowMs) := by
  refine
    { uuid := ?_
      stage := ?_
      held := ?_
      bound := ?_ }
  · rfl
  · intro h hMem
    cases hMem
  · intro h hMem
    cases hMem
  · intro scope caller start
    exact Nat.zero_le _

/- Time that passes changes no member. -/
theorem Sliding.wait
    {s : Server}
    (hSliding : Sliding settings s)
    (nowMs : ℤ) :
    Sliding settings
      (s.step settings (.wait nowMs)) :=
  { uuid := hSliding.uuid
    stage := hSliding.stage
    held := hSliding.held
    bound := hSliding.bound }

------------------------------------------------------------
-- The next command of an earlier hit
------------------------------------------------------------

/-
  A hit that goes on stays allowed or refused; if it takes a
  member back, it is its own and it is refused.
-/
theorem Hit.Stage.resume
    {h : Hit}
    (hStage : h.Stage settings)
    (s : Server) :
    let resumed := s.resume h.scope h.caller h.entry h.rest
    resumed.1.Stage settings ∧
      resumed.1.allowed = h.allowed ∧
      (resumed.2 = s.redis ∨
        h.allowed = false ∧
          ∃ key, resumed.2 = s.redis.zrem key h.entry) := by
  intro resumed
  cases hStage with
  | allowed decision hRest hAllowed =>
      have hSame : resumed = (h, s.redis) := by
        simp only [resumed, Server.resume, hRest,
          Program.resume]
        rw [← hRest]
      rw [hSame]
      exact
        ⟨.allowed decision hRest hAllowed, rfl, Or.inl rfl⟩
  | removing hRest =>
      have hNotYet : h.allowed = false := by
        unfold Hit.allowed
        rw [hRest]
        rfl
      refine ⟨.asking ?_, ?_, Or.inr ⟨hNotYet, ?_⟩⟩
      · simp only [resumed, Server.resume, hRest]
        rfl
      · rw [hNotYet]
        simp only [resumed, Server.resume, hRest]
        rfl
      · simp only [resumed, Server.resume, hRest]
        exact ⟨_, rfl⟩
  | asking hRest =>
      have hNotYet : h.allowed = false := by
        unfold Hit.allowed
        rw [hRest]
        rfl
      have hRefused :
          resumed.1.rest =
            .done {
              allowed := false
              limit := settings.limitOf h.scope
              remaining := 0
              retryAfter :=
                retryAfter (settings.limitOf h.scope)
                  h.entry.atMs
                  (s.redis.oldest
                    (windowKey (settings.limitOf h.scope).scope
                      h.caller)) } := by
        simp only [resumed, Server.resume, hRest]
        rfl
      refine ⟨.refused _ hRefused rfl, ?_, Or.inl ?_⟩
      · unfold Hit.allowed at hNotYet ⊢
        rw [hNotYet, hRefused]
      · simp only [resumed, Server.resume, hRest]
        rfl
  | refused decision hRest hRefused =>
      have hSame : resumed = (h, s.redis) := by
        simp only [resumed, Server.resume, hRest,
          Program.resume]
        rw [← hRest]
      rw [hSame]
      exact
        ⟨.refused decision hRest hRefused, rfl, Or.inl rfl⟩

/- A UUID belongs to one hit. -/
theorem Sliding.eq_of_entry
    {s : Server}
    (hSliding : Sliding settings s)
    {h h' : Hit}
    (hMem : h ∈ s.hits)
    (hMem' : h' ∈ s.hits)
    (hEntry : h.entry = h'.entry) :
    h = h' := by
  have hNodup :
      (s.hits.map (fun h => h.entry.uuid)).Nodup := by
    rw [hSliding.uuid]
    exact List.nodup_range
  exact
    List.inj_on_of_nodup_map hNodup hMem hMem'
      (congrArg Entry.uuid hEntry)

/- What the bound sees of a hit. -/
structure Hit.Alike (h h' : Hit) : Prop where
  scope : h'.scope = h.scope
  caller : h'.caller = h.caller
  entry : h'.entry = h.entry
  allowed : h'.allowed = h.allowed

theorem Hit.Alike.within
    {h h' : Hit}
    (hAlike : h.Alike h')
    (scope : Scope)
    (caller : String)
    (start : ℤ) :
    h'.within settings scope caller start =
      h.within settings scope caller start := by
  unfold Hit.within
  rw [hAlike.scope, hAlike.caller, hAlike.entry,
    hAlike.allowed]

/- Replacing an element by one alike maps alike. -/
theorem map_set_of_eq
    {α β : Type}
    (f : α → β)
    {l : List α}
    {index : ℕ}
    {a b : α}
    (hIndex : l[index]? = some a)
    (hSame : f b = f a) :
    (l.set index b).map f = l.map f := by
  rcases List.getElem?_eq_some_iff.mp hIndex with
    ⟨hLength, rfl⟩
  rw [List.map_set, hSame,
    ← List.getElem_map f (h := by simpa using hLength),
    List.set_getElem_self]

theorem length_filter_set
    {α : Type}
    {p : α → Bool}
    {l : List α}
    {index : ℕ}
    {a b : α}
    (hIndex : l[index]? = some a)
    (hSame : p b = p a) :
    ((l.set index b).filter p).length =
      (l.filter p).length := by
  have hCount :
      ∀ l : List α,
        (l.filter p).length = (l.map p).countP id := by
    intro l
    rw [List.countP_map, List.countP_eq_length_filter]
    rfl
  rw [hCount, map_set_of_eq p hIndex hSame, ← hCount]

/- A hit that goes on keeps the invariant. -/
theorem Sliding.advance
    {s : Server}
    (hSliding : Sliding settings s)
    (index : ℕ) :
    Sliding settings (s.step settings (.advance index)) := by
  cases hIndex : s.hits[index]? with
  | none =>
      have hSame : s.step settings (.advance index) = s := by
        simp only [Server.step, hIndex]
      rw [hSame]
      exact hSliding
  | some h =>
      have hMem : h ∈ s.hits := List.mem_of_getElem? hIndex
      rcases (hSliding.stage h hMem).resume settings s with
        ⟨hStage, hAllowed, hRedis⟩
      generalize hResumed :
        s.resume h.scope h.caller h.entry h.rest = resumed
          at hStage hAllowed hRedis
      have hNext :
          s.step settings (.advance index) =
            { redis := resumed.2
              hits := s.hits.set index resumed.1 } := by
        simp only [Server.step, hIndex, hResumed]
      have hAlike : h.Alike resumed.1 := by
        rw [← hResumed] at hAllowed ⊢
        exact ⟨rfl, rfl, rfl, hAllowed⟩
      have hOld :
          ∀ h' ∈ s.hits.set index resumed.1,
            ∃ h₀ ∈ s.hits, h₀.Alike h' := by
        intro h' hMem'
        rcases List.mem_or_eq_of_mem_set hMem' with
          hBefore | rfl
        · exact ⟨h', hBefore, rfl, rfl, rfl, rfl⟩
        · exact ⟨h, hMem, hAlike⟩
      have hNew :
          ∀ h₀ ∈ s.hits,
            ∃ h' ∈ s.hits.set index resumed.1,
              h₀.Alike h' := by
        intro h₀ hMem₀
        rcases List.mem_iff_getElem?.mp hMem₀ with
          ⟨index₀, hIndex₀⟩
        by_cases hThis : index = index₀
        · subst hThis
          rw [hIndex] at hIndex₀
          cases hIndex₀
          rcases List.getElem?_eq_some_iff.mp hIndex with
            ⟨hLength, _⟩
          exact
            ⟨resumed.1, List.mem_set hLength _, hAlike⟩
        · refine ⟨h₀, ?_, rfl, rfl, rfl, rfl⟩
          apply List.mem_of_getElem?
          rw [List.getElem?_set_ne hThis]
          exact hIndex₀
      rw [hNext]
      refine
        { uuid := ?_
          stage := ?_
          held := ?_
          bound := ?_ }
      · dsimp only
        rw [List.length_set, ← hSliding.uuid]
        exact
          map_set_of_eq _ hIndex
            (congrArg Entry.uuid hAlike.entry)
      · intro h' hMem'
        rcases List.mem_or_eq_of_mem_set hMem' with
          hBefore | rfl
        · exact hSliding.stage h' hBefore
        · exact hStage
      · intro h' hMem' hAllowed'
        rcases hOld h' hMem' with ⟨h₀, hMem₀, hAlike₀⟩
        rw [hAlike₀.allowed] at hAllowed'
        rw [hAlike₀.scope, hAlike₀.caller, hAlike₀.entry]
        rcases hSliding.held h₀ hMem₀ hAllowed' with
          hHeld | ⟨h₁, hMem₁, hScope, hCaller, hLater⟩
        · left
          rcases hRedis with hSame | ⟨hRefused, key, hTaken⟩
          · dsimp only
            rw [hSame]
            exact hHeld
          · dsimp only
            rw [hTaken]
            apply mem_members_zrem hHeld
            intro hEntry
            have hEq :=
              hSliding.eq_of_entry settings hMem₀ hMem hEntry
            rw [hEq, hRefused] at hAllowed'
            cases hAllowed'
        · right
          rcases hNew h₁ hMem₁ with ⟨h₂, hMem₂, hAlike₂⟩
          refine ⟨h₂, hMem₂, ?_, ?_, ?_⟩
          · rw [hAlike₂.scope]
            exact hScope
          · rw [hAlike₂.caller]
            exact hCaller
          · rw [hAlike₂.entry]
            exact hLater
      · intro scope caller start
        dsimp only
        rw [length_filter_set hIndex
          (hAlike.within settings scope caller start)]
        exact hSliding.bound scope caller start

------------------------------------------------------------
-- The transaction of a hit
------------------------------------------------------------

/-
  An allowed hit that is still in the window of a later one
  is counted with it.
-/
theorem Sliding.mem_counted
    {s : Server}
    (hSliding : Sliding settings s)
    {scope : Scope}
    {caller : String}
    {atMs : ℤ}
    (hOrder : InOrder s (.hit scope caller atMs))
    (hAlive : KeyAlive settings s (.hit scope caller atMs))
    {h : Hit}
    (hMem : h ∈ s.hits)
    (hAllowed : h.allowed)
    (hScope : h.scope = scope)
    (hCaller : h.caller = caller)
    (hLater :
      atMs - (settings.limitOf scope).windowMs <
        h.entry.atMs)
    (uuid : ℕ) :
    h.entry ∈
      s.redis.counted (windowKey scope caller)
        (settings.limitOf scope).windowMs
        { atMs := atMs
          uuid := uuid } := by
  subst hScope
  subst hCaller
  have hHeld :
      h.entry ∈
        s.redis.members (windowKey h.scope h.caller) := by
    rcases hSliding.held h hMem hAllowed with
      hHeld | ⟨h', hMem', hScope, hCaller, hGone⟩
    · exact hHeld
    · have hNotAfter := hOrder h' hMem' hScope hCaller
      omega
  have hLive := hAlive h.entry hHeld hLater
  apply Finset.mem_insert_of_mem
  rw [trimmed, Finset.mem_filter]
  constructor
  · rw [Redis.set_of_live hLive]
    exact hHeld
  · rintro ⟨_, hMost⟩
    exact absurd hLater (not_lt.mpr hMost)

/- The hits in a window and a later hit have entries. -/
theorem Sliding.nodup_entries
    {s : Server}
    (hSliding : Sliding settings s)
    (counts : Hit → Bool)
    (atMs : ℤ) :
    (({ atMs := atMs
        uuid := s.hits.length } : Entry) ::
      (s.hits.filter counts).map Hit.entry).Nodup := by
  have hUuids :
      ((s.hits.map Hit.entry).map Entry.uuid) =
        List.range s.hits.length := by
    rw [List.map_map]
    exact hSliding.uuid
  rw [List.nodup_cons]
  constructor
  · intro hMem
    have hAll :
        ({ atMs := atMs
           uuid := s.hits.length } : Entry) ∈
          s.hits.map Hit.entry :=
      List.map_subset _ (List.filter_subset_self _) hMem
    have hUuid := List.mem_map_of_mem (f := Entry.uuid) hAll
    rw [hUuids, List.mem_range] at hUuid
    exact absurd hUuid (lt_irrefl _)
  · have hNodup : (s.hits.map Hit.entry).Nodup := by
      apply List.Nodup.of_map Entry.uuid
      rw [hUuids]
      exact List.nodup_range
    exact
      hNodup.sublist
        ((List.filter_sublist).map Hit.entry)

/-
  The set counts the hits of every window that a hit ends,
  so that a hit that is allowed leaves the bound.
-/
theorem Sliding.length_within
    {s : Server}
    (hSliding : Sliding settings s)
    {scope : Scope}
    {caller : String}
    {atMs : ℤ}
    (hOrder : InOrder s (.hit scope caller atMs))
    (hAlive : KeyAlive settings s (.hit scope caller atMs))
    {start : ℤ}
    (hEnd :
      atMs ≤ start + (settings.limitOf scope).windowMs) :
    (s.hits.filter
        (Hit.within settings scope caller start)).length + 1 ≤
      (s.redis.counted (windowKey scope caller)
        (settings.limitOf scope).windowMs
        { atMs := atMs
          uuid := s.hits.length }).card := by
  have hNodup :=
    hSliding.nodup_entries settings
      (Hit.within settings scope caller start) atMs
  have hSubset :
      ∀ e ∈
          ({ atMs := atMs
             uuid := s.hits.length } : Entry) ::
            (s.hits.filter
              (Hit.within settings scope caller start)).map
                Hit.entry,
        e ∈ s.redis.counted (windowKey scope caller)
          (settings.limitOf scope).windowMs
          { atMs := atMs
            uuid := s.hits.length } := by
    intro e hMem
    rcases List.mem_cons.mp hMem with rfl | hWithin
    · exact Finset.mem_insert_self _ _
    · rcases List.mem_map.mp hWithin with ⟨h, hFilter, rfl⟩
      rcases List.mem_filter.mp hFilter with ⟨hMemHit, hCounts⟩
      unfold Hit.within at hCounts
      rw [decide_eq_true_eq] at hCounts
      rcases hCounts with
        ⟨hAllowed, hScope, hCaller, hAfter, _⟩
      apply
        hSliding.mem_counted settings hOrder hAlive hMemHit
          hAllowed hScope hCaller
      omega
  have hCard :=
    List.toFinset_card_of_nodup hNodup
  rw [List.length_cons, List.length_map] at hCard
  rw [← hCard]
  apply Finset.card_le_card
  intro e hMem
  exact hSubset e (List.mem_toFinset.mp hMem)

/- A hit that finds its key alive keeps the invariant. -/
theorem Sliding.hit
    {s : Server}
    (hSliding : Sliding settings s)
    {scope : Scope}
    {caller : String}
    {atMs : ℤ}
    (hOrder : InOrder s (.hit scope caller atMs))
    (hAlive : KeyAlive settings s (.hit scope caller atMs)) :
    Sliding settings
      (s.step settings (.hit scope caller atMs)) := by
  let entry : Entry :=
    { atMs := atMs
      uuid := s.hits.length }
  let limit := settings.limitOf scope
  let key := windowKey scope caller
  let entries := s.redis.counted key limit.windowMs entry
  rcases resume_hit settings s.redis scope caller entry with
    ⟨hState, hRest⟩
  let new : Hit :=
    { scope := scope
      caller := caller
      entry := entry
      rest := ((Api.hit caller limit entry).resume s.redis).1 }
  have hNext :
      s.step settings (.hit scope caller atMs) =
        { redis :=
            { s.redis with
              sets :=
                s.redis.sets.renew s.redis.nowMs limit.windowMs
                  key entries }
          hits := s.hits ++ [new] } := by
    simp only [Server.step, Server.resume]
    rw [hState]
  have hAllowed :
      new.allowed = true → entries.card ≤ limit.limit := by
    intro hYes
    by_contra hMore
    have hRefuse : new.rest = refuse caller limit entry :=
      hRest.trans (if_neg hMore)
    unfold Hit.allowed at hYes
    rw [hRefuse] at hYes
    cases hYes
  rw [hNext]
  refine
    { uuid := ?_
      stage := ?_
      held := ?_
      bound := ?_ }
  · dsimp only
    rw [List.map_append, hSliding.uuid, List.length_append,
      List.length_singleton, List.range_succ]
    rfl
  · intro h hMem
    rcases List.mem_append.mp hMem with hOld | hNew
    · exact hSliding.stage h hOld
    · rw [List.mem_singleton] at hNew
      subst hNew
      by_cases hFits : (entries.card : ℤ) ≤ limit.limit
      · exact .allowed _ (hRest.trans (if_pos hFits)) rfl
      · exact .removing (hRest.trans (if_neg hFits))
  · intro h hMem hYes
    have hSelf :
        ∀ e ∈ entries,
          e ∈
            (({ s.redis with
                sets :=
                  s.redis.sets.renew s.redis.nowMs
                    limit.windowMs key entries } :
              Redis).members key) := by
      intro e hIn
      unfold Redis.members
      rw [TtlStore.written_renew_self]
      exact hIn
    rcases List.mem_append.mp hMem with hOld | hNew
    · by_cases hOwn : h.scope = scope ∧ h.caller = caller
      · rcases hOwn with ⟨hScope, hCaller⟩
        by_cases hLater :
            atMs - limit.windowMs < h.entry.atMs
        · left
          rw [hScope, hCaller]
          apply hSelf
          exact
            hSliding.mem_counted settings hOrder hAlive hOld
              hYes hScope hCaller hLater _
        · right
          refine
            ⟨new, List.mem_append_right _
                (List.mem_singleton.mpr rfl),
              hScope.symm, hCaller.symm, ?_⟩
          rw [hScope]
          change _ ≤ atMs
          simp only [limit] at hLater
          omega
      · have hKey :
            windowKey h.scope h.caller ≠ key :=
          fun hEq => hOwn (windowKey_inj hEq)
        rcases hSliding.held h hOld hYes with
          hHeld | ⟨h', hMem', hLater⟩
        · left
          unfold Redis.members at hHeld ⊢
          rw [TtlStore.written_renew_ne _ _ _ _ hKey]
          exact hHeld
        · right
          exact ⟨h', List.mem_append_left _ hMem', hLater⟩
    · rw [List.mem_singleton] at hNew
      subst hNew
      left
      exact hSelf _ (Finset.mem_insert_self _ _)
  · intro scope' caller' start
    have hOld := hSliding.bound scope' caller' start
    dsimp only
    rw [List.filter_append, List.length_append]
    by_cases hIn :
        new.within settings scope' caller' start = true
    · have hParts := hIn
      unfold Hit.within at hParts
      rw [decide_eq_true_eq] at hParts
      rcases hParts with ⟨hYes, rfl, rfl, _, hEnd⟩
      have hLength :=
        hSliding.length_within settings hOrder hAlive hEnd
      have hFits := hAllowed hYes
      rw [List.filter_cons_of_pos hIn]
      simp only [List.filter_nil, List.length_singleton]
      simp only [entries, limit, key, entry, new] at hFits hLength ⊢
      omega
    · rw [List.filter_cons_of_neg hIn]
      exact hOld

------------------------------------------------------------
-- Every run
------------------------------------------------------------

/- Each move keeps the invariant. -/
theorem Sliding.step
    {s : Server}
    (hSliding : Sliding settings s)
    {move : Move}
    (hMove : InOrder s move ∧ KeyAlive settings s move) :
    Sliding settings (s.step settings move) := by
  cases move with
  | wait nowMs => exact hSliding.wait settings nowMs
  | hit scope caller atMs =>
      exact hSliding.hit settings hMove.1 hMove.2
  | advance index => exact hSliding.advance settings index

/-
  In every run in which stamps do not go back, and in which
  no key expires that holds a hit of the window, no window
  has more allowed hits than the limit.
-/
theorem rateBound_of_keyAlive
    (nowMs : ℤ)
    (moves : List Move)
    (hAll :
      AllAlong (Server.step settings)
        (fun s move => InOrder s move ∧ KeyAlive settings s move)
        (Server.start nowMs) moves) :
    RateBound settings
      ((Server.start nowMs).runMoves settings moves) := by
  have hSliding :=
    AllAlong.invariant (Sliding settings)
      (fun _ _ hSliding hMove => hSliding.step settings hMove)
      (Sliding.start settings nowMs) hAll
  exact hSliding.bound

------------------------------------------------------------
-- Two runs
------------------------------------------------------------

/- One request in a second, and a wide ceiling on ingest. -/
def onePerSecond : RateLimitSettings :=
  { general :=
      { scope := .general
        limit := 1
        windowS := 1 }
    ingest :=
      { scope := .ingest
        limit := 5
        windowS := 3600 }
    general_scope := rfl
    ingest_scope := rfl }

/-
  A hit that is allowed, one half a second later that is not
  and takes its entry back, and one once the window is over.
-/
def punctual : List Move :=
  [.hit .general "tenant:a" 0, .wait 500,
    .hit .general "tenant:a" 500, .advance 1, .wait 1000,
    .hit .general "tenant:a" 1000]

theorem rateBound_punctual :
    RateBound onePerSecond
      ((Server.start 0).runMoves onePerSecond punctual) := by
  apply rateBound_of_keyAlive
  decide +kernel

/-
  The second hit is stamped half a second after the first and
  executed more than a second after it.
-/
def stalled : List Move :=
  [.hit .general "tenant:a" 0, .wait 1001,
    .hit .general "tenant:a" 500]

/- Stamps are in order, and one window has two of one hit. -/
theorem not_rateBound_stalled :
    AllAlong (Server.step onePerSecond) InOrder
        (Server.start 0) stalled ∧
      ¬ RateBound onePerSecond
        ((Server.start 0).runMoves onePerSecond stalled) := by
  constructor
  · decide +kernel
  · intro hBound
    have hTwo := hBound .general "tenant:a" (-1)
    have hLength :
        (((Server.start 0).runMoves onePerSecond
          stalled).hits.filter
            (Hit.within onePerSecond .general "tenant:a"
              (-1))).length = 2 := by
      decide +kernel
    rw [hLength] at hTwo
    revert hTwo
    decide +kernel

end Api

end Nidra
