import Nidra.Common.Bus
import Nidra.Lib.Folds

/-
  This file states when no message is in the hands of two
  consumers: the messages that the consumers hold are pending,
  and no two hold the same one, as long as no consumer claims
  a message that another one holds.

  Key definitions include:
    * `Consumer.held`
    * `Holding`
    * `ClaimsFree`

  Main declarations:
    * `Holding.step`
    * `Holding.alone_of_task`
-/

namespace Nidra

namespace Bus

variable {σ μ κ : Type}

------------------------------------------------------------
-- Holding messages
------------------------------------------------------------

/- The messages a consumer has in hand or has fetched. -/
def Consumer.held (consumer : Consumer κ) : List ℕ :=
  (consumer.task.map Prod.fst).toList ++ consumer.batch

/-
  Nobody holds a message twice, no two consumers hold the same
  one, a message that is held is pending, and one is pending
  once, after it was delivered.
-/
structure Holding (g : Group σ μ κ) : Prop where
  once : ∀ name, (g.consumers name).held.Nodup
  alone :
    ∀ name other id,
      id ∈ (g.consumers name).held →
        id ∈ (g.consumers other).held → name = other
  pending :
    ∀ name,
      ∀ id ∈ (g.consumers name).held, id ∈ g.pendingIds
  distinct : g.pendingIds.Nodup
  delivered : ∀ id ∈ g.pendingIds, id < g.delivered
  published : g.delivered ≤ g.stream.length
  trimmed : g.trimmed ≤ g.stream.length

/- A claim takes no message that a consumer holds. -/
def ClaimsFree
    (cfg : BusConfig)
    (g : Group σ μ κ) : Move μ → Prop
  | .reclaim _ cursor =>
      ∀ id ∈ g.claimable cfg cursor,
        ∀ holder, id ∉ (g.consumers holder).held
  | _ => True

/- Before anything was published nobody holds anything. -/
theorem Holding.start
    (now : ℚ)
    (shared : σ) :
    Holding (Group.start now shared : Group σ μ κ) :=
  { once := fun _ => List.nodup_nil
    alone := by
      intro name other id hMem
      simp [Group.start, Consumer.held] at hMem
    pending := by
      intro name id hMem
      simp [Group.start, Consumer.held] at hMem
    distinct := List.nodup_nil
    delivered := by
      intro id hMem
      simp [Group.start, Group.pendingIds] at hMem
    published := Nat.le_refl 0
    trimmed := Nat.le_refl 0 }

------------------------------------------------------------
-- Letting go
------------------------------------------------------------

/-
  What the consumers hold stays held once when they only let
  go of messages, and what they keep stays pending.
-/
theorem Holding.shrink
    {g g' : Group σ μ κ}
    (hHolding : Holding g)
    (hKept :
      ∀ name,
        (g'.consumers name).held.Sublist
          (g.consumers name).held)
    (hPendingSub : g'.pendingIds.Sublist g.pendingIds)
    (hPending :
      ∀ name,
        ∀ id ∈ (g'.consumers name).held, id ∈ g'.pendingIds)
    (hDelivered : g'.delivered = g.delivered)
    (hStream : g.stream.length ≤ g'.stream.length)
    (hTrimmed : g'.trimmed ≤ g'.stream.length) :
    Holding g' :=
  { once := fun name =>
      (hHolding.once name).sublist (hKept name)
    alone := by
      intro name other id hName hOther
      exact
        hHolding.alone name other id
          ((hKept name).subset hName)
          ((hKept other).subset hOther)
    pending := hPending
    distinct := hHolding.distinct.sublist hPendingSub
    delivered := by
      intro id hMem
      rw [hDelivered]
      exact hHolding.delivered id (hPendingSub.subset hMem)
    published := by
      rw [hDelivered]
      exact le_trans hHolding.published hStream
    trimmed := hTrimmed }

/- One consumer lets go of messages that stay pending. -/
theorem Holding.withConsumer
    {g : Group σ μ κ}
    (hHolding : Holding g)
    {name : String}
    {consumer : Consumer κ}
    (hKept :
      consumer.held.Sublist (g.consumers name).held) :
    Holding (g.withConsumer name consumer) := by
  have hAll :
      ∀ other,
        ((g.withConsumer name consumer).consumers
          other).held.Sublist (g.consumers other).held := by
    intro other
    by_cases hEq : other = name
    · subst hEq
      simpa [Group.withConsumer] using hKept
    · simp [Group.withConsumer, Function.update_of_ne hEq]
  apply hHolding.shrink hAll (List.Sublist.refl _) _ rfl
    (Nat.le_refl _) hHolding.trimmed
  intro other id hMem
  exact hHolding.pending other id ((hAll other).subset hMem)

------------------------------------------------------------
-- Fetching
------------------------------------------------------------

/-
  A consumer that held nothing fetches messages that nobody
  held and that are pending, while the others keep theirs.
-/
theorem Holding.fetch
    {g g' : Group σ μ κ}
    (hHolding : Holding g)
    {name : String}
    {batch : List ℕ}
    (hConsumers :
      g'.consumers =
        Function.update g.consumers name { batch := batch })
    (hOnce : batch.Nodup)
    (hFree :
      ∀ id ∈ batch,
        ∀ holder, id ∉ (g.consumers holder).held)
    (hFetched : ∀ id ∈ batch, id ∈ g'.pendingIds)
    (hStill :
      ∀ holder,
        ∀ id ∈ (g.consumers holder).held,
          id ∈ g'.pendingIds)
    (hDistinct : g'.pendingIds.Nodup)
    (hDelivered : ∀ id ∈ g'.pendingIds, id < g'.delivered)
    (hPublished : g'.delivered ≤ g'.stream.length)
    (hTrimmed : g'.trimmed ≤ g'.stream.length) :
    Holding g' := by
  have hSelf : (g'.consumers name).held = batch := by
    simp [hConsumers, Consumer.held]
  have hOther :
      ∀ other, other ≠ name →
        (g'.consumers other).held =
          (g.consumers other).held := by
    intro other hNe
    rw [hConsumers, Function.update_of_ne hNe]
  refine
    { once := ?_
      alone := ?_
      pending := ?_
      distinct := hDistinct
      delivered := hDelivered
      published := hPublished
      trimmed := hTrimmed }
  · intro holder
    by_cases hEq : holder = name
    · rw [hEq, hSelf]
      exact hOnce
    · rw [hOther holder hEq]
      exact hHolding.once holder
  · intro first second id hFirst hSecond
    by_cases hEq : first = name
    · by_cases hEq' : second = name
      · rw [hEq, hEq']
      · rw [hEq, hSelf] at hFirst
        rw [hOther second hEq'] at hSecond
        exact absurd hSecond (hFree id hFirst second)
    · rw [hOther first hEq] at hFirst
      by_cases hEq' : second = name
      · rw [hEq', hSelf] at hSecond
        exact absurd hFirst (hFree id hSecond first)
      · rw [hOther second hEq'] at hSecond
        exact hHolding.alone first second id hFirst hSecond
  · intro holder id hMem
    by_cases hEq : holder = name
    · rw [hEq, hSelf] at hMem
      exact hFetched id hMem
    · rw [hOther holder hEq] at hMem
      exact hStill holder id hMem

/- Messages that are read were not delivered before. -/
theorem le_of_mem_unread
    {cfg : BusConfig}
    {g : Group σ μ κ}
    {id : ℕ}
    (hMem : id ∈ g.unread cfg) :
    g.nextId ≤ id ∧
      id < g.nextId + (g.unread cfg).length := by
  unfold Group.unread at *
  rw [List.mem_range'_1] at hMem
  rw [List.length_range']
  exact hMem

/- What is read joins what is pending. -/
theorem pendingIds_read
    (cfg : BusConfig)
    {g : Group σ μ κ}
    {name : String}
    (hIdle : g.idle name = true) :
    (g.read cfg name).pendingIds =
      g.pendingIds ++ g.unread cfg := by
  rw [Group.read, if_pos hIdle]
  simp [Group.pendingIds, Function.comp_def]

theorem delivered_read
    (cfg : BusConfig)
    {g : Group σ μ κ}
    {name : String}
    (hIdle : g.idle name = true) :
    (g.read cfg name).delivered =
      g.nextId + (g.unread cfg).length := by
  rw [Group.read, if_pos hIdle]

theorem Holding.read
    {g : Group σ μ κ}
    (hHolding : Holding g)
    (cfg : BusConfig)
    (name : String) :
    Holding (g.read cfg name) := by
  by_cases hIdle : g.idle name
  · have hNew :
        ∀ id ∈ g.unread cfg, id ∉ g.pendingIds := by
      intro id hUnread hPending
      have hLow := (le_of_mem_unread hUnread).1
      have hHigh := hHolding.delivered id hPending
      unfold Group.nextId at hLow
      omega
    have hPendingIds := pendingIds_read cfg hIdle
    have hDelivered := delivered_read cfg hIdle
    rw [Group.read, if_pos hIdle] at *
    apply hHolding.fetch rfl
    · exact List.nodup_range'
    · intro id hUnread holder hHeld
      exact
        hNew id hUnread (hHolding.pending holder id hHeld)
    · intro id hUnread
      rw [hPendingIds]
      exact List.mem_append_right _ hUnread
    · intro holder id hHeld
      rw [hPendingIds]
      exact
        List.mem_append_left _
          (hHolding.pending holder id hHeld)
    · rw [hPendingIds]
      apply hHolding.distinct.append List.nodup_range'
      intro id hPending hUnread
      exact hNew id hUnread hPending
    · intro id hMem
      rw [hPendingIds] at hMem
      rw [hDelivered]
      rcases List.mem_append.mp hMem with hPending | hUnread
      · have hHigh := hHolding.delivered id hPending
        unfold Group.nextId
        omega
      · exact (le_of_mem_unread hUnread).2
    · rw [hDelivered]
      change
        g.nextId + (g.unread cfg).length ≤ g.stream.length
      have hPublished := hHolding.published
      have hTrimmed := hHolding.trimmed
      unfold Group.unread Group.nextId
      rw [List.length_range']
      omega
    · exact hHolding.trimmed
  · rw [Group.read, if_neg hIdle]
    exact hHolding

/- What is claimed was looked at, in the same order. -/
theorem scan_sublist
    (claims : Pending → Bool)
    (entries : List Pending)
    (looks count : ℕ) :
    (Group.scan claims entries looks count).1.Sublist
      (entries.map Pending.id) := by
  induction entries generalizing looks count with
  | nil => simp [Group.scan]
  | cons p rest ih =>
      cases looks with
      | zero => simp [Group.scan]
      | succ looks =>
          cases count with
          | zero => simp [Group.scan]
          | succ count =>
              rw [Group.scan]
              split
              · exact (ih looks count).cons_cons p.id
              · exact (ih looks (count + 1)).cons p.id

theorem claimable_sublist
    (cfg : BusConfig)
    (g : Group σ μ κ)
    (cursor : ℕ) :
    (g.claimable cfg cursor).Sublist g.pendingIds := by
  unfold Group.claimable Group.pendingIds
  apply (scan_sublist _ _ _ _).trans
  exact List.filter_sublist.map _

/- Claiming renews what stays pending. -/
theorem pendingIds_reclaimed
    (g : Group σ μ κ)
    (claimed : List ℕ)
    (keeps : Pending → Bool) :
    ((g.pending.filter keeps).map (g.renewed claimed)).map
        Pending.id =
      (g.pending.filter keeps).map Pending.id := by
  rw [List.map_map]
  apply List.map_congr_left
  intro p _
  simp only [Function.comp_def, Group.renewed]
  split <;> rfl

theorem Holding.reclaim
    {g : Group σ μ κ}
    (hHolding : Holding g)
    (cfg : BusConfig)
    (name : String)
    (cursor : ℕ)
    (hFree :
      ∀ id ∈ g.claimable cfg cursor,
        ∀ holder, id ∉ (g.consumers holder).held) :
    Holding (g.reclaim cfg name cursor) := by
  unfold Group.reclaim
  split
  · have hSublist := claimable_sublist cfg g cursor
    have hKept :
        ∀ id ∈ g.pendingIds,
          (id ∉ g.claimable cfg cursor ∨ g.trimmed ≤ id) →
            id ∈
              (g.pending.filter (fun p =>
                p.id ∉ g.claimable cfg cursor ||
                  g.trimmed ≤ p.id)).map Pending.id := by
      intro id hMem hEither
      rcases List.mem_map.mp hMem with ⟨p, hPending, rfl⟩
      apply List.mem_map_of_mem
      rw [List.mem_filter]
      exact ⟨hPending, by simpa using hEither⟩
    have hPendingSub :
        ((g.pending.filter (fun p =>
          p.id ∉ g.claimable cfg cursor ||
            g.trimmed ≤ p.id)).map Pending.id).Sublist
              g.pendingIds :=
      List.filter_sublist.map _
    apply hHolding.fetch rfl
    · exact
        (hHolding.distinct.sublist hSublist).filter _
    · intro id hMem
      exact hFree id (List.mem_filter.mp hMem).1
    · intro id hMem
      rw [List.mem_filter] at hMem
      change id ∈ List.map Pending.id _
      rw [pendingIds_reclaimed]
      apply hKept id (hSublist.subset hMem.1)
      right
      simpa using hMem.2
    · intro holder id hHeld
      change id ∈ List.map Pending.id _
      rw [pendingIds_reclaimed]
      apply hKept id (hHolding.pending holder id hHeld)
      left
      intro hClaimed
      exact hFree id hClaimed holder hHeld
    · change (List.map Pending.id _).Nodup
      rw [pendingIds_reclaimed]
      exact hHolding.distinct.sublist hPendingSub
    · intro id hMem
      change id ∈ List.map Pending.id _ at hMem
      rw [pendingIds_reclaimed] at hMem
      exact hHolding.delivered id (hPendingSub.subset hMem)
    · exact hHolding.published
    · exact hHolding.trimmed
  · exact hHolding

------------------------------------------------------------
-- Handling
------------------------------------------------------------

theorem Holding.dispatch
    {g : Group σ μ κ}
    (hHolding : Holding g)
    (service : Service σ μ κ)
    (name : String) :
    Holding (g.dispatch service name) := by
  unfold Group.dispatch
  split
  · next id rest hTask hBatch =>
      apply hHolding.withConsumer
      simp only [Consumer.held, hTask, hBatch]
      cases g.stream[id]? with
      | none => exact List.sublist_cons_self id rest
      | some message => exact List.Sublist.refl _
  · exact hHolding

/- Letting go of what is in hand keeps the batch. -/
theorem Holding.release
    {g : Group σ μ κ}
    (hHolding : Holding g)
    (name : String) :
    Holding (g.release name) := by
  apply hHolding.withConsumer
  exact List.sublist_append_right _ _

theorem Holding.handling
    {g : Group σ μ κ}
    (hHolding : Holding g)
    {name : String}
    {id : ℕ}
    {before task : Handling κ}
    (hTask : (g.consumers name).task = some (id, before)) :
    Holding (g.handling name id task) := by
  apply hHolding.withConsumer
  simp only [Consumer.held, hTask]
  exact List.Sublist.refl _

/- An acknowledged message was held by nobody else. -/
theorem Holding.acknowledge
    {g : Group σ μ κ}
    (hHolding : Holding g)
    {name : String}
    {id : ℕ}
    {task : Handling κ}
    (hTask : (g.consumers name).task = some (id, task)) :
    Holding (g.acknowledge name id) := by
  have hReleased := hHolding.release name
  have hOnce := hHolding.once name
  simp only [Consumer.held, hTask, Option.map_some,
    Option.toList_some, List.singleton_append,
    List.nodup_cons] at hOnce
  have hKept :
      ∀ holder,
        ((g.acknowledge name id).consumers
          holder).held.Sublist
            ((g.release name).consumers holder).held :=
    fun _ => List.Sublist.refl _
  have hPendingSub :
      (g.acknowledge name id).pendingIds.Sublist
        (g.release name).pendingIds :=
    List.filter_sublist.map _
  apply hReleased.shrink hKept hPendingSub _ rfl
    (Nat.le_refl _) hHolding.trimmed
  intro holder other hHeld
  have hPending := hReleased.pending holder other hHeld
  have hNe : other ≠ id := by
    rintro rfl
    by_cases hEq : holder = name
    · subst hEq
      simp only [Group.acknowledge, Group.release,
        Group.withConsumer, Function.update_self,
        Consumer.held] at hHeld
      exact hOnce.1 (by simpa using hHeld)
    · simp only [Group.acknowledge, Group.release,
        Group.withConsumer,
        Function.update_of_ne hEq] at hHeld
      apply hEq
      apply hHolding.alone holder name other hHeld
      simp [Consumer.held, hTask]
  rcases List.mem_map.mp hPending with ⟨p, hMem, hId⟩
  apply List.mem_map.mpr
  refine ⟨p, List.mem_filter.mpr ⟨hMem, ?_⟩, hId⟩
  simp [hId, hNe]

/- Whatever an effect says, nothing is held twice. -/
theorem Holding.progressed
    {g : Group σ μ κ}
    (hHolding : Holding g)
    {name : String}
    {id : ℕ}
    {before : Handling κ}
    (hTask : (g.consumers name).task = some (id, before))
    (progress : Progress κ) :
    Holding (g.progressed name id progress) := by
  cases progress with
  | going rest => exact hHolding.handling hTask
  | returned => exact hHolding.handling hTask
  | raised => exact hHolding.release name

/- The shared state and the time do not matter. -/
theorem Holding.sharing
    {g : Group σ μ κ}
    (hHolding : Holding g)
    (now : ℚ)
    (shared : σ) :
    Holding { g with now := now, shared := shared } :=
  { once := hHolding.once
    alone := hHolding.alone
    pending := hHolding.pending
    distinct := hHolding.distinct
    delivered := hHolding.delivered
    published := hHolding.published
    trimmed := hHolding.trimmed }

theorem Holding.work
    {g : Group σ μ κ}
    (hHolding : Holding g)
    (service : Service σ μ κ)
    (name : String) :
    Holding (g.work service name) := by
  unfold Group.work
  split
  · exact hHolding
  · next id hTask => exact hHolding.acknowledge hTask
  · next id rest hTask =>
      exact
        (hHolding.progressed hTask
          (service.effect rest g.shared).1).sharing _ _

theorem Holding.dropped
    {g : Group σ μ κ}
    (hHolding : Holding g)
    (name : String) :
    Holding (g.withConsumer name {}) := by
  apply hHolding.withConsumer
  exact List.nil_sublist _

theorem Holding.fail
    {g : Group σ μ κ}
    (hHolding : Holding g)
    (name : String) :
    Holding (g.fail name) := by
  unfold Group.fail
  split
  · exact hHolding
  · exact hHolding.release name
  · exact hHolding.dropped name

theorem Holding.leave
    {g : Group σ μ κ}
    (hHolding : Holding g)
    (name : String) :
    Holding (g.leave name) := by
  unfold Group.leave
  split
  · exact hHolding.dropped name
  · exact hHolding

------------------------------------------------------------
-- Steps
------------------------------------------------------------

/- Nothing is held twice after a step that claims free ones. -/
theorem Holding.step
    {g : Group σ μ κ}
    (hHolding : Holding g)
    (cfg : BusConfig)
    (service : Service σ μ κ)
    (move : Move μ)
    (hFree : ClaimsFree cfg g move) :
    Holding (g.step cfg service move) := by
  cases move with
  | wait time => exact hHolding.sharing _ _
  | publish message =>
      exact
        { once := hHolding.once
          alone := hHolding.alone
          pending := hHolding.pending
          distinct := hHolding.distinct
          delivered := hHolding.delivered
          published := by
            have hLe := hHolding.published
            simp only [Group.step, List.length_append]
            omega
          trimmed := by
            have hLe := hHolding.trimmed
            simp only [Group.step, List.length_append]
            omega }
  | trim upTo =>
      exact
        { once := hHolding.once
          alone := hHolding.alone
          pending := hHolding.pending
          distinct := hHolding.distinct
          delivered := hHolding.delivered
          published := hHolding.published
          trimmed := by
            have hLe := hHolding.trimmed
            simp only [Group.step]
            omega }
  | read name => exact hHolding.read cfg name
  | reclaim name cursor =>
      exact hHolding.reclaim cfg name cursor hFree
  | dispatch name => exact hHolding.dispatch service name
  | work name => exact hHolding.work service name
  | fail name => exact hHolding.fail name
  | leave name => exact hHolding.leave name
  | crash name => exact hHolding.dropped name

/- No other consumer has the message in hand or fetched. -/
theorem Holding.alone_of_task
    {g : Group σ μ κ}
    (hHolding : Holding g)
    {name other : String}
    {id : ℕ}
    {task : Handling κ}
    (hTask : (g.consumers name).task = some (id, task))
    (hHeld : id ∈ (g.consumers other).held) :
    other = name := by
  apply hHolding.alone other name id hHeld
  simp [Consumer.held, hTask]

end Bus

end Nidra
