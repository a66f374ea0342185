import Mathlib
import Nidra.Lib.Numerals

/-
  This file defines one stream of messages with the consumer
  group that shares it: messages are read in batches, stay
  pending until they are acknowledged, and are claimed by
  another consumer once they have been pending for long
  enough, whatever their consumer does. A handler runs effect
  by effect, so that the effects of several consumers come in
  any order.

  Key definitions include:
    * `Progress`, `Service`
    * `Handling`, `Consumer`, `Pending`, `Group`
    * `BusConfig`
    * `Group.read`, `Group.reclaim`
    * `Group.dispatch`, `Group.work`
    * `Move`, `Group.step`, `Group.runMoves`
-/

namespace Nidra

namespace Bus

------------------------------------------------------------
-- Handlers
------------------------------------------------------------

/- How a handler stands after one of its effects. -/
inductive Progress (κ : Type) where
  | going (rest : κ)
  | returned
  | raised

/-
  A handler of messages, over a state that all its consumers
  share: what is to be done for a message, and what its next
  effect does.
-/
structure Service (σ μ κ : Type) where
  start : μ → κ
  effect : κ → σ → Progress κ × σ

/-
  A message in the hands of a handler, or one whose handler
  has returned, which is to be acknowledged.
-/
inductive Handling (κ : Type) where
  | running (rest : κ)
  | returned

------------------------------------------------------------
-- The group
------------------------------------------------------------

/-
  A consumer: the messages it has fetched, in their order,
  and the one that is in hand.
-/
structure Consumer (κ : Type) where
  batch : List ℕ := []
  task : Option (ℕ × Handling κ) := none

/- A delivered message, and when it was delivered last. -/
structure Pending where
  id : ℕ
  deliveredAt : ℚ

/-
  The time in milliseconds, the state that the consumers
  share, the messages by their place in the stream, how many
  of them were trimmed and how many were delivered, those
  that are pending, and the consumers by their names.
-/
structure Group (σ μ κ : Type) where
  now : ℚ
  shared : σ
  stream : List μ
  trimmed : ℕ
  delivered : ℕ
  pending : List Pending
  consumers : String → Consumer κ

/- Messages to a batch, and the shortest time to a claim. -/
structure BusConfig where
  count : ℕ := 32
  minIdleMs : ℚ := 60000

variable {σ μ κ : Type}

namespace Group

/- A group before anything was published. -/
def start
    (now : ℚ)
    (shared : σ) : Group σ μ κ :=
  { now := now
    shared := shared
    stream := []
    trimmed := 0
    delivered := 0
    pending := []
    consumers := fun _ => {} }

/- The consumer that a name stands for, changed. -/
def withConsumer
    (g : Group σ μ κ)
    (name : String)
    (consumer : Consumer κ) : Group σ μ κ :=
  { g with
    consumers := Function.update g.consumers name consumer }

/- The messages that are pending. -/
def pendingIds (g : Group σ μ κ) : List ℕ :=
  g.pending.map Pending.id

------------------------------------------------------------
-- Fetching
------------------------------------------------------------

/- A consumer that has dealt with all it has fetched. -/
def idle
    (g : Group σ μ κ)
    (name : String) : Bool :=
  (g.consumers name).batch.isEmpty &&
    (g.consumers name).task.isNone

/- The first message that was neither delivered nor trimmed. -/
def nextId (g : Group σ μ κ) : ℕ :=
  max g.delivered g.trimmed

/- The next messages that were delivered to no consumer. -/
def unread
    (cfg : BusConfig)
    (g : Group σ μ κ) : List ℕ :=
  List.range' g.nextId
    (min cfg.count (g.stream.length - g.nextId))

/- Fetch new messages, which are pending from now on. -/
def read
    (cfg : BusConfig)
    (g : Group σ μ κ)
    (name : String) : Group σ μ κ :=
  if g.idle name then
    { g.withConsumer name { batch := g.unread cfg } with
      delivered := g.nextId + (g.unread cfg).length
      pending :=
        g.pending ++
          (g.unread cfg).map (fun id =>
            { id := id, deliveredAt := g.now }) }
  else g

/-
  Go through pending messages until this many were looked at
  or this many claimed: those claimed, and those still left.
-/
def scan
    (claims : Pending → Bool) :
    List Pending → ℕ → ℕ → List ℕ × List Pending
  | p :: rest, looks + 1, count + 1 =>
      if claims p then
        let found := scan claims rest looks count
        (p.id :: found.1, found.2)
      else scan claims rest looks (count + 1)
  | left, _, _ => ([], left)

/-
  What a claim finds from a cursor on. It asks for nothing but
  the time since the last delivery, and looks at ten messages
  for each one that it may claim.
-/
def scanned
    (cfg : BusConfig)
    (g : Group σ μ κ)
    (cursor : ℕ) : List ℕ × List Pending :=
  scan (fun p => cfg.minIdleMs ≤ g.now - p.deliveredAt)
    (g.pending.filter (fun p => cursor ≤ p.id))
    (10 * cfg.count) cfg.count

/- The messages that a claim from a cursor on takes over. -/
def claimable
    (cfg : BusConfig)
    (g : Group σ μ κ)
    (cursor : ℕ) : List ℕ :=
  (g.scanned cfg cursor).1

/- Where the next claim goes on, if anything is left. -/
def nextCursor
    (cfg : BusConfig)
    (g : Group σ μ κ)
    (cursor : ℕ) : Option ℕ :=
  (g.scanned cfg cursor).2.head?.map Pending.id

/- A claimed message counts as delivered now. -/
def renewed
    (g : Group σ μ κ)
    (claimed : List ℕ)
    (p : Pending) : Pending :=
  if p.id ∈ claimed then { p with deliveredAt := g.now } else p

/-
  Take over messages that have been pending for long enough.
  One that was trimmed is pending no more.
-/
def reclaim
    (cfg : BusConfig)
    (g : Group σ μ κ)
    (name : String)
    (cursor : ℕ) : Group σ μ κ :=
  if g.idle name then
    let claimed := g.claimable cfg cursor
    let batch := claimed.filter (fun id => g.trimmed ≤ id)
    { g.withConsumer name { batch := batch } with
      pending :=
        (g.pending.filter (fun p =>
          p.id ∉ claimed || g.trimmed ≤ p.id)).map
            (g.renewed claimed) }
  else g

------------------------------------------------------------
-- Handling
------------------------------------------------------------

section Handling

variable (service : Service σ μ κ)

/- Start the handler on the next message of the batch. -/
def dispatch
    (g : Group σ μ κ)
    (name : String) : Group σ μ κ :=
  match (g.consumers name).task, (g.consumers name).batch with
  | none, id :: rest =>
      g.withConsumer name
        { batch := rest
          task :=
            g.stream[id]?.map (fun message =>
              (id, .running (service.start message))) }
  | _, _ => g

/- Drop what is in hand, and keep the batch. -/
def release
    (g : Group σ μ κ)
    (name : String) : Group σ μ κ :=
  g.withConsumer name
    { batch := (g.consumers name).batch, task := none }

/- Have this in hand next, and keep the batch. -/
def handling
    (g : Group σ μ κ)
    (name : String)
    (id : ℕ)
    (task : Handling κ) : Group σ μ κ :=
  g.withConsumer name
    { batch := (g.consumers name).batch
      task := some (id, task) }

/- Acknowledge what is in hand: it is pending no more. -/
def acknowledge
    (g : Group σ μ κ)
    (name : String)
    (id : ℕ) : Group σ μ κ :=
  { g.release name with
    pending := g.pending.filter (fun p => p.id ≠ id) }

/- How a message is dealt with after an effect on it. -/
def progressed
    (g : Group σ μ κ)
    (name : String)
    (id : ℕ) : Progress κ → Group σ μ κ
  | .going rest => g.handling name id (.running rest)
  | .returned => g.handling name id .returned
  | .raised => g.release name

/-
  One effect on the message in hand: an effect of its handler
  or, once that has returned, the acknowledgement. A handler
  that raises leaves its message pending.
-/
def work
    (g : Group σ μ κ)
    (name : String) : Group σ μ κ :=
  match (g.consumers name).task with
  | none => g
  | some (id, .returned) => g.acknowledge name id
  | some (id, .running rest) =>
      let after := service.effect rest g.shared
      { g.progressed name id after.1 with shared := after.2 }

end Handling

/-
  Something outside fails under a consumer. A handler that is
  running raises; a failed acknowledgement ends the consumer.
-/
def fail
    (g : Group σ μ κ)
    (name : String) : Group σ μ κ :=
  match (g.consumers name).task with
  | none => g
  | some (_, .running _) => g.release name
  | some (_, .returned) => g.withConsumer name {}

/- Leave without what was fetched and is not in hand. -/
def leave
    (g : Group σ μ κ)
    (name : String) : Group σ μ κ :=
  if (g.consumers name).task.isNone then g.withConsumer name {}
  else g

end Group

------------------------------------------------------------
-- Runs
------------------------------------------------------------

/-
  What can happen: time passes; a message is published; the
  oldest messages are trimmed; a consumer fetches messages,
  claims some, starts a handler, has an effect done, meets a
  failure from outside, stops between two messages, or
  crashes.
-/
inductive Move (μ : Type) where
  | wait (time : ℚ)
  | publish (message : μ)
  | trim (upTo : ℕ)
  | read (name : String)
  | reclaim (name : String) (cursor : ℕ)
  | dispatch (name : String)
  | work (name : String)
  | fail (name : String)
  | leave (name : String)
  | crash (name : String)

section Runs

variable (cfg : BusConfig)
variable (service : Service σ μ κ)

def Group.step
    (g : Group σ μ κ) : Move μ → Group σ μ κ
  | .wait time => { g with now := max g.now time }
  | .publish message =>
      { g with stream := g.stream ++ [message] }
  | .trim upTo =>
      { g with
        trimmed := max g.trimmed (min upTo g.stream.length) }
  | .read name => g.read cfg name
  | .reclaim name cursor => g.reclaim cfg name cursor
  | .dispatch name => g.dispatch service name
  | .work name => g.work service name
  | .fail name => g.fail name
  | .leave name => g.leave name
  | .crash name => g.withConsumer name {}

def Group.runMoves
    (g : Group σ μ κ)
    (moves : List (Move μ)) : Group σ μ κ :=
  moves.foldl (Group.step cfg service) g

/-
  What only grows: messages keep their places in the stream,
  and neither what was trimmed nor the time goes back.
-/
structure Group.Later
    (g g' : Group σ μ κ) : Prop where
  stream : g.stream <+: g'.stream
  trimmed : g.trimmed ≤ g'.trimmed
  now : g.now ≤ g'.now

theorem Group.Later.refl (g : Group σ μ κ) : g.Later g :=
  { stream := List.prefix_rfl
    trimmed := Nat.le_refl _
    now := le_refl _ }

theorem Group.Later.trans
    {g g' g'' : Group σ μ κ}
    (hFirst : g.Later g')
    (hSecond : g'.Later g'') :
    g.Later g'' :=
  { stream := hFirst.stream.trans hSecond.stream
    trimmed := Nat.le_trans hFirst.trimmed hSecond.trimmed
    now := le_trans hFirst.now hSecond.now }

theorem Group.later_step
    (g : Group σ μ κ)
    (move : Move μ) :
    g.Later (g.step cfg service move) := by
  have hSame := Group.Later.refl g
  cases move with
  | wait time =>
      exact { hSame with now := le_max_left _ _ }
  | publish message =>
      exact { hSame with stream := List.prefix_append _ _ }
  | trim upTo =>
      exact { hSame with trimmed := Nat.le_max_left _ _ }
  | read _ =>
      simp only [Group.step, Group.read]
      split
      · exact { hSame with }
      · exact hSame
  | reclaim _ _ =>
      simp only [Group.step, Group.reclaim]
      split
      · exact { hSame with }
      · exact hSame
  | dispatch _ =>
      simp only [Group.step, Group.dispatch]
      split
      · exact { hSame with }
      · exact hSame
  | work _ =>
      simp only [Group.step, Group.work]
      split
      · exact hSame
      · exact { hSame with }
      · next rest _ =>
          cases (service.effect rest g.shared).1 <;>
            exact { hSame with }
  | fail _ =>
      simp only [Group.step, Group.fail]
      split
      · exact hSame
      · exact { hSame with }
      · exact { hSame with }
  | leave _ =>
      simp only [Group.step, Group.leave]
      split
      · exact { hSame with }
      · exact hSame
  | crash _ => exact { hSame with }

theorem Group.later_runMoves
    (g : Group σ μ κ)
    (moves : List (Move μ)) :
    g.Later (g.runMoves cfg service moves) := by
  induction moves generalizing g with
  | nil => exact Group.Later.refl g
  | cons move moves ih =>
      exact (g.later_step cfg service move).trans (ih _)

/- A message stays in the stream. -/
theorem Group.mem_stream_runMoves
    {g : Group σ μ κ}
    {message : μ}
    (hMem : message ∈ g.stream)
    (moves : List (Move μ)) :
    message ∈ (g.runMoves cfg service moves).stream :=
  (g.later_runMoves cfg service moves).stream.subset hMem

/- A message that a run publishes is in the stream. -/
theorem Group.mem_stream_of_publish
    (g : Group σ μ κ)
    {moves : List (Move μ)}
    {message : μ}
    (hMove : .publish message ∈ moves) :
    message ∈ (g.runMoves cfg service moves).stream := by
  rcases List.append_of_mem hMove with ⟨before, after, rfl⟩
  unfold Group.runMoves
  rw [List.foldl_append, List.foldl_cons]
  apply Group.mem_stream_runMoves
  exact List.mem_append_right _ (List.mem_singleton.mpr rfl)

/- The consumer that a move is about. -/
def Move.consumer : Move μ → Option String
  | .wait _ => none
  | .publish _ => none
  | .trim _ => none
  | .read name => some name
  | .reclaim name _ => some name
  | .dispatch name => some name
  | .work name => some name
  | .fail name => some name
  | .leave name => some name
  | .crash name => some name

theorem Group.withConsumer_of_ne
    (g : Group σ μ κ)
    {name other : String}
    (consumer : Consumer κ)
    (hNe : other ≠ name) :
    (g.withConsumer name consumer).consumers other =
      g.consumers other :=
  Function.update_of_ne hNe _ _

/- A move about one consumer leaves the others as they are. -/
theorem Group.consumers_step_of_ne
    (g : Group σ μ κ)
    {move : Move μ}
    {other : String}
    (hOther : ∀ name ∈ move.consumer, other ≠ name) :
    (g.step cfg service move).consumers other =
      g.consumers other := by
  cases move with
  | wait _ => rfl
  | publish _ => rfl
  | trim _ => rfl
  | read name =>
      have hNe := hOther name rfl
      simp only [Group.step, Group.read]
      split
      · exact g.withConsumer_of_ne _ hNe
      · rfl
  | reclaim name cursor =>
      have hNe := hOther name rfl
      simp only [Group.step, Group.reclaim]
      split
      · exact g.withConsumer_of_ne _ hNe
      · rfl
  | dispatch name =>
      have hNe := hOther name rfl
      simp only [Group.step, Group.dispatch]
      split
      · exact g.withConsumer_of_ne _ hNe
      · rfl
  | work name =>
      have hNe := hOther name rfl
      simp only [Group.step, Group.work]
      split
      · rfl
      · exact g.withConsumer_of_ne _ hNe
      · next rest _ =>
          cases (service.effect rest g.shared).1 <;>
            exact g.withConsumer_of_ne _ hNe
  | fail name =>
      have hNe := hOther name rfl
      simp only [Group.step, Group.fail]
      split
      · rfl
      · exact g.withConsumer_of_ne _ hNe
      · exact g.withConsumer_of_ne _ hNe
  | leave name =>
      have hNe := hOther name rfl
      simp only [Group.step, Group.leave]
      split
      · exact g.withConsumer_of_ne _ hNe
      · rfl
  | crash name =>
      have hNe := hOther name rfl
      exact g.withConsumer_of_ne _ hNe

/- A run about other consumers leaves one as it is. -/
theorem Group.consumers_runMoves_of_ne
    (g : Group σ μ κ)
    {moves : List (Move μ)}
    {other : String}
    (hOther :
      ∀ move ∈ moves, ∀ name ∈ move.consumer, other ≠ name) :
    (g.runMoves cfg service moves).consumers other =
      g.consumers other := by
  induction moves generalizing g with
  | nil => rfl
  | cons move moves ih =>
      have hRest :=
        ih (g.step cfg service move)
          (fun later hMem =>
            hOther later (List.mem_cons_of_mem _ hMem))
      have hFirst :=
        g.consumers_step_of_ne cfg service
          (hOther move (List.mem_cons_self))
      exact hRest.trans hFirst

end Runs

end Bus

end Nidra
