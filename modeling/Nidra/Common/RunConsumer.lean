import Nidra.Common.Claims
import Nidra.Lib.Folds

/-
  This file defines the loop of the processes that consume a
  stream. A process asks to stop, fails or crashes at any
  point, and the others go on meanwhile. In every run of them
  a message is acknowledged only after its handler returned,
  and one that was not stays pending for a later reclaim.

  Key definitions include:
    * `ConsumerConfig`
    * `Phase`, `Process`, `Workers`
    * `Process.turn`
    * `WorkerEvent`, `Workers.step`
    * `Workers.Reclaims`
    * `AtLeastOnce`

  Main declarations:
    * `Workers.Settled.step`
    * `Workers.Reclaims.complete`
    * `runConsumer_atLeastOnce`
-/

namespace Nidra

namespace Bus

set_option linter.unusedSectionVars false

variable {σ μ κ : Type}

------------------------------------------------------------
-- Processes
------------------------------------------------------------

/- How a process fetches, and how often it reclaims. -/
structure ConsumerConfig extends BusConfig where
  reclaimIntervalS : ℚ := 30

/-
  Where a process is: it does not run; it is at the head of
  its loop; it deals with what it reclaims, and claims on from
  a cursor if any is left; it deals with what it has read.
-/
inductive Phase where
  | down
  | head
  | reclaiming (cursor : Option ℕ)
  | reading
  deriving DecidableEq

/-
  A process, whether it was asked to stop, whether it has
  dispatched a message of its batch, and when it reclaims
  next, by its own clock.
-/
structure Process where
  phase : Phase := .down
  stop : Bool := false
  dispatched : Bool := false
  nextReclaim : ℚ := 0

/- The group, and the processes by the names of consumers. -/
structure Workers (σ μ κ : Type) where
  group : Group σ μ κ
  process : String → Process

namespace Process

/- The process begins, or has ended before. -/
def started
    (p : Process)
    (time : ℚ) : Process :=
  match p.phase with
  | .down => { phase := .head, nextReclaim := time }
  | _ => p

def exit
    (p : Process)
    (name : String) : Option (Move μ) × Process :=
  (some (.leave name), { p with phase := .down })

/- One claim of the reclaim, and where it is to go on. -/
def reclaimFrom
    (cfg : BusConfig)
    (g : Group σ μ κ)
    (name : String)
    (cursor : ℕ)
    (p : Process) : Option (Move μ) × Process :=
  (some (.reclaim name cursor),
    { p with
      phase := .reclaiming (g.nextCursor cfg cursor)
      dispatched := false })

def readNext
    (p : Process)
    (name : String) : Option (Move μ) × Process :=
  (some (.read name),
    { p with phase := .reading, dispatched := false })

/-
  What is done about a batch, as long as anything is: go on
  with the message in hand, stop after one, take the next.
-/
def dealing
    (g : Group σ μ κ)
    (name : String)
    (p : Process) : Option (Option (Move μ) × Process) :=
  if (g.consumers name).task.isSome then
    some (some (.work name), p)
  else if p.dispatched && p.stop then
    some (p.exit name)
  else if !(g.consumers name).batch.isEmpty then
    some (some (.dispatch name), { p with dispatched := true })
  else none

/- The end of a reclaim, after which new messages are read. -/
def reclaimed
    (cfg : ConsumerConfig)
    (name : String)
    (time : ℚ)
    (p : Process) : Option (Move μ) × Process :=
  if p.stop then
    { p with
      nextReclaim := time + cfg.reclaimIntervalS }.exit name
  else
    { p with
      nextReclaim := time + cfg.reclaimIntervalS }.readNext name

/-
  What a process does next, at a time by its own clock, and
  how it goes on.
-/
def turn
    (cfg : ConsumerConfig)
    (g : Group σ μ κ)
    (name : String)
    (time : ℚ)
    (p : Process) : Option (Move μ) × Process :=
  match p.phase with
  | .down => (none, p)
  | .head =>
      if p.stop then p.exit name
      else if p.nextReclaim ≤ time then
        p.reclaimFrom cfg.toBusConfig g name 0
      else p.readNext name
  | .reclaiming cursor =>
      (p.dealing g name).getD
        (match cursor with
        | some next =>
            p.reclaimFrom cfg.toBusConfig g name next
        | none => p.reclaimed cfg name time)
  | .reading =>
      (p.dealing g name).getD (none, { p with phase := .head })

/-
  A failure from outside: a handler raises, and the process
  goes on; a failed acknowledgement ends the process.
-/
def failed
    (p : Process)
    (task : Option (ℕ × Handling κ)) : Process :=
  match task with
  | some (_, .returned) => { p with phase := .down }
  | _ => p

end Process

section Turns

variable (cfg : ConsumerConfig)
variable (g : Group σ μ κ)
variable (name : String)

/- All that a process can do next, and when it does so. -/
inductive Process.Turned
    (p : Process) : Option (Move μ) × Process → Prop where
  | waits
      (hPhase : p.phase = .down) :
      Turned p (none, p)
  | works
      (hTask : (g.consumers name).task.isSome = true)
      (hPhase :
        p.phase = .reading ∨
          ∃ cursor, p.phase = .reclaiming cursor) :
      Turned p (some (.work name), p)
  | exits
      (nextReclaim : ℚ)
      (hPhase :
        p.phase = .head ∨
          (g.consumers name).task.isNone = true) :
      Turned p
        (some (.leave name),
          { p with
            phase := .down
            nextReclaim := nextReclaim })
  | dispatches
      (hPhase :
        p.phase = .reading ∨
          ∃ cursor, p.phase = .reclaiming cursor) :
      Turned p
        (some (.dispatch name), { p with dispatched := true })
  | reclaims
      (cursor : ℕ)
      (hPhase :
        p.phase = .head ∧ cursor = 0 ∨
          p.phase = .reclaiming (some cursor) ∧
            g.idle name = true) :
      Turned p
        (p.reclaimFrom cfg.toBusConfig g name cursor)
  | reads
      (nextReclaim : ℚ)
      (hPhase :
        p.phase = .head ∨ p.phase = .reclaiming none) :
      Turned p
        (some (.read name),
          { p with
            phase := .reading
            dispatched := false
            nextReclaim := nextReclaim })
  | returns
      (hPhase : p.phase = .reading)
      (hIdle : g.idle name = true) :
      Turned p (none, { p with phase := .head })

variable {cfg g name}

/- Nothing is left to do about a batch that is dealt with. -/
theorem Process.idle_of_dealing
    {p : Process}
    (hDealing : p.dealing g name = none) :
    g.idle name = true := by
  unfold Process.dealing at hDealing
  split at hDealing
  · cases hDealing
  split at hDealing
  · cases hDealing
  split at hDealing
  · cases hDealing
  · next hTask _ hBatch =>
      unfold Group.idle
      simp_all

theorem Process.turned_dealing
    {p : Process}
    (hPhase :
      p.phase = .reading ∨
        ∃ cursor, p.phase = .reclaiming cursor)
    {outcome : Option (Move μ) × Process}
    (hDealing : p.dealing g name = some outcome) :
    p.Turned cfg g name outcome := by
  unfold Process.dealing at hDealing
  split at hDealing
  · next hTask =>
      cases hDealing
      exact .works hTask hPhase
  split at hDealing
  · next hTask _ =>
      cases hDealing
      exact .exits p.nextReclaim (Or.inr (by simpa using hTask))
  split at hDealing
  · cases hDealing
    exact .dispatches hPhase
  · cases hDealing

theorem Process.turned
    (p : Process)
    (time : ℚ) :
    p.Turned cfg g name (p.turn cfg g name time) := by
  unfold Process.turn
  cases hPhase : p.phase with
  | down => exact .waits hPhase
  | head =>
      simp only
      split
      · exact .exits p.nextReclaim (Or.inl hPhase)
      split
      · exact .reclaims 0 (Or.inl ⟨hPhase, rfl⟩)
      · exact .reads p.nextReclaim (Or.inl hPhase)
  | reclaiming cursor =>
      cases hDealing : p.dealing g name with
      | some outcome =>
          exact
            Process.turned_dealing (Or.inr ⟨cursor, hPhase⟩)
              hDealing
      | none =>
          have hIdle := Process.idle_of_dealing hDealing
          cases cursor with
          | some next =>
              exact .reclaims next (Or.inr ⟨hPhase, hIdle⟩)
          | none =>
              have hNone :
                  (g.consumers name).task.isNone = true := by
                simp only [Group.idle,
                  Bool.and_eq_true] at hIdle
                exact hIdle.2
              simp only [Option.getD_none, Process.reclaimed]
              split
              · exact .exits _ (Or.inr hNone)
              · exact .reads _ (Or.inr hPhase)
  | reading =>
      cases hDealing : p.dealing g name with
      | some outcome =>
          exact
            Process.turned_dealing (Or.inl hPhase) hDealing
      | none =>
          exact
            .returns hPhase (Process.idle_of_dealing hDealing)

/- What a process does is about its own consumer. -/
theorem Process.Turned.consumer
    {p : Process}
    {outcome : Option (Move μ) × Process}
    (hTurned : p.Turned cfg g name outcome)
    {move : Move μ}
    (hMove : outcome.1 = some move) :
    move.consumer = some name := by
  cases hTurned with
  | waits _ => cases hMove
  | returns _ _ => cases hMove
  | works _ _ => cases hMove; rfl
  | exits _ _ => cases hMove; rfl
  | dispatches _ => cases hMove; rfl
  | reclaims _ _ => cases hMove; rfl
  | reads _ _ => cases hMove; rfl

end Turns

------------------------------------------------------------
-- Runs
------------------------------------------------------------

/-
  What can happen: time passes; a message is published; the
  oldest are trimmed; a process starts, is asked to stop, does
  what it does next, meets a failure, or crashes.
-/
inductive WorkerEvent (μ : Type) where
  | wait (time : ℚ)
  | publish (message : μ)
  | trim (upTo : ℕ)
  | start (name : String) (time : ℚ)
  | stop (name : String)
  | turn (name : String) (time : ℚ)
  | fail (name : String)
  | crash (name : String)

/- The process that an event is about. -/
def WorkerEvent.process : WorkerEvent μ → Option String
  | .wait _ => none
  | .publish _ => none
  | .trim _ => none
  | .start name _ => some name
  | .stop name => some name
  | .turn name _ => some name
  | .fail name => some name
  | .crash name => some name

namespace Workers

/- Before anything was published and any process started. -/
def start
    (now : ℚ)
    (shared : σ) : Workers σ μ κ :=
  { group := Group.start now shared
    process := fun _ => {} }

variable (cfg : ConsumerConfig)
variable (service : Service σ μ κ)

/- What an event does to the group, if it does anything. -/
def move
    (w : Workers σ μ κ) : WorkerEvent μ → Option (Move μ)
  | .wait time => some (.wait time)
  | .publish message => some (.publish message)
  | .trim upTo => some (.trim upTo)
  | .start _ _ => none
  | .stop _ => none
  | .turn name time =>
      ((w.process name).turn cfg w.group name time).1
  | .fail name => some (.fail name)
  | .crash name => some (.crash name)

/- What an event does to the processes. -/
def processAfter
    (w : Workers σ μ κ) : WorkerEvent μ → String → Process
  | .start name time =>
      Function.update w.process name
        ((w.process name).started time)
  | .stop name =>
      Function.update w.process name
        { w.process name with stop := true }
  | .turn name time =>
      Function.update w.process name
        ((w.process name).turn cfg w.group name time :
          Option (Move μ) × Process).2
  | .fail name =>
      Function.update w.process name
        ((w.process name).failed
          (w.group.consumers name).task)
  | .crash name =>
      Function.update w.process name
        { w.process name with phase := .down }
  | _ => w.process

def step
    (w : Workers σ μ κ)
    (e : WorkerEvent μ) : Workers σ μ κ :=
  { group :=
      (w.move cfg e).toList.foldl
        (Group.step cfg.toBusConfig service) w.group
    process := w.processAfter cfg e }

def run
    (w : Workers σ μ κ)
    (events : List (WorkerEvent μ)) : Workers σ μ κ :=
  events.foldl (step cfg service) w

/- What the processes do to the group in a run. -/
def moves
    (w : Workers σ μ κ)
    (events : List (WorkerEvent μ)) : List (Move μ) :=
  record (step cfg service) (move cfg) w events

/- What is seen of the processes in a run. -/
def log
    (w : Workers σ μ κ)
    (events : List (WorkerEvent μ)) : List (Note μ) :=
  w.group.log cfg.toBusConfig service
    (w.moves cfg service events)

/- The group has taken the moves that the processes made. -/
theorem group_run
    (w : Workers σ μ κ)
    (events : List (WorkerEvent μ)) :
    (w.run cfg service events).group =
      w.group.runMoves cfg.toBusConfig service
        (w.moves cfg service events) :=
  foldl_record Workers.group (fun _ _ => rfl) events w

theorem run_append
    (w : Workers σ μ κ)
    (first second : List (WorkerEvent μ)) :
    w.run cfg service (first ++ second) =
      (w.run cfg service first).run cfg service second :=
  List.foldl_append

/- What is seen of a run in two parts. -/
theorem log_append
    (w : Workers σ μ κ)
    (first second : List (WorkerEvent μ)) :
    w.log cfg service (first ++ second) =
      w.log cfg service first ++
        (w.run cfg service first).log cfg service second := by
  unfold log
  rw [group_run]
  unfold moves Group.log
  rw [record_append, record_append]
  rfl

/- The event that begins a run is seen first. -/
theorem log_cons
    (w : Workers σ μ κ)
    (e : WorkerEvent μ)
    (events : List (WorkerEvent μ)) :
    w.log cfg service (e :: events) =
      w.group.log cfg.toBusConfig service
          (w.move cfg e).toList ++
        (w.step cfg service e).log cfg service events := by
  rw [← List.singleton_append, log_append]
  unfold log moves
  rw [record_cons, record_nil, List.append_nil]
  rfl

------------------------------------------------------------
-- Processes at rest
------------------------------------------------------------

/-
  A process that does not run, or is at the head of its loop,
  has dealt with all that its consumer has fetched.
-/
def Settled (w : Workers σ μ κ) : Prop :=
  ∀ name,
    ((w.process name).phase = .down ∨
        (w.process name).phase = .head) →
      w.group.idle name = true

theorem Settled.start
    (now : ℚ)
    (shared : σ) :
    Settled (Workers.start now shared : Workers σ μ κ) :=
  fun _ _ => rfl

/- An event about other processes leaves one as it is. -/
theorem process_step_of_ne
    (w : Workers σ μ κ)
    {e : WorkerEvent μ}
    {name : String}
    (hOther : ∀ other ∈ e.process, name ≠ other) :
    (w.step cfg service e).process name = w.process name := by
  cases e with
  | wait _ => rfl
  | publish _ => rfl
  | trim _ => rfl
  | start other _ =>
      exact Function.update_of_ne (hOther other rfl) _ _
  | stop other =>
      exact Function.update_of_ne (hOther other rfl) _ _
  | turn other _ =>
      exact Function.update_of_ne (hOther other rfl) _ _
  | fail other =>
      exact Function.update_of_ne (hOther other rfl) _ _
  | crash other =>
      exact Function.update_of_ne (hOther other rfl) _ _

/- What is done in an event is done by its process. -/
theorem consumer_of_move
    {w : Workers σ μ κ}
    {e : WorkerEvent μ}
    {move : Move μ}
    (hMove : w.move cfg e = some move)
    {name : String}
    (hName : name ∈ move.consumer) :
    name ∈ e.process := by
  cases e with
  | wait _ => cases hMove; cases hName
  | publish _ => cases hMove; cases hName
  | trim _ => cases hMove; cases hName
  | start _ _ => cases hMove
  | stop _ => cases hMove
  | turn other time =>
      have hTurned :
          (w.process other).Turned cfg w.group other
            ((w.process other).turn cfg w.group other time) :=
        (w.process other).turned time
      rw [hTurned.consumer hMove] at hName
      exact hName
  | fail _ => cases hMove; exact hName
  | crash _ => cases hMove; exact hName

theorem consumers_step_of_ne
    (w : Workers σ μ κ)
    {e : WorkerEvent μ}
    {name : String}
    (hOther : ∀ other ∈ e.process, name ≠ other) :
    (w.step cfg service e).group.consumers name =
      w.group.consumers name := by
  cases hMove : w.move cfg e with
  | none => simp [step, hMove]
  | some move =>
      have hMoveOther :
          ∀ other ∈ move.consumer, name ≠ other := by
        intro other hMem
        exact hOther other (consumer_of_move cfg hMove hMem)
      simp only [step, hMove, Option.toList_some,
        List.foldl_cons, List.foldl_nil]
      exact Group.consumers_step_of_ne _ _ _ hMoveOther

/- A consumer that has nothing is idle. -/
theorem idle_withConsumer
    (g : Group σ μ κ)
    (name : String) :
    (g.withConsumer name {}).idle name = true := by
  simp [Group.idle, Group.withConsumer]

/- A turn that ends at rest leaves an idle consumer. -/
theorem idle_of_turned
    {g : Group σ μ κ}
    {name : String}
    {p : Process}
    {outcome : Option (Move μ) × Process}
    (hTurned : p.Turned cfg g name outcome)
    (hBefore :
      p.phase = .down ∨ p.phase = .head →
        g.idle name = true)
    (hRest :
      outcome.2.phase = .down ∨ outcome.2.phase = .head) :
    (outcome.1.toList.foldl
        (Group.step cfg.toBusConfig service) g).idle name =
      true := by
  cases hTurned with
  | waits hPhase => exact hBefore (Or.inl hPhase)
  | works _ hPhase =>
      rcases hPhase with hReading | ⟨cursor, hReclaiming⟩
      · rcases hRest with hDown | hHead <;> simp_all
      · rcases hRest with hDown | hHead <;> simp_all
  | exits _ hPhase =>
      have hNone : (g.consumers name).task.isNone = true := by
        rcases hPhase with hHead | hNone
        · have hIdle := hBefore (Or.inr hHead)
          simp only [Group.idle, Bool.and_eq_true] at hIdle
          exact hIdle.2
        · exact hNone
      change (g.leave name).idle name = true
      rw [Group.leave, if_pos hNone]
      exact idle_withConsumer g name
  | dispatches hPhase =>
      rcases hPhase with hReading | ⟨cursor, hReclaiming⟩
      · rcases hRest with hDown | hHead <;> simp_all
      · rcases hRest with hDown | hHead <;> simp_all
  | reclaims cursor _ =>
      rcases hRest with hDown | hHead
      · cases hDown
      · cases hHead
  | reads _ _ =>
      rcases hRest with hDown | hHead
      · cases hDown
      · cases hHead
  | returns _ hIdle => exact hIdle

theorem Settled.step
    {w : Workers σ μ κ}
    (hSettled : Settled w)
    (e : WorkerEvent μ) :
    Settled (w.step cfg service e) := by
  intro name hRest
  by_cases hOther : ∀ other ∈ e.process, name ≠ other
  · rw [process_step_of_ne cfg service w hOther] at hRest
    have hIdle := hSettled name hRest
    unfold Group.idle at hIdle ⊢
    rw [consumers_step_of_ne cfg service w hOther]
    exact hIdle
  push Not at hOther
  rcases hOther with ⟨other, hProcess, rfl⟩
  cases e with
  | wait _ => cases hProcess
  | publish _ => cases hProcess
  | trim _ => cases hProcess
  | start other time =>
      cases hProcess
      apply hSettled name
      simp only [Workers.step, processAfter,
        Function.update_self] at hRest
      cases hPhase : (w.process name).phase with
      | down => exact Or.inl rfl
      | head => exact Or.inr rfl
      | reclaiming cursor =>
          simp [Process.started, hPhase] at hRest
      | reading =>
          simp [Process.started, hPhase] at hRest
  | stop other =>
      cases hProcess
      apply hSettled name
      simpa [Workers.step, processAfter] using hRest
  | turn other time =>
      cases hProcess
      apply
        idle_of_turned cfg service
          ((w.process name).turned time) (hSettled name)
      simpa [Workers.step, processAfter] using hRest
  | fail other =>
      cases hProcess
      simp only [Workers.step, processAfter,
        Function.update_self] at hRest
      change (w.group.fail name).idle name = true
      unfold Group.fail
      split
      · next hNone =>
          rw [hNone] at hRest
          exact hSettled name hRest
      · next hRunning =>
          rw [hRunning] at hRest
          have hIdle := hSettled name hRest
          simp [Group.idle, hRunning] at hIdle
      · exact idle_withConsumer w.group name
  | crash other =>
      cases hProcess
      exact idle_withConsumer w.group name

theorem Settled.run
    {w : Workers σ μ κ}
    (hSettled : Settled w)
    (events : List (WorkerEvent μ)) :
    Settled (w.run cfg service events) := by
  induction events generalizing w with
  | nil => exact hSettled
  | cons e events ih => exact ih (hSettled.step cfg service e)

------------------------------------------------------------
-- A reclaim
------------------------------------------------------------

/- The process is in the middle of a reclaim. -/
def InReclaim
    (w : Workers σ μ κ)
    (name : String) : Prop :=
  ∃ cursor, (w.process name).phase = .reclaiming cursor

/-
  In these events the process goes through one reclaim, from
  the head of its loop until no claim is left to make.
-/
structure Reclaims
    (w : Workers σ μ κ)
    (name : String)
    (events : List (WorkerEvent μ)) : Prop where
  begins : (w.process name).phase = .head
  inside :
    AllAlong (Workers.step cfg service)
      (fun w e => InReclaim (w.step cfg service e) name)
      w events
  ends :
    ((w.run cfg service events).process name).phase =
      .reclaiming none

/- The claims that are seen of an event on its own. -/
theorem calls_cons
    (w : Workers σ μ κ)
    (name : String)
    (e : WorkerEvent μ)
    (events : List (WorkerEvent μ)) :
    calls name (w.log cfg service (e :: events)) =
      calls name
          (w.group.log cfg.toBusConfig service
            (w.move cfg e).toList) ++
        calls name
          ((w.step cfg service e).log cfg service events) := by
  rw [log_cons]
  exact List.filterMap_append

/- The claims that are left to make of a reclaim. -/
def ClaimsLeft :
    Option ℕ → List (ℕ × Option ℕ) → Prop
  | some first, claims => Complete first claims
  | none, claims => claims = []

/-
  What an event in the middle of a reclaim is: the claim that
  was next, after which another may be, or none at all.
-/
def ClaimsNext
    (name : String)
    (cursor : Option ℕ)
    (phase : Phase)
    (log : List (Note μ)) : Prop :=
  (∃ first next,
      cursor = some first ∧
        phase = .reclaiming next ∧
          calls name log = [(first, next)]) ∨
    phase = .reclaiming cursor ∧ calls name log = []

theorem claimsNext_of_turned
    {g : Group σ μ κ}
    {name : String}
    {p : Process}
    {outcome : Option (Move μ) × Process}
    (hTurned : p.Turned cfg g name outcome)
    (hBefore : p.phase = .head → g.idle name = true)
    {cursor : Option ℕ}
    (hPhase :
      p.phase = .reclaiming cursor ∨
        p.phase = .head ∧ cursor = some 0)
    (hInside : ∃ other, outcome.2.phase = .reclaiming other) :
    ClaimsNext name cursor outcome.2.phase
      (g.log cfg.toBusConfig service outcome.1.toList) := by
  rcases hInside with ⟨other, hOther⟩
  cases hTurned with
  | waits hDown =>
      rw [hDown] at hOther
      cases hOther
  | works hTask hBusy =>
      refine Or.inr ⟨?_, ?_⟩
      · rcases hPhase with hReclaiming | ⟨hHead, _⟩
        · exact hReclaiming
        · rw [hHead] at hOther
          cases hOther
      · exact calls_log_of_ne _ _ _ (by intro c hEq; cases hEq)
  | exits _ _ => cases hOther
  | dispatches hBusy =>
      refine Or.inr ⟨?_, ?_⟩
      · rcases hPhase with hReclaiming | ⟨hHead, _⟩
        · exact hReclaiming
        · change p.phase = .reclaiming other at hOther
          rw [hHead] at hOther
          cases hOther
      · exact calls_log_of_ne _ _ _ (by intro c hEq; cases hEq)
  | reclaims first hFrom =>
      left
      refine ⟨first, g.nextCursor cfg.toBusConfig first, ?_⟩
      rcases hFrom with
        ⟨hHead, rfl⟩ | ⟨hReclaiming, hIdle⟩
      · refine ⟨?_, rfl, ?_⟩
        · rcases hPhase with hReclaiming | ⟨_, hCursor⟩
          · rw [hHead] at hReclaiming
            cases hReclaiming
          · exact hCursor
        · exact calls_log_reclaim _ _ _ (hBefore hHead) _
      · refine ⟨?_, rfl, ?_⟩
        · rcases hPhase with hSame | ⟨hHead, _⟩
          · rw [hReclaiming] at hSame
            cases hSame
            rfl
          · rw [hReclaiming] at hHead
            cases hHead
        · exact calls_log_reclaim _ _ _ hIdle _
  | reads _ _ => cases hOther
  | returns _ _ => cases hOther

/- An event that is about something else makes no claim. -/
theorem claimsNext_of_same
    {w : Workers σ μ κ}
    {name : String}
    {e : WorkerEvent μ}
    {cursor : Option ℕ}
    (hPhase :
      (w.process name).phase = .reclaiming cursor ∨
        (w.process name).phase = .head ∧ cursor = some 0)
    (hInside : InReclaim (w.step cfg service e) name)
    (hSame :
      ((w.step cfg service e).process name).phase =
        (w.process name).phase)
    (hMove :
      ∀ from_, w.move cfg e ≠ some (.reclaim name from_)) :
    ClaimsNext name cursor
      ((w.step cfg service e).process name).phase
      (w.group.log cfg.toBusConfig service
        (w.move cfg e).toList) := by
  refine Or.inr ⟨?_, ?_⟩
  · rcases hPhase with hReclaiming | ⟨hHead, _⟩
    · rw [hSame, hReclaiming]
    · rcases hInside with ⟨other, hOther⟩
      rw [hSame, hHead] at hOther
      cases hOther
  · cases hNone : w.move cfg e with
    | none => rfl
    | some move =>
        apply calls_log_of_ne
        intro from_ hEq
        rw [hEq] at hNone
        exact hMove from_ hNone

theorem claimsNext_of_inReclaim
    {w : Workers σ μ κ}
    (hSettled : Settled w)
    {name : String}
    {e : WorkerEvent μ}
    {cursor : Option ℕ}
    (hPhase :
      (w.process name).phase = .reclaiming cursor ∨
        (w.process name).phase = .head ∧ cursor = some 0)
    (hInside : InReclaim (w.step cfg service e) name) :
    ClaimsNext name cursor
      ((w.step cfg service e).process name).phase
      (w.group.log cfg.toBusConfig service
        (w.move cfg e).toList) := by
  by_cases hOther : ∀ other ∈ e.process, name ≠ other
  · apply claimsNext_of_same cfg service hPhase hInside
    · rw [process_step_of_ne cfg service w hOther]
    · intro from_ hMove
      exact
        hOther name (consumer_of_move cfg hMove rfl) rfl
  push Not at hOther
  rcases hOther with ⟨other, hProcess, rfl⟩
  cases e with
  | wait _ => cases hProcess
  | publish _ => cases hProcess
  | trim _ => cases hProcess
  | start other time =>
      cases hProcess
      apply claimsNext_of_same cfg service hPhase hInside
      · rcases hPhase with hReclaiming | ⟨hHead, _⟩
        · simp [Workers.step, processAfter, Process.started,
            hReclaiming]
        · simp [Workers.step, processAfter, Process.started,
            hHead]
      · intro from_ hMove
        cases hMove
  | stop other =>
      cases hProcess
      apply claimsNext_of_same cfg service hPhase hInside
      · simp [Workers.step, processAfter]
      · intro from_ hMove
        cases hMove
  | turn other time =>
      cases hProcess
      have hTurned :
          (w.process name).Turned cfg w.group name
            ((w.process name).turn cfg w.group name time) :=
        (w.process name).turned time
      have hAfter :
          (w.step cfg service (.turn name time)).process name =
            ((w.process name).turn cfg w.group name time).2 :=
        Function.update_self _ _ _
      unfold InReclaim at hInside
      rw [hAfter] at hInside ⊢
      exact
        claimsNext_of_turned cfg service hTurned
          (fun hHead => hSettled name (Or.inr hHead)) hPhase
          hInside
  | fail other =>
      cases hProcess
      apply claimsNext_of_same cfg service hPhase hInside
      · rcases hInside with ⟨other, hOther⟩
        simp only [Workers.step, processAfter,
          Function.update_self] at hOther ⊢
        unfold Process.failed at hOther ⊢
        split at hOther
        · cases hOther
        · next hTask => rfl
      · intro from_ hMove
        cases hMove
  | crash other =>
      cases hProcess
      rcases hInside with ⟨other, hOther⟩
      simp [Workers.step, processAfter] at hOther

theorem complete_of_inside
    {w : Workers σ μ κ}
    (hSettled : Settled w)
    {name : String}
    {events : List (WorkerEvent μ)}
    {cursor : Option ℕ}
    (hPhase :
      (w.process name).phase = .reclaiming cursor ∨
        (w.process name).phase = .head ∧ cursor = some 0)
    (hInside :
      AllAlong (Workers.step cfg service)
        (fun w e => InReclaim (w.step cfg service e) name)
        w events)
    (hEnds :
      ((w.run cfg service events).process name).phase =
        .reclaiming none) :
    ClaimsLeft cursor
      (calls name (w.log cfg service events)) := by
  induction events generalizing w cursor with
  | nil =>
      have hEnd :
          (w.process name).phase = .reclaiming none := hEnds
      rcases hPhase with hReclaiming | ⟨hHead, _⟩
      · rw [hReclaiming] at hEnd
        cases hEnd
        rfl
      · rw [hHead] at hEnd
        cases hEnd
  | cons e events ih =>
      rcases hInside with ⟨hFirst, hRest⟩
      have hNext := hSettled.step cfg service e
      rw [calls_cons]
      rcases claimsNext_of_inReclaim cfg service hSettled
          hPhase hFirst with
        ⟨first, next, rfl, hClaimed, hCall⟩ |
          ⟨hSame, hNone⟩
      · have hLater :=
          ih hNext (Or.inl hClaimed) hRest hEnds
        rw [hCall]
        cases next with
        | none => exact ⟨rfl, hLater⟩
        | some next => exact ⟨rfl, hLater⟩
      · have hLater := ih hNext (Or.inl hSame) hRest hEnds
        rw [hNone]
        exact hLater

/-
  The claims of a process that goes through a reclaim are
  those of one reclaim.
-/
theorem Reclaims.complete
    {w : Workers σ μ κ}
    (hSettled : Settled w)
    {name : String}
    {events : List (WorkerEvent μ)}
    (hReclaims : Reclaims cfg service w name events) :
    Complete 0 (calls name (w.log cfg service events)) :=
  complete_of_inside cfg service hSettled
    (Or.inr ⟨hReclaims.begins, rfl⟩) hReclaims.inside
    hReclaims.ends

end Workers

------------------------------------------------------------
-- At least once
------------------------------------------------------------

variable (cfg : ConsumerConfig)
variable (service : Service σ μ κ)

/-
  In a run of processes, a message is acknowledged after a
  handler that was called on it has returned; one that was
  delivered and not acknowledged is pending, if it was not
  trimmed; and once it has been pending for long enough, it is
  offered again while any process goes through a reclaim.
-/
structure AtLeastOnce
    (w : Workers σ μ κ)
    (events : List (WorkerEvent μ)) : Prop where
  acked :
    (w.log cfg service events).EachAfter (fun before note =>
      ∀ name id,
        note = .acked name id →
          Handled (w.run cfg service events).group.stream
            before name id)
  pending :
    ∀ id,
      Delivered (w.log cfg service events) id →
        ¬ Acked (w.log cfg service events) id →
          (w.run cfg service events).group.trimmed ≤ id →
            id ∈ (w.run cfg service events).group.pendingIds
  offered :
    ∀ id name more,
      Delivered (w.log cfg service events) id →
        (∀ p ∈ (w.run cfg service events).group.pending,
          p.id = id →
            cfg.minIdleMs ≤
              (w.run cfg service events).group.now -
                p.deliveredAt) →
          Workers.Reclaims cfg service
              (w.run cfg service events) name more →
            ¬ Acked (w.log cfg service (events ++ more)) id →
              (w.run cfg service
                  (events ++ more)).group.trimmed ≤ id →
                Offered
                  ((w.run cfg service events).log cfg service
                    more)
                  id

/- A delivered message that was not acknowledged is pending. -/
theorem Kept.mem_pendingIds
    {log : List (Note μ)}
    {g : Group σ μ κ}
    (hKept : Kept log g)
    {id : ℕ}
    (hDelivered : Delivered log id)
    (hNot : ¬ Acked log id)
    (hTrimmed : g.trimmed ≤ id) :
    id ∈ g.pendingIds := by
  rcases hKept id hDelivered with hAcked | hGone | hStays
  · exact absurd hAcked hNot
  · exact absurd hGone (Nat.not_lt.mpr hTrimmed)
  · exact hStays

/- What is trimmed in a run was trimmed after it. -/
theorem Workers.trimmed_run
    (w : Workers σ μ κ)
    (events : List (WorkerEvent μ)) :
    w.group.trimmed ≤
      (w.run cfg service events).group.trimmed := by
  rw [Workers.group_run]
  exact (Group.later_runMoves _ _ _ _).trimmed

theorem atLeastOnce_of_invariants
    {w : Workers σ μ κ}
    {events : List (WorkerEvent μ)}
    (hSettled : Workers.Settled (w.run cfg service events))
    (hEarned :
      Earned (w.log cfg service events)
        (w.run cfg service events).group)
    (hKept :
      Kept (w.log cfg service events)
        (w.run cfg service events).group)
    (hOrdered : Ordered (w.run cfg service events).group) :
    AtLeastOnce cfg service w events := by
  refine
    { acked := hEarned.acked
      pending := fun _ => hKept.mem_pendingIds
      offered := ?_ }
  intro id name more hDelivered hIdle hReclaims hNot hTrimmed
  rw [Workers.log_append] at hNot
  rw [Workers.run_append] at hTrimmed
  have hBefore :
      (w.run cfg service events).group.trimmed ≤ id :=
    Nat.le_trans (Workers.trimmed_run cfg service _ more)
      hTrimmed
  have hStays :=
    hKept.mem_pendingIds hDelivered
      (fun hAcked => hNot (hAcked.mono_left _)) hBefore
  rcases List.mem_map.mp hStays with ⟨p, hMem, rfl⟩
  rw [Workers.group_run] at hTrimmed
  rcases offered_of_complete cfg.toBusConfig service hOrdered
      hMem (Nat.zero_le _) (hIdle p hMem rfl)
      (hReclaims.complete cfg service hSettled) with
    hOffered | hAcked | hGone
  · exact hOffered
  · exact absurd (hAcked.mono_right _) hNot
  · exact absurd hGone (Nat.not_lt.mpr hTrimmed)

/- What every run keeps of the messages, from its beginning. -/
theorem log_invariant
    (now : ℚ)
    (shared : σ)
    (events : List (WorkerEvent μ)) :
    Earned
        ((Workers.start now shared).log cfg service events)
        ((Workers.start now shared).run cfg service
          events).group ∧
      Kept
          ((Workers.start now shared).log cfg service events)
          ((Workers.start now shared).run cfg service
            events).group ∧
        Ordered
          ((Workers.start now shared).run cfg service
            events).group := by
  rw [Workers.group_run]
  exact
    record_invariant
      (fun log g => Earned log g ∧ Kept log g ∧ Ordered g)
      (fun _ _ move hInv =>
        ⟨hInv.1.step cfg.toBusConfig service move,
          hInv.2.1.step cfg.toBusConfig service move,
          hInv.2.2.step cfg.toBusConfig service move⟩)
      ⟨Earned.start now shared, Kept.start now shared,
        Ordered.start now shared⟩
      _

/- Messages are handled at least once, in every run. -/
theorem runConsumer_atLeastOnce
    (now : ℚ)
    (shared : σ)
    (events : List (WorkerEvent μ)) :
    AtLeastOnce cfg service (Workers.start now shared)
      events := by
  rcases log_invariant cfg service now shared events with
    ⟨hEarned, hKept, hOrdered⟩
  exact
    atLeastOnce_of_invariants cfg service
      ((Workers.Settled.start now shared).run cfg service
        events)
      hEarned hKept hOrdered

/-
  A message whose consumer crashes in the middle of it is
  offered to the next consumer that reclaims.
-/
example :
    (Workers.start 0 () : Workers Unit ℕ Unit).log {}
        { start := fun _ => ()
          effect := fun _ _ => (.returned, ()) }
        [.publish 7, .start "a" 0, .turn "a" 0, .turn "a" 0,
          .turn "a" 0, .crash "a", .wait 60000,
          .start "b" 0, .turn "b" 0] =
      [.reclaimed "a" 0 [] none, .read "a" [0],
        .called "a" 0 7, .reclaimed "b" 0 [0] none] := by
  decide +kernel

end Bus

end Nidra
