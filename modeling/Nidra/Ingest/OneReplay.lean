import Nidra.Common.Holding
import Nidra.Ingest.ReplayOrder

/-
  This file states when a job is replayed once: no two
  consumers handle its message at a time, and a job that is
  complete has published each of its events once. It is so in
  every run in which no consumer claims a message that another
  one holds, and no handler is lost after it has published.

  Key definitions include:
    * `ingestService`
    * `publishedOf`, `Completes`, `Completed`
    * `OneReplay`
    * `Uninterrupted`
    * `Replaying`

  Main declarations:
    * `Replaying.step`
    * `oneReplay_of_uninterrupted`
-/

namespace Nidra

namespace Ingest

open Bus

variable {ι : Type}
variable [DecidableEq ι]

------------------------------------------------------------
-- The service
------------------------------------------------------------

/- What is left to do for a job. -/
structure JobTask where
  jobId : String
  rest : List Action
  raised : Option Raised

/- What the handlers of all jobs did, in the order it was. -/
abbrev JobLog := List (String × Action)

/- A handler does the actions of its job one by one. -/
def jobEffect
    (task : JobTask)
    (log : JobLog) : Progress JobTask × JobLog :=
  match task.rest with
  | action :: rest =>
      (.going { task with rest := rest },
        log ++ [(task.jobId, action)])
  | [] =>
      match task.raised with
      | none => (.returned, log)
      | some _ => (.raised, log)

/- The consumers of the jobs. -/
def ingestService
    (pd : Pandas) : Service JobLog (IngestJob ι) JobTask :=
  { start := fun job =>
      { jobId := job.jobId
        rest := (runJob pd job).actions
        raised := (runJob pd job).raised }
    effect := jobEffect }

------------------------------------------------------------
-- What was published for a job
------------------------------------------------------------

/- The action of an entry of a job. -/
def actionOf
    (jobId : String)
    (entry : String × Action) : Option Action :=
  if entry.1 = jobId then some entry.2 else none

/- The events published for a job, in their order. -/
def publishedOf
    (log : JobLog)
    (jobId : String) : List (RawEvent ℚ) :=
  publishedEvents (log.filterMap (actionOf jobId))

/- The events of the upload of a job. -/
def jobEvents
    (pd : Pandas)
    (job : IngestJob ι) : List (RawEvent ℚ) :=
  publishedEvents (runJob pd job).actions

def isComplete : Action → Bool
  | .reported .complete _ _ _ => true
  | .reported .running _ _ _ => false
  | .reported .error _ _ _ => false
  | .warned _ _ => false
  | .waited _ => false
  | .published _ => false

/- A job whose handler succeeds if it is let to the end. -/
def Completes
    (pd : Pandas)
    (job : IngestJob ι) : Prop :=
  ∃ action ∈ (runJob pd job).actions, isComplete action = true

/- A job whose handler has succeeded. -/
def Completed
    (log : JobLog)
    (jobId : String) : Prop :=
  ∃ action,
    (jobId, action) ∈ log ∧ isComplete action = true

theorem completed_of_any
    {log : JobLog}
    {jobId : String}
    (hAny :
      log.any (fun entry =>
        entry.1 = jobId && isComplete entry.2) = true) :
    Completed log jobId := by
  rcases List.any_eq_true.mp hAny with ⟨entry, hMem, hBoth⟩
  rw [Bool.and_eq_true, decide_eq_true_eq] at hBoth
  rcases hBoth with ⟨rfl, hComplete⟩
  exact ⟨entry.2, hMem, hComplete⟩

theorem publishedOf_self
    (log : JobLog)
    (jobId : String)
    (action : Action) :
    publishedOf (log ++ [(jobId, action)]) jobId =
      publishedOf log jobId ++ publishedEvents [action] := by
  simp [publishedOf, actionOf]

theorem publishedOf_other
    (log : JobLog)
    {jobId other : String}
    (action : Action)
    (hNe : other ≠ jobId) :
    publishedOf (log ++ [(other, action)]) jobId =
      publishedOf log jobId := by
  simp [publishedOf, actionOf, hNe]

/- Nothing is published for a job that the log does not name. -/
theorem publishedOf_eq_nil
    {log : JobLog}
    {jobId : String}
    (hUnknown : ∀ entry ∈ log, entry.1 ≠ jobId) :
    publishedOf log jobId = [] := by
  have hNone : log.filterMap (actionOf jobId) = [] := by
    rw [List.filterMap_eq_nil_iff]
    intro entry hMem
    simp [actionOf, hUnknown entry hMem]
  unfold publishedOf
  rw [hNone]
  rfl

theorem publishedOf_of_quiet
    {log : JobLog}
    (hQuiet :
      log.all (fun entry =>
        (publishedEvent entry.2).isNone) = true)
    (jobId : String) :
    publishedOf log jobId = [] := by
  unfold publishedOf publishedEvents
  rw [List.filterMap_eq_nil_iff]
  intro action hMem
  rcases List.mem_filterMap.mp hMem with
    ⟨entry, hEntry, hAction⟩
  have hNone := List.all_eq_true.mp hQuiet entry hEntry
  unfold actionOf at hAction
  split at hAction
  · cases hAction
    exact Option.isNone_iff_eq_none.mp hNone
  · cases hAction

------------------------------------------------------------
-- The report of success comes last
------------------------------------------------------------

theorem replayEvents_incomplete
    (lastTs : Option ℚ)
    (events : List (RawEvent ℚ)) :
    ∀ action ∈ replayEvents lastTs events,
      isComplete action = false := by
  induction events generalizing lastTs with
  | nil => simp [replayEvents]
  | cons event rest ih =>
      intro action hMem
      unfold replayEvents at hMem
      rcases List.mem_append.mp hMem with hEvent | hRest
      · by_cases hEarlier :
            ∃ last, lastTs = some last ∧ event.ts < last
        · rcases hEarlier with ⟨last, rfl, hLt⟩
          rw [replayEvent_of_earlier hLt] at hEvent
          simp only [List.mem_cons, List.not_mem_nil,
            or_false] at hEvent
          rcases hEvent with rfl | rfl | rfl <;> rfl
        · rw [replayEvent_of_latest hEarlier] at hEvent
          simp only [List.mem_cons, List.not_mem_nil,
            or_false] at hEvent
          rcases hEvent with rfl | rfl <;> rfl
      · exact ih _ action hRest

theorem replay_incomplete
    (total : ℕ)
    (lastTs : Option ℚ)
    (published : ℕ)
    (chunks : List (List (RawEvent ℚ))) :
    ∀ action ∈ replay total lastTs published chunks,
      isComplete action = false := by
  induction chunks generalizing lastTs published with
  | nil => simp [replay]
  | cons chunk rest ih =>
      intro action hMem
      unfold replay at hMem
      rcases List.mem_append.mp hMem with hChunk | hMore
      · exact replayEvents_incomplete _ _ action hChunk
      · rcases List.mem_cons.mp hMore with rfl | hRest
        · rfl
        · exact ih _ _ action hRest

/- A successful end is one report, and returns. -/
theorem ending_complete
    {processed total : ℕ}
    {raised : Option Raised}
    {action : Action}
    (hMem : action ∈ (ending processed total raised).actions)
    (hComplete : isComplete action = true) :
    (ending processed total raised).actions = [action] ∧
      (ending processed total raised).raised = none := by
  cases raised with
  | none =>
      rw [List.mem_singleton.mp hMem]
      exact ⟨rfl, rfl⟩
  | some error =>
      cases error with
      | ingestError message =>
          rw [List.mem_singleton.mp hMem] at hComplete
          cases hComplete
      | valueError => cases hMem
      | typeError => cases hMem
      | overflowError => cases hMem
      | osError => cases hMem
      | validationError => cases hMem

theorem replayReading_complete_last
    {total : ℕ}
    {reading : Reading}
    {before after : List Action}
    {action : Action}
    (hSplit :
      (replayReading total reading).actions =
        before ++ action :: after)
    (hComplete : isComplete action = true) :
    after = [] ∧ (replayReading total reading).raised = none := by
  have hFront :
      ∀ other ∈
          Action.reported .running 0 total "" ::
            replay total none 0 reading.chunks,
        isComplete other = false := by
    intro other hMem
    rcases List.mem_cons.mp hMem with rfl | hReplay
    · rfl
    · exact replay_incomplete _ _ _ _ other hReplay
  have hLast :
      ∀ start,
        (ending (eventCount reading.chunks) total
            reading.raised).actions =
            start ++ action :: after →
          after = [] ∧
            (replayReading total reading).raised = none := by
    intro start hEnding
    have hMem :
        action ∈
          (ending (eventCount reading.chunks) total
            reading.raised).actions := by
      rw [hEnding]
      simp
    rcases ending_complete hMem hComplete with
      ⟨hOnly, hReturns⟩
    rw [hOnly] at hEnding
    refine ⟨?_, hReturns⟩
    cases start with
    | nil => cases hEnding; rfl
    | cons first start => simp at hEnding
  rcases List.append_eq_append_iff.mp hSplit with
    ⟨start, _, hEnding⟩ | ⟨rest, hBefore, hRest⟩
  · exact hLast start hEnding
  · cases rest with
    | nil => exact hLast [] hRest.symm
    | cons first rest =>
        rw [List.cons_append, List.cons.injEq] at hRest
        rcases hRest with ⟨rfl, _⟩
        have hNot := hFront action (by rw [hBefore]; simp)
        rw [hNot] at hComplete
        cases hComplete

/-
  A job does nothing after its report of success, and its
  handler returns.
-/
theorem complete_last
    {pd : Pandas}
    {job : IngestJob ι}
    {before after : List Action}
    {action : Action}
    (hSplit :
      (runJob pd job).actions = before ++ action :: after)
    (hComplete : isComplete action = true) :
    after = [] ∧ (runJob pd job).raised = none := by
  unfold runJob at hSplit ⊢
  cases hUpload : job.upload with
  | none =>
      rw [hUpload] at hSplit
      have hMem :
          action ∈ before ++ action :: after := by simp
      rw [← hSplit] at hMem
      rw [List.mem_singleton.mp hMem] at hComplete
      cases hComplete
  | some upload =>
      rw [hUpload] at hSplit
      exact replayReading_complete_last hSplit hComplete

theorem Completes.returns
    {pd : Pandas}
    {job : IngestJob ι}
    (hCompletes : Completes pd job) :
    (runJob pd job).raised = none := by
  rcases hCompletes with ⟨action, hMem, hComplete⟩
  rcases List.append_of_mem hMem with ⟨before, after, hSplit⟩
  exact (complete_last hSplit hComplete).2

------------------------------------------------------------
-- One replay
------------------------------------------------------------

/- The consumers of the jobs with their streams and log. -/
abbrev Replicas (ι : Type) :=
  Group JobLog (IngestJob ι) JobTask

/-
  No two consumers handle a message at a time, and a job that
  has succeeded has published its events, each once.
-/
structure OneReplay
    (pd : Pandas)
    (g : Replicas ι) : Prop where
  alone :
    ∀ name other id task task',
      (g.consumers name).task = some (id, task) →
        (g.consumers other).task = some (id, task') →
          name = other
  once :
    ∀ job ∈ g.stream,
      Completed g.shared job.jobId →
        publishedOf g.shared job.jobId = jobEvents pd job

/-
  What a consumer has in hand is not lost once something was
  published for it, if its handler can succeed.
-/
def LosesNothing
    (pd : Pandas)
    (g : Replicas ι)
    (name : String) : Prop :=
  ∀ id task job,
    (g.consumers name).task = some (id, task) →
      g.stream[id]? = some job →
        Completes pd job →
          publishedOf g.shared job.jobId = []

/- Jobs have identifiers of their own. -/
def FreshJob
    (g : Replicas ι)
    (job : IngestJob ι) : Prop :=
  ∀ other ∈ g.stream, other.jobId ≠ job.jobId

/-
  A claim takes no message that a consumer holds, no handler
  is lost after it has published, and every job is a new one.
-/
def Uninterrupted
    (pd : Pandas)
    (cfg : BusConfig)
    (g : Replicas ι)
    (move : Move (IngestJob ι)) : Prop :=
  ClaimsFree cfg g move ∧
    match move with
    | .publish job => FreshJob g job
    | .fail name => LosesNothing pd g name
    | .crash name => LosesNothing pd g name
    | _ => True

------------------------------------------------------------
-- The invariant
------------------------------------------------------------

/-
  How the log of a job stands to what is left of its handler:
  what was published is what the handler has done.
-/
def InHand
    (pd : Pandas)
    (log : JobLog)
    (job : IngestJob ι) : Handling JobTask → Prop
  | .running task =>
      task.jobId = job.jobId ∧
        task.raised = (runJob pd job).raised ∧
        ∃ done,
          (runJob pd job).actions = done ++ task.rest ∧
            (Completes pd job →
              publishedOf log job.jobId =
                publishedEvents done)
  | .returned =>
      Completes pd job →
        publishedOf log job.jobId = jobEvents pd job

/-
  A message that nobody has in hand: nothing was published
  for it, or everything, and then it is never delivered again.
-/
def AtRest
    (pd : Pandas)
    (g : Replicas ι)
    (id : ℕ)
    (job : IngestJob ι) : Prop :=
  publishedOf g.shared job.jobId = [] ∨
    publishedOf g.shared job.jobId = jobEvents pd job ∧
      id < g.delivered ∧ id ∉ g.pendingIds

/- No consumer has a message in hand. -/
def Unhandled
    (g : Replicas ι)
    (id : ℕ) : Prop :=
  ∀ name task, (g.consumers name).task ≠ some (id, task)

structure Replaying
    (pd : Pandas)
    (g : Replicas ι) : Prop where
  holding : Holding g
  known :
    ∀ entry ∈ g.shared, ∃ job ∈ g.stream, job.jobId = entry.1
  distinct : (g.stream.map IngestJob.jobId).Nodup
  inHand :
    ∀ name id task,
      (g.consumers name).task = some (id, task) →
        ∃ job,
          g.stream[id]? = some job ∧
            InHand pd g.shared job task
  atRest :
    ∀ id job,
      g.stream[id]? = some job →
        Completes pd job → Unhandled g id → AtRest pd g id job
  completed :
    ∀ job ∈ g.stream,
      Completed g.shared job.jobId →
        Completes pd job ∧
          publishedOf g.shared job.jobId = jobEvents pd job

theorem Replaying.start
    (pd : Pandas)
    (now : ℚ) :
    Replaying pd (Group.start now [] : Replicas ι) :=
  { holding := Holding.start now []
    known := by
      intro entry hMem
      simp [Group.start] at hMem
    distinct := List.nodup_nil
    inHand := by
      intro name id task hTask
      simp [Group.start] at hTask
    atRest := by
      intro id job hJob
      simp [Group.start] at hJob
    completed := by
      intro job hMem
      simp [Group.start] at hMem }

/- Places in the stream with one job identifier are one. -/
theorem Replaying.eq_of_jobId
    {pd : Pandas}
    {g : Replicas ι}
    (hReplaying : Replaying pd g)
    {i j : ℕ}
    {job other : IngestJob ι}
    (hJob : g.stream[i]? = some job)
    (hOther : g.stream[j]? = some other)
    (hEq : job.jobId = other.jobId) :
    i = j := by
  have hJob' :
      (g.stream.map IngestJob.jobId)[i]? =
        some job.jobId := by
    rw [List.getElem?_map, hJob, Option.map_some]
  have hOther' :
      (g.stream.map IngestJob.jobId)[j]? =
        some job.jobId := by
    rw [List.getElem?_map, hOther, Option.map_some, hEq]
  have hBound : i < (g.stream.map IngestJob.jobId).length := by
    rcases List.getElem?_eq_some_iff.mp hJob' with ⟨hLt, _⟩
    exact hLt
  exact
    (List.getElem?_inj hBound hReplaying.distinct).mp
      (hJob'.trans hOther'.symm)

------------------------------------------------------------
-- Moves that do no work
------------------------------------------------------------

/-
  Nothing changes while the consumers have the same in hand,
  and what is dealt with stays so.
-/
theorem Replaying.quiet
    {pd : Pandas}
    {g g' : Replicas ι}
    (hReplaying : Replaying pd g)
    (hHolding : Holding g')
    (hShared : g'.shared = g.shared)
    (hStream : g'.stream = g.stream)
    (hTasks :
      ∀ name,
        (g'.consumers name).task = (g.consumers name).task)
    (hDone :
      ∀ id,
        id < g.delivered → id ∉ g.pendingIds →
          id < g'.delivered ∧ id ∉ g'.pendingIds) :
    Replaying pd g' := by
  refine
    { holding := hHolding
      known := by
        rw [hShared, hStream]
        exact hReplaying.known
      distinct := by
        rw [hStream]
        exact hReplaying.distinct
      inHand := ?_
      atRest := ?_
      completed := by
        rw [hShared, hStream]
        exact hReplaying.completed }
  · intro name id task hTask
    rw [hTasks] at hTask
    rw [hShared, hStream]
    exact hReplaying.inHand name id task hTask
  · intro id job hJob hCompletes hUnhandled
    rw [hStream] at hJob
    have hBefore : Unhandled g id := by
      intro name task hTask
      exact hUnhandled name task ((hTasks name).trans hTask)
    unfold AtRest
    rw [hShared]
    rcases hReplaying.atRest id job hJob hCompletes hBefore with
      hNothing | ⟨hAll, hDelivered, hGone⟩
    · exact Or.inl hNothing
    · exact Or.inr ⟨hAll, hDone id hDelivered hGone⟩

omit [DecidableEq ι] in
/- A consumer that fetches had nothing in hand. -/
theorem task_of_idle
    {g : Replicas ι}
    {name : String}
    (hIdle : g.idle name = true)
    (batch : List ℕ)
    (other : String) :
    ((Function.update g.consumers name
        { batch := batch }) other).task =
      (g.consumers other).task := by
  by_cases hEq : other = name
  · subst hEq
    unfold Group.idle at hIdle
    rw [Bool.and_eq_true, Option.isNone_iff_eq_none] at hIdle
    simp [hIdle.2]
  · rw [Function.update_of_ne hEq]

theorem Replaying.read
    {pd : Pandas}
    {g : Replicas ι}
    (hReplaying : Replaying pd g)
    (cfg : BusConfig)
    (name : String) :
    Replaying pd (g.read cfg name) := by
  have hHolding := hReplaying.holding.read cfg name
  unfold Group.read at hHolding ⊢
  split
  · next hIdle =>
      rw [if_pos hIdle] at hHolding
      apply hReplaying.quiet hHolding rfl rfl
        (task_of_idle hIdle _)
      intro id hDelivered hGone
      constructor
      · change id < g.nextId + (g.unread cfg).length
        unfold Group.nextId
        omega
      · change id ∉ List.map Pending.id _
        intro hMem
        rw [List.map_append, List.mem_append] at hMem
        rcases hMem with hOld | hNew
        · exact hGone hOld
        · have hUnread : id ∈ g.unread cfg := by
            simpa using hNew
          have hLow := (le_of_mem_unread hUnread).1
          unfold Group.nextId at hLow
          omega
  · exact hReplaying

theorem Replaying.reclaim
    {pd : Pandas}
    {g : Replicas ι}
    (hReplaying : Replaying pd g)
    (cfg : BusConfig)
    (name : String)
    (cursor : ℕ)
    (hFree :
      ∀ id ∈ g.claimable cfg cursor,
        ∀ holder, id ∉ (g.consumers holder).held) :
    Replaying pd (g.reclaim cfg name cursor) := by
  have hHolding :=
    hReplaying.holding.reclaim cfg name cursor hFree
  unfold Group.reclaim at hHolding ⊢
  split
  · next hIdle =>
      rw [if_pos hIdle] at hHolding
      apply hReplaying.quiet hHolding rfl rfl
        (task_of_idle hIdle _)
      intro id hDelivered hGone
      refine ⟨hDelivered, ?_⟩
      change id ∉ List.map Pending.id _
      rw [pendingIds_reclaimed]
      intro hMem
      exact hGone ((List.filter_sublist.map _).subset hMem)
  · exact hReplaying

theorem Replaying.leave
    {pd : Pandas}
    {g : Replicas ι}
    (hReplaying : Replaying pd g)
    (name : String) :
    Replaying pd (g.leave name) := by
  have hHolding := hReplaying.holding.leave name
  unfold Group.leave at hHolding ⊢
  split
  · next hNone =>
      rw [if_pos hNone] at hHolding
      apply hReplaying.quiet hHolding rfl rfl _
        (fun _ hDelivered hGone => ⟨hDelivered, hGone⟩)
      intro other
      rw [Option.isNone_iff_eq_none] at hNone
      by_cases hEq : other = name
      · subst hEq
        simp [Group.withConsumer, hNone]
      · simp [Group.withConsumer, Function.update_of_ne hEq]
  · exact hReplaying

/- A new job has published nothing. -/
theorem Replaying.publish
    {pd : Pandas}
    {g : Replicas ι}
    (hReplaying : Replaying pd g)
    {job : IngestJob ι}
    (hFresh : FreshJob g job)
    (hHolding :
      Holding { g with stream := g.stream ++ [job] }) :
    Replaying pd { g with stream := g.stream ++ [job] } := by
  have hUnknown :
      ∀ entry ∈ g.shared, entry.1 ≠ job.jobId := by
    intro entry hMem hEq
    rcases hReplaying.known entry hMem with
      ⟨other, hOther, hId⟩
    exact hFresh other hOther (hId.trans hEq)
  refine
    { holding := hHolding
      known := ?_
      distinct := ?_
      inHand := ?_
      atRest := ?_
      completed := ?_ }
  · intro entry hMem
    rcases hReplaying.known entry hMem with
      ⟨other, hOther, hId⟩
    exact ⟨other, List.mem_append_left _ hOther, hId⟩
  · simp only [List.map_append, List.map_cons, List.map_nil]
    apply hReplaying.distinct.append (List.nodup_singleton _)
    intro jobId hOld hNew
    rw [List.mem_singleton] at hNew
    rcases List.mem_map.mp hOld with ⟨other, hOther, hId⟩
    exact hFresh other hOther (hId.trans hNew)
  · intro name id task hTask
    rcases hReplaying.inHand name id task hTask with
      ⟨other, hOther, hInHand⟩
    rcases List.getElem?_eq_some_iff.mp hOther with
      ⟨hLt, _⟩
    refine ⟨other, ?_, hInHand⟩
    rw [List.getElem?_append_left hLt]
    exact hOther
  · intro id other hOther hCompletes hUnhandled
    by_cases hLt : id < g.stream.length
    · rw [List.getElem?_append_left hLt] at hOther
      exact
        hReplaying.atRest id other hOther hCompletes
          hUnhandled
    · rw [List.getElem?_append_right (by omega)] at hOther
      rcases List.mem_of_getElem? hOther with _ | hNone
      · left
        exact publishedOf_eq_nil hUnknown
      · contradiction
  · intro other hMem hCompleted
    rcases List.mem_append.mp hMem with hOld | hNew
    · exact hReplaying.completed other hOld hCompleted
    · rw [List.mem_singleton] at hNew
      subst hNew
      rcases hCompleted with ⟨action, hEntry, _⟩
      exact absurd rfl (hUnknown _ hEntry)

------------------------------------------------------------
-- Moves that handle a message
------------------------------------------------------------

omit [DecidableEq ι] in
/- A message that a consumer has fetched is in no one's hand. -/
theorem unhandled_of_fetched
    {g : Replicas ι}
    (hHolding : Holding g)
    {name : String}
    {id : ℕ}
    (hNone : (g.consumers name).task = none)
    (hFetched : id ∈ (g.consumers name).batch) :
    Unhandled g id := by
  intro other task hTask
  have hHeld : id ∈ (g.consumers name).held := by
    simp [Consumer.held, hFetched]
  have hEq := hHolding.alone_of_task hTask hHeld
  subst hEq
  rw [hTask] at hNone
  cases hNone

/- A handler starts when nothing was published for its job. -/
theorem Replaying.dispatch
    {pd : Pandas}
    {g : Replicas ι}
    (hReplaying : Replaying pd g)
    (name : String) :
    Replaying pd (g.dispatch (ingestService pd) name) := by
  have hHolding :=
    hReplaying.holding.dispatch (ingestService pd) name
  unfold Group.dispatch at hHolding ⊢
  split
  · next id rest hTask hBatch =>
      simp only [hTask, hBatch] at hHolding
      have hFetched : id ∈ (g.consumers name).batch := by
        rw [hBatch]
        exact List.mem_cons_self
      have hUnhandled :=
        unhandled_of_fetched hReplaying.holding hTask hFetched
      have hPending : id ∈ g.pendingIds := by
        apply hReplaying.holding.pending name id
        simp [Consumer.held, hFetched]
      have hTasks :
          ∀ other, other ≠ name →
            ((g.withConsumer name
              { batch := rest
                task :=
                  g.stream[id]?.map (fun job =>
                    (id, .running
                      ((ingestService pd).start job))) }
              ).consumers other).task =
                (g.consumers other).task := by
        intro other hNe
        simp [Group.withConsumer, Function.update_of_ne hNe]
      refine
        { holding := hHolding
          known := hReplaying.known
          distinct := hReplaying.distinct
          inHand := ?_
          atRest := ?_
          completed := hReplaying.completed }
      · intro other id' task hOther
        by_cases hEq : other = name
        · subst hEq
          simp only [Group.withConsumer, Function.update_self,
            Option.map_eq_some_iff] at hOther
          rcases hOther with ⟨job, hJob, hStarted⟩
          cases hStarted
          refine ⟨job, hJob, rfl, rfl, [], rfl, ?_⟩
          intro hCompletes
          rcases hReplaying.atRest id job hJob hCompletes
              hUnhandled with hNothing | ⟨_, _, hGone⟩
          · exact hNothing
          · exact absurd hPending hGone
        · rw [hTasks other hEq] at hOther
          exact hReplaying.inHand other id' task hOther
      · intro id' job hJob hCompletes hRest
        apply hReplaying.atRest id' job hJob hCompletes
        intro other task hOther
        by_cases hEq : other = name
        · subst hEq
          rw [hTask] at hOther
          cases hOther
        · apply hRest other task
          rw [hTasks other hEq]
          exact hOther
  · exact hReplaying

/- A consumer lets go of what it has in hand. -/
theorem Replaying.drop
    {pd : Pandas}
    {g : Replicas ι}
    (hReplaying : Replaying pd g)
    {name : String}
    {batch : List ℕ}
    (hHolding :
      Holding (g.withConsumer name { batch := batch }))
    (hLoses :
      ∀ id task job,
        (g.consumers name).task = some (id, task) →
          g.stream[id]? = some job →
            Completes pd job → AtRest pd g id job) :
    Replaying pd (g.withConsumer name { batch := batch }) := by
  have hTasks :
      ∀ other, other ≠ name →
        ((g.withConsumer name { batch := batch }).consumers
          other).task = (g.consumers other).task := by
    intro other hNe
    simp [Group.withConsumer, Function.update_of_ne hNe]
  refine
    { holding := hHolding
      known := hReplaying.known
      distinct := hReplaying.distinct
      inHand := ?_
      atRest := ?_
      completed := hReplaying.completed }
  · intro other id task hOther
    by_cases hEq : other = name
    · subst hEq
      simp [Group.withConsumer] at hOther
    · rw [hTasks other hEq] at hOther
      exact hReplaying.inHand other id task hOther
  · intro id job hJob hCompletes hRest
    change AtRest pd g id job
    by_cases hMine :
        ∃ task, (g.consumers name).task = some (id, task)
    · rcases hMine with ⟨task, hTask⟩
      exact hLoses id task job hTask hJob hCompletes
    · apply hReplaying.atRest id job hJob hCompletes
      intro other task hOther
      by_cases hEq : other = name
      · subst hEq
        exact hMine ⟨task, hOther⟩
      · apply hRest other task
        rw [hTasks other hEq]
        exact hOther

/- A handler that is lost before it publishes is no loss. -/
theorem Replaying.lose
    {pd : Pandas}
    {g : Replicas ι}
    (hReplaying : Replaying pd g)
    {name : String}
    {batch : List ℕ}
    (hHolding :
      Holding (g.withConsumer name { batch := batch }))
    (hLoses : LosesNothing pd g name) :
    Replaying pd (g.withConsumer name { batch := batch }) := by
  apply hReplaying.drop hHolding
  intro id task job hTask hJob hCompletes
  exact Or.inl (hLoses id task job hTask hJob hCompletes)

theorem Replaying.fail
    {pd : Pandas}
    {g : Replicas ι}
    (hReplaying : Replaying pd g)
    (name : String)
    (hLoses : LosesNothing pd g name) :
    Replaying pd (g.fail name) := by
  unfold Group.fail
  split
  · exact hReplaying
  · exact
      hReplaying.lose (hReplaying.holding.release name) hLoses
  · exact
      hReplaying.lose (hReplaying.holding.dropped name) hLoses

/- An acknowledged job has published all its events. -/
theorem Replaying.acknowledge
    {pd : Pandas}
    {g : Replicas ι}
    (hReplaying : Replaying pd g)
    {name : String}
    {id : ℕ}
    (hTask :
      (g.consumers name).task = some (id, .returned)) :
    Replaying pd (g.acknowledge name id) := by
  have hHolding := hReplaying.holding.acknowledge hTask
  have hTasks :
      ∀ other, other ≠ name →
        ((g.acknowledge name id).consumers other).task =
          (g.consumers other).task := by
    intro other hNe
    simp [Group.acknowledge, Group.release,
      Group.withConsumer, Function.update_of_ne hNe]
  have hGone :
      ∀ other,
        other ∈ (g.acknowledge name id).pendingIds ↔
          other ∈ g.pendingIds ∧ other ≠ id := by
    intro other
    simp only [Group.pendingIds, Group.acknowledge,
      List.mem_map, List.mem_filter]
    constructor
    · intro hMem
      rcases hMem with ⟨p, ⟨hPending, hNe⟩, rfl⟩
      exact ⟨⟨p, hPending, rfl⟩, by simpa using hNe⟩
    · intro hBoth
      rcases hBoth with ⟨⟨p, hPending, rfl⟩, hNe⟩
      exact ⟨p, ⟨hPending, by simpa using hNe⟩, rfl⟩
  refine
    { holding := hHolding
      known := hReplaying.known
      distinct := hReplaying.distinct
      inHand := ?_
      atRest := ?_
      completed := hReplaying.completed }
  · intro other id' task hOther
    by_cases hEq : other = name
    · subst hEq
      simp [Group.acknowledge, Group.release,
        Group.withConsumer] at hOther
    · rw [hTasks other hEq] at hOther
      exact hReplaying.inHand other id' task hOther
  · intro id' job hJob hCompletes hRest
    by_cases hSame : id' = id
    · subst hSame
      rcases hReplaying.inHand name id' .returned hTask with
        ⟨job', hJob', hAll⟩
      have hEq : job' = job := by
        have hBoth := hJob'.symm.trans hJob
        exact Option.some.inj hBoth
      subst hEq
      right
      refine ⟨hAll hCompletes, ?_, ?_⟩
      · apply hReplaying.holding.delivered
        apply hReplaying.holding.pending name
        simp [Consumer.held, hTask]
      · rw [hGone]
        intro hBoth
        exact hBoth.2 rfl
    · have hBefore : Unhandled g id' := by
        intro other task hOther
        by_cases hEq : other = name
        · subst hEq
          rw [hTask] at hOther
          cases hOther
          exact hSame rfl
        · apply hRest other task
          rw [hTasks other hEq]
          exact hOther
      rcases hReplaying.atRest id' job hJob hCompletes
          hBefore with hNothing | ⟨hAll, hDelivered, hNot⟩
      · exact Or.inl hNothing
      · right
        refine ⟨hAll, hDelivered, ?_⟩
        rw [hGone]
        intro hBoth
        exact hNot hBoth.1

/- The log of the other jobs is as it was. -/
def OthersKept
    (g : Replicas ι)
    (log : JobLog)
    (job : IngestJob ι) : Prop :=
  ∀ other ∈ g.stream,
    other.jobId ≠ job.jobId →
      publishedOf log other.jobId =
          publishedOf g.shared other.jobId ∧
        (Completed log other.jobId →
          Completed g.shared other.jobId)

/- InHand speaks about the events published for the job. -/
theorem InHand.congr
    {pd : Pandas}
    {log log' : JobLog}
    {job : IngestJob ι}
    {task : Handling JobTask}
    (hInHand : InHand pd log job task)
    (hSame :
      publishedOf log' job.jobId =
        publishedOf log job.jobId) :
    InHand pd log' job task := by
  cases task with
  | running task =>
      unfold InHand at hInHand ⊢
      rw [hSame]
      exact hInHand
  | returned =>
      unfold InHand at hInHand ⊢
      rw [hSame]
      exact hInHand

/- A consumer goes on with the message it has in hand. -/
theorem Replaying.proceed
    {pd : Pandas}
    {g : Replicas ι}
    (hReplaying : Replaying pd g)
    {name : String}
    {id : ℕ}
    {before after : Handling JobTask}
    {job : IngestJob ι}
    {log : JobLog}
    (hTask : (g.consumers name).task = some (id, before))
    (hJob : g.stream[id]? = some job)
    (hKnown :
      ∀ entry ∈ log, ∃ job ∈ g.stream, job.jobId = entry.1)
    (hInHand : InHand pd log job after)
    (hOthers : OthersKept g log job)
    (hCompleted :
      Completed log job.jobId →
        Completes pd job ∧
          publishedOf log job.jobId = jobEvents pd job) :
    Replaying pd
      { g.handling name id after with shared := log } := by
  have hHolding : Holding (g.handling name id after) :=
    hReplaying.holding.handling hTask
  have hTasks :
      ∀ other, other ≠ name →
        ((g.handling name id after).consumers other).task =
          (g.consumers other).task := by
    intro other hNe
    simp [Group.handling, Group.withConsumer,
      Function.update_of_ne hNe]
  have hApart :
      ∀ id' job',
        id' ≠ id →
          g.stream[id']? = some job' →
            job'.jobId ≠ job.jobId := by
    intro id' job' hNe hJob' hEq
    exact hNe (hReplaying.eq_of_jobId hJob' hJob hEq)
  refine
    { holding := hHolding.sharing _ log
      known := hKnown
      distinct := hReplaying.distinct
      inHand := ?_
      atRest := ?_
      completed := ?_ }
  · intro other id' task hOther
    by_cases hEq : other = name
    · subst hEq
      simp only [Group.handling, Group.withConsumer,
        Function.update_self] at hOther
      cases hOther
      exact ⟨job, hJob, hInHand⟩
    · rw [show
        (({ g.handling name id after with
            shared := log } : Replicas ι).consumers
              other).task = (g.consumers other).task from
          hTasks other hEq] at hOther
      rcases hReplaying.inHand other id' task hOther with
        ⟨job', hJob', hKept⟩
      have hNe : id' ≠ id := by
        rintro rfl
        apply hEq
        apply hReplaying.holding.alone_of_task hTask
        simp [Consumer.held, hOther]
      have hMem := List.mem_of_getElem? hJob'
      exact
        ⟨job', hJob',
          hKept.congr
            (hOthers job' hMem
              (hApart id' job' hNe hJob')).1⟩
  · intro id' job' hJob' hCompletes hUnhandled
    have hNe : id' ≠ id := by
      rintro rfl
      exact
        hUnhandled name after
          (by simp [Group.handling, Group.withConsumer])
    have hBefore : Unhandled g id' := by
      intro other task hOther
      by_cases hEq : other = name
      · subst hEq
        rw [hTask] at hOther
        cases hOther
        exact hNe rfl
      · exact
          hUnhandled other task
            ((hTasks other hEq).trans hOther)
    have hMem := List.mem_of_getElem? hJob'
    have hSame :=
      (hOthers job' hMem (hApart id' job' hNe hJob')).1
    have hRest :=
      hReplaying.atRest id' job' hJob' hCompletes hBefore
    unfold AtRest at hRest ⊢
    change
      publishedOf log job'.jobId = [] ∨
        publishedOf log job'.jobId = jobEvents pd job' ∧ _
    rw [hSame]
    exact hRest
  · intro job' hMem hDone
    by_cases hEq : job'.jobId = job.jobId
    · have hMem' : job' ∈ g.stream := hMem
      rcases List.mem_iff_getElem?.mp hMem' with
        ⟨id', hJob'⟩
      have hId := hReplaying.eq_of_jobId hJob' hJob hEq
      subst hId
      have hSame := Option.some.inj (hJob'.symm.trans hJob)
      subst hSame
      exact hCompleted hDone
    · rcases hOthers job' hMem hEq with ⟨hSame, hBefore⟩
      change
        Completes pd job' ∧
          publishedOf log job'.jobId = jobEvents pd job'
      rw [hSame]
      exact hReplaying.completed job' hMem (hBefore hDone)

omit [DecidableEq ι] in
theorem othersKept_self
    (g : Replicas ι)
    (job : IngestJob ι) :
    OthersKept g g.shared job :=
  fun _ _ _ => ⟨rfl, id⟩

omit [DecidableEq ι] in
theorem othersKept_concat
    (g : Replicas ι)
    (job : IngestJob ι)
    (action : Action) :
    OthersKept g (g.shared ++ [(job.jobId, action)]) job := by
  intro other _ hNe
  refine ⟨publishedOf_other _ _ (Ne.symm hNe), ?_⟩
  intro hCompleted
  rcases hCompleted with ⟨done, hMem, hDone⟩
  rcases List.mem_append.mp hMem with hOld | hNew
  · exact ⟨done, hOld, hDone⟩
  · rw [List.mem_singleton] at hNew
    have hEq := congrArg Prod.fst hNew
    exact absurd hEq hNe

/- A handler at its end returns, or its job cannot succeed. -/
theorem Replaying.finish
    {pd : Pandas}
    {g : Replicas ι}
    (hReplaying : Replaying pd g)
    {name : String}
    {id : ℕ}
    {task : JobTask}
    (hTask :
      (g.consumers name).task = some (id, .running task))
    (hRest : task.rest = []) :
    Replaying pd
      { g.progressed name id (jobEffect task g.shared).1 with
        shared := (jobEffect task g.shared).2 } := by
  rcases hReplaying.inHand name id _ hTask with
    ⟨job, hJob, hId, hRaised, done, hActions, hDone⟩
  rw [hRest, List.append_nil] at hActions
  unfold jobEffect
  rw [hRest]
  cases hEnd : task.raised with
  | none =>
      apply hReplaying.proceed hTask hJob hReplaying.known _
        (othersKept_self g job)
      · exact
          hReplaying.completed job (List.mem_of_getElem? hJob)
      · intro hCompletes
        unfold jobEvents
        rw [hActions]
        exact hDone hCompletes
  | some error =>
      apply hReplaying.drop (hReplaying.holding.release name)
      intro id' task' job' hTask' hJob' hCompletes
      have hReturns := hCompletes.returns
      rw [hTask] at hTask'
      cases hTask'
      rw [hJob] at hJob'
      cases hJob'
      rw [hReturns, hEnd] at hRaised
      cases hRaised

/- A handler does its next action. -/
theorem Replaying.advance
    {pd : Pandas}
    {g : Replicas ι}
    (hReplaying : Replaying pd g)
    {name : String}
    {id : ℕ}
    {task : JobTask}
    {action : Action}
    {rest : List Action}
    (hTask :
      (g.consumers name).task = some (id, .running task))
    (hRest : task.rest = action :: rest) :
    Replaying pd
      { g.progressed name id (jobEffect task g.shared).1 with
        shared := (jobEffect task g.shared).2 } := by
  rcases hReplaying.inHand name id _ hTask with
    ⟨job, hJob, hId, hRaised, done, hActions, hDone⟩
  have hMem := List.mem_of_getElem? hJob
  rw [hRest] at hActions
  have hSplit :
      (runJob pd job).actions = (done ++ [action]) ++ rest := by
    rw [hActions]
    simp
  unfold jobEffect
  rw [hRest, hId]
  have hPublished :
      Completes pd job →
        publishedOf (g.shared ++ [(job.jobId, action)])
            job.jobId =
          publishedEvents (done ++ [action]) := by
    intro hCompletes
    rw [publishedOf_self, hDone hCompletes,
      publishedEvents_append]
  apply hReplaying.proceed hTask hJob _ _
    (othersKept_concat g job action)
  · intro hCompleted
    have hEvents :
        jobEvents pd job =
          publishedEvents (done ++ [action]) ++
            publishedEvents rest := by
      unfold jobEvents
      rw [hSplit, publishedEvents_append]
    rcases hCompleted with ⟨reported, hEntry, hComplete⟩
    rcases List.mem_append.mp hEntry with hOld | hNew
    · -- Success was reported before: all was published then.
      rcases hReplaying.completed job hMem
          ⟨reported, hOld, hComplete⟩ with
        ⟨hCompletes, hAll⟩
      refine ⟨hCompletes, ?_⟩
      rw [hPublished hCompletes, hEvents]
      rw [hDone hCompletes, hEvents,
        publishedEvents_append] at hAll
      have hLength := congrArg List.length hAll
      simp only [List.length_append] at hLength
      have hNothing : publishedEvents rest = [] := by
        apply List.eq_nil_of_length_eq_zero
        omega
      rw [hNothing, List.append_nil]
    · -- Success is reported now, and nothing comes after it.
      rw [List.mem_singleton] at hNew
      cases hNew
      have hCompletes : Completes pd job :=
        ⟨action, by rw [hActions]; simp, hComplete⟩
      have hLast := (complete_last hActions hComplete).1
      refine ⟨hCompletes, ?_⟩
      rw [hPublished hCompletes, hEvents, hLast]
      simp
  · intro entry hEntry
    rcases List.mem_append.mp hEntry with hOld | hNew
    · exact hReplaying.known entry hOld
    · rw [List.mem_singleton] at hNew
      subst hNew
      exact ⟨job, hMem, rfl⟩
  · exact
      ⟨rfl, hRaised, done ++ [action], hSplit, hPublished⟩

theorem Replaying.work
    {pd : Pandas}
    {g : Replicas ι}
    (hReplaying : Replaying pd g)
    (name : String) :
    Replaying pd (g.work (ingestService pd) name) := by
  unfold Group.work
  split
  · exact hReplaying
  · next id hTask => exact hReplaying.acknowledge hTask
  · next id task hTask =>
      cases hRest : task.rest with
      | nil => exact hReplaying.finish hTask hRest
      | cons action rest =>
          exact hReplaying.advance hTask hRest

------------------------------------------------------------
-- Runs
------------------------------------------------------------

/- One step keeps the log as the invariant says. -/
theorem Replaying.step
    {pd : Pandas}
    {cfg : BusConfig}
    {g : Replicas ι}
    (hReplaying : Replaying pd g)
    {move : Move (IngestJob ι)}
    (hMove : Uninterrupted pd cfg g move) :
    Replaying pd (g.step cfg (ingestService pd) move) := by
  rcases hMove with ⟨hFree, hMove⟩
  have hHolding :=
    hReplaying.holding.step cfg (ingestService pd) move hFree
  cases move with
  | wait time =>
      exact
        hReplaying.quiet hHolding rfl rfl (fun _ => rfl)
          (fun _ hDelivered hGone => ⟨hDelivered, hGone⟩)
  | publish job => exact hReplaying.publish hMove hHolding
  | trim upTo =>
      exact
        hReplaying.quiet hHolding rfl rfl (fun _ => rfl)
          (fun _ hDelivered hGone => ⟨hDelivered, hGone⟩)
  | read name => exact hReplaying.read cfg name
  | reclaim name cursor =>
      exact hReplaying.reclaim cfg name cursor hFree
  | dispatch name => exact hReplaying.dispatch name
  | work name => exact hReplaying.work name
  | fail name => exact hReplaying.fail name hMove
  | leave name => exact hReplaying.leave name
  | crash name => exact hReplaying.lose hHolding hMove

/- The invariant says that every job is replayed once. -/
theorem Replaying.oneReplay
    {pd : Pandas}
    {g : Replicas ι}
    (hReplaying : Replaying pd g) :
    OneReplay pd g :=
  { alone := by
      intro name other id task task' hName hOther
      apply hReplaying.holding.alone name other id
      · simp [Consumer.held, hName]
      · simp [Consumer.held, hOther]
    once := fun job hMem hCompleted =>
      (hReplaying.completed job hMem hCompleted).2 }

/-
  In every run without such a claim and such a loss, every
  state that is reached has every job replayed once.
-/
theorem oneReplay_of_uninterrupted
    (pd : Pandas)
    (cfg : BusConfig)
    (now : ℚ)
    (moves : List (Move (IngestJob ι)))
    (hAll :
      AllAlong (Group.step cfg (ingestService pd))
        (Uninterrupted pd cfg) (Group.start now []) moves) :
    OneReplay pd
      ((Group.start now [] : Replicas ι).runMoves cfg
        (ingestService pd) moves) := by
  apply Replaying.oneReplay
  apply AllAlong.invariant (Replaying pd) _
    (Replaying.start pd now) hAll
  intro g move hReplaying hMove
  exact hReplaying.step hMove

/- A job whose table has one row. -/
def oneRow : IngestJob ℕ :=
  .ofCsv "job" "tenant" "table.csv" 2 none
    [rowAt 0 "05/07/2017 09:00"]

/- A consumer does so many effects. -/
def works
    (name : String)
    (count : ℕ) : List (Move (IngestJob ℕ)) :=
  List.replicate count (.work name)

/-
  A consumer has published the row and waits for a minute, in
  which another one claims the message and completes the job.
-/
def slowReplay : List (Move (IngestJob ℕ)) :=
  [.publish oneRow, .read "a", .dispatch "a"] ++
    works "a" 3 ++
    [.wait 60000, .reclaim "b" 0, .dispatch "b"] ++
    works "b" 6

/-
  Two consumers handle the message, and the only event is
  published twice when the job is complete.
-/
theorem not_oneReplay_slowReplay :
    ¬ OneReplay samplePandas
      ((Group.start 0 [] : Replicas ℕ).runMoves {}
        (ingestService samplePandas) slowReplay) := by
  have hJob :
      oneRow ∈
        ((Group.start 0 [] : Replicas ℕ).runMoves {}
          (ingestService samplePandas) slowReplay).stream := by
    apply Group.mem_stream_of_publish
    simp [slowReplay]
  have hTwice :
      (publishedOf
        ((Group.start 0 [] : Replicas ℕ).runMoves {}
          (ingestService samplePandas) slowReplay).shared
            oneRow.jobId).length = 2 := by
    decide +kernel
  have hOnce :
      (jobEvents samplePandas oneRow).length = 1 := by
    decide +kernel
  have hReported :
      ((Group.start 0 [] : Replicas ℕ).runMoves {}
        (ingestService samplePandas) slowReplay).shared.any
          (fun entry =>
            entry.1 = oneRow.jobId && isComplete entry.2) =
        true := by
    decide +kernel
  have hComplete := completed_of_any hReported
  intro hReplay
  have hAll := hReplay.once oneRow hJob hComplete
  rw [← hAll, hTwice] at hOnce
  cases hOnce

/-
  A consumer crashes before it has published anything, and
  another one takes its message over a minute later.
-/
def takenOver : List (Move (IngestJob ℕ)) :=
  [.publish oneRow, .read "a", .dispatch "a", .work "a",
    .crash "a", .wait 60000, .reclaim "b" 0,
    .dispatch "b"] ++
    works "b" 7

/- The other one finds a message that nobody holds. -/
theorem oneReplay_takenOver :
    OneReplay samplePandas
      ((Group.start 0 [] : Replicas ℕ).runMoves {}
        (ingestService samplePandas) takenOver) := by
  have hQuiet :
      ((Group.start 0 [] : Replicas ℕ).runMoves {}
        (ingestService samplePandas)
          (takenOver.take 4)).shared.all
            (fun entry =>
              (publishedEvent entry.2).isNone) = true := by
    decide +kernel
  have hCrash :
      LosesNothing samplePandas
        ((Group.start 0 [] : Replicas ℕ).runMoves {}
          (ingestService samplePandas) (takenOver.take 4))
        "a" :=
    fun _ _ job _ _ _ => publishedOf_of_quiet hQuiet job.jobId
  have hReclaim :
      ∀ holder,
        (((Group.start 0 [] : Replicas ℕ).runMoves {}
          (ingestService samplePandas)
            (takenOver.take 6)).consumers holder).held =
          [] := by
    intro holder
    by_cases hHolder : holder = "a"
    · subst hHolder
      rfl
    · rw [Group.consumers_runMoves_of_ne]
      · rfl
      · simp [takenOver, Move.consumer, hHolder]
  have hClaim :
      ∀ holder id,
        id ∉
          (((Group.start 0 [] : Replicas ℕ).runMoves {}
            (ingestService samplePandas)
              (takenOver.take 6)).consumers holder).held := by
    intro holder id
    rw [hReclaim holder]
    exact List.not_mem_nil
  have hFresh :
      FreshJob (Group.start 0 [] : Replicas ℕ) oneRow := by
    intro other hMem
    cases hMem
  have hTrivial : True ∧ True := ⟨trivial, trivial⟩
  apply oneReplay_of_uninterrupted
  exact
    ⟨⟨trivial, hFresh⟩, hTrivial, hTrivial, hTrivial,
      ⟨trivial, hCrash⟩, hTrivial,
      ⟨fun id _ holder => hClaim holder id, trivial⟩,
      hTrivial, hTrivial, hTrivial, hTrivial, hTrivial,
      hTrivial, hTrivial, hTrivial, trivial⟩

end Ingest

end Nidra
