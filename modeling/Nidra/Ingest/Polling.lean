import Nidra.Ingest.JobStatus

/-
  This file runs the requests and the handlers of all jobs
  together, one write at a time in any order, and states what
  a poll answers. A message may be delivered any number of
  times, and whatever runs may be lost at any time.

  Key definitions include:
    * `Thread`, `JobSystem`, `JobSystem.step`
    * `AllPublished`, `Truthful`

  Main declarations:
    * `JobSystem.step_cases`
    * `JobSystem.threads_begin`, `JobSystem.threads_write`
    * `Truthful.step`
    * `published_of_complete`
-/

namespace Nidra

namespace Ingest

variable {ι : Type}

------------------------------------------------------------
-- The system
------------------------------------------------------------

/- A request or a handler, with the writes it has left. -/
structure Thread (ι : Type) where
  job : IngestJob ι
  left : List (Effect ι)
  result : Option JobReport

/-
  All that runs, the identifiers that were given out, and
  what the request or handler of a job that ran last returned,
  if it has.
-/
structure JobSystem (ι : Type) where
  board : JobBoard ι
  threads : ℕ → Option (Thread ι)
  created : List String
  results : String → Option JobReport

def JobSystem.start : JobSystem ι :=
  { board := .start
    threads := fun _ => none
    created := []
    results := fun _ => none }

inductive JobEvent (ι : Type) where
  | waited (time : ℚ)
  | requested (thread : ℕ) (request : NewJob ι)
  | delivered (thread message : ℕ)
  | proceeded (thread : ℕ)
  | lost (thread : ℕ)

/- A thread starts, and its job has no result any more. -/
def JobSystem.begin
    (s : JobSystem ι)
    (n : ℕ)
    (thread : Thread ι) : JobSystem ι :=
  { s with
    threads := Function.update s.threads n (some thread)
    results :=
      Function.update s.results thread.job.jobId none }

/- A thread does its next write. -/
def JobSystem.write
    (s : JobSystem ι)
    (n : ℕ)
    (thread : Thread ι)
    (effect : Effect ι)
    (rest : List (Effect ι)) : JobSystem ι :=
  { s with
    board := s.board.perform effect
    threads :=
      Function.update s.threads n
        (some { thread with left := rest }) }

/- A thread is over. -/
def JobSystem.over
    (s : JobSystem ι)
    (n : ℕ) : JobSystem ι :=
  { s with threads := Function.update s.threads n none }

/- A thread with no writes left returns its result. -/
def JobSystem.return
    (s : JobSystem ι)
    (n : ℕ)
    (thread : Thread ι) : JobSystem ι :=
  { s.over n with
    results :=
      Function.update s.results thread.job.jobId
        thread.result }

def JobSystem.wait
    (s : JobSystem ι)
    (time : ℚ) : JobSystem ι :=
  { s with board := { s.board with now := max s.board.now time } }

/- The thread of a request. -/
def NewJob.thread (request : NewJob ι) : Thread ι :=
  { job := request.job
    left := createIngestJob request
    result := some queuedReport }

section Runs

variable [DecidableEq ι]
variable (pd : Pandas)

/- The thread of a handler. -/
def IngestJob.thread (job : IngestJob ι) : Thread ι :=
  { job := job
    left := handlerEffects pd job
    result := jobResult pd job }

def JobSystem.step
    (s : JobSystem ι) : JobEvent ι → JobSystem ι
  | .waited time => s.wait time
  | .requested n request =>
      -- An identifier is never generated twice.
      if (s.threads n).isNone ∧
          request.job.jobId ∉ s.created then
        { s.begin n request.thread with
          created := request.job.jobId :: s.created }
      else s
  | .delivered n message =>
      match s.threads n, s.board.queue[message]? with
      | none, some job => s.begin n (job.thread pd)
      | _, _ => s
  | .proceeded n =>
      match s.threads n with
      | none => s
      | some thread =>
          match thread.left with
          | [] => s.return n thread
          | effect :: rest => s.write n thread effect rest
  | .lost n => s.over n

def JobSystem.run
    (s : JobSystem ι)
    (events : List (JobEvent ι)) : JobSystem ι :=
  events.foldl (JobSystem.step pd) s

/- What one event does, with all that it requires. -/
inductive JobSystem.Turn
    (s : JobSystem ι)
    (event : JobEvent ι) : JobSystem ι → Prop where
  | same : JobSystem.Turn s event s
  | waited (time : ℚ) : JobSystem.Turn s event (s.wait time)
  | requested
      (n : ℕ)
      (request : NewJob ι)
      (hFree : s.threads n = none)
      (hNew : request.job.jobId ∉ s.created) :
      JobSystem.Turn s event
        { s.begin n request.thread with
          created := request.job.jobId :: s.created }
  | delivered
      (n message : ℕ)
      (job : IngestJob ι)
      (hEvent : event = .delivered n message)
      (hFree : s.threads n = none)
      (hJob : s.board.queue[message]? = some job) :
      JobSystem.Turn s event (s.begin n (job.thread pd))
  | wrote
      (n : ℕ)
      (thread : Thread ι)
      (effect : Effect ι)
      (rest : List (Effect ι))
      (hThread : s.threads n = some thread)
      (hLeft : thread.left = effect :: rest) :
      JobSystem.Turn s event (s.write n thread effect rest)
  | returned
      (n : ℕ)
      (thread : Thread ι)
      (hThread : s.threads n = some thread)
      (hLeft : thread.left = []) :
      JobSystem.Turn s event (s.return n thread)
  | lost (n : ℕ) : JobSystem.Turn s event (s.over n)

variable {pd}

theorem JobSystem.step_cases
    (s : JobSystem ι)
    (event : JobEvent ι) :
    s.Turn pd event (s.step pd event) := by
  cases event with
  | waited time => exact .waited time
  | requested n request =>
      simp only [JobSystem.step]
      split
      · next hBoth =>
          exact
            .requested n request
              (Option.isNone_iff_eq_none.mp hBoth.1) hBoth.2
      · exact .same
  | delivered n message =>
      simp only [JobSystem.step]
      split
      · next job hFree hJob =>
          exact .delivered n message job rfl hFree hJob
      · exact .same
  | proceeded n =>
      simp only [JobSystem.step]
      split
      · exact .same
      · next thread hThread =>
          split
          · next hLeft => exact .returned n thread hThread hLeft
          · next effect rest hLeft =>
              exact
                .wrote n thread effect rest hThread hLeft
  | lost n => exact .lost n

------------------------------------------------------------
-- Threads after a turn
------------------------------------------------------------

omit [DecidableEq ι] in
/- A thread that is found was put there, or stood there. -/
theorem eq_some_of_update
    {threads : ℕ → Option (Thread ι)}
    {n m : ℕ}
    {value : Option (Thread ι)}
    {thread : Thread ι}
    (hSome :
      Function.update threads n value m = some thread) :
    (m = n ∧ value = some thread) ∨
      (m ≠ n ∧ threads m = some thread) := by
  by_cases hEq : m = n
  · subst hEq
    rw [Function.update_self] at hSome
    exact Or.inl ⟨rfl, hSome⟩
  · rw [Function.update_of_ne hEq] at hSome
    exact Or.inr ⟨hEq, hSome⟩

omit [DecidableEq ι] in
theorem JobSystem.threads_begin
    {s : JobSystem ι}
    {n m : ℕ}
    {thread other : Thread ι}
    (hOther :
      (s.begin n thread).threads m = some other) :
    (m = n ∧ other = thread) ∨
      (m ≠ n ∧ s.threads m = some other) := by
  rcases eq_some_of_update hOther with
    ⟨hEq, hSome⟩ | hBefore
  · exact Or.inl ⟨hEq, (Option.some_inj.mp hSome).symm⟩
  · exact Or.inr hBefore

omit [DecidableEq ι] in
theorem JobSystem.threads_write
    {s : JobSystem ι}
    {n m : ℕ}
    {thread other : Thread ι}
    {effect : Effect ι}
    {rest : List (Effect ι)}
    (hOther :
      (s.write n thread effect rest).threads m =
        some other) :
    (m = n ∧ other = { thread with left := rest }) ∨
      (m ≠ n ∧ s.threads m = some other) := by
  rcases eq_some_of_update hOther with
    ⟨hEq, hSome⟩ | hBefore
  · exact Or.inl ⟨hEq, (Option.some_inj.mp hSome).symm⟩
  · exact Or.inr hBefore

omit [DecidableEq ι] in
theorem JobSystem.threads_over
    {s : JobSystem ι}
    {n m : ℕ}
    {other : Thread ι}
    (hOther : (s.over n).threads m = some other) :
    m ≠ n ∧ s.threads m = some other := by
  rcases eq_some_of_update hOther with
    ⟨_, hSome⟩ | hBefore
  · cases hSome
  · exact hBefore

------------------------------------------------------------
-- Success is told after the events
------------------------------------------------------------

/-
  Every event of a job that was queued under an identifier
  has been published, in its order.
-/
def AllPublished
    (pd : Pandas)
    (board : JobBoard ι)
    (jobId : String) : Prop :=
  ∃ job ∈ board.queue,
    job.jobId = jobId ∧
      (jobEvents pd job).Sublist (publishedOf board.log jobId)

/-
  What a thread has left is the rest of some writes, of which
  those that are done have published what they publish, and
  any that tells success comes after the events of the job.
-/
def Thread.Faithful
    (pd : Pandas)
    (board : JobBoard ι)
    (thread : Thread ι) : Prop :=
  (∀ effect ∈ thread.left,
      effect.jobId = thread.job.jobId) ∧
    ∃ done,
      (publishedBy done).Sublist
          (publishedOf board.log thread.job.jobId) ∧
        ∀ front effect rest,
          done ++ thread.left = front ++ effect :: rest →
            effect.tellsComplete = true →
              thread.job ∈ board.queue ∧
                publishedBy front = jobEvents pd thread.job

/- A row or the counters of a job tell that it is complete. -/
def JobView.TellsComplete (view : JobView) : Prop :=
  (∃ row ∈ view.rows, row.status = .reported .complete) ∨
    ∃ told ∈ view.live, told.status = .reported .complete

/- Wherever a job is told complete, it is all published. -/
structure Truthful
    (pd : Pandas)
    (s : JobSystem ι) : Prop where
  told :
    ∀ jobId,
      (s.board.view jobId).TellsComplete →
        AllPublished pd s.board jobId
  threads :
    ∀ n thread,
      s.threads n = some thread →
        thread.Faithful pd s.board

/- A board on which no message and no event was removed. -/
structure JobBoard.Later
    (board later : JobBoard ι) : Prop where
  queue : board.queue ⊆ later.queue
  log :
    ∀ jobId,
      (publishedOf board.log jobId).Sublist
        (publishedOf later.log jobId)

omit [DecidableEq ι] in
theorem JobBoard.Later.of_same
    {board later : JobBoard ι}
    (hQueue : later.queue = board.queue)
    (hLog : later.log = board.log) :
    board.Later later := by
  refine { queue := ?_, log := ?_ }
  · rw [hQueue]
    exact List.Subset.refl _
  · intro jobId
    rw [hLog]

omit [DecidableEq ι] in
theorem JobBoard.Later.trans
    {first second third : JobBoard ι}
    (hFirst : first.Later second)
    (hSecond : second.Later third) :
    first.Later third :=
  { queue := List.Subset.trans hFirst.queue hSecond.queue
    log := fun jobId =>
      (hFirst.log jobId).trans (hSecond.log jobId) }

omit [DecidableEq ι] in
theorem JobBoard.later_perform
    (board : JobBoard ι)
    (effect : Effect ι) :
    board.Later (board.perform effect) := by
  cases effect with
  | enqueue job =>
      exact
        { queue := List.subset_append_left _ _
          log := fun _ => List.Sublist.refl _ }
  | publish jobId event =>
      refine
        { queue := List.Subset.refl _
          log := fun other => ?_ }
      change
        (publishedOf board.log other).Sublist
          (publishedOf
            (board.log ++ [(jobId, .published event)]) other)
      by_cases hEq : jobId = other
      · subst hEq
        rw [publishedOf_self]
        exact List.sublist_append_left _ _
      · rw [publishedOf_other _ _ hEq]
  | insertRow row => exact .of_same rfl rfl
  | seed jobId kind speed => exact .of_same rfl rfl
  | renew jobId => exact .of_same rfl rfl
  | setCounters jobId told => exact .of_same rfl rfl
  | updateRow jobId tenantId told => exact .of_same rfl rfl

theorem AllPublished.later
    {board later : JobBoard ι}
    {jobId : String}
    (hAll : AllPublished pd board jobId)
    (hLater : board.Later later) :
    AllPublished pd later jobId := by
  rcases hAll with ⟨job, hMem, hId, hPublished⟩
  exact
    ⟨job, hLater.queue hMem, hId,
      hPublished.trans (hLater.log jobId)⟩

theorem Thread.Faithful.later
    {board later : JobBoard ι}
    {thread : Thread ι}
    (hFaithful : thread.Faithful pd board)
    (hLater : board.Later later) :
    thread.Faithful pd later := by
  rcases hFaithful with ⟨hIds, done, hDone, hTells⟩
  refine
    ⟨hIds, done, hDone.trans (hLater.log _), ?_⟩
  intro front effect rest hSplit hComplete
  have hBoth := hTells front effect rest hSplit hComplete
  exact ⟨hLater.queue hBoth.1, hBoth.2⟩

/- A request never tells that its job is complete. -/
theorem NewJob.faithful
    (request : NewJob ι)
    (board : JobBoard ι) :
    request.thread.Faithful pd board := by
  refine
    ⟨fun effect hMem => jobId_of_mem_createIngestJob hMem, [],
      List.nil_sublist _, ?_⟩
  intro front effect rest hSplit hComplete
  have hMem : effect ∈ createIngestJob request := by
    have hIn : effect ∈ front ++ effect :: rest := by simp
    rw [← hSplit] at hIn
    exact hIn
  simp only [createIngestJob, initProgress, List.cons_append,
    List.nil_append, List.mem_cons, List.not_mem_nil,
    or_false] at hMem
  rcases hMem with rfl | rfl | rfl | rfl <;> cases hComplete

/- A handler tells success after all of its events. -/
theorem IngestJob.faithful
    {board : JobBoard ι}
    {job : IngestJob ι}
    (hMem : job ∈ board.queue) :
    (job.thread pd).Faithful pd board := by
  refine
    ⟨fun effect hEffect => jobId_of_mem_handlerEffects hEffect,
      [], List.nil_sublist _, ?_⟩
  intro front effect rest hSplit hComplete
  exact ⟨hMem, publishedBy_of_complete hSplit hComplete⟩

/- A write that tells success comes after the events. -/
theorem Thread.Faithful.allPublished
    {board : JobBoard ι}
    {thread : Thread ι}
    {effect : Effect ι}
    {rest : List (Effect ι)}
    (hFaithful : thread.Faithful pd board)
    (hLeft : thread.left = effect :: rest)
    (hComplete : effect.tellsComplete = true) :
    AllPublished pd board effect.jobId := by
  rcases hFaithful with ⟨hIds, done, hDone, hTells⟩
  have hSplit :
      done ++ thread.left = done ++ effect :: rest := by
    rw [hLeft]
  rcases hTells done effect rest hSplit hComplete with
    ⟨hMem, hAll⟩
  have hId : effect.jobId = thread.job.jobId := by
    apply hIds
    rw [hLeft]
    exact List.mem_cons_self
  rw [hId, ← hId]
  refine ⟨thread.job, hMem, hId.symm, ?_⟩
  rw [← hAll, hId]
  exact hDone

omit [DecidableEq ι] in
theorem publishedOf_perform
    {board : JobBoard ι}
    (effect : Effect ι) :
    publishedOf (board.perform effect).log effect.jobId =
      publishedOf board.log effect.jobId ++
        publishedBy [effect] := by
  cases effect with
  | publish jobId event => exact publishedOf_self _ _ _
  | insertRow row => exact (List.append_nil _).symm
  | seed jobId kind speed => exact (List.append_nil _).symm
  | renew jobId => exact (List.append_nil _).symm
  | enqueue job => exact (List.append_nil _).symm
  | setCounters jobId told => exact (List.append_nil _).symm
  | updateRow jobId tenantId told =>
      exact (List.append_nil _).symm

/- A write is done as well once it is made. -/
theorem Thread.Faithful.write
    {board : JobBoard ι}
    {thread : Thread ι}
    {effect : Effect ι}
    {rest : List (Effect ι)}
    (hFaithful : thread.Faithful pd board)
    (hLeft : thread.left = effect :: rest) :
    ({ thread with left := rest } : Thread ι).Faithful pd
      (board.perform effect) := by
  have hLater := board.later_perform effect
  rcases hFaithful with ⟨hIds, done, hDone, hTells⟩
  rw [hLeft] at hIds hTells
  have hId : effect.jobId = thread.job.jobId :=
    hIds effect List.mem_cons_self
  refine
    ⟨fun other hMem => hIds other (List.mem_cons_of_mem _ hMem),
      done ++ [effect], ?_, ?_⟩
  · have hBoth :
        publishedBy (done ++ [effect]) =
          publishedBy done ++ publishedBy [effect] :=
      List.filterMap_append
    change
      (publishedBy (done ++ [effect])).Sublist
        (publishedOf (board.perform effect).log
          thread.job.jobId)
    rw [hBoth, ← hId, publishedOf_perform, hId]
    exact hDone.append (List.Sublist.refl _)
  · intro front other back hSplit hComplete
    rw [List.append_assoc, List.singleton_append] at hSplit
    have hBoth := hTells front other back hSplit hComplete
    exact ⟨hLater.queue hBoth.1, hBoth.2⟩

omit [DecidableEq ι] in
/- Success was told before a write, or the write tells it. -/
theorem JobView.tellsComplete_onView
    {view : JobView}
    {effect : Effect ι}
    (hTells : (effect.onView view).TellsComplete) :
    view.TellsComplete ∨ effect.tellsComplete = true := by
  cases effect with
  | insertRow row =>
      rcases hTells with ⟨found, hMem, hComplete⟩ | hLive
      · rcases List.mem_append.mp hMem with hOld | hNew
        · exact Or.inl (Or.inl ⟨found, hOld, hComplete⟩)
        · rw [List.mem_singleton] at hNew
          subst hNew
          exact Or.inr (decide_eq_true hComplete)
      · exact Or.inl (Or.inr hLive)
  | updateRow jobId tenantId told =>
      rcases hTells with ⟨found, hMem, hComplete⟩ | hLive
      · rcases List.mem_map.mp hMem with ⟨former, hOld, rfl⟩
        unfold JobRow.told at hComplete
        split at hComplete
        · exact Or.inr (decide_eq_true hComplete)
        · exact Or.inl (Or.inl ⟨former, hOld, hComplete⟩)
      · exact Or.inl (Or.inr hLive)
  | seed jobId kind speed =>
      rcases hTells with hRows | ⟨told, hMem, hComplete⟩
      · exact Or.inl (Or.inl hRows)
      · cases hMem
        cases hComplete
  | setCounters jobId told =>
      rcases hTells with hRows | ⟨found, hMem, hComplete⟩
      · exact Or.inl (Or.inl hRows)
      · cases hMem
        exact Or.inr (decide_eq_true hComplete)
  | renew jobId => exact Or.inl hTells
  | enqueue job => exact Or.inl hTells
  | publish jobId event => exact Or.inl hTells

theorem truthful_start :
    Truthful pd (JobSystem.start : JobSystem ι) := by
  refine { told := ?_, threads := ?_ }
  · intro jobId hTells
    rcases hTells with ⟨row, hMem, _⟩ | ⟨told, hMem, _⟩
    · cases hMem
    · simp [JobSystem.start, JobBoard.start, JobBoard.view]
        at hMem
  · intro n thread hThread
    cases hThread

/- A thread that starts is faithful, or it does not start. -/
theorem Truthful.begin
    {s : JobSystem ι}
    (hTruthful : Truthful pd s)
    (n : ℕ)
    {thread : Thread ι}
    (hFaithful : thread.Faithful pd s.board)
    (created : List String) :
    Truthful pd { s.begin n thread with created := created } := by
  refine { told := hTruthful.told, threads := ?_ }
  intro m other hOther
  rcases JobSystem.threads_begin hOther with
    ⟨_, rfl⟩ | ⟨_, hBefore⟩
  · exact hFaithful
  · exact hTruthful.threads m other hBefore

theorem Truthful.over
    {s : JobSystem ι}
    (hTruthful : Truthful pd s)
    (n : ℕ) :
    Truthful pd (s.over n) := by
  refine { told := hTruthful.told, threads := ?_ }
  intro m other hOther
  exact
    hTruthful.threads m other (JobSystem.threads_over hOther).2

theorem Truthful.write
    {s : JobSystem ι}
    (hTruthful : Truthful pd s)
    {n : ℕ}
    {thread : Thread ι}
    {effect : Effect ι}
    {rest : List (Effect ι)}
    (hThread : s.threads n = some thread)
    (hLeft : thread.left = effect :: rest) :
    Truthful pd (s.write n thread effect rest) := by
  have hLater := s.board.later_perform effect
  have hFaithful := hTruthful.threads n thread hThread
  refine { told := ?_, threads := ?_ }
  · intro jobId hTells
    simp only [JobSystem.write, view_perform] at hTells
    split at hTells
    · next hId =>
        subst hId
        rcases JobView.tellsComplete_onView hTells with
          hBefore | hNow
        · exact (hTruthful.told _ hBefore).later hLater
        · exact (hFaithful.allPublished hLeft hNow).later hLater
    · exact (hTruthful.told jobId hTells).later hLater
  · intro m other hOther
    rcases JobSystem.threads_write hOther with
      ⟨_, rfl⟩ | ⟨_, hBefore⟩
    · exact hFaithful.write hLeft
    · exact (hTruthful.threads m other hBefore).later hLater

theorem Truthful.step
    {s : JobSystem ι}
    (hTruthful : Truthful pd s)
    (event : JobEvent ι) :
    Truthful pd (s.step pd event) := by
  have hTurn : s.Turn pd event _ := s.step_cases event
  generalize s.step pd event = after at hTurn
  cases hTurn with
  | same => exact hTruthful
  | waited time =>
      exact
        { told := hTruthful.told
          threads := fun n thread hThread =>
            (hTruthful.threads n thread hThread).later
              (.of_same rfl rfl) }
  | requested n request hFree hNew =>
      exact hTruthful.begin n (request.faithful _) _
  | delivered n message job hEvent hFree hJob =>
      have hMem := List.mem_of_getElem? hJob
      exact hTruthful.begin n (IngestJob.faithful hMem) _
  | wrote n thread effect rest hThread hLeft =>
      exact hTruthful.write hThread hLeft
  | returned n thread hThread hLeft =>
      have hOver := hTruthful.over n
      exact { told := hOver.told, threads := hOver.threads }
  | lost n => exact hTruthful.over n

theorem Truthful.run
    {s : JobSystem ι}
    (hTruthful : Truthful pd s)
    (events : List (JobEvent ι)) :
    Truthful pd (s.run pd events) := by
  induction events generalizing s with
  | nil => exact hTruthful
  | cons event events ih => exact ih (hTruthful.step event)

/- The thread that an event is about, if any. -/
def JobEvent.thread : JobEvent ι → Option ℕ
  | .waited _ => none
  | .requested thread _ => some thread
  | .delivered thread _ => some thread
  | .proceeded thread => some thread
  | .lost thread => some thread

/- Nothing else than its own events changes a thread. -/
theorem JobSystem.threads_step_of_ne
    (s : JobSystem ι)
    {event : JobEvent ι}
    {n : ℕ}
    (hNe : event.thread ≠ some n) :
    (s.step pd event).threads n = s.threads n := by
  cases event with
  | waited time => rfl
  | requested m request =>
      have hOther : n ≠ m := fun hEq => hNe (hEq ▸ rfl)
      simp only [JobSystem.step]
      split
      · exact Function.update_of_ne hOther _ _
      · rfl
  | delivered m message =>
      have hOther : n ≠ m := fun hEq => hNe (hEq ▸ rfl)
      simp only [JobSystem.step]
      split
      · exact Function.update_of_ne hOther _ _
      · rfl
  | proceeded m =>
      have hOther : n ≠ m := fun hEq => hNe (hEq ▸ rfl)
      simp only [JobSystem.step]
      split
      · rfl
      · split
        · exact Function.update_of_ne hOther _ _
        · exact Function.update_of_ne hOther _ _
  | lost m =>
      have hOther : n ≠ m := fun hEq => hNe (hEq ▸ rfl)
      exact Function.update_of_ne hOther _ _

theorem JobSystem.threads_run_of_ne
    (s : JobSystem ι)
    {events : List (JobEvent ι)}
    {n : ℕ}
    (hNe : ∀ event ∈ events, event.thread ≠ some n) :
    (s.run pd events).threads n = s.threads n := by
  induction events generalizing s with
  | nil => rfl
  | cons event events ih =>
      rw [List.forall_mem_cons] at hNe
      exact (ih _ hNe.2).trans (s.threads_step_of_ne hNe.1)

theorem JobSystem.later_run
    (s : JobSystem ι)
    (events : List (JobEvent ι)) :
    s.board.Later (s.run pd events).board := by
  have hStep :
      ∀ (s : JobSystem ι) (event : JobEvent ι),
        s.board.Later (s.step pd event).board := by
    intro s event
    have hTurn : s.Turn pd event _ := s.step_cases event
    generalize s.step pd event = after at hTurn
    cases hTurn with
    | wrote n thread effect rest hThread hLeft =>
        exact s.board.later_perform effect
    | same => exact .of_same rfl rfl
    | waited time => exact .of_same rfl rfl
    | requested n request hFree hNew => exact .of_same rfl rfl
    | delivered n message job hEvent hFree hJob =>
        exact .of_same rfl rfl
    | returned n thread hThread hLeft => exact .of_same rfl rfl
    | lost n => exact .of_same rfl rfl
  induction events generalizing s with
  | nil => exact .of_same rfl rfl
  | cons event events ih =>
      exact (hStep s event).trans (ih _)

------------------------------------------------------------
-- What a poll answers
------------------------------------------------------------

omit [DecidableEq ι] in
/- What a poll answers comes from a row and the counters. -/
theorem getIngestJob_eq_some
    {selected later : JobBoard ι}
    {tenantId jobId : String}
    {answer : IngestJobStatus}
    (hAnswer :
      getIngestJob selected later tenantId jobId =
        some answer) :
    ∃ row ∈ (selected.view jobId).rows,
      row.tenantId = tenantId ∧
        answer = merge row (later.readProgress jobId) := by
  unfold getIngestJob at hAnswer
  rcases Option.map_eq_some_iff.mp hAnswer with
    ⟨row, hFound, hMerge⟩
  have hMem := List.mem_of_find?_eq_some hFound
  have hRow := List.find?_some hFound
  rw [decide_eq_true_eq] at hRow
  exact
    ⟨row, List.mem_filter.mpr ⟨hMem, decide_eq_true hRow.1⟩,
      hRow.2, hMerge.symm⟩

omit [DecidableEq ι] in
/- Counters that are read are the ones written last. -/
theorem view_live_of_readProgress
    {board : JobBoard ι}
    {jobId : String}
    {job : LiveJob}
    (hRead : board.readProgress jobId = some job) :
    (board.view jobId).live = some job.report := by
  have hWritten := TtlStore.written_of_get hRead
  simp [JobBoard.view, hWritten]

/-
  A poll that answers that a job is complete does so after
  all events of the job were published, however often the
  job was delivered, whatever was lost, and whether or not
  the counters have expired.
-/
theorem published_of_complete
    (before between : List (JobEvent ι))
    {tenantId jobId : String}
    {answer : IngestJobStatus}
    (hAnswer :
      getIngestJob (JobSystem.start.run pd before).board
          ((JobSystem.start.run pd before).run pd between).board
          tenantId jobId =
        some answer)
    (hComplete : answer.status = .reported .complete) :
    AllPublished pd
      ((JobSystem.start.run pd before).run pd between).board
      jobId := by
  have hSelected :
      Truthful pd (JobSystem.start.run pd before) :=
    truthful_start.run before
  have hLater := hSelected.run between
  rcases getIngestJob_eq_some hAnswer with
    ⟨row, hRow, _, rfl⟩
  cases hRead :
      ((JobSystem.start.run pd before).run pd
        between).board.readProgress jobId with
  | none =>
      rw [hRead] at hComplete
      have hTells := hSelected.told jobId
        (Or.inl ⟨row, hRow, hComplete⟩)
      exact hTells.later (JobSystem.later_run _ between)
  | some job =>
      rw [hRead] at hComplete
      exact
        hLater.told jobId
          (Or.inr
            ⟨job.report, view_live_of_readProgress hRead,
              hComplete⟩)

end Runs

/- A thread does so many writes, and returns after the last. -/
def proceeds
    (thread count : ℕ) : List (JobEvent ℕ) :=
  List.replicate count (.proceeded thread)

/- The upload of a table with one row. -/
def oneRowRequest : NewJob ℕ :=
  { job := oneRow
    kind := .csv
    filename := "table.csv"
    speed := 60 }

/- An upload is requested, and its job is handled. -/
def oneRowHandled : List (JobEvent ℕ) :=
  .requested 0 oneRowRequest :: proceeds 0 5 ++
    .delivered 1 0 :: proceeds 1 11

/-
  A second delivery is lost on its way, and the poll still
  tells that the only event has been published.
-/
theorem published_of_complete_lostAgain :
    AllPublished samplePandas
      ((JobSystem.start.run samplePandas oneRowHandled).run
        samplePandas [.delivered 2 0, .lost 2]).board
      "job" := by
  have hFound :
      (getIngestJob
        (JobSystem.start.run samplePandas oneRowHandled).board
        ((JobSystem.start.run samplePandas oneRowHandled).run
          samplePandas [.delivered 2 0, .lost 2]).board
        "tenant" "job").map IngestJobStatus.status =
        some (.reported .complete) := by
    decide +kernel
  rcases Option.map_eq_some_iff.mp hFound with
    ⟨answer, hAnswer, hStatus⟩
  exact
    published_of_complete oneRowHandled
      [.delivered 2 0, .lost 2] hAnswer hStatus

end Ingest

end Nidra
