import Nidra.Ingest.Polling

/-
  This file states that a poll answers the result of a job.
  It is so in every run in which no job is handled by two at
  a time: once a request or a handler has returned, the
  status and the error that a poll answers are those that it
  returned, and so is the progress, which the row keeps in
  fewer bits for when the counters have expired.

  Key definitions include:
    * `JobSystem.Alone`
    * `JobView.Tells`
    * `Effect.About`
    * `Settled`

  Main declarations:
    * `tells_handlerEffects`
    * `Settled.step`
    * `shown_of_returned`
-/

namespace Nidra

namespace Ingest

variable {ι : Type}

------------------------------------------------------------
-- One thread of a job at a time
------------------------------------------------------------

/-
  No message is delivered while the request of its job has
  not returned, or the job is being handled.
-/
def JobSystem.Alone
    (s : JobSystem ι) : JobEvent ι → Prop
  | .delivered _ message =>
      ∀ job ∈ s.board.queue[message]?, ∀ n, ∀ thread,
        s.threads n = some thread →
          thread.job.jobId ≠ job.jobId
  | _ => True

------------------------------------------------------------
-- What is kept tells a report
------------------------------------------------------------

/- The rows and the counters of a job agree on a report. -/
structure JobView.Tells
    (view : JobView)
    (told : JobReport) : Prop where
  rows :
    ∀ row ∈ view.rows,
      row.status = told.status ∧
        row.progress = PyFloat.nearestSingle told.progress ∧
          row.error = shownError told.error
  live : ∀ report ∈ view.live, report = told

/- The rows of a job are those of its tenant. -/
def JobView.OwnedBy
    (view : JobView)
    (job : IngestJob ι) : Prop :=
  ∀ row ∈ view.rows,
    row.id = job.jobId ∧ row.tenantId = job.tenantId

/- A write about a job, in the name of its tenant. -/
def Effect.About
    (job : IngestJob ι) : Effect ι → Prop
  | .insertRow row =>
      row.id = job.jobId ∧ row.tenantId = job.tenantId
  | .seed jobId _ _ => jobId = job.jobId
  | .renew jobId => jobId = job.jobId
  | .enqueue other => other = job
  | .setCounters jobId _ => jobId = job.jobId
  | .updateRow jobId tenantId _ =>
      jobId = job.jobId ∧ tenantId = job.tenantId
  | .publish jobId _ => jobId = job.jobId

theorem Effect.About.jobId_eq
    {job : IngestJob ι}
    {effect : Effect ι}
    (hAbout : effect.About job) :
    effect.jobId = job.jobId := by
  cases effect with
  | insertRow row => exact hAbout.1
  | updateRow jobId tenantId told => exact hAbout.1
  | enqueue other => exact congrArg IngestJob.jobId hAbout
  | seed jobId kind speed => exact hAbout
  | renew jobId => exact hAbout
  | setCounters jobId told => exact hAbout
  | publish jobId event => exact hAbout

theorem JobView.OwnedBy.onView
    {view : JobView}
    {job : IngestJob ι}
    {effect : Effect ι}
    (hOwned : view.OwnedBy job)
    (hAbout : effect.About job) :
    (effect.onView view).OwnedBy job := by
  cases effect with
  | insertRow row =>
      intro found hMem
      rcases List.mem_append.mp hMem with hOld | hNew
      · exact hOwned found hOld
      · rw [List.mem_singleton.mp hNew]
        exact hAbout
  | updateRow jobId tenantId told =>
      intro found hMem
      rcases List.mem_map.mp hMem with ⟨former, hOld, rfl⟩
      rw [JobRow.told_id, JobRow.told_tenantId]
      exact hOwned former hOld
  | seed jobId kind speed => exact hOwned
  | renew jobId => exact hOwned
  | enqueue other => exact hOwned
  | setCounters jobId told => exact hOwned
  | publish jobId event => exact hOwned

theorem JobView.OwnedBy.foldl
    {view : JobView}
    {job : IngestJob ι}
    {effects : List (Effect ι)}
    (hOwned : view.OwnedBy job)
    (hAbout : ∀ effect ∈ effects, effect.About job) :
    (effects.foldl Effect.onView view).OwnedBy job := by
  induction effects generalizing view with
  | nil => exact hOwned
  | cons effect effects ih =>
      rw [List.forall_mem_cons] at hAbout
      exact ih (hOwned.onView hAbout.1) hAbout.2

/- After a report the rows and the counters tell it. -/
theorem tells_report
    {view : JobView}
    {job : IngestJob ι}
    (hOwned : view.OwnedBy job)
    (told : JobReport) :
    ((report job told).foldl Effect.onView view).Tells told := by
  refine { rows := ?_, live := ?_ }
  · intro row hMem
    change
      row ∈
        view.rows.map (.told job.jobId job.tenantId told)
        at hMem
    rcases List.mem_map.mp hMem with ⟨former, hOld, rfl⟩
    unfold JobRow.told
    rw [if_pos (hOwned former hOld)]
    exact ⟨rfl, rfl, rfl⟩
  · intro found hMem
    change found ∈ some told at hMem
    exact (Option.some_inj.mp hMem).symm

/- After a request they tell that the job is queued. -/
theorem tells_createIngestJob
    (request : NewJob ι) :
    ((createIngestJob request).foldl Effect.onView
      { rows := [], live := none }).Tells queuedReport := by
  refine { rows := ?_, live := ?_ }
  · intro row hMem
    rw [createIngestJob] at hMem
    rw [List.mem_singleton.mp hMem]
    refine ⟨rfl, ?_, rfl⟩
    change (0 : ℚ) = PyFloat.nearestSingle queuedReport.progress
    decide +kernel
  · intro found hMem
    change found ∈ some queuedReport at hMem
    exact (Option.some_inj.mp hMem).symm

theorem about_of_mem_createIngestJob
    {request : NewJob ι}
    {effect : Effect ι}
    (hMem : effect ∈ createIngestJob request) :
    effect.About request.job := by
  simp only [createIngestJob, initProgress, List.cons_append,
    List.nil_append, List.mem_cons, List.not_mem_nil,
    or_false] at hMem
  rcases hMem with rfl | rfl | rfl | rfl
  · exact ⟨rfl, rfl⟩
  · rfl
  · rfl
  · rfl

theorem about_of_mem_effectsOf
    {job : IngestJob ι}
    {action : Action}
    {effect : Effect ι}
    (hMem : effect ∈ effectsOf job action) :
    effect.About job := by
  cases action with
  | warned event lastTs => cases hMem
  | waited ts => cases hMem
  | published event =>
      rw [List.mem_singleton.mp hMem]
      rfl
  | reported status processed total error =>
      simp only [effectsOf, report, setProgress,
        List.cons_append, List.nil_append, List.mem_cons,
        List.not_mem_nil, or_false] at hMem
      rcases hMem with rfl | rfl | rfl
      · rfl
      · rfl
      · exact ⟨rfl, rfl⟩

section Runs

variable [DecidableEq ι]
variable {pd : Pandas}

theorem about_of_mem_handlerEffects
    {job : IngestJob ι}
    {effect : Effect ι}
    (hMem : effect ∈ handlerEffects pd job) :
    effect.About job := by
  rcases List.mem_flatMap.mp hMem with
    ⟨action, _, hEffect⟩
  exact about_of_mem_effectsOf hEffect

/-
  A handler that is let to its end leaves what it returned,
  whatever there was before.
-/
theorem tells_handlerEffects
    {view : JobView}
    {job : IngestJob ι}
    {result : JobReport}
    (hOwned : view.OwnedBy job)
    (hResult : jobResult pd job = some result) :
    ((handlerEffects pd job).foldl Effect.onView view).Tells
      result := by
  rcases handlerEffects_of_result hResult with
    ⟨front, hEffects⟩
  have hFront : ∀ effect ∈ front, effect.About job := by
    intro effect hMem
    have hIn : effect ∈ handlerEffects pd job := by
      rw [hEffects]
      exact List.mem_append_left _ hMem
    exact about_of_mem_handlerEffects hIn
  rw [hEffects, List.foldl_append]
  exact tells_report (hOwned.foldl hFront) result

------------------------------------------------------------
-- Jobs after a turn
------------------------------------------------------------

/- A job that is queued or that a thread is about. -/
def JobSystem.Present
    (s : JobSystem ι)
    (job : IngestJob ι) : Prop :=
  job ∈ s.board.queue ∨
    ∃ n thread, s.threads n = some thread ∧ thread.job = job

omit [DecidableEq ι] in
theorem JobSystem.present_over
    {s : JobSystem ι}
    {n : ℕ}
    {job : IngestJob ι}
    (hPresent : (s.over n).Present job) :
    s.Present job := by
  rcases hPresent with hMem | ⟨m, thread, hThread, hJob⟩
  · exact Or.inl hMem
  · have hBefore := (JobSystem.threads_over hThread).2
    exact Or.inr ⟨m, thread, hBefore, hJob⟩

omit [DecidableEq ι] in
theorem JobSystem.present_begin
    {s : JobSystem ι}
    {n : ℕ}
    {thread : Thread ι}
    {job : IngestJob ι}
    (hPresent : (s.begin n thread).Present job) :
    job = thread.job ∨ s.Present job := by
  rcases hPresent with hMem | ⟨m, other, hOther, hJob⟩
  · exact Or.inr (Or.inl hMem)
  · rcases JobSystem.threads_begin hOther with
      ⟨_, rfl⟩ | ⟨_, hBefore⟩
    · exact Or.inl hJob.symm
    · exact Or.inr (Or.inr ⟨m, other, hBefore, hJob⟩)

omit [DecidableEq ι] in
/- A job that starts again has no result until it returns. -/
theorem JobSystem.results_begin
    {s : JobSystem ι}
    {n : ℕ}
    {thread : Thread ι}
    {jobId : String}
    {result : JobReport}
    (hResult :
      (s.begin n thread).results jobId = some result) :
    jobId ≠ thread.job.jobId ∧
      s.results jobId = some result := by
  simp only [JobSystem.begin, Function.update_apply] at hResult
  split at hResult
  · cases hResult
  · next hNe => exact ⟨hNe, hResult⟩

section Write

variable {s : JobSystem ι}
variable {n : ℕ}
variable {thread : Thread ι}
variable {effect : Effect ι}
variable {rest : List (Effect ι)}

omit [DecidableEq ι] in
/- Every thread has the job that it had before a write. -/
theorem JobSystem.job_before_write
    (hThread : s.threads n = some thread)
    {m : ℕ}
    {other : Thread ι}
    (hOther :
      (s.write n thread effect rest).threads m =
        some other) :
    ∃ before, s.threads m = some before ∧
      before.job = other.job := by
  rcases JobSystem.threads_write hOther with
    ⟨rfl, rfl⟩ | ⟨_, hBefore⟩
  · exact ⟨thread, hThread, rfl⟩
  · exact ⟨other, hBefore, rfl⟩

omit [DecidableEq ι] in
theorem JobSystem.present_write
    (hThread : s.threads n = some thread)
    (hAbout : effect.About thread.job)
    {job : IngestJob ι}
    (hPresent :
      (s.write n thread effect rest).Present job) :
    s.Present job := by
  rcases hPresent with hMem | ⟨m, other, hOther, hJob⟩
  · cases effect with
    | enqueue queued =>
        rcases List.mem_append.mp hMem with hOld | hNew
        · exact Or.inl hOld
        · rw [List.mem_singleton.mp hNew, hAbout]
          exact Or.inr ⟨n, thread, hThread, rfl⟩
    | insertRow row => exact Or.inl hMem
    | seed jobId kind speed => exact Or.inl hMem
    | renew jobId => exact Or.inl hMem
    | setCounters jobId told => exact Or.inl hMem
    | updateRow jobId tenantId told => exact Or.inl hMem
    | publish jobId event => exact Or.inl hMem
  · rcases JobSystem.job_before_write hThread hOther with
      ⟨before, hBefore, hEq⟩
    exact Or.inr ⟨m, before, hBefore, hEq.trans hJob⟩

omit [DecidableEq ι] in
/- A write about a job shows in that job alone. -/
theorem JobSystem.view_write_of_ne
    (hAbout : effect.About thread.job)
    {jobId : String}
    (hNe : jobId ≠ thread.job.jobId) :
    (s.write n thread effect rest).board.view jobId =
      s.board.view jobId := by
  change (s.board.perform effect).view jobId = _
  rw [view_perform, if_neg]
  rw [hAbout.jobId_eq]
  exact hNe.symm

omit [DecidableEq ι] in
theorem JobSystem.view_write_self
    (hAbout : effect.About thread.job) :
    (s.write n thread effect rest).board.view
        thread.job.jobId =
      effect.onView (s.board.view thread.job.jobId) := by
  change (s.board.perform effect).view thread.job.jobId = _
  rw [view_perform, if_pos hAbout.jobId_eq]

end Write

------------------------------------------------------------
-- The invariant
------------------------------------------------------------

/-
  Each job has one thread at most, which will leave what it
  returns, and what was returned is what is kept.
-/
structure Settled (s : JobSystem ι) : Prop where
  fresh :
    ∀ jobId, jobId ∉ s.created →
      s.board.view jobId = { rows := [], live := none }
  known : ∀ job, s.Present job → job.jobId ∈ s.created
  same :
    ∀ job other,
      s.Present job → s.Present other →
        job.jobId = other.jobId → job = other
  owned :
    ∀ job, s.Present job →
      (s.board.view job.jobId).OwnedBy job
  about :
    ∀ n thread, s.threads n = some thread →
      ∀ effect ∈ thread.left, effect.About thread.job
  alone :
    ∀ n m thread other,
      s.threads n = some thread → s.threads m = some other →
        thread.job.jobId = other.job.jobId → n = m
  idle :
    ∀ jobId result, s.results jobId = some result →
      ∀ n thread, s.threads n = some thread →
        thread.job.jobId ≠ jobId
  shown :
    ∀ jobId result, s.results jobId = some result →
      (s.board.view jobId).Tells result
  promised :
    ∀ n thread result, s.threads n = some thread →
      thread.result = some result →
        (thread.left.foldl Effect.onView
          (s.board.view thread.job.jobId)).Tells result

omit [DecidableEq ι] in
theorem settled_start :
    Settled (JobSystem.start : JobSystem ι) := by
  have hNobody :
      ∀ job : IngestJob ι,
        ¬ (JobSystem.start : JobSystem ι).Present job := by
    rintro job (hMem | ⟨n, thread, hThread, _⟩)
    · cases hMem
    · cases hThread
  refine
    { fresh := ?_
      known := fun job hPresent =>
        absurd hPresent (hNobody job)
      same := fun job other hPresent =>
        absurd hPresent (hNobody job)
      owned := fun job hPresent =>
        absurd hPresent (hNobody job)
      about := fun n thread hThread => by cases hThread
      alone := fun n m thread other hThread => by
        cases hThread
      idle := fun jobId result hResult => by cases hResult
      shown := fun jobId result hResult => by cases hResult
      promised := fun n thread result hThread => by
        cases hThread }
  intro jobId _
  simp [JobSystem.start, JobBoard.start, JobBoard.view]

omit [DecidableEq ι] in
/- A thread that is over leaves the others as they are. -/
theorem Settled.over
    {s : JobSystem ι}
    (hSettled : Settled s)
    (n : ℕ) :
    Settled (s.over n) := by
  exact
    { fresh := hSettled.fresh
      known := fun job hJob =>
        hSettled.known job (JobSystem.present_over hJob)
      same := fun job other hJob hOther =>
        hSettled.same job other (JobSystem.present_over hJob)
          (JobSystem.present_over hOther)
      owned := fun job hJob =>
        hSettled.owned job (JobSystem.present_over hJob)
      about := fun m thread hThread =>
        hSettled.about m thread
          (JobSystem.threads_over hThread).2
      alone := fun m k thread other hThread hOther =>
        hSettled.alone m k thread other
          (JobSystem.threads_over hThread).2
          (JobSystem.threads_over hOther).2
      idle := fun jobId result hResult m thread hThread =>
        hSettled.idle jobId result hResult m thread
          (JobSystem.threads_over hThread).2
      shown := hSettled.shown
      promised := fun m thread result hThread =>
        hSettled.promised m thread result
          (JobSystem.threads_over hThread).2 }

omit [DecidableEq ι] in
theorem Settled.return
    {s : JobSystem ι}
    (hSettled : Settled s)
    {n : ℕ}
    {thread : Thread ι}
    (hThread : s.threads n = some thread)
    (hLeft : thread.left = []) :
    Settled (s.return n thread) := by
  have hOver := hSettled.over n
  have hTells :
      ∀ result, thread.result = some result →
        (s.board.view thread.job.jobId).Tells result := by
    intro result hResult
    have hPromised :=
      hSettled.promised n thread result hThread hResult
    rw [hLeft] at hPromised
    exact hPromised
  refine
    { fresh := hOver.fresh
      known := hOver.known
      same := hOver.same
      owned := hOver.owned
      about := hOver.about
      alone := hOver.alone
      idle := ?_
      shown := ?_
      promised := hOver.promised }
  · intro jobId result hResult m other hOther hEq
    rcases JobSystem.threads_over hOther with ⟨hNe, hBefore⟩
    simp only [JobSystem.return, Function.update_apply]
      at hResult
    split at hResult
    · next hId =>
        exact
          hNe
            (hSettled.alone m n other thread hBefore hThread
              (hEq.trans hId))
    · exact
        hSettled.idle jobId result hResult m other hBefore hEq
  · intro jobId result hResult
    simp only [JobSystem.return, Function.update_apply]
      at hResult
    split at hResult
    · next hId =>
        subst hId
        exact hTells result hResult
    · exact hSettled.shown jobId result hResult

omit [DecidableEq ι] in
/- A thread starts for a job that no other thread is about. -/
theorem Settled.begin
    {s : JobSystem ι}
    (hSettled : Settled s)
    {n : ℕ}
    {thread : Thread ι}
    (created : List String)
    (hCreated : s.created ⊆ created)
    (hKnown : thread.job.jobId ∈ created)
    (hSame :
      ∀ job, s.Present job →
        job.jobId = thread.job.jobId → job = thread.job)
    (hOwned :
      (s.board.view thread.job.jobId).OwnedBy thread.job)
    (hAbout : ∀ effect ∈ thread.left, effect.About thread.job)
    (hAlone :
      ∀ m other, s.threads m = some other →
        other.job.jobId ≠ thread.job.jobId)
    (hPromised :
      ∀ result, thread.result = some result →
        (thread.left.foldl Effect.onView
          (s.board.view thread.job.jobId)).Tells result) :
    Settled { s.begin n thread with created := created } := by
  have hPresent :
      ∀ job,
        ({ s.begin n thread with created := created } :
          JobSystem ι).Present job →
          job = thread.job ∨ s.Present job := by
    intro job hJob
    have hBegun : (s.begin n thread).Present job := hJob
    exact JobSystem.present_begin hBegun
  have hResults :
      ∀ jobId result,
        (s.begin n thread).results jobId = some result →
          jobId ≠ thread.job.jobId ∧
            s.results jobId = some result :=
    fun _ _ hResult => JobSystem.results_begin hResult
  refine
    { fresh := fun jobId hNew =>
        hSettled.fresh jobId (fun hMem => hNew (hCreated hMem))
      known := ?_
      same := ?_
      owned := ?_
      about := ?_
      alone := ?_
      idle := ?_
      shown := fun jobId result hResult =>
        hSettled.shown jobId result
          (hResults jobId result hResult).2
      promised := ?_ }
  · intro job hJob
    rcases hPresent job hJob with rfl | hBefore
    · exact hKnown
    · exact hCreated (hSettled.known job hBefore)
  · intro job other hJob hOther hId
    rcases hPresent job hJob with rfl | hBefore
    · rcases hPresent other hOther with rfl | hBefore
      · rfl
      · exact (hSame other hBefore hId.symm).symm
    · rcases hPresent other hOther with rfl | hAlso
      · exact hSame job hBefore hId
      · exact hSettled.same job other hBefore hAlso hId
  · intro job hJob
    rcases hPresent job hJob with rfl | hBefore
    · exact hOwned
    · exact hSettled.owned job hBefore
  · intro m other hOther
    rcases JobSystem.threads_begin hOther with
      ⟨_, rfl⟩ | ⟨_, hBefore⟩
    · exact hAbout
    · exact hSettled.about m other hBefore
  · intro m k first second hFirst hSecond hId
    rcases JobSystem.threads_begin hFirst with
      ⟨rfl, rfl⟩ | ⟨_, hBefore⟩
    · rcases JobSystem.threads_begin hSecond with
        ⟨rfl, _⟩ | ⟨_, hBefore⟩
      · rfl
      · exact absurd hId.symm (hAlone k second hBefore)
    · rcases JobSystem.threads_begin hSecond with
        ⟨_, rfl⟩ | ⟨_, hAlso⟩
      · exact absurd hId (hAlone m first hBefore)
      · exact
          hSettled.alone m k first second hBefore hAlso hId
  · intro jobId result hResult m other hOther
    rcases hResults jobId result hResult with ⟨hNe, hBefore⟩
    rcases JobSystem.threads_begin hOther with
      ⟨_, rfl⟩ | ⟨_, hOld⟩
    · exact hNe.symm
    · exact hSettled.idle jobId result hBefore m other hOld
  · intro m other result hOther
    rcases JobSystem.threads_begin hOther with
      ⟨_, rfl⟩ | ⟨_, hBefore⟩
    · exact hPromised result
    · exact hSettled.promised m other result hBefore

omit [DecidableEq ι] in
theorem Settled.write
    {s : JobSystem ι}
    (hSettled : Settled s)
    {n : ℕ}
    {thread : Thread ι}
    {effect : Effect ι}
    {rest : List (Effect ι)}
    (hThread : s.threads n = some thread)
    (hLeft : thread.left = effect :: rest) :
    Settled (s.write n thread effect rest) := by
  have hAll := hSettled.about n thread hThread
  rw [hLeft, List.forall_mem_cons] at hAll
  rcases hAll with ⟨hAbout, hRest⟩
  have hMine : s.Present thread.job :=
    Or.inr ⟨n, thread, hThread, rfl⟩
  have hPresent :
      ∀ job, (s.write n thread effect rest).Present job →
        s.Present job :=
    fun _ hJob => JobSystem.present_write hThread hAbout hJob
  refine
    { fresh := ?_
      known := fun job hJob =>
        hSettled.known job (hPresent job hJob)
      same := fun job other hJob hOther =>
        hSettled.same job other (hPresent job hJob)
          (hPresent other hOther)
      owned := ?_
      about := ?_
      alone := ?_
      idle := ?_
      shown := ?_
      promised := ?_ }
  · intro jobId hNew
    have hNe : jobId ≠ thread.job.jobId := by
      intro hEq
      exact hNew (hEq ▸ hSettled.known thread.job hMine)
    exact
      (JobSystem.view_write_of_ne hAbout hNe).trans
        (hSettled.fresh jobId hNew)
  · intro job hJob
    have hBefore := hPresent job hJob
    by_cases hEq : job.jobId = thread.job.jobId
    · rw [hSettled.same job thread.job hBefore hMine hEq]
      have hOwned := hSettled.owned thread.job hMine
      rw [JobSystem.view_write_self hAbout]
      exact hOwned.onView hAbout
    · rw [JobSystem.view_write_of_ne hAbout hEq]
      exact hSettled.owned job hBefore
  · intro m other hOther
    rcases JobSystem.threads_write hOther with
      ⟨_, rfl⟩ | ⟨_, hBefore⟩
    · exact hRest
    · exact hSettled.about m other hBefore
  · intro m k first second hFirst hSecond hId
    rcases JobSystem.job_before_write hThread hFirst with
      ⟨former, hFormer, hEq⟩
    rcases JobSystem.job_before_write hThread hSecond with
      ⟨also, hAlso, hSame⟩
    apply hSettled.alone m k former also hFormer hAlso
    rw [hEq, hSame, hId]
  · intro jobId result hResult m other hOther
    rcases JobSystem.job_before_write hThread hOther with
      ⟨before, hBefore, hEq⟩
    rw [← hEq]
    exact hSettled.idle jobId result hResult m before hBefore
  · intro jobId result hResult
    have hNe :=
      hSettled.idle jobId result hResult n thread hThread
    rw [JobSystem.view_write_of_ne hAbout hNe.symm]
    exact hSettled.shown jobId result hResult
  · intro m other result hOther hResult
    rcases JobSystem.threads_write hOther with
      ⟨_, rfl⟩ | ⟨hNe, hBefore⟩
    · have hPromised :=
        hSettled.promised n thread result hThread hResult
      rw [hLeft, List.foldl_cons] at hPromised
      rw [JobSystem.view_write_self hAbout]
      exact hPromised
    · have hOther :
          other.job.jobId ≠ thread.job.jobId := by
        intro hEq
        exact
          hNe
            (hSettled.alone m n other thread hBefore hThread
              hEq)
      rw [JobSystem.view_write_of_ne hAbout hOther]
      exact hSettled.promised m other result hBefore hResult

omit [DecidableEq ι] in
/- A request starts with an identifier of its own. -/
theorem Settled.requested
    {s : JobSystem ι}
    (hSettled : Settled s)
    (n : ℕ)
    {request : NewJob ι}
    (hNew : request.job.jobId ∉ s.created) :
    Settled
      { s.begin n request.thread with
        created := request.job.jobId :: s.created } := by
  have hView := hSettled.fresh _ hNew
  have hOther :
      ∀ job, s.Present job →
        job.jobId ≠ request.job.jobId := by
    intro job hJob hEq
    exact hNew (hEq ▸ hSettled.known job hJob)
  apply hSettled.begin (request.job.jobId :: s.created)
    (List.subset_cons_self _ _) List.mem_cons_self
  · intro job hJob hEq
    exact absurd hEq (hOther job hJob)
  · change
      (s.board.view request.job.jobId).OwnedBy request.job
    rw [hView]
    intro row hMem
    cases hMem
  · intro effect hMem
    exact about_of_mem_createIngestJob hMem
  · intro m other hThread
    exact hOther other.job (Or.inr ⟨m, other, hThread, rfl⟩)
  · intro result hResult
    cases hResult
    change
      ((createIngestJob request).foldl Effect.onView
        (s.board.view request.job.jobId)).Tells queuedReport
    rw [hView]
    exact tells_createIngestJob request

theorem Settled.delivered
    {s : JobSystem ι}
    (hSettled : Settled s)
    (n : ℕ)
    {job : IngestJob ι}
    (hMem : job ∈ s.board.queue)
    (hAlone :
      ∀ m other, s.threads m = some other →
        other.job.jobId ≠ job.jobId) :
    Settled (s.begin n (job.thread pd)) := by
  have hJob : s.Present job := Or.inl hMem
  have hOwned := hSettled.owned job hJob
  apply hSettled.begin s.created (List.Subset.refl _)
    (hSettled.known job hJob)
  · intro other hOther hEq
    exact hSettled.same other job hOther hJob hEq
  · exact hOwned
  · intro effect hEffect
    exact about_of_mem_handlerEffects hEffect
  · exact hAlone
  · intro result hResult
    exact tells_handlerEffects hOwned hResult

theorem Settled.step
    {s : JobSystem ι}
    (hSettled : Settled s)
    {event : JobEvent ι}
    (hAlone : s.Alone event) :
    Settled (s.step pd event) := by
  have hTurn : s.Turn pd event _ := s.step_cases event
  generalize s.step pd event = after at hTurn
  cases hTurn with
  | same => exact hSettled
  | waited time =>
      exact
        { fresh := hSettled.fresh
          known := hSettled.known
          same := hSettled.same
          owned := hSettled.owned
          about := hSettled.about
          alone := hSettled.alone
          idle := hSettled.idle
          shown := hSettled.shown
          promised := hSettled.promised }
  | requested n request hFree hNew =>
      exact hSettled.requested n hNew
  | delivered n message job hEvent hFree hJob =>
      subst hEvent
      exact
        hSettled.delivered n (List.mem_of_getElem? hJob)
          (hAlone job hJob)
  | wrote n thread effect rest hThread hLeft =>
      exact hSettled.write hThread hLeft
  | returned n thread hThread hLeft =>
      exact hSettled.return hThread hLeft
  | lost n => exact hSettled.over n

------------------------------------------------------------
-- What a poll answers
------------------------------------------------------------

/-
  An answer that tells a report: with its counts and its
  progress, or, without the counters, with what the row keeps
  of the progress.
-/
structure IngestJobStatus.Tells
    (answer : IngestJobStatus)
    (told : JobReport) : Prop where
  status : answer.status = told.status
  error : answer.error = shownError told.error
  counts :
    (answer.processed, answer.total, answer.progress) =
        (told.processed, told.total, told.progress) ∨
      (answer.processed, answer.total, answer.progress) =
        (0, 0, PyFloat.nearestSingle told.progress)

theorem shownError_bind
    (error : String) :
    (shownError error).bind shownError = shownError error := by
  unfold shownError
  split
  · rfl
  · next hNe => exact if_neg hNe

/- A row and counters that tell a report make one that does. -/
theorem tells_merge
    {row : JobRow}
    {live : Option LiveJob}
    {told : JobReport}
    (hRow :
      row.status = told.status ∧
        row.progress = PyFloat.nearestSingle told.progress ∧
          row.error = shownError told.error)
    (hLive : ∀ job ∈ live, job.report = told) :
    (merge row live).Tells told := by
  rcases hRow with ⟨hStatus, hProgress, hError⟩
  have hShown :
      row.error.bind shownError = shownError told.error := by
    rw [hError, shownError_bind]
  cases live with
  | none =>
      exact
        { status := hStatus
          error := hShown
          counts := Or.inr (by rw [← hProgress]; rfl) }
  | some job =>
      have hReport := hLive job rfl
      subst hReport
      refine
        { status := rfl
          error := ?_
          counts := Or.inl rfl }
      change
        (shownError job.report.error).or
            (row.error.bind shownError) =
          shownError job.report.error
      rw [hShown, Option.or_self]

/-
  Once the request or the handler of a job has returned, a
  poll answers what it returned, if the job is not handled by
  two at a time and not handled again meanwhile.
-/
theorem shown_of_returned
    {before between : List (JobEvent ι)}
    (hBefore :
      AllAlong (JobSystem.step pd) JobSystem.Alone
        JobSystem.start before)
    (hBetween :
      AllAlong (JobSystem.step pd) JobSystem.Alone
        (JobSystem.start.run pd before) between)
    {tenantId jobId : String}
    {result : JobReport}
    (hReturned :
      (JobSystem.start.run pd before).results jobId =
        some result)
    (hStill :
      ((JobSystem.start.run pd before).run pd
        between).results jobId = some result)
    {answer : IngestJobStatus}
    (hAnswer :
      getIngestJob (JobSystem.start.run pd before).board
          ((JobSystem.start.run pd before).run pd between).board
          tenantId jobId =
        some answer) :
    answer.Tells result := by
  have hSelected :
      Settled (JobSystem.start.run pd before) := by
    apply AllAlong.invariant Settled _ settled_start hBefore
    intro s event hSettled hAlone
    exact hSettled.step hAlone
  have hLater :
      Settled
        ((JobSystem.start.run pd before).run pd between) := by
    apply AllAlong.invariant Settled _ hSelected hBetween
    intro s event hSettled hAlone
    exact hSettled.step hAlone
  rcases getIngestJob_eq_some hAnswer with
    ⟨row, hRow, _, rfl⟩
  have hTold := hSelected.shown jobId result hReturned
  have hLive := hLater.shown jobId result hStill
  apply tells_merge (hTold.rows row hRow)
  intro job hJob
  exact hLive.live job.report (view_live_of_readProgress hJob)

end Runs

/- Nobody is at work when the message is delivered. -/
theorem alone_oneRowHandled :
    AllAlong (JobSystem.step samplePandas) JobSystem.Alone
      JobSystem.start oneRowHandled := by
  have hIdle :
      ∀ n,
        ((JobSystem.start : JobSystem ℕ).run samplePandas
          (.requested 0 oneRowRequest ::
            proceeds 0 5)).threads n = none := by
    intro n
    by_cases hZero : n = 0
    · subst hZero
      rfl
    · apply JobSystem.threads_run_of_ne
      intro event hMem
      rcases List.mem_cons.mp hMem with rfl | hMem
      · exact fun hEq => hZero (Option.some_inj.mp hEq).symm
      · rw [(List.mem_replicate.mp hMem).2]
        exact fun hEq => hZero (Option.some_inj.mp hEq).symm
  have hDelivered :
      ((JobSystem.start : JobSystem ℕ).run samplePandas
        (.requested 0 oneRowRequest :: proceeds 0 5)).Alone
          (.delivered 1 0) := by
    intro job _ n thread hThread
    rw [hIdle n] at hThread
    cases hThread
  exact
    ⟨trivial, trivial, trivial, trivial, trivial, trivial,
      hDelivered, trivial, trivial, trivial, trivial, trivial,
      trivial, trivial, trivial, trivial, trivial, trivial,
      trivial⟩

/- Two days later the counters have expired. -/
theorem shown_of_returned_expired :
    ∃ answer,
      getIngestJob
          ((JobSystem.start : JobSystem ℕ).run samplePandas
            oneRowHandled).board
          (((JobSystem.start : JobSystem ℕ).run samplePandas
            oneRowHandled).run samplePandas
              [.waited 172800]).board
          "tenant" "job" =
        some answer ∧
      answer.Tells
        { status := .reported .complete
          processed := 1
          total := 1
          error := "" } := by
  have hFound :
      (getIngestJob
        ((JobSystem.start : JobSystem ℕ).run samplePandas
          oneRowHandled).board
        (((JobSystem.start : JobSystem ℕ).run samplePandas
          oneRowHandled).run samplePandas
            [.waited 172800]).board
        "tenant" "job").isSome = true := by
    decide +kernel
  have hReturned :
      ((JobSystem.start : JobSystem ℕ).run samplePandas
        oneRowHandled).results "job" =
        some
          { status := .reported .complete
            processed := 1
            total := 1
            error := "" } := by
    decide +kernel
  have hStill :
      (((JobSystem.start : JobSystem ℕ).run samplePandas
        oneRowHandled).run samplePandas
          [.waited 172800]).results "job" =
        some
          { status := .reported .complete
            processed := 1
            total := 1
            error := "" } := by
    decide +kernel
  have hWaited :
      AllAlong (JobSystem.step samplePandas) JobSystem.Alone
        ((JobSystem.start : JobSystem ℕ).run samplePandas
          oneRowHandled)
        [.waited 172800] :=
    ⟨trivial, trivial⟩
  rcases Option.isSome_iff_exists.mp hFound with
    ⟨answer, hAnswer⟩
  refine ⟨answer, hAnswer, ?_⟩
  exact
    shown_of_returned alone_oneRowHandled hWaited hReturned
      hStill hAnswer

end Ingest

end Nidra
