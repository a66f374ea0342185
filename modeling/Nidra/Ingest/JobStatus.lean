import Nidra.Api.Uploads
import Nidra.Ingest.OneReplay
import Nidra.Lib.PyFloat
import Nidra.Lib.TtlStore

/-
  This file defines how the state of a job is kept and told:
  a row in the database, which lasts, and counters in Redis,
  which are fresher but expire. A poll merges the two. The
  requests and the handlers write them one write at a time.

  Key definitions include:
    * `JobReport`, `progressFraction`
    * `LiveJob`, `JobRow`, `JobBoard`
    * `Effect`, `JobBoard.perform`
    * `createIngestJob`, `handlerEffects`, `jobResult`
    * `merge`, `getIngestJob`
    * `JobView`, `JobBoard.view`, `Effect.onView`

  Main declarations:
    * `view_perform`
    * `handlerEffects_of_result`
    * `publishedBy_of_complete`
-/

namespace Nidra

namespace Ingest

variable {ι : Type}

------------------------------------------------------------
-- What is told of a job
------------------------------------------------------------

/- Queued by a request, or as a handler last reported. -/
inductive ShownStatus where
  | queued
  | reported (status : JobStatus)
deriving DecidableEq, Repr

/- One report; the last one is the result of a handler. -/
structure JobReport where
  status : ShownStatus
  processed : ℕ
  total : ℕ
  error : String
deriving DecidableEq, Repr

def queuedReport : JobReport :=
  { status := .queued
    processed := 0
    total := 0
    error := "" }

/-
  The part of a job that is done, as a float. The total of a
  capture is not known, so one in flight has done nothing.
-/
def progressFraction
    (processed total : ℕ)
    (status : ShownStatus) : ℚ :=
  if status = .reported .complete then 1
  else if total ≤ 0 then 0
  else min 1 (max 0 (PyFloat.nearest (processed / total)))

def JobReport.progress (report : JobReport) : ℚ :=
  progressFraction report.processed report.total report.status

/- No error at all when its text is empty. -/
def shownError (error : String) : Option String :=
  if error = "" then none else some error

------------------------------------------------------------
-- What is kept of a job
------------------------------------------------------------

/- The live counters of a job. -/
structure LiveJob where
  report : JobReport
  kind : Option Api.JobKind
  speed : Option ℚ

/- The row of a job. -/
structure JobRow where
  id : String
  tenantId : String
  filename : String
  kind : Api.JobKind
  status : ShownStatus
  progress : ℚ
  error : Option String

def jobKey (jobId : String) : String :=
  "job:" ++ jobId

theorem jobKey_injective :
    Function.Injective jobKey := by
  intro first second hEq
  unfold jobKey at hEq
  rwa [String.append_right_inj] at hEq

/- Long enough to look at a job that has finished. -/
def jobTtl : ℚ := 24 * 3600

/- The database, Redis and the streams, as jobs use them. -/
structure JobBoard (ι : Type) where
  now : ℚ
  live : TtlStore ℚ String LiveJob
  rows : List JobRow
  queue : List (IngestJob ι)
  log : JobLog

def JobBoard.start : JobBoard ι :=
  { now := 0
    live := .empty
    rows := []
    queue := []
    log := [] }

------------------------------------------------------------
-- The writes
------------------------------------------------------------

/- One write of a request or of a handler. -/
inductive Effect (ι : Type) where
  | insertRow (row : JobRow)
  | seed (jobId : String) (kind : Api.JobKind) (speed : ℚ)
  | renew (jobId : String)
  | enqueue (job : IngestJob ι)
  | setCounters (jobId : String) (report : JobReport)
  | updateRow (jobId tenantId : String) (report : JobReport)
  | publish (jobId : String) (event : RawEvent ℚ)

/- The job that a write is about. -/
def Effect.jobId : Effect ι → String
  | .insertRow row => row.id
  | .seed jobId _ _ => jobId
  | .renew jobId => jobId
  | .enqueue job => job.jobId
  | .setCounters jobId _ => jobId
  | .updateRow jobId _ _ => jobId
  | .publish jobId _ => jobId

/-
  A row after an update on its identifier and its tenant. The
  column of progress keeps 32-bit floats.
-/
def JobRow.told
    (jobId tenantId : String)
    (report : JobReport)
    (row : JobRow) : JobRow :=
  if row.id = jobId ∧ row.tenantId = tenantId then
    { row with
      status := report.status
      progress := PyFloat.nearestSingle report.progress
      error := shownError report.error }
  else row

def JobBoard.perform
    (board : JobBoard ι) : Effect ι → JobBoard ι
  | .insertRow row =>
      { board with rows := board.rows ++ [row] }
  | .seed jobId kind speed =>
      { board with
        live :=
          board.live.put board.now (jobKey jobId)
            { report := queuedReport
              kind := some kind
              speed := some speed } }
  | .renew jobId =>
      { board with
        live :=
          board.live.expire board.now jobTtl (jobKey jobId) }
  | .enqueue job =>
      { board with queue := board.queue ++ [job] }
  | .setCounters jobId report =>
      -- The fields that are not written stay as they are.
      let former := board.live.get board.now (jobKey jobId)
      { board with
        live :=
          board.live.put board.now (jobKey jobId)
            { report := report
              kind := former.bind LiveJob.kind
              speed := former.bind LiveJob.speed } }
  | .updateRow jobId tenantId report =>
      { board with
        rows := board.rows.map (.told jobId tenantId report) }
  | .publish jobId event =>
      { board with
        log := board.log ++ [(jobId, .published event)] }

------------------------------------------------------------
-- A request
------------------------------------------------------------

/- A job whose upload was accepted. -/
structure NewJob (ι : Type) where
  job : IngestJob ι
  kind : Api.JobKind
  filename : String
  speed : ℚ

/- Seed the counters before a worker starts. -/
def initProgress (request : NewJob ι) : List (Effect ι) :=
  [.seed request.job.jobId request.kind request.speed,
    .renew request.job.jobId]

/- Insert the row, seed the counters and queue the job. -/
def createIngestJob (request : NewJob ι) : List (Effect ι) :=
  .insertRow
      { id := request.job.jobId
        tenantId := request.job.tenantId
        filename := request.filename
        kind := request.kind
        status := .queued
        progress := 0
        error := none } ::
    initProgress request ++ [.enqueue request.job]

------------------------------------------------------------
-- A handler
------------------------------------------------------------

def setProgress
    (jobId : String)
    (report : JobReport) : List (Effect ι) :=
  [.setCounters jobId report, .renew jobId]

/- Write the live counters, and then the row. -/
def report
    (job : IngestJob ι)
    (told : JobReport) : List (Effect ι) :=
  setProgress job.jobId told ++
    [.updateRow job.jobId job.tenantId told]

/- The writes of one action of a handler. -/
def effectsOf
    (job : IngestJob ι) : Action → List (Effect ι)
  | .warned _ _ => []
  | .waited _ => []
  | .published event => [.publish job.jobId event]
  | .reported status processed total error =>
      report job
        { status := .reported status
          processed := processed
          total := total
          error := error }

/- What a handler returns at its end, unless it raises. -/
def endingResult
    (processed total : ℕ) : Option Raised → Option JobReport
  | none =>
      some
        { status := .reported .complete
          processed := processed
          total := total
          error := "" }
  | some (.ingestError message) =>
      some
        { status := .reported .error
          processed := processed
          total := total
          error := message }
  | some _ => none

section Handlers

variable [DecidableEq ι]

/- All writes of the handler of a job, in their order. -/
def handlerEffects
    (pd : Pandas)
    (job : IngestJob ι) : List (Effect ι) :=
  (runJob pd job).actions.flatMap (effectsOf job)

/- The result of the handler of a job. -/
def jobResult
    (pd : Pandas)
    (job : IngestJob ι) : Option JobReport :=
  match job.upload with
  | none =>
      endingResult 0 0
        (some
          (.ingestError
            ("uploaded file is gone: " ++ job.path)))
  | some upload =>
      endingResult
        (eventCount (job.source pd upload).chunks)
        upload.total (job.source pd upload).raised

end Handlers

------------------------------------------------------------
-- A poll
------------------------------------------------------------

/- What a poll answers. -/
structure IngestJobStatus where
  jobId : String
  kind : Api.JobKind
  filename : String
  status : ShownStatus
  processed : ℕ
  total : ℕ
  progress : ℚ
  speed : Option ℚ
  error : Option String

/- The row with the live counters over it. -/
def merge
    (row : JobRow)
    (live : Option LiveJob) : IngestJobStatus :=
  { jobId := row.id
    kind := row.kind
    filename := row.filename
    status :=
      (live.map (fun job => job.report.status)).getD row.status
    processed :=
      (live.map (fun job => job.report.processed)).getD 0
    total := (live.map (fun job => job.report.total)).getD 0
    progress :=
      (live.map (fun job => job.report.progress)).getD
        row.progress
    speed := live.bind LiveJob.speed
    error :=
      (live.bind (fun job => shownError job.report.error)).or
        (row.error.bind shownError) }

def JobBoard.readProgress
    (board : JobBoard ι)
    (jobId : String) : Option LiveJob :=
  board.live.get board.now (jobKey jobId)

/-
  The answer to a poll, or none where the tenant has no such
  job. The row is selected first, and other requests may come
  before the counters are read.
-/
def getIngestJob
    (selected later : JobBoard ι)
    (tenantId jobId : String) : Option IngestJobStatus :=
  (selected.rows.find? (fun row =>
      row.id = jobId ∧ row.tenantId = tenantId)).map
    (fun row => merge row (later.readProgress jobId))

------------------------------------------------------------
-- What is kept of one job
------------------------------------------------------------

/- The rows of a job, and the report in its counters. -/
structure JobView where
  rows : List JobRow
  live : Option JobReport

def JobBoard.view
    (board : JobBoard ι)
    (jobId : String) : JobView :=
  { rows := board.rows.filter (fun row => row.id = jobId)
    live :=
      (board.live.written (jobKey jobId)).map LiveJob.report }

/- What a write about a job does to what is kept of it. -/
def Effect.onView
    (view : JobView) : Effect ι → JobView
  | .insertRow row => { view with rows := view.rows ++ [row] }
  | .seed _ _ _ => { view with live := some queuedReport }
  | .renew _ => view
  | .enqueue _ => view
  | .setCounters _ told => { view with live := some told }
  | .updateRow jobId tenantId told =>
      { view with
        rows := view.rows.map (.told jobId tenantId told) }
  | .publish _ _ => view

@[simp] theorem JobRow.told_id
    (jobId tenantId : String)
    (told : JobReport)
    (row : JobRow) :
    (row.told jobId tenantId told).id = row.id := by
  unfold JobRow.told
  split <;> rfl

@[simp] theorem JobRow.told_tenantId
    (jobId tenantId : String)
    (told : JobReport)
    (row : JobRow) :
    (row.told jobId tenantId told).tenantId =
      row.tenantId := by
  unfold JobRow.told
  split <;> rfl

theorem JobRow.told_of_ne
    {jobId tenantId : String}
    {told : JobReport}
    {row : JobRow}
    (hNe : row.id ≠ jobId) :
    row.told jobId tenantId told = row := by
  unfold JobRow.told
  exact if_neg (fun hBoth => hNe hBoth.1)

/- An update leaves the rows of other jobs as they are. -/
theorem filter_map_told
    (rows : List JobRow)
    (jobId tenantId : String)
    (told : JobReport)
    (other : String) :
    (rows.map (JobRow.told jobId tenantId told)).filter
        (fun row => row.id = other) =
      if jobId = other then
        (rows.filter (fun row => row.id = other)).map
          (.told jobId tenantId told)
      else rows.filter (fun row => row.id = other) := by
  have hFilter :
      (rows.map (JobRow.told jobId tenantId told)).filter
          (fun row => row.id = other) =
        (rows.filter (fun row => row.id = other)).map
          (.told jobId tenantId told) := by
    rw [List.filter_map]
    congr 2
    funext row
    simp
  rw [hFilter]
  split
  · rfl
  · next hNe =>
      rw [List.map_congr_left, List.map_id']
      intro row hMem
      have hId : row.id = other := by
        simpa using (List.mem_filter.mp hMem).2
      exact JobRow.told_of_ne (fun hEq => hNe (hEq ▸ hId))

/- Counters are written for one job alone. -/
theorem written_put
    (live : TtlStore ℚ String LiveJob)
    (now : ℚ)
    (jobId other : String)
    (job : LiveJob) :
    ((live.put now (jobKey jobId) job).written
        (jobKey other)).map LiveJob.report =
      if jobId = other then some job.report
      else (live.written (jobKey other)).map LiveJob.report := by
  split
  · next hEq =>
      subst hEq
      simp
  · next hNe =>
      have hKey : jobKey other ≠ jobKey jobId :=
        fun hEq => hNe (jobKey_injective hEq).symm
      rw [TtlStore.written_put_ne _ _ _ hKey]

/- A write is about one job, and leaves all others alone. -/
theorem view_perform
    (board : JobBoard ι)
    (effect : Effect ι)
    (jobId : String) :
    (board.perform effect).view jobId =
      if effect.jobId = jobId then
        effect.onView (board.view jobId)
      else board.view jobId := by
  cases effect with
  | insertRow row =>
      by_cases hEq : row.id = jobId <;>
        simp [JobBoard.view, JobBoard.perform, Effect.onView,
          Effect.jobId, hEq]
  | seed written kind speed =>
      by_cases hEq : written = jobId <;>
        simp [JobBoard.view, JobBoard.perform, Effect.onView,
          Effect.jobId, written_put, hEq]
  | setCounters written told =>
      by_cases hEq : written = jobId <;>
        simp [JobBoard.view, JobBoard.perform, Effect.onView,
          Effect.jobId, written_put, hEq]
  | updateRow written tenantId told =>
      by_cases hEq : written = jobId <;>
        simp [JobBoard.view, JobBoard.perform, Effect.onView,
          Effect.jobId, filter_map_told, hEq]
  | renew written =>
      simp only [JobBoard.view, JobBoard.perform, Effect.onView,
        TtlStore.written_expire, ite_self]
  | enqueue job =>
      simp only [JobBoard.view, JobBoard.perform, Effect.onView,
        ite_self]
  | publish written event =>
      simp only [JobBoard.view, JobBoard.perform, Effect.onView,
        ite_self]

------------------------------------------------------------
-- What the writes of a handler are
------------------------------------------------------------

/- The events that some writes publish. -/
def publishedBy (effects : List (Effect ι)) :
    List (RawEvent ℚ) :=
  effects.filterMap (fun effect =>
    match effect with
    | .publish _ event => some event
    | _ => none)

/- Whether a write tells that its job is complete. -/
def Effect.tellsComplete : Effect ι → Bool
  | .insertRow row => row.status = .reported .complete
  | .setCounters _ told => told.status = .reported .complete
  | .updateRow _ _ told => told.status = .reported .complete
  | _ => false

theorem jobId_of_mem_report
    {job : IngestJob ι}
    {told : JobReport}
    {effect : Effect ι}
    (hMem : effect ∈ report job told) :
    effect.jobId = job.jobId := by
  simp only [report, setProgress, List.cons_append,
    List.nil_append, List.mem_cons, List.not_mem_nil,
    or_false] at hMem
  rcases hMem with rfl | rfl | rfl <;> rfl

theorem jobId_of_mem_createIngestJob
    {request : NewJob ι}
    {effect : Effect ι}
    (hMem : effect ∈ createIngestJob request) :
    effect.jobId = request.job.jobId := by
  simp only [createIngestJob, initProgress, List.cons_append,
    List.nil_append, List.mem_cons, List.not_mem_nil,
    or_false] at hMem
  rcases hMem with rfl | rfl | rfl | rfl <;> rfl

theorem publishedBy_effectsOf
    (job : IngestJob ι)
    (action : Action) :
    publishedBy (effectsOf job action) =
      publishedEvents [action] := by
  cases action <;> rfl

theorem publishedBy_flatMap
    (job : IngestJob ι)
    (actions : List Action) :
    publishedBy (actions.flatMap (effectsOf job)) =
      publishedEvents actions := by
  induction actions with
  | nil => rfl
  | cons action actions ih =>
      have hSplit :
          publishedEvents (action :: actions) =
            publishedEvents [action] ++
              publishedEvents actions :=
        publishedEvents_append [action] actions
      rw [List.flatMap_cons, hSplit, ← ih,
        ← publishedBy_effectsOf job action]
      exact List.filterMap_append

/- Only the report of success tells that a job is complete. -/
theorem tellsComplete_effectsOf
    {job : IngestJob ι}
    {action : Action}
    {effect : Effect ι}
    (hMem : effect ∈ effectsOf job action)
    (hTells : effect.tellsComplete = true) :
    isComplete action = true := by
  cases action with
  | warned event lastTs => cases hMem
  | waited ts => cases hMem
  | published event =>
      rw [List.mem_singleton.mp hMem] at hTells
      cases hTells
  | reported status processed total error =>
      simp only [effectsOf, report, setProgress,
        List.cons_append, List.nil_append, List.mem_cons,
        List.not_mem_nil, or_false] at hMem
      have hStatus : status = .complete := by
        rcases hMem with rfl | rfl | rfl
        · simpa [Effect.tellsComplete] using hTells
        · cases hTells
        · simpa [Effect.tellsComplete] using hTells
      rw [hStatus]
      rfl

section Handlers

variable [DecidableEq ι]

theorem jobId_of_mem_handlerEffects
    {pd : Pandas}
    {job : IngestJob ι}
    {effect : Effect ι}
    (hMem : effect ∈ handlerEffects pd job) :
    effect.jobId = job.jobId := by
  rcases List.mem_flatMap.mp hMem with
    ⟨action, _, hEffect⟩
  cases action with
  | warned event lastTs => cases hEffect
  | waited ts => cases hEffect
  | published event =>
      rw [List.mem_singleton.mp hEffect]
      rfl
  | reported status processed total error =>
      exact jobId_of_mem_report hEffect

/- The last action of a handler reports its result. -/
theorem actions_of_endingResult
    {processed total : ℕ}
    {raised : Option Raised}
    {result : JobReport}
    (hResult :
      endingResult processed total raised = some result) :
    ∃ status,
      result.status = .reported status ∧
        (ending processed total raised).actions =
          [.reported status result.processed result.total
            result.error] := by
  cases raised with
  | none =>
      cases hResult
      exact ⟨.complete, rfl, rfl⟩
  | some error =>
      cases error with
      | ingestError message =>
          cases hResult
          exact ⟨.error, rfl, rfl⟩
      | valueError => cases hResult
      | typeError => cases hResult
      | overflowError => cases hResult
      | osError => cases hResult
      | validationError => cases hResult

/- A handler that returns ends with a report of its result. -/
theorem handlerEffects_of_result
    {pd : Pandas}
    {job : IngestJob ι}
    {result : JobReport}
    (hResult : jobResult pd job = some result) :
    ∃ front, handlerEffects pd job =
      front ++ report job result := by
  have hLast :
      ∃ front status,
        result.status = .reported status ∧
          (runJob pd job).actions =
            front ++
              [.reported status result.processed result.total
                result.error] := by
    unfold jobResult at hResult
    unfold runJob
    cases hUpload : job.upload with
    | none =>
        rw [hUpload] at hResult
        rcases actions_of_endingResult hResult with
          ⟨status, hStatus, hActions⟩
        exact ⟨[], status, hStatus, hActions⟩
    | some upload =>
        rw [hUpload] at hResult
        rcases actions_of_endingResult hResult with
          ⟨status, hStatus, hActions⟩
        refine
          ⟨.reported .running 0 upload.total "" ::
            replay upload.total none 0
              (job.source pd upload).chunks,
            status, hStatus, ?_⟩
        rw [← hActions]
        rfl
  rcases hLast with ⟨front, status, hStatus, hActions⟩
  refine ⟨front.flatMap (effectsOf job), ?_⟩
  unfold handlerEffects
  rw [hActions, List.flatMap_append, List.flatMap_singleton]
  simp only [effectsOf, ← hStatus]

/- No action before the report of success reports success. -/
theorem incomplete_before
    {pd : Pandas}
    {job : IngestJob ι}
    {before : List Action}
    {action : Action}
    (hActions : (runJob pd job).actions = before ++ [action]) :
    ∀ other ∈ before, isComplete other = false := by
  intro other hMem
  rcases List.append_of_mem hMem with ⟨front, back, rfl⟩
  by_contra hNot
  rw [Bool.not_eq_false] at hNot
  have hSplit :
      (runJob pd job).actions =
        front ++ other :: (back ++ [action]) := by
    rw [hActions]
    simp
  rcases complete_last hSplit hNot with ⟨hNil, _⟩
  simp at hNil

/- When success is told, every event has been published. -/
theorem publishedBy_of_complete
    {pd : Pandas}
    {job : IngestJob ι}
    {done rest : List (Effect ι)}
    {effect : Effect ι}
    (hSplit :
      handlerEffects pd job = done ++ effect :: rest)
    (hTells : effect.tellsComplete = true) :
    publishedBy done = jobEvents pd job := by
  have hMem : effect ∈ handlerEffects pd job := by
    rw [hSplit]
    simp
  rcases List.mem_flatMap.mp hMem with
    ⟨action, hAction, hEffect⟩
  have hComplete := tellsComplete_effectsOf hEffect hTells
  rcases List.append_of_mem hAction with
    ⟨before, after, hActions⟩
  rcases complete_last hActions hComplete with ⟨rfl, _⟩
  have hQuiet : publishedEvents [action] = [] := by
    cases action with
    | published event => cases hComplete
    | warned event lastTs => rfl
    | waited ts => rfl
    | reported status processed total error => rfl
  have hAll :
      jobEvents pd job =
        publishedBy (before.flatMap (effectsOf job)) := by
    unfold jobEvents
    rw [hActions, publishedEvents_append, hQuiet,
      publishedBy_flatMap, List.append_nil]
  have hEffects :
      before.flatMap (effectsOf job) ++ effectsOf job action =
        done ++ effect :: rest := by
    rw [← hSplit]
    unfold handlerEffects
    rw [hActions, List.flatMap_append, List.flatMap_singleton]
  -- Success is told in the last report, not before it.
  rcases List.append_eq_append_iff.mp hEffects with
    ⟨start, hDone, hReport⟩ | ⟨start, hBefore, hReport⟩
  · have hNothing :
        publishedBy (start ++ effect :: rest) = [] := by
      rw [← hReport, publishedBy_effectsOf, hQuiet]
    have hStart : publishedBy start = [] := by
      unfold publishedBy at hNothing ⊢
      rw [List.filterMap_append] at hNothing
      exact (List.append_eq_nil_iff.mp hNothing).1
    rw [hAll, hDone]
    unfold publishedBy at hStart ⊢
    rw [List.filterMap_append, hStart, List.append_nil]
  · cases start with
    | nil =>
        rw [hAll, hBefore, List.append_nil]
    | cons first start =>
        rw [List.cons_append, List.cons.injEq] at hReport
        rcases hReport with ⟨rfl, _⟩
        have hEarly :
            effect ∈ before.flatMap (effectsOf job) := by
          rw [hBefore]
          simp
        rcases List.mem_flatMap.mp hEarly with
          ⟨other, hOther, hIn⟩
        have hNot := incomplete_before hActions other hOther
        have hAgain := tellsComplete_effectsOf hIn hTells
        rw [hNot] at hAgain
        cases hAgain

end Handlers

end Ingest

end Nidra
