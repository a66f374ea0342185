import Nidra.Ingest.Parsers

/-
  This file defines the ingest worker: one job is a file that
  is parsed chunk by chunk and replayed onto the stream of
  raw events. What the handler of a job does is a script of
  actions, since nothing that it reads changes under it.

  Key definitions include:
    * `Upload`, `IngestJob`, `IngestJob.source`
    * `Action`, `replay`
    * `Script`, `runJob`
    * `publishedEvents`
-/

namespace Nidra

namespace Ingest

variable {ι : Type}

------------------------------------------------------------
-- Jobs
------------------------------------------------------------

/-
  The content of an uploaded file: the line breaks, the
  chunks and the reading error, if any, of a flow table; or
  what the extraction of a capture puts out.
-/
inductive Upload (ι : Type) where
  | csv
      (lineBreaks : ℕ)
      (frames : List (Frame ι))
      (broken : Option String)
  | pcap (extraction : Extraction)

/- One job, with the file at its path unless it is gone. -/
structure IngestJob (ι : Type) where
  jobId : String
  tenantId : String
  path : String
  upload : Option (Upload ι)

inductive JobStatus where
  | running
  | complete
  | error
deriving DecidableEq, Repr

/- Data rows of a table, counted by line breaks. -/
def countCsvRows (lineBreaks : ℕ) : ℕ :=
  lineBreaks - 1

/- The total that progress is measured against. -/
def Upload.total : Upload ι → ℕ
  | .csv lineBreaks _ _ => countCsvRows lineBreaks
  | .pcap _ => 0

/- The iterator over the events of an upload. -/
def IngestJob.source
    [DecidableEq ι]
    (pd : Pandas)
    (job : IngestJob ι) : Upload ι → Reading
  | .csv _ frames broken =>
      iterCsvEvents pd job.tenantId job.jobId broken frames
  | .pcap extraction =>
      iterPcapEvents job.tenantId job.jobId extraction

------------------------------------------------------------
-- Replay
------------------------------------------------------------

/- What a handler does, in the order it does it. -/
inductive Action where
  | warned (event : RawEvent ℚ) (lastTs : ℚ)
  | waited (ts : ℚ)
  | published (event : RawEvent ℚ)
  | reported
      (status : JobStatus)
      (processed total : ℕ)
      (error : String)

/- Whether an event is earlier than the latest so far. -/
def regresses
    (lastTs : Option ℚ)
    (event : RawEvent ℚ) : Bool :=
  match lastTs with
  | none => false
  | some last => decide (event.ts < last)

/- The latest time after an event. -/
def laterTs
    (lastTs : Option ℚ)
    (event : RawEvent ℚ) : Option ℚ :=
  if regresses lastTs event then lastTs else some event.ts

/- Warn of an event that precedes the latest one. -/
def warning
    (lastTs : Option ℚ)
    (event : RawEvent ℚ) : List Action :=
  match lastTs with
  | none => []
  | some last =>
      if event.ts < last then [.warned event last] else []

/- Publish one event, paced. -/
def replayEvent
    (lastTs : Option ℚ)
    (event : RawEvent ℚ) : List Action :=
  warning lastTs event ++ [.waited event.ts, .published event]

/- Publish the events of a chunk in their order. -/
def replayEvents :
    Option ℚ → List (RawEvent ℚ) → List Action
  | _, [] => []
  | lastTs, event :: rest =>
      replayEvent lastTs event ++
        replayEvents (laterTs lastTs event) rest

/- The latest time after some events. -/
def latestTs
    (lastTs : Option ℚ)
    (events : List (RawEvent ℚ)) : Option ℚ :=
  events.foldl laterTs lastTs

/-
  Publish every event of the chunks, and report the progress
  after each chunk.
-/
def replay
    (total : ℕ) :
    Option ℚ → ℕ → List (List (RawEvent ℚ)) → List Action
  | _, _, [] => []
  | lastTs, published, chunk :: rest =>
      replayEvents lastTs chunk ++
        .reported .running (published + chunk.length) total ""
          :: replay total (latestTs lastTs chunk)
            (published + chunk.length) rest

/- How many events are in the chunks. -/
def eventCount (chunks : List (List (RawEvent ℚ))) : ℕ :=
  chunks.flatten.length

------------------------------------------------------------
-- One job
------------------------------------------------------------

/-
  The actions of a handler, and what it raises after them, if
  it does not return.
-/
structure Script where
  actions : List Action
  raised : Option Raised

/-
  How a replay ends: complete; in the status `error` when the
  file cannot be parsed, which will not change; or with any
  other exception.
-/
def ending
    (processed total : ℕ) : Option Raised → Script
  | none =>
      { actions := [.reported .complete processed total ""]
        raised := none }
  | some (.ingestError message) =>
      { actions := [.reported .error processed total message]
        raised := none }
  | some other => { actions := [], raised := some other }

/- Report the start, replay the chunks, and end. -/
def replayReading
    (total : ℕ)
    (reading : Reading) : Script :=
  let last :=
    ending (eventCount reading.chunks) total reading.raised
  { actions :=
      .reported .running 0 total "" ::
        replay total none 0 reading.chunks ++ last.actions
    raised := last.raised }

/- Parse and replay one job, reporting progress throughout. -/
def runJob
    [DecidableEq ι]
    (pd : Pandas)
    (job : IngestJob ι) : Script :=
  match job.upload with
  | none =>
      ending 0 0
        (some
          (.ingestError
            ("uploaded file is gone: " ++ job.path)))
  | some upload =>
      replayReading upload.total (job.source pd upload)

------------------------------------------------------------
-- What the actions put out
------------------------------------------------------------

def publishedEvent : Action → Option (RawEvent ℚ)
  | .published event => some event
  | .warned _ _ => none
  | .waited _ => none
  | .reported _ _ _ _ => none

/- The events that actions publish, in their order. -/
def publishedEvents
    (actions : List Action) : List (RawEvent ℚ) :=
  actions.filterMap publishedEvent

@[simp] theorem publishedEvents_nil :
    publishedEvents [] = [] := rfl

@[simp] theorem publishedEvents_append
    (first second : List Action) :
    publishedEvents (first ++ second) =
      publishedEvents first ++ publishedEvents second :=
  List.filterMap_append

@[simp] theorem publishedEvents_published
    (event : RawEvent ℚ)
    (actions : List Action) :
    publishedEvents (.published event :: actions) =
      event :: publishedEvents actions := rfl

@[simp] theorem publishedEvents_warned
    (event : RawEvent ℚ)
    (lastTs : ℚ)
    (actions : List Action) :
    publishedEvents (.warned event lastTs :: actions) =
      publishedEvents actions := rfl

@[simp] theorem publishedEvents_waited
    (ts : ℚ)
    (actions : List Action) :
    publishedEvents (.waited ts :: actions) =
      publishedEvents actions := rfl

@[simp] theorem publishedEvents_reported
    (status : JobStatus)
    (processed total : ℕ)
    (error : String)
    (actions : List Action) :
    publishedEvents
        (.reported status processed total error :: actions) =
      publishedEvents actions := rfl

/- A chunk is published as it is. -/
theorem publishedEvents_replayEvents
    (lastTs : Option ℚ)
    (events : List (RawEvent ℚ)) :
    publishedEvents (replayEvents lastTs events) = events := by
  induction events generalizing lastTs with
  | nil => rfl
  | cons event rest ih =>
      have hWarning :
          publishedEvents (warning lastTs event) = [] := by
        cases lastTs with
        | none => rfl
        | some last =>
            simp only [warning]
            split <;> rfl
      simp [replayEvents, replayEvent, hWarning, ih]

/- The chunks are published one after the other. -/
theorem publishedEvents_replay
    (total : ℕ)
    (lastTs : Option ℚ)
    (published : ℕ)
    (chunks : List (List (RawEvent ℚ))) :
    publishedEvents (replay total lastTs published chunks) =
      chunks.flatten := by
  induction chunks generalizing lastTs published with
  | nil => rfl
  | cons chunk rest ih =>
      simp [replay, publishedEvents_replayEvents, ih]

theorem publishedEvents_ending
    (processed total : ℕ)
    (raised : Option Raised) :
    publishedEvents (ending processed total raised).actions =
      [] := by
  cases raised with
  | none => rfl
  | some error => cases error <;> rfl

/- A job publishes what its iterator yields, in its order. -/
theorem publishedEvents_replayReading
    (total : ℕ)
    (reading : Reading) :
    publishedEvents (replayReading total reading).actions =
      reading.chunks.flatten := by
  simp [replayReading, publishedEvents_replay,
    publishedEvents_ending]

end Ingest

end Nidra
