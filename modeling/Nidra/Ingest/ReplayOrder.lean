import Nidra.Ingest.Chunks
import Nidra.Ingest.Worker
import Nidra.Lib.History

/-
  This file states in what order the events of a flow table
  are published: each chunk is in the order of its times, and
  an event of a later chunk may precede one of an earlier
  chunk, which is warned of and published all the same.

  Key definitions include:
    * `IngestJob.ofCsv`
    * `ChunksInOrder`
    * `Warned`

  Main declarations:
    * `replayEvents_warned`
    * `replay_warned`
    * `replayOrder_csv`
-/

namespace Nidra

namespace Ingest

variable {ι : Type}

------------------------------------------------------------
-- Jobs of flow tables
------------------------------------------------------------

/- The job of an uploaded flow table, read in these chunks. -/
def IngestJob.ofCsv
    (jobId tenantId path : String)
    (lineBreaks : ℕ)
    (broken : Option String)
    (frames : List (Frame ι)) : IngestJob ι :=
  { jobId := jobId
    tenantId := tenantId
    path := path
    upload := some (.csv lineBreaks frames broken) }

/- No event of a chunk precedes one of an earlier chunk. -/
def ChunksInOrder
    (chunks : List (List (RawEvent ℚ))) : Prop :=
  chunks.Pairwise (fun earlier later =>
    ∀ a ∈ earlier, ∀ b ∈ later, a.ts ≤ b.ts)

/- Chunks in order that are in order are one list in order. -/
theorem inOrder_flatten_iff
    {chunks : List (List (RawEvent ℚ))}
    (hChunks : ∀ chunk ∈ chunks, InOrder chunk) :
    InOrder chunks.flatten ↔ ChunksInOrder chunks := by
  unfold InOrder ChunksInOrder
  rw [List.pairwise_flatten]
  exact ⟨fun hBoth => hBoth.2, fun hOrder => ⟨hChunks, hOrder⟩⟩

------------------------------------------------------------
-- Warnings
------------------------------------------------------------

/- An event that precedes one that was published. -/
def Precedes
    (event : RawEvent ℚ)
    (before : List Action) : Prop :=
  ∃ earlier ∈ publishedEvents before, event.ts < earlier.ts

/- The warning of an event comes last, but for its wait. -/
def WarnedJustBefore
    (event : RawEvent ℚ)
    (before : List Action) : Prop :=
  ∃ start last,
    before = start ++ [.warned event last, .waited event.ts]

/-
  An event is published with a warning just before it exactly
  when it precedes one that was published.
-/
def Warned
    (before : List Action) : Action → Prop
  | .published event =>
      Precedes event before ↔ WarnedJustBefore event before
  | .warned _ _ => True
  | .waited _ => True
  | .reported _ _ _ _ => True

/-
  Where a replay stands between two events: the latest time
  is the latest one published, and no warning is left.
-/
structure Between
    (before : List Action)
    (lastTs : Option ℚ) : Prop where
  latest :
    ∀ ts : ℚ,
      (∃ earlier ∈ publishedEvents before, ts < earlier.ts) ↔
        ∃ last, lastTs = some last ∧ ts < last
  unwarned :
    ∀ start event last, before ≠ start ++ [.warned event last]

/- An event that precedes the latest one comes with a warning. -/
theorem replayEvent_of_earlier
    {event : RawEvent ℚ}
    {last : ℚ}
    (hEarlier : event.ts < last) :
    replayEvent (some last) event =
      [.warned event last, .waited event.ts,
        .published event] := by
  simp [replayEvent, warning, hEarlier]

/- Any other event comes without one. -/
theorem replayEvent_of_latest
    {event : RawEvent ℚ}
    {lastTs : Option ℚ}
    (hLatest :
      ¬ ∃ last, lastTs = some last ∧ event.ts < last) :
    replayEvent lastTs event =
      [.waited event.ts, .published event] := by
  cases lastTs with
  | none => rfl
  | some last =>
      have hNot : ¬ event.ts < last := by
        intro hEarlier
        exact hLatest ⟨last, rfl, hEarlier⟩
      simp [replayEvent, warning, hNot]

/- One event is published with the warning it needs. -/
theorem replayEvent_warned
    {before : List Action}
    {lastTs : Option ℚ}
    (hBetween : Between before lastTs)
    (event : RawEvent ℚ) :
    (replayEvent lastTs event).EachAfter
      (fun done action => Warned (before ++ done) action) := by
  intro done action after hSplit
  by_cases hEarlier :
      ∃ last, lastTs = some last ∧ event.ts < last
  · have hPrecedes := (hBetween.latest event.ts).mpr hEarlier
    rcases hEarlier with ⟨last, rfl, hEarlier⟩
    rw [replayEvent_of_earlier hEarlier] at hSplit
    match done with
    | [] => cases hSplit; trivial
    | [_] => cases hSplit; trivial
    | [_, _] =>
        cases hSplit
        have hPublished :
            publishedEvents
                (before ++
                  [.warned event last, .waited event.ts]) =
              publishedEvents before := by
          simp
        constructor
        · intro _
          exact ⟨before, last, rfl⟩
        · intro _
          unfold Precedes
          rw [hPublished]
          exact hPrecedes
    | _ :: _ :: _ :: _ => simp at hSplit
  · have hNot := mt (hBetween.latest event.ts).mp hEarlier
    rw [replayEvent_of_latest hEarlier] at hSplit
    match done with
    | [] => cases hSplit; trivial
    | [_] =>
        cases hSplit
        have hPublished :
            publishedEvents (before ++ [.waited event.ts]) =
              publishedEvents before := by
          simp
        constructor
        · intro hPrecedes
          unfold Precedes at hPrecedes
          rw [hPublished] at hPrecedes
          exact absurd hPrecedes hNot
        · intro hWarned
          rcases hWarned with ⟨start, last, hBefore⟩
          have hStart :
              before = start ++ [.warned event last] := by
            have hWaited :
                before ++ [.waited event.ts] =
                  (start ++ [.warned event last]) ++
                    [.waited event.ts] := by
              simpa using hBefore
            exact List.append_cancel_right hWaited
          exact absurd hStart (hBetween.unwarned _ _ _)
    | _ :: _ :: _ => simp at hSplit

/- After an event, a replay stands between two events again. -/
theorem Between.afterEvent
    {before : List Action}
    {lastTs : Option ℚ}
    (hBetween : Between before lastTs)
    (event : RawEvent ℚ) :
    Between (before ++ replayEvent lastTs event)
      (laterTs lastTs event) := by
  have hPublished :
      publishedEvents (replayEvent lastTs event) = [event] := by
    simpa [replayEvents] using
      publishedEvents_replayEvents lastTs [event]
  constructor
  · intro ts
    rw [publishedEvents_append, hPublished]
    have hLatest := hBetween.latest ts
    cases lastTs with
    | none =>
        have hNone :
            ¬ ∃ earlier ∈ publishedEvents before,
              ts < earlier.ts := by
          intro hSome
          rcases hLatest.mp hSome with ⟨last, hLast, _⟩
          cases hLast
        simp only [laterTs, regresses]
        constructor
        · intro hSome
          rcases hSome with ⟨earlier, hMem, hLt⟩
          rcases List.mem_append.mp hMem with hOld | hNew
          · exact absurd ⟨earlier, hOld, hLt⟩ hNone
          · rw [List.mem_singleton] at hNew
            exact ⟨event.ts, rfl, hNew ▸ hLt⟩
        · intro hSome
          rcases hSome with ⟨last, hLast, hLt⟩
          cases hLast
          exact ⟨event, by simp, hLt⟩
    | some last =>
        have hOld :
            (∃ earlier ∈ publishedEvents before,
              ts < earlier.ts) ↔ ts < last := by
          rw [hLatest]
          simp
        have hBoth :
            (∃ earlier ∈ publishedEvents before ++ [event],
              ts < earlier.ts) ↔
                ts < last ∨ ts < event.ts := by
          rw [← hOld]
          constructor
          · intro hSome
            rcases hSome with ⟨earlier, hMem, hLt⟩
            rcases List.mem_append.mp hMem with hMem | hMem
            · exact Or.inl ⟨earlier, hMem, hLt⟩
            · rw [List.mem_singleton] at hMem
              exact Or.inr (hMem ▸ hLt)
          · intro hEither
            rcases hEither with ⟨earlier, hMem, hLt⟩ | hLt
            · exact
                ⟨earlier, List.mem_append_left _ hMem, hLt⟩
            · exact ⟨event, by simp, hLt⟩
        rw [hBoth]
        by_cases hEarlier : event.ts < last
        · have hLater :
              laterTs (some last) event = some last := by
            simp [laterTs, regresses, hEarlier]
          rw [hLater]
          simp only [Option.some.injEq, exists_eq_left']
          constructor
          · intro hEither
            rcases hEither with hLt | hLt
            · exact hLt
            · exact lt_trans hLt hEarlier
          · exact Or.inl
        · have hLater :
              laterTs (some last) event = some event.ts := by
            simp [laterTs, regresses, hEarlier]
          rw [hLater]
          simp only [Option.some.injEq, exists_eq_left']
          constructor
          · intro hEither
            rcases hEither with hLt | hLt
            · exact lt_of_lt_of_le hLt (not_lt.mp hEarlier)
            · exact hLt
          · exact Or.inr
  · intro start other last hEnd
    have hSplit :
        before ++ replayEvent lastTs event =
          (before ++ warning lastTs event ++
            [.waited event.ts]) ++ [.published event] := by
      simp [replayEvent]
    rw [hSplit] at hEnd
    have hLast := (List.append_inj' hEnd rfl).2
    cases hLast

------------------------------------------------------------
-- Replays
------------------------------------------------------------

/- The events of a chunk are published with their warnings. -/
theorem replayEvents_warned
    {before : List Action}
    {lastTs : Option ℚ}
    (hBetween : Between before lastTs)
    (events : List (RawEvent ℚ)) :
    (replayEvents lastTs events).EachAfter
        (fun done action => Warned (before ++ done) action) ∧
      Between (before ++ replayEvents lastTs events)
        (latestTs lastTs events) := by
  induction events generalizing before lastTs with
  | nil =>
      exact
        ⟨List.eachAfter_nil, by
          simpa [replayEvents, latestTs] using hBetween⟩
  | cons event rest ih =>
      have hNext := ih (hBetween.afterEvent event)
      constructor
      · apply List.eachAfter_append
          (replayEvent_warned hBetween event)
        simpa only [List.append_assoc] using hNext.1
      · simpa only [replayEvents, latestTs, List.foldl_cons,
          List.append_assoc] using hNext.2

/- A report leaves a replay between two events. -/
theorem Between.afterReport
    {before : List Action}
    {lastTs : Option ℚ}
    (hBetween : Between before lastTs)
    (status : JobStatus)
    (processed total : ℕ)
    (error : String) :
    Between
      (before ++ [.reported status processed total error])
      lastTs := by
  constructor
  · intro ts
    simpa using hBetween.latest ts
  · intro start event last hEnd
    have hLast := (List.append_inj' hEnd rfl).2
    cases hLast

/- The chunks are published with their warnings. -/
theorem replay_warned
    {before : List Action}
    {lastTs : Option ℚ}
    (hBetween : Between before lastTs)
    (total published : ℕ)
    (chunks : List (List (RawEvent ℚ))) :
    (replay total lastTs published chunks).EachAfter
      (fun done action => Warned (before ++ done) action) := by
  induction chunks generalizing before lastTs published with
  | nil => exact List.eachAfter_nil
  | cons chunk rest ih =>
      rcases replayEvents_warned hBetween chunk with
        ⟨hChunk, hAfter⟩
      apply List.eachAfter_append hChunk
      have hReport :
          [Action.reported .running
              (published + chunk.length) total ""].EachAfter
            (fun done action =>
              Warned
                (before ++
                  (replayEvents lastTs chunk ++ done))
                action) := by
        intro done action after hSplit
        match done with
        | [] => cases hSplit; trivial
        | _ :: _ => simp at hSplit
      apply List.eachAfter_append hReport
      have hRest :=
        ih
          (hAfter.afterReport .running
            (published + chunk.length) total "")
          (published + chunk.length)
      simpa only [List.append_assoc] using hRest

/- Reports warn of nothing and publish nothing. -/
theorem reports_warned
    {before actions : List Action}
    (hReports :
      ∀ action ∈ actions,
        publishedEvent action = none) :
    actions.EachAfter
      (fun done action => Warned (before ++ done) action) := by
  intro done action after hSplit
  have hNone :=
    hReports action (by rw [hSplit]; simp)
  cases action with
  | warned event last => trivial
  | waited ts => trivial
  | reported status processed total error => trivial
  | published event => cases hNone

theorem ending_reports
    {processed total : ℕ}
    {raised : Option Raised}
    {action : Action}
    (hMem : action ∈ (ending processed total raised).actions) :
    publishedEvent action = none := by
  cases raised with
  | none =>
      rw [List.mem_singleton.mp hMem]
      rfl
  | some error =>
      cases error with
      | ingestError message =>
          rw [List.mem_singleton.mp hMem]
          rfl
      | valueError => cases hMem
      | typeError => cases hMem
      | overflowError => cases hMem
      | osError => cases hMem
      | validationError => cases hMem

/- A whole job publishes its events with their warnings. -/
theorem replayReading_warned
    (total : ℕ)
    (reading : Reading) :
    (replayReading total reading).actions.EachAfter
      Warned := by
  have hNothing : Between [] none := by
    constructor
    · intro ts
      simp
    · intro start event last hEnd
      simp at hEnd
  have hStart :
      Between [.reported .running 0 total ""] none :=
    hNothing.afterReport .running 0 total ""
  have hFirst :
      [Action.reported .running 0 total ""].EachAfter
        Warned := by
    intro done action after hSplit
    match done with
    | [] => cases hSplit; trivial
    | _ :: _ => simp at hSplit
  have hReplay :=
    List.eachAfter_append hFirst
      (replay_warned hStart total 0 reading.chunks)
  exact
    List.eachAfter_append hReplay
      (reports_warned (fun _ hMem => ending_reports hMem))

------------------------------------------------------------
-- The order of a job
------------------------------------------------------------

/-
  The order in which a job publishes the chunks it reads:
  each chunk in the order of its times, the whole in order
  exactly when no event of a chunk precedes one of an earlier
  chunk, and exactly the events that precede a published one
  with a warning.
-/
structure ReplayOrder
    (reading : Reading)
    (actions : List Action) : Prop where
  published :
    publishedEvents actions = reading.chunks.flatten
  chunks : ∀ chunk ∈ reading.chunks, InOrder chunk
  whole :
    InOrder (publishedEvents actions) ↔
      ChunksInOrder reading.chunks
  warned : actions.EachAfter Warned

/- The events of every flow table are published so. -/
theorem replayOrder_csv
    [DecidableEq ι]
    (pd : Pandas)
    (jobId tenantId path : String)
    (lineBreaks : ℕ)
    (broken : Option String)
    (frames : List (Frame ι)) :
    ReplayOrder
      (iterCsvEvents pd tenantId jobId broken frames)
      (runJob pd
        (.ofCsv jobId tenantId path lineBreaks broken
          frames)).actions := by
  have hPublished :
      publishedEvents
          (runJob pd
            (.ofCsv jobId tenantId path lineBreaks broken
              frames)).actions =
        (iterCsvEvents pd tenantId jobId broken
          frames).chunks.flatten :=
    publishedEvents_replayReading _ _
  have hChunks :
      ∀ chunk ∈
          (iterCsvEvents pd tenantId jobId broken
            frames).chunks,
        InOrder chunk := by
    intro chunk hMem
    rcases mem_iterCsvEvents hMem with ⟨_, _, _, hRead⟩
    exact csvChunkToEvents_inOrder hRead
  exact
    { published := hPublished
      chunks := hChunks
      whole := by
        rw [hPublished]
        exact inOrder_flatten_iff hChunks
      warned := replayReading_warned _ _ }

/- The table library on the texts of a small table. -/
def samplePandas : Pandas :=
  { toDatetime := fun cells =>
      some
        (cells.map (fun cell =>
          cell.bind (fun text =>
            [("05/07/2017 09:00", 1499245200000000000),
              ("05/07/2017 08:59",
                1499245140000000000)].lookup text)))
    toDatetime_length := by
      intro cells times hTimes
      cases hTimes
      exact List.length_map _
    toNumeric := fun cell =>
      (cell.bind PyFloat.ofText).getD .nan
    seriesText := fun _ => "" }

/- A chunk with one row: its label and its time. -/
def rowAt
    (label : ℕ)
    (time : String) : Frame ℕ :=
  { columns := ["Source IP", "Destination IP", "Timestamp"]
    distinct := by decide
    rows :=
      [{ label := label
         cell := fun name =>
          [("Source IP", "192.168.10.50"),
            ("Destination IP", "192.168.10.51"),
            ("Timestamp", time)].lookup name }] }

/- A table in chunks of one row, the later row first. -/
def lateRowFirst : IngestJob ℕ :=
  .ofCsv "job" "tenant" "table.csv" 3 none
    [rowAt 0 "05/07/2017 09:00", rowAt 1 "05/07/2017 08:59"]

/- The job is complete, and its events are not in order. -/
theorem not_inOrder_lateRowFirst :
    (runJob samplePandas lateRowFirst).raised = none ∧
      ¬ InOrder
        (publishedEvents
          (runJob samplePandas lateRowFirst).actions) := by
  have hTimes :
      (publishedEvents
        (runJob samplePandas lateRowFirst).actions).map
          RawEvent.ts =
        [1499245200, 1499245140] := by
    decide +kernel
  have hRaised :
      (runJob samplePandas lateRowFirst).raised = none := by
    decide +kernel
  refine ⟨hRaised, ?_⟩
  intro hOrder
  have hPairs := List.pairwise_map.mpr hOrder
  rw [hTimes] at hPairs
  norm_num at hPairs

end Ingest

end Nidra
