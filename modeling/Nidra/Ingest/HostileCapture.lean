import Nidra.Ingest.ReplayOrder

/-
  This file states when the parsers fail cleanly: a chunk or
  a line gives events or raises an `ingestError`, and nothing
  else escapes, so that the handler of a job returns and its
  message is acknowledged.

  Key definitions include:
    * `FailsCleanly`
    * `LineReadable`
    * `Settles`
    * `JobReadable`

  Main declarations:
    * `failsCleanly_chunk_iff`
    * `failsCleanly_line_iff`
    * `settles_iff`
    * `hostileCaptures_iff`
-/

namespace Nidra

namespace Ingest

variable {ι : Type}

/- A result, or an `ingestError`. -/
def FailsCleanly
    {α : Type}
    (outcome : Except Raised α) : Prop :=
  ∀ error,
    outcome = .error error → error.isIngestError = true

/- What an outcome raises, if it does. -/
def raisedOf
    {α : Type} : Except Raised α → Option Raised
  | .ok _ => none
  | .error error => some error

theorem eq_error_of_raisedOf
    {α : Type}
    {outcome : Except Raised α}
    {error : Raised}
    (hRaised : raisedOf outcome = some error) :
    outcome = .error error := by
  cases outcome with
  | ok result => cases hRaised
  | error raised =>
      cases hRaised
      rfl

theorem failsCleanly_ok
    {α : Type}
    (result : α) :
    FailsCleanly (.ok result) := by
  intro error hError
  cases hError

/- Without an `ingestError` there must be a result. -/
theorem failsCleanly_iff_exists
    {α : Type}
    {outcome : Except Raised α}
    (hErrors :
      ∀ error,
        outcome = .error error →
          error.isIngestError = false) :
    FailsCleanly outcome ↔ ∃ result, outcome = .ok result := by
  cases outcome with
  | ok result =>
      exact ⟨fun _ => ⟨result, rfl⟩, fun _ => failsCleanly_ok _⟩
  | error error =>
      constructor
      · intro hClean
        have hTrue := hClean error rfl
        rw [hErrors error rfl] at hTrue
        cases hTrue
      · intro hOk
        rcases hOk with ⟨result, hOk⟩
        cases hOk

theorem failsCleanly_map
    {α β : Type}
    {outcome : Except Raised α}
    {f : α → β} :
    FailsCleanly (outcome.map f) ↔ FailsCleanly outcome := by
  cases outcome with
  | ok result =>
      exact
        ⟨fun _ => failsCleanly_ok _, fun _ => failsCleanly_ok _⟩
  | error error =>
      constructor
      · intro hClean raised hRaised
        cases hRaised
        exact hClean error rfl
      · intro hClean raised hRaised
        cases hRaised
        exact hClean error rfl

------------------------------------------------------------
-- Chunks
------------------------------------------------------------

/-
  A chunk fails cleanly exactly when a required column is
  missing or it is readable.
-/
theorem failsCleanly_chunk_iff
    [DecidableEq ι]
    (pd : Pandas)
    (tenantId jobId : String)
    (frame : Frame ι) :
    FailsCleanly (csvChunkToEvents pd tenantId jobId frame) ↔
      frame.missing ≠ [] ∨ ChunkReadable pd frame := by
  cases hChunk : csvChunkToEvents pd tenantId jobId frame with
  | ok result =>
      have hRead :=
        exists_csvChunkToEvents_iff.mp ⟨result, hChunk⟩
      exact
        ⟨fun _ => Or.inr hRead.2,
          fun _ => failsCleanly_ok result⟩
  | error error =>
      constructor
      · intro hClean
        left
        exact
          (csvChunkToEvents_error hChunk).mp
            (hClean error rfl)
      · intro hEither raised hRaised
        cases hRaised
        by_contra hNot
        have hMissing : frame.missing = [] := by
          by_contra hSome
          exact hNot ((csvChunkToEvents_error hChunk).mpr hSome)
        have hReadable : ChunkReadable pd frame := by
          rcases hEither with hSome | hReadable
          · exact absurd hMissing hSome
          · exact hReadable
        rcases exists_csvChunkToEvents_iff.mpr
            ⟨hMissing, hReadable⟩ with ⟨result, hOk⟩
        rw [hChunk] at hOk
        cases hOk

------------------------------------------------------------
-- Lines
------------------------------------------------------------

/- An epoch that is a time of the years 1 to 9999. -/
def TimeReadable (seconds : PyFloat) : Prop :=
  ∃ value,
    seconds = .finite value ∧
      InYears (nearestMicrosecond value)

theorem exists_fromTimestamp_iff
    {seconds : PyFloat} :
    (∃ ts, fromTimestamp seconds = .ok ts) ↔
      TimeReadable seconds := by
  unfold TimeReadable fromTimestamp
  cases seconds with
  | nan => simp
  | inf negative => simp
  | finite value =>
      by_cases hYears : InYears (nearestMicrosecond value)
      · simp [hYears]
      · simp [hYears]

/- Flags that are no integer, or one that a float can be. -/
def FlagsReadable (flags : String) : Prop :=
  flags ≠ "" →
    ∀ n,
      flagsInt flags = some n →
        (PyFloat.ofRat n).isFinite = true

theorem exists_flagsOrNone_iff
    {flags : String} :
    (∃ bits, flagsOrNone flags = .ok bits) ↔
      FlagsReadable flags := by
  unfold FlagsReadable flagsOrNone
  by_cases hEmpty : flags = ""
  · simp [hEmpty]
  · cases hInt : flagsInt flags with
    | none => simp [hEmpty]
    | some n =>
        by_cases hFinite : (PyFloat.ofRat n).isFinite = true
        · simp [hEmpty, hFinite]
        · simp [hEmpty, hFinite]

/- Flags that are read are a finite number. -/
theorem flagsOrNone_finite
    {flags : String}
    {bits : Option PyFloat}
    (hOk : flagsOrNone flags = .ok bits) :
    bits.all PyFloat.isFinite = true := by
  unfold flagsOrNone at hOk
  split at hOk
  · cases hOk
    rfl
  · split at hOk
    · cases hOk
      rfl
    · split at hOk
      · next hFinite =>
          cases hOk
          exact hFinite
      · cases hOk

/- A text that is no number, or a finite one. -/
def FiniteOrNone (text : String) : Prop :=
  (floatOrNone text).all PyFloat.isFinite = true

/- Every number of a row that becomes an event is finite. -/
structure PacketReadable
    (row : TsharkRow)
    (seconds : PyFloat) : Prop where
  time : TimeReadable seconds
  flags : FlagsReadable row.flags
  srcPort : NotInfinite (orElse row.tcpSport row.udpSport)
  dstPort : NotInfinite (orElse row.tcpDport row.udpDport)
  protocol : NotInfinite (orElse row.proto "")
  ttl : FiniteOrNone row.ttl
  window : FiniteOrNone row.window
  frameLen : FiniteOrNone row.frameLen
  tcpLen : FiniteOrNone row.tcpLen

/- The measurements of a row are finite when these are. -/
theorem packetFinite_iff
    {row : TsharkRow}
    {bits : Option PyFloat}
    (hBits : bits.all PyFloat.isFinite = true) :
    packetFinite (row.fields bits) = true ↔
      FiniteOrNone row.ttl ∧ FiniteOrNone row.window ∧
        FiniteOrNone row.frameLen ∧
          FiniteOrNone row.tcpLen := by
  unfold packetFinite FiniteOrNone
  rw [List.all_eq_true]
  constructor
  · intro hAll
    exact
      ⟨hAll .ttl (by decide), hAll .tcpWindow (by decide),
        hAll .frameLen (by decide), hAll .tcpLen (by decide)⟩
  · intro hFour field _
    rcases hFour with ⟨hTtl, hWindow, hFrameLen, hTcpLen⟩
    cases field with
    | ttl => exact hTtl
    | tcpWindow => exact hWindow
    | frameLen => exact hFrameLen
    | tcpLen => exact hTcpLen
    | tcpFlags => exact hBits
    | frag => rfl
    | retransmission => rfl

/- When a row with an epoch becomes an event. -/
theorem exists_packetEvent_iff
    {tenantId jobId : String}
    {row : TsharkRow}
    {seconds : PyFloat} :
    (∃ event,
        packetEvent tenantId jobId row seconds =
          .ok event) ↔
      PacketReadable row seconds := by
  simp only [packetEvent, Except.bind_eq_ok_iff]
  constructor
  · intro hOk
    rcases hOk with
      ⟨event, bits, hBits, ts, hTs, srcPort, hSrc, dstPort,
        hDst, protocol, hProtocol, hOk⟩
    have hFinite :
        packetFinite (row.fields bits) = true := by
      by_contra hNot
      simp [buildPacket, hNot] at hOk
    rcases (packetFinite_iff (flagsOrNone_finite hBits)).mp
        hFinite with ⟨hTtl, hWindow, hFrameLen, hTcpLen⟩
    exact
      { time := exists_fromTimestamp_iff.mp ⟨ts, hTs⟩
        flags := exists_flagsOrNone_iff.mp ⟨bits, hBits⟩
        srcPort := exists_optionalInt_iff.mp ⟨_, hSrc⟩
        dstPort := exists_optionalInt_iff.mp ⟨_, hDst⟩
        protocol := exists_optionalInt_iff.mp ⟨_, hProtocol⟩
        ttl := hTtl
        window := hWindow
        frameLen := hFrameLen
        tcpLen := hTcpLen }
  · intro hReadable
    rcases exists_flagsOrNone_iff.mpr hReadable.flags with
      ⟨bits, hBits⟩
    rcases exists_fromTimestamp_iff.mpr hReadable.time with
      ⟨ts, hTs⟩
    rcases exists_optionalInt_iff.mpr hReadable.srcPort with
      ⟨srcPort, hSrc⟩
    rcases exists_optionalInt_iff.mpr hReadable.dstPort with
      ⟨dstPort, hDst⟩
    rcases exists_optionalInt_iff.mpr hReadable.protocol with
      ⟨protocol, hProtocol⟩
    have hFinite :=
      (packetFinite_iff (flagsOrNone_finite hBits)).mpr
        ⟨hReadable.ttl, hReadable.window, hReadable.frameLen,
          hReadable.tcpLen⟩
    have hEvent :
        ∃ event,
          buildPacket tenantId jobId row bits ts srcPort
            dstPort protocol = .ok event := by
      simp [buildPacket, hFinite]
    rcases hEvent with ⟨event, hEvent⟩
    exact
      ⟨event, bits, hBits, ts, hTs, srcPort, hSrc, dstPort,
        hDst, protocol, hProtocol, hEvent⟩

/- What a packet raises is never an `ingestError`. -/
theorem packetEvent_error
    {tenantId jobId : String}
    {row : TsharkRow}
    {seconds : PyFloat}
    {error : Raised}
    (hError :
      packetEvent tenantId jobId row seconds =
        .error error) :
    error.isIngestError = false := by
  simp only [packetEvent, Except.bind_eq_error_iff] at hError
  rcases hError with
    hFlags | ⟨_, _, hTime | ⟨_, _, hSrc | ⟨_, _, hDst |
      ⟨_, _, hProtocol | ⟨_, _, hEvent⟩⟩⟩⟩⟩
  · unfold flagsOrNone at hFlags
    split at hFlags
    · cases hFlags
    · split at hFlags
      · cases hFlags
      · split at hFlags
        · cases hFlags
        · cases hFlags
          rfl
  · cases seconds with
    | nan => cases hTime; rfl
    | inf negative => cases hTime; rfl
    | finite value =>
        simp only [fromTimestamp] at hTime
        split at hTime
        · cases hTime
        · cases hTime
          unfold outOfYears
          dsimp only
          split
          · rfl
          · split <;> rfl
  · rw [optionalInt_error hSrc]
    rfl
  · rw [optionalInt_error hDst]
    rfl
  · rw [optionalInt_error hProtocol]
    rfl
  · unfold buildPacket at hEvent
    split at hEvent
    · cases hEvent
    · cases hEvent
      rfl

/-
  A line that has no event, or is readable: it has not all
  the fields, its epoch is no number, it lacks an address, or
  every number of its event is finite and in range.
-/
def LineReadable (line : String) : Prop :=
  ∀ row,
    TsharkRow.ofLine line = some row →
      ∀ seconds,
        floatOrNone row.epoch = some seconds →
          row.srcIp ≠ "" →
            row.dstIp ≠ "" → PacketReadable row seconds

theorem failsCleanly_packet_iff
    (tenantId jobId : String)
    (row : TsharkRow)
    (seconds : PyFloat) :
    FailsCleanly (packetEvent tenantId jobId row seconds) ↔
      PacketReadable row seconds := by
  rw [failsCleanly_iff_exists (fun _ => packetEvent_error)]
  exact exists_packetEvent_iff

/- A line fails cleanly exactly when it is readable. -/
theorem failsCleanly_line_iff
    (tenantId jobId line : String) :
    FailsCleanly (parseTsharkLine tenantId jobId line) ↔
      LineReadable line := by
  unfold LineReadable parseTsharkLine
  cases hRow : TsharkRow.ofLine line with
  | none => simp [failsCleanly_ok]
  | some row =>
      simp only [Option.some.injEq, forall_eq']
      cases hEpoch : floatOrNone row.epoch with
      | none => simp [failsCleanly_ok]
      | some seconds =>
          simp only [Option.some.injEq, forall_eq']
          by_cases hAddress : row.srcIp = "" ∨ row.dstIp = ""
          · rw [if_pos hAddress]
            refine ⟨fun _ => ?_, fun _ => failsCleanly_ok _⟩
            intro hSrc hDst
            exact absurd hAddress (by simp [hSrc, hDst])
          · rw [if_neg hAddress, failsCleanly_map,
              failsCleanly_packet_iff]
            rw [not_or] at hAddress
            exact
              ⟨fun hReadable _ _ => hReadable,
                fun hAll => hAll hAddress.1 hAddress.2⟩

theorem map_eq_error
    {α β : Type}
    {outcome : Except Raised α}
    {f : α → β}
    {error : Raised}
    (hError : outcome.map f = .error error) :
    outcome = .error error := by
  cases outcome with
  | ok result => cases hError
  | error raised =>
      cases hError
      rfl

/- A line never raises an `ingestError`. -/
theorem parseTsharkLine_error
    {tenantId jobId line : String}
    {error : Raised}
    (hError :
      parseTsharkLine tenantId jobId line = .error error) :
    error.isIngestError = false := by
  unfold parseTsharkLine at hError
  split at hError
  · cases hError
  · split at hError
    · cases hError
    · split at hError
      · cases hError
      · exact packetEvent_error (map_eq_error hError)

------------------------------------------------------------
-- Jobs
------------------------------------------------------------

/- The first chunk without a required column ends a table. -/
def ChunksReadable
    [DecidableEq ι]
    (pd : Pandas) : List (Frame ι) → Prop
  | [] => True
  | frame :: rest =>
      frame.missing ≠ [] ∨
        ChunkReadable pd frame ∧ ChunksReadable pd rest

/- An iterator that ends, or raises an `ingestError`. -/
def Reading.EndsCleanly (reading : Reading) : Prop :=
  ∀ error,
    reading.raised = some error → error.isIngestError = true

theorem Reading.endsCleanly_yielding
    {events : List (RawEvent ℚ)}
    {rest : Reading} :
    (Reading.yielding events rest).EndsCleanly ↔
      rest.EndsCleanly := by
  unfold Reading.yielding
  split
  · exact Iff.rfl
  · exact Iff.rfl

theorem Reading.endsCleanly_error
    {chunks : List (List (RawEvent ℚ))}
    {error : Raised} :
    (Reading.mk chunks (some error)).EndsCleanly ↔
      error.isIngestError = true := by
  simp [Reading.EndsCleanly]

/- A table ends cleanly when its chunks are readable. -/
theorem endsCleanly_csv_iff
    [DecidableEq ι]
    (pd : Pandas)
    (tenantId jobId : String)
    (broken : Option String)
    (frames : List (Frame ι)) :
    (iterCsvEvents pd tenantId jobId broken
      frames).EndsCleanly ↔ ChunksReadable pd frames := by
  induction frames with
  | nil =>
      cases broken with
      | none => simp [iterCsvEvents, ChunksReadable,
          Reading.EndsCleanly]
      | some message =>
          simp [iterCsvEvents, ChunksReadable,
            Reading.EndsCleanly, Raised.isIngestError]
  | cons frame rest ih =>
      unfold ChunksReadable
      cases hChunk :
          csvChunkToEvents pd tenantId jobId frame with
      | ok result =>
          have hRead :=
            exists_csvChunkToEvents_iff.mp ⟨result, hChunk⟩
          simp only [iterCsvEvents, hChunk,
            Reading.endsCleanly_yielding, ih]
          simp [hRead.1, hRead.2]
      | error error =>
          simp only [iterCsvEvents, hChunk,
            Reading.endsCleanly_error,
            csvChunkToEvents_error hChunk]
          refine ⟨Or.inl, ?_⟩
          intro hEither
          rcases hEither with hMissing | ⟨hReadable, _⟩
          · exact hMissing
          · intro hMissing
            rcases exists_csvChunkToEvents_iff.mpr
                ⟨hMissing, hReadable⟩ with ⟨result, hOk⟩
            rw [hChunk] at hOk
            cases hOk

/- A capture ends cleanly when its lines are readable. -/
theorem endsCleanly_lines_iff
    (tenantId jobId : String)
    (extraction : Extraction)
    (batched : List (RawEvent ℚ))
    (lines : List String) :
    (batchLines tenantId jobId extraction.ending batched
      lines).EndsCleanly ↔
        ∀ line ∈ lines, LineReadable line := by
  induction lines generalizing batched with
  | nil =>
      simp only [batchLines, Reading.endsCleanly_yielding]
      unfold Extraction.ending
      split
      · simp [Reading.EndsCleanly]
      · simp [Reading.EndsCleanly, Raised.isIngestError]
  | cons line rest ih =>
      rw [List.forall_mem_cons,
        ← failsCleanly_line_iff tenantId jobId line]
      cases hLine : parseTsharkLine tenantId jobId line with
      | error error =>
          simp only [batchLines, hLine,
            Reading.endsCleanly_error]
          rw [parseTsharkLine_error hLine]
          constructor
          · intro hTrue
            cases hTrue
          · intro hBoth
            have hTrue := hBoth.1 error rfl
            rw [parseTsharkLine_error hLine] at hTrue
            cases hTrue
      | ok parsed =>
          cases parsed with
          | none =>
              simp only [batchLines, hLine, ih]
              simp [failsCleanly_ok]
          | some event =>
              simp only [batchLines, hLine]
              split
              · simp only [Reading.endsCleanly_yielding, ih]
                simp [failsCleanly_ok]
              · simp only [ih]
                simp [failsCleanly_ok]

/-
  A handler that returns, so that its message is acknowledged,
  with a last report that the job is complete or in error.
-/
structure Settles (script : Script) : Prop where
  returns : script.raised = none
  reported :
    ∃ before status processed total error,
      script.actions =
          before ++ [.reported status processed total error] ∧
        (status = .complete ∨ status = .error)

theorem ending_returns_iff
    {processed total : ℕ}
    {raised : Option Raised} :
    (ending processed total raised).raised = none ↔
      ∀ error,
        raised = some error → error.isIngestError = true := by
  cases raised with
  | none => simp [ending]
  | some error =>
      cases error <;> simp [ending, Raised.isIngestError]

/- A replay that returns has reported how it ended. -/
theorem ending_reported
    {processed total : ℕ}
    {raised : Option Raised}
    (hReturns : (ending processed total raised).raised = none) :
    ∃ status message,
      (ending processed total raised).actions =
          [.reported status processed total message] ∧
        (status = .complete ∨ status = .error) := by
  cases raised with
  | none => exact ⟨_, _, rfl, Or.inl rfl⟩
  | some error =>
      cases error with
      | ingestError message => exact ⟨_, _, rfl, Or.inr rfl⟩
      | valueError => cases hReturns
      | typeError => cases hReturns
      | overflowError => cases hReturns
      | osError => cases hReturns
      | validationError => cases hReturns

theorem settles_replayReading_iff
    (total : ℕ)
    (reading : Reading) :
    Settles (replayReading total reading) ↔
      reading.EndsCleanly := by
  constructor
  · intro hSettles
    exact ending_returns_iff.mp hSettles.returns
  · intro hClean
    have hReturns :
        (ending (eventCount reading.chunks) total
          reading.raised).raised = none :=
      ending_returns_iff.mpr hClean
    rcases ending_reported hReturns with
      ⟨status, message, hActions, hStatus⟩
    have hLast :
        (replayReading total reading).actions =
          (.reported .running 0 total "" ::
              replay total none 0 reading.chunks) ++
            [.reported status (eventCount reading.chunks)
              total message] := by
      rw [← hActions]
      rfl
    exact ⟨hReturns, _, _, _, _, _, hLast, hStatus⟩

/- The file of a job that the parsers read or refuse. -/
def JobReadable
    [DecidableEq ι]
    (pd : Pandas)
    (job : IngestJob ι) : Prop :=
  match job.upload with
  | none => True
  | some (.csv _ frames _) => ChunksReadable pd frames
  | some (.pcap extraction) =>
      extraction.onPath = true →
        ∀ line ∈ extraction.lines, LineReadable line

/- A job settles exactly when its file is readable. -/
theorem settles_iff
    [DecidableEq ι]
    (pd : Pandas)
    (job : IngestJob ι) :
    Settles (runJob pd job) ↔ JobReadable pd job := by
  unfold runJob JobReadable
  cases job.upload with
  | none =>
      refine ⟨fun _ => trivial, fun _ => ⟨rfl, ?_⟩⟩
      exact ⟨[], _, _, _, _, rfl, Or.inr rfl⟩
  | some upload =>
      cases upload with
      | csv lineBreaks frames broken =>
          simp only [settles_replayReading_iff]
          exact endsCleanly_csv_iff pd _ _ broken frames
      | pcap extraction =>
          simp only [settles_replayReading_iff]
          unfold IngestJob.source iterPcapEvents
          by_cases hOnPath : extraction.onPath = true
          · simp only [hOnPath, if_true, true_implies]
            exact endsCleanly_lines_iff _ _ extraction [] _
          · simp [hOnPath, Reading.EndsCleanly,
              Raised.isIngestError]

------------------------------------------------------------
-- Hostile captures
------------------------------------------------------------

/-
  The parsers fail cleanly on exactly the readable chunks and
  lines, and a job settles exactly when its file is readable.
-/
theorem hostileCaptures_iff
    [DecidableEq ι]
    (pd : Pandas)
    (tenantId jobId : String) :
    (∀ frame : Frame ι,
        FailsCleanly
            (csvChunkToEvents pd tenantId jobId frame) ↔
          frame.missing ≠ [] ∨ ChunkReadable pd frame) ∧
      (∀ line,
        FailsCleanly (parseTsharkLine tenantId jobId line) ↔
          LineReadable line) ∧
      ∀ job : IngestJob ι,
        Settles (runJob pd job) ↔ JobReadable pd job :=
  ⟨failsCleanly_chunk_iff pd tenantId jobId,
    failsCleanly_line_iff tenantId jobId, settles_iff pd⟩

/-
  A packet that is stamped with the first second of the year
  10000, as the 64-bit times of a capture allow, and its job.
-/
def lateEpochLine : String :=
  "253402300800.000000000,192.168.10.50,192.168.10.51," ++
    "50001,80,,,6,64,8192,False,0,54,0,0x0002,\n"

def lateEpochJob : IngestJob ℕ :=
  { jobId := "job"
    tenantId := "tenant"
    path := "capture.pcap"
    upload :=
      some
        (.pcap
          { onPath := true
            binary := "tshark"
            lines := [lateEpochLine]
            exitCode := 0
            stderr := "" }) }

/- The line raises a `ValueError`, and its handler with it. -/
theorem not_failsCleanly_lateEpoch :
    parseTsharkLine "tenant" "job" lateEpochLine =
        .error .valueError ∧
      ¬ FailsCleanly
        (parseTsharkLine "tenant" "job" lateEpochLine) ∧
      ¬ Settles (runJob samplePandas lateEpochJob) := by
  have hLine :
      parseTsharkLine "tenant" "job" lateEpochLine =
        .error .valueError :=
    eq_error_of_raisedOf (by decide +kernel)
  have hJob :
      (runJob samplePandas lateEpochJob).raised =
        some .valueError := by
    decide +kernel
  refine ⟨hLine, ?_, ?_⟩
  · intro hClean
    have hIngest := hClean .valueError hLine
    cases hIngest
  · intro hSettles
    rw [hSettles.returns] at hJob
    cases hJob

end Ingest

end Nidra
