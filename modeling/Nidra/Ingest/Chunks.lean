import Nidra.Ingest.Parsers
import Nidra.Lib.Fallible

/-
  This file states when a chunk of a flow table is read, and
  what its events are: in the order of their times, one for
  each row that is kept.

  Key definitions include:
    * `NotInfinite`
    * `RowReadable`, `ChunkReadable`
    * `InOrder`

  Main declarations:
    * `exists_rowToEvent_iff`
    * `exists_csvChunkToEvents_iff`
    * `csvChunkToEvents_error`
    * `csvChunkToEvents_inOrder`
    * `mem_iterCsvEvents`
-/

namespace Nidra

namespace Ingest

variable {ι : Type}
variable [DecidableEq ι]

------------------------------------------------------------
-- Integers
------------------------------------------------------------

/- A text that is not read as an infinite number. -/
def NotInfinite (text : Option String) : Prop :=
  ∀ negative,
    text.bind PyFloat.ofText ≠ some (.inf negative)

theorem exists_optionalInt_iff
    {text : Option String} :
    (∃ value, optionalInt text = .ok value) ↔
      NotInfinite text := by
  unfold optionalInt NotInfinite
  cases hText : text.bind PyFloat.ofText with
  | none => simp
  | some x =>
      cases x with
      | finite value => simp
      | nan => simp
      | inf negative => simp

theorem optionalInt_error
    {text : Option String}
    {error : Raised}
    (hError : optionalInt text = .error error) :
    error = .overflowError := by
  unfold optionalInt at hError
  cases hText : text.bind PyFloat.ofText with
  | none => simp [hText] at hError
  | some x =>
      cases x with
      | finite value => simp [hText] at hError
      | nan => simp [hText] at hError
      | inf negative =>
          rw [hText] at hError
          cases hError
          rfl

------------------------------------------------------------
-- One row
------------------------------------------------------------

/-
  A row that is read: no other row that is kept has its label
  in the index, and none of its measurements, its ports and
  its protocol is an infinite number.
-/
structure RowReadable
    (pd : Pandas)
    (frame : Frame ι)
    (kept : List (TimedRow ι))
    (row : Row ι) : Prop where
  labelled :
    kept.countP (fun r => r.row.label = row.label) ≤ 1
  srcPort : NotInfinite (frame.cellOf .srcPort row)
  dstPort : NotInfinite (frame.cellOf .dstPort row)
  protocol : NotInfinite (frame.cellOf .protocol row)
  numbers :
    ∀ field name,
      name ∈ frame.sources (.flow field) →
        (pd.toNumeric (row.cell name)).isInf = false

/- The columns of a measurement are at most one. -/
def Frame.Unrepeated (frame : Frame ι) : Prop :=
  ∀ field, (frame.sources (.flow field)).length ≤ 1

omit [DecidableEq ι] in
theorem numericRaises_eq_false_iff
    {frame : Frame ι} :
    frame.numericRaises = false ↔ frame.Unrepeated := by
  unfold Frame.numericRaises Frame.Unrepeated
  rw [List.any_eq_false]
  constructor
  · intro hAll field
    have hField := hAll field (mem_csvFields field)
    simpa using hField
  · intro hAll field _
    simpa using hAll field

omit [DecidableEq ι] in
/- A measurement is finite when its cell is not infinite. -/
theorem isFinite_flowValue
    (pd : Pandas)
    (frame : Frame ι)
    (row : Row ι)
    (field : FlowField) :
    (frame.flowValue pd row field).isFinite =
      (frame.numericCell pd field row).isFinite := by
  unfold Frame.flowValue
  split
  · exact PyFloat.isFinite_div _ _
  · rfl

omit [DecidableEq ι] in
theorem flowFinite_iff
    {pd : Pandas}
    {frame : Frame ι}
    {row : Row ι}
    (hUnrepeated : frame.Unrepeated) :
    flowFinite (frame.flowValue pd row) = true ↔
      ∀ field name,
        name ∈ frame.sources (.flow field) →
          (pd.toNumeric (row.cell name)).isInf = false := by
  have hCell :
      ∀ field,
        (frame.numericCell pd field row).isFinite = true ↔
          ∀ name ∈ frame.sources (.flow field),
            (pd.toNumeric (row.cell name)).isInf =
              false := by
    intro field
    have hLength := hUnrepeated field
    unfold Frame.numericCell
    cases hSources : frame.sources (.flow field) with
    | nil => simp [PyFloat.isFinite]
    | cons name rest =>
        have hRest : rest = [] := by
          rw [hSources, List.length_cons] at hLength
          exact List.length_eq_zero_iff.mp (by omega)
        simp [hRest]
  unfold flowFinite
  rw [List.all_eq_true]
  constructor
  · intro hAll field name hName
    have hFinite := hAll field (mem_csvFields field)
    rw [isFinite_flowValue] at hFinite
    exact (hCell field).mp hFinite name hName
  · intro hAll field _
    rw [isFinite_flowValue]
    exact (hCell field).mpr (hAll field)

theorem checkLabel_eq_ok_iff
    {kept : List (TimedRow ι)}
    {row : Row ι}
    {u : Unit} :
    checkLabel kept row = .ok u ↔
      kept.countP (fun r => r.row.label = row.label) ≤ 1 := by
  unfold checkLabel
  split
  · constructor
    · intro hOk
      cases hOk
    · intro hOne
      omega
  · constructor
    · intro _
      omega
    · intro _
      rfl

/- When a row becomes an event. -/
theorem exists_rowToEvent_iff
    {pd : Pandas}
    {frame : Frame ι}
    {kept : List (TimedRow ι)}
    {tenantId jobId : String}
    {timed : TimedRow ι}
    (hUnrepeated : frame.Unrepeated) :
    (∃ event,
        rowToEvent pd frame kept tenantId jobId timed =
          .ok event) ↔
      RowReadable pd frame kept timed.row := by
  simp only [rowToEvent, Except.bind_eq_ok_iff,
    checkLabel_eq_ok_iff]
  constructor
  · intro hOk
    rcases hOk with
      ⟨event, _, hLabel, srcPort, hSrc, dstPort, hDst,
        protocol, hProtocol, hOk⟩
    have hFinite :
        flowFinite (frame.flowValue pd timed.row) = true := by
      by_contra hNot
      simp [flowEvent, hNot] at hOk
    exact
      { labelled := hLabel
        srcPort := exists_optionalInt_iff.mp ⟨_, hSrc⟩
        dstPort := exists_optionalInt_iff.mp ⟨_, hDst⟩
        protocol := exists_optionalInt_iff.mp ⟨_, hProtocol⟩
        numbers := (flowFinite_iff hUnrepeated).mp hFinite }
  · intro hReadable
    rcases exists_optionalInt_iff.mpr hReadable.srcPort with
      ⟨srcPort, hSrc⟩
    rcases exists_optionalInt_iff.mpr hReadable.dstPort with
      ⟨dstPort, hDst⟩
    rcases exists_optionalInt_iff.mpr hReadable.protocol with
      ⟨protocol, hProtocol⟩
    have hFinite :
        flowFinite (frame.flowValue pd timed.row) = true :=
      (flowFinite_iff hUnrepeated).mpr hReadable.numbers
    have hEvent :
        ∃ event,
          flowEvent pd frame tenantId jobId timed srcPort
            dstPort protocol = .ok event := by
      simp [flowEvent, hFinite]
    rcases hEvent with ⟨event, hEvent⟩
    exact
      ⟨event, (), hReadable.labelled, srcPort, hSrc, dstPort,
        hDst, protocol, hProtocol, hEvent⟩

/- The time of an event is the time of its row. -/
theorem rowToEvent_ts
    {pd : Pandas}
    {frame : Frame ι}
    {kept : List (TimedRow ι)}
    {tenantId jobId : String}
    {timed : TimedRow ι}
    {event : RawEvent ℚ}
    (hOk :
      rowToEvent pd frame kept tenantId jobId timed =
        .ok event) :
    event.ts = ofMicroseconds (timed.ns / 1000) := by
  simp only [rowToEvent, Except.bind_eq_ok_iff] at hOk
  rcases hOk with ⟨_, _, _, _, _, _, _, _, hOk⟩
  unfold flowEvent at hOk
  dsimp only at hOk
  split at hOk
  · cases hOk
    rfl
  · cases hOk

/- What a row raises is never an `ingestError`. -/
theorem rowToEvent_error
    {pd : Pandas}
    {frame : Frame ι}
    {kept : List (TimedRow ι)}
    {tenantId jobId : String}
    {timed : TimedRow ι}
    {error : Raised}
    (hError :
      rowToEvent pd frame kept tenantId jobId timed =
        .error error) :
    error.isIngestError = false := by
  simp only [rowToEvent, Except.bind_eq_error_iff] at hError
  rcases hError with
    hLabel | ⟨_, _, hSrc | ⟨_, _, hDst | ⟨_, _, hProtocol |
      ⟨_, _, hEvent⟩⟩⟩⟩
  · unfold checkLabel at hLabel
    split at hLabel
    · cases hLabel
      rfl
    · cases hLabel
  · rw [optionalInt_error hSrc]
    rfl
  · rw [optionalInt_error hDst]
    rfl
  · rw [optionalInt_error hProtocol]
    rfl
  · unfold flowEvent at hEvent
    dsimp only at hEvent
    split at hEvent
    · cases hEvent
    · cases hEvent
      rfl

------------------------------------------------------------
-- One chunk
------------------------------------------------------------

/-
  A chunk that is read: it has one time column, whose texts
  are read as times or as none, no measurement has two
  columns, and each row that is kept is readable.
-/
def ChunkReadable
    (pd : Pandas)
    (frame : Frame ι) : Prop :=
  ∃ name times,
    frame.sources .ts = [name] ∧
      pd.toDatetime
        (frame.rows.map (fun row => row.cell name)) =
          some times ∧
      frame.Unrepeated ∧
      ∀ timed ∈ frame.kept times,
        RowReadable pd frame (frame.kept times) timed.row

omit [DecidableEq ι] in
theorem checkColumns_eq_ok_iff
    {frame : Frame ι}
    {u : Unit} :
    checkColumns frame = .ok u ↔ frame.missing = [] := by
  unfold checkColumns
  split
  · next hMissing => simp [hMissing]
  · next hMissing => simp [hMissing]

omit [DecidableEq ι] in
theorem checkNumeric_eq_ok_iff
    {frame : Frame ι}
    {u : Unit} :
    checkNumeric frame = .ok u ↔ frame.Unrepeated := by
  rw [← numericRaises_eq_false_iff]
  unfold checkNumeric
  split
  · next hRaises => simp [hRaises]
  · next hRaises => simp [hRaises]

omit [DecidableEq ι] in
theorem readTimes_eq_ok_iff
    {pd : Pandas}
    {frame : Frame ι}
    {times : List (Option ℤ)} :
    readTimes pd frame = .ok times ↔
      ∃ name,
        frame.sources .ts = [name] ∧
          pd.toDatetime
            (frame.rows.map (fun row => row.cell name)) =
              some times := by
  unfold readTimes
  split
  · next name hName =>
      split
      · next hNone => simp [hName, hNone]
      · next read hRead => simp [hName, hRead]
  · next hMany =>
      constructor
      · intro hOk
        cases hOk
      · intro hOne
        rcases hOne with ⟨name, hName, _⟩
        exact absurd hName (hMany name)

omit [DecidableEq ι] in
theorem readTimes_error
    {pd : Pandas}
    {frame : Frame ι}
    {error : Raised}
    (hError : readTimes pd frame = .error error) :
    error = .valueError := by
  unfold readTimes at hError
  split at hError
  · split at hError
    · cases hError
      rfl
    · cases hError
  · cases hError
    rfl

/- The parts of a chunk that became events. -/
theorem csvChunkToEvents_eq_ok_iff
    {pd : Pandas}
    {tenantId jobId : String}
    {frame : Frame ι}
    {events : List (RawEvent ℚ)}
    {dropped : ℕ} :
    csvChunkToEvents pd tenantId jobId frame =
        .ok (events, dropped) ↔
      frame.missing = [] ∧
        ∃ times,
          readTimes pd frame = .ok times ∧
            frame.Unrepeated ∧
            (sortByKey TimedRow.ns (frame.kept times)).mapM
              (rowToEvent pd frame (frame.kept times) tenantId
                jobId) = .ok events ∧
            frame.rows.length - (frame.kept times).length =
              dropped := by
  simp only [csvChunkToEvents, Except.bind_eq_ok_iff,
    checkColumns_eq_ok_iff, checkNumeric_eq_ok_iff]
  constructor
  · intro hOk
    rcases hOk with
      ⟨_, hMissing, times, hTimes, _, hUnrepeated, read, hRead,
        hOk⟩
    cases hOk
    exact ⟨hMissing, times, hTimes, hUnrepeated, hRead, rfl⟩
  · intro hParts
    rcases hParts with
      ⟨hMissing, times, hTimes, hUnrepeated, hRead, hDropped⟩
    exact
      ⟨(), hMissing, times, hTimes, (), hUnrepeated, events,
        hRead, by rw [hDropped]; rfl⟩

/- When a chunk becomes events. -/
theorem exists_csvChunkToEvents_iff
    {pd : Pandas}
    {tenantId jobId : String}
    {frame : Frame ι} :
    (∃ result,
        csvChunkToEvents pd tenantId jobId frame =
          .ok result) ↔
      frame.missing = [] ∧ ChunkReadable pd frame := by
  constructor
  · intro hOk
    rcases hOk with ⟨⟨events, dropped⟩, hOk⟩
    rcases csvChunkToEvents_eq_ok_iff.mp hOk with
      ⟨hMissing, times, hTimes, hUnrepeated, hRead, _⟩
    rcases readTimes_eq_ok_iff.mp hTimes with
      ⟨name, hName, hParsed⟩
    refine
      ⟨hMissing, name, times, hName, hParsed, hUnrepeated, ?_⟩
    intro timed hMem
    apply (exists_rowToEvent_iff hUnrepeated).mp
    exact
      List.exists_mapM_iff.mp ⟨events, hRead⟩ timed
        (mem_sortByKey.mpr hMem)
  · intro hReadable
    rcases hReadable with
      ⟨hMissing, name, times, hName, hParsed, hUnrepeated,
        hRows⟩
    have hRead :
        ∃ events,
          (sortByKey TimedRow.ns (frame.kept times)).mapM
            (rowToEvent pd frame (frame.kept times) tenantId
              jobId) = .ok events := by
      apply List.exists_mapM_iff.mpr
      intro timed hMem
      apply (exists_rowToEvent_iff hUnrepeated).mpr
      exact hRows timed (mem_sortByKey.mp hMem)
    rcases hRead with ⟨events, hRead⟩
    exact
      ⟨(events, _),
        csvChunkToEvents_eq_ok_iff.mpr
          ⟨hMissing, times,
            readTimes_eq_ok_iff.mpr ⟨name, hName, hParsed⟩,
            hUnrepeated, hRead, rfl⟩⟩

/- A chunk raises an `ingestError` for missing columns only. -/
theorem csvChunkToEvents_error
    {pd : Pandas}
    {tenantId jobId : String}
    {frame : Frame ι}
    {error : Raised}
    (hError :
      csvChunkToEvents pd tenantId jobId frame =
        .error error) :
    error.isIngestError = true ↔ frame.missing ≠ [] := by
  simp only [csvChunkToEvents, Except.bind_eq_error_iff,
    checkColumns_eq_ok_iff, checkNumeric_eq_ok_iff] at hError
  rcases hError with
    hColumns | ⟨_, hMissing, hTimes | ⟨times, _, hNumeric |
      ⟨_, _, hRows | ⟨_, _, hDone⟩⟩⟩⟩
  · unfold checkColumns at hColumns
    split at hColumns
    · cases hColumns
    · next hMissing =>
        cases hColumns
        exact ⟨fun _ => hMissing, fun _ => rfl⟩
  · rw [readTimes_error hTimes]
    simp [Raised.isIngestError, hMissing]
  · unfold checkNumeric at hNumeric
    split at hNumeric
    · cases hNumeric
      simp [Raised.isIngestError, hMissing]
    · cases hNumeric
  · rcases List.exists_of_mapM_error hRows with
      ⟨timed, _, hRow⟩
    simp [rowToEvent_error hRow, hMissing]
  · cases hDone

------------------------------------------------------------
-- Order
------------------------------------------------------------

/- The times of the events never go back. -/
def InOrder (events : List (RawEvent ℚ)) : Prop :=
  events.Pairwise (fun a b => a.ts ≤ b.ts)

theorem ofMicroseconds_mono
    {a b : ℤ}
    (hLe : a ≤ b) :
    ofMicroseconds (a / 1000) ≤ ofMicroseconds (b / 1000) := by
  have hDiv : a / 1000 ≤ b / 1000 :=
    Int.ediv_le_ediv (by norm_num) hLe
  have hCast : ((a / 1000 : ℤ) : ℚ) ≤ ((b / 1000 : ℤ) : ℚ) := by
    exact_mod_cast hDiv
  unfold ofMicroseconds
  apply div_le_div_of_nonneg_right hCast
  norm_num [microsecondsPerSecond]

/- The events of a chunk are in the order of their times. -/
theorem csvChunkToEvents_inOrder
    {pd : Pandas}
    {tenantId jobId : String}
    {frame : Frame ι}
    {events : List (RawEvent ℚ)}
    {dropped : ℕ}
    (hOk :
      csvChunkToEvents pd tenantId jobId frame =
        .ok (events, dropped)) :
    InOrder events := by
  rcases csvChunkToEvents_eq_ok_iff.mp hOk with
    ⟨_, times, _, _, hRead, _⟩
  have hTimes :
      events.map RawEvent.ts =
        (sortByKey TimedRow.ns (frame.kept times)).map
          (fun timed => ofMicroseconds (timed.ns / 1000)) :=
    List.map_eq_of_mapM (fun _ _ => rowToEvent_ts) hRead
  have hSorted :
      (events.map RawEvent.ts).Pairwise (· ≤ ·) := by
    rw [hTimes, List.pairwise_map]
    exact
      (sortByKey_pairwise TimedRow.ns (frame.kept times)).imp
        ofMicroseconds_mono
  exact List.pairwise_map.mp hSorted

/- Every chunk that is yielded comes from a chunk read. -/
theorem mem_iterCsvEvents
    {pd : Pandas}
    {tenantId jobId : String}
    {broken : Option String}
    {frames : List (Frame ι)}
    {events : List (RawEvent ℚ)}
    (hMem :
      events ∈
        (iterCsvEvents pd tenantId jobId broken
          frames).chunks) :
    ∃ frame ∈ frames, ∃ dropped,
      csvChunkToEvents pd tenantId jobId frame =
        .ok (events, dropped) := by
  induction frames with
  | nil => simp [iterCsvEvents] at hMem
  | cons frame rest ih =>
      cases hChunk :
          csvChunkToEvents pd tenantId jobId frame with
      | error error =>
          simp [iterCsvEvents, hChunk] at hMem
      | ok result =>
          rcases result with ⟨first, dropped⟩
          simp only [iterCsvEvents, hChunk] at hMem
          have hCases :
              events = first ∨
                events ∈
                  (iterCsvEvents pd tenantId jobId broken
                    rest).chunks := by
            unfold Reading.yielding at hMem
            split at hMem
            · exact Or.inr hMem
            · exact List.mem_cons.mp hMem
          rcases hCases with rfl | hRest
          · exact ⟨frame, by simp, dropped, hChunk⟩
          · rcases ih hRest with ⟨later, hLater, hFrom⟩
            exact
              ⟨later, List.mem_cons_of_mem frame hLater, hFrom⟩

end Ingest

end Nidra
