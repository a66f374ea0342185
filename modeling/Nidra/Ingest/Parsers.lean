import Nidra.Common.Events
import Nidra.Lib.Groups
import Nidra.Lib.PyFloat

/-
  This file defines the parsers of uploaded captures: a chunk
  of a flow table becomes flow events sorted by time, and a
  line of packet fields becomes a packet event. The table
  library is taken as a structure of the functions that are
  used of it.

  Key definitions include:
    * `Raised`
    * `Column`, `cicColumns`, `normaliseColumn`
    * `Frame`, `Pandas`
    * `optionalInt`, `csvChunkToEvents`
    * `fromTimestamp`, `parseTsharkLine`
    * `Reading`, `iterCsvEvents`, `iterPcapEvents`
-/

namespace Nidra

namespace Ingest

------------------------------------------------------------
-- Exceptions
------------------------------------------------------------

/-
  What a parser can raise. An `ingestError` will fail again
  on every redelivery; nothing else is expected of a parser.
-/
inductive Raised where
  | ingestError (message : String)
  | valueError
  | typeError
  | overflowError
  | osError
  | validationError
deriving DecidableEq, Repr

def Raised.isIngestError : Raised → Bool
  | .ingestError _ => true
  | .valueError => false
  | .typeError => false
  | .overflowError => false
  | .osError => false
  | .validationError => false

------------------------------------------------------------
-- Columns
------------------------------------------------------------

/- The columns of a flow table that ingest uses. -/
inductive Column where
  | srcIp
  | dstIp
  | srcPort
  | dstPort
  | protocol
  | ts
  | flow (field : FlowField)
  | label
deriving DecidableEq, Repr

/- Normalised column names, of both published spellings. -/
def cicColumns : List (String × Column) :=
  [("source ip", .srcIp),
    ("src ip", .srcIp),
    ("destination ip", .dstIp),
    ("dst ip", .dstIp),
    ("source port", .srcPort),
    ("src port", .srcPort),
    ("destination port", .dstPort),
    ("dst port", .dstPort),
    ("protocol", .protocol),
    ("timestamp", .ts),
    ("flow duration", .flow .duration),
    ("total fwd packets", .flow .pktsFwd),
    ("tot fwd pkts", .flow .pktsFwd),
    ("total backward packets", .flow .pktsBwd),
    ("tot bwd pkts", .flow .pktsBwd),
    ("total length of fwd packets", .flow .bytesFwd),
    ("totlen fwd pkts", .flow .bytesFwd),
    ("total length of bwd packets", .flow .bytesBwd),
    ("totlen bwd pkts", .flow .bytesBwd),
    ("flow iat mean", .flow .iatMean),
    ("flow iat std", .flow .iatStd),
    ("flow iat max", .flow .iatMax),
    ("syn flag count", .flow (.flagCount .syn)),
    ("ack flag count", .flow (.flagCount .ack)),
    ("rst flag count", .flow (.flagCount .rst)),
    ("fin flag count", .flow (.flagCount .fin)),
    ("psh flag count", .flow (.flagCount .psh)),
    ("urg flag count", .flow (.flagCount .urg)),
    ("label", .label)]

/- Without these a row has no host or no window. -/
def csvRequired : List (String × Column) :=
  [("src_ip", .srcIp), ("dst_ip", .dstIp), ("ts", .ts)]

/- The columns that need no conversion. -/
def csvCounts : List FlowField :=
  [.pktsFwd, .pktsBwd, .bytesFwd, .bytesBwd,
    .flagCount .syn, .flagCount .ack, .flagCount .rst,
    .flagCount .fin, .flagCount .psh, .flagCount .urg]

/- The columns that are reported in microseconds. -/
def csvMicroseconds : List FlowField :=
  [.duration, .iatMean, .iatStd, .iatMax]

/- Every flow measurement is read from a column. -/
theorem mem_csvFields
    (field : FlowField) :
    field ∈ csvCounts ++ csvMicroseconds := by
  cases field with
  | flagCount flag => cases flag <;> decide
  | duration => decide
  | bytesFwd => decide
  | bytesBwd => decide
  | pktsFwd => decide
  | pktsBwd => decide
  | iatMean => decide
  | iatStd => decide
  | iatMax => decide

def microsecondsPerSecond : ℚ := 1000000

/- A column name without its leading blanks and spelling. -/
def normaliseColumn (name : String) : String :=
  PyText.lower
    (" ".intercalate
      (PyText.words
        (String.ofList
          (name.toList.map
            (fun c => if c = '_' then ' ' else c)))))

------------------------------------------------------------
-- Tables
------------------------------------------------------------

/- One row: its label in the index, and its cells as texts. -/
structure Row (ι : Type) where
  label : ι
  cell : String → Option String

/-
  A chunk of a table as it is read: distinct column names and
  the rows, with an index that need not be distinct. A cell
  that was empty in the file is `none`.
-/
structure Frame (ι : Type) where
  columns : List String
  distinct : columns.Nodup
  rows : List (Row ι)

/-
  What is used of the table library: times read from the
  texts of a column as nanoseconds since the epoch, which may
  raise for the column as a whole; a number read from a text,
  not-a-number when it is none; and a few cells printed.
-/
structure Pandas where
  toDatetime : List (Option String) → Option (List (Option ℤ))
  toDatetime_length :
    ∀ cells times,
      toDatetime cells = some times →
        times.length = cells.length
  toNumeric : Option String → PyFloat
  seriesText : List (Option String) → String

variable {ι : Type}

/- The columns that are renamed to one that ingest uses. -/
def Frame.sources
    (frame : Frame ι)
    (column : Column) : List String :=
  frame.columns.filter (fun name =>
    cicColumns.lookup (normaliseColumn name) = some column)

/- The required columns that are missing. -/
def Frame.missing (frame : Frame ι) : List String :=
  (csvRequired.filter (fun required =>
    frame.sources required.2 = [])).map Prod.fst

def missingMessage (missing : List String) : String :=
  "CSV is missing required column(s) [" ++
    ", ".intercalate
      (missing.map (fun name => "'" ++ name ++ "'")) ++
    "]; expected CICFlowMeter output " ++
    "(see IMPLEMENTATION-ML.md §2.3)"

section Chunk

variable [DecidableEq ι]
variable (pd : Pandas)

/-
  The times of the rows. Several time columns are taken for
  the parts of a date, and raise.
-/
def readTimes
    (frame : Frame ι) : Except Raised (List (Option ℤ)) :=
  match frame.sources .ts with
  | [name] =>
      match pd.toDatetime
          (frame.rows.map (fun row => row.cell name)) with
      | none => .error .valueError
      | some times => .ok times
  | _ => .error .valueError

/- A row with its time. -/
structure TimedRow (ι : Type) where
  row : Row ι
  ns : ℤ

/- Whether a row has both of its addresses. -/
def Frame.hasAddresses
    (frame : Frame ι)
    (row : Row ι) : Bool :=
  (frame.sources .srcIp ++ frame.sources .dstIp).all
    (fun name => (row.cell name).isSome)

/- The rows with a readable time and both addresses. -/
def Frame.kept
    (frame : Frame ι)
    (times : List (Option ℤ)) : List (TimedRow ι) :=
  (frame.rows.zip times).filterMap (fun (row, time) =>
    if frame.hasAddresses row then
      time.map (fun ns => { row := row, ns := ns })
    else none)

/-
  A column as numbers, with zero for what is none. Several
  columns of one name are not read at all, they raise.
-/
def Frame.numericCell
    (frame : Frame ι)
    (field : FlowField)
    (row : Row ι) : PyFloat :=
  match frame.sources (.flow field) with
  | [] => .finite 0
  | name :: _ => (pd.toNumeric (row.cell name)).fillna

def Frame.numericRaises (frame : Frame ι) : Bool :=
  (csvCounts ++ csvMicroseconds).any (fun field =>
    1 < (frame.sources (.flow field)).length)

/- The measurement of a row, in seconds and counts. -/
def Frame.flowValue
    (frame : Frame ι)
    (row : Row ι)
    (field : FlowField) : PyFloat :=
  if field ∈ csvMicroseconds then
    (frame.numericCell pd field row).div
      microsecondsPerSecond
  else frame.numericCell pd field row

/-
  An integer, or nothing for a text that is no number. An
  infinite number raises.
-/
def optionalInt
    (text : Option String) : Except Raised (Option ℤ) :=
  match text.bind PyFloat.ofText with
  | none => .ok none
  | some .nan => .ok none
  | some (.inf _) => .error .overflowError
  | some (.finite value) => .ok (some (truncate value))

/- A cell of a column; several columns have no one cell. -/
def Frame.cellOf
    (frame : Frame ι)
    (column : Column)
    (row : Row ι) : Option String :=
  match frame.sources column with
  | [name] => row.cell name
  | _ => none

/- The text of an address cell; several cells are printed. -/
def Frame.address
    (frame : Frame ι)
    (column : Column)
    (row : Row ι) : String :=
  match frame.sources column with
  | [name] => PyText.strip ((row.cell name).getD "")
  | names =>
      PyText.strip (pd.seriesText (names.map row.cell))

def Frame.labelOf
    (frame : Frame ι)
    (row : Row ι) : Option String :=
  ((frame.cellOf .label row).map PyText.strip).filter
    (fun label => label ≠ "")

/- Whether every flow measurement is a finite number. -/
def flowFinite (fields : FlowField → PyFloat) : Bool :=
  (csvCounts ++ csvMicroseconds).all
    (fun field => (fields field).isFinite)

def flowMeasurements
    (fields : FlowField → PyFloat) : Measurements ℚ :=
  .flow (fun field => some (fields field).value)

theorem flowMeasurements_nonempty
    (fields : FlowField → PyFloat) :
    (flowMeasurements fields).Nonempty :=
  ⟨.duration, by simp⟩

/- Microseconds since the epoch, in seconds. -/
def ofMicroseconds (us : ℤ) : ℚ :=
  (us : ℚ) / microsecondsPerSecond

/-
  The numbers of a row are looked up by its label among the
  rows that were kept: a label of two rows raises.
-/
def checkLabel
    (kept : List (TimedRow ι))
    (row : Row ι) : Except Raised Unit :=
  if 1 < kept.countP (fun r => r.row.label = row.label) then
    .error .typeError
  else .ok ()

/- The event of a row, unless a measurement is not finite. -/
def flowEvent
    (frame : Frame ι)
    (tenantId jobId : String)
    (timed : TimedRow ι)
    (srcPort dstPort protocol : Option ℤ) :
    Except Raised (RawEvent ℚ) :=
  let row := timed.row
  let fields := frame.flowValue pd row
  if flowFinite fields then
    .ok {
      tenantId := tenantId
      jobId := jobId
      ts := ofMicroseconds (timed.ns / 1000)
      srcIp := frame.address pd .srcIp row
      dstIp := frame.address pd .dstIp row
      srcPort := srcPort
      dstPort := dstPort
      protocol := protocol
      measurements := flowMeasurements fields
      label := frame.labelOf row
      nonempty := flowMeasurements_nonempty fields }
  else .error .validationError

/- One row as an event. -/
def rowToEvent
    (frame : Frame ι)
    (kept : List (TimedRow ι))
    (tenantId jobId : String)
    (timed : TimedRow ι) : Except Raised (RawEvent ℚ) := do
  let row := timed.row
  checkLabel kept row
  let srcPort ← optionalInt (frame.cellOf .srcPort row)
  let dstPort ← optionalInt (frame.cellOf .dstPort row)
  let protocol ← optionalInt (frame.cellOf .protocol row)
  flowEvent pd frame tenantId jobId timed srcPort dstPort
    protocol

def checkColumns (frame : Frame ι) : Except Raised Unit :=
  if frame.missing = [] then .ok ()
  else .error (.ingestError (missingMessage frame.missing))

/- The measurements are read before any row is. -/
def checkNumeric (frame : Frame ι) : Except Raised Unit :=
  if frame.numericRaises then .error .typeError else .ok ()

/-
  One chunk as events in the order of their times, and the
  number of rows that were dropped.
-/
def csvChunkToEvents
    (tenantId jobId : String)
    (frame : Frame ι) :
    Except Raised (List (RawEvent ℚ) × ℕ) := do
  checkColumns frame
  let times ← readTimes pd frame
  let kept := frame.kept times
  checkNumeric frame
  let events ←
    (sortByKey TimedRow.ns kept).mapM
      (rowToEvent pd frame kept tenantId jobId)
  return (events, frame.rows.length - kept.length)

end Chunk

------------------------------------------------------------
-- Packets
------------------------------------------------------------

/- The fields of a packet line, in their order. -/
structure TsharkRow where
  epoch : String
  srcIp : String
  dstIp : String
  tcpSport : String
  tcpDport : String
  udpSport : String
  udpDport : String
  proto : String
  ttl : String
  window : String
  mf : String
  fragOffset : String
  frameLen : String
  tcpLen : String
  flags : String
  retransmission : String

/- A line as its fields, if it has all of them and no more. -/
def TsharkRow.ofLine (line : String) : Option TsharkRow :=
  match (PyText.splitOn ','
      (PyText.rstripChar '\n' line)).map PyText.strip with
  | [epoch, srcIp, dstIp, tcpSport, tcpDport, udpSport,
      udpDport, proto, ttl, window, mf, fragOffset, frameLen,
      tcpLen, flags, retransmission] =>
      some {
        epoch := epoch
        srcIp := srcIp
        dstIp := dstIp
        tcpSport := tcpSport
        tcpDport := tcpDport
        udpSport := udpSport
        udpDport := udpDport
        proto := proto
        ttl := ttl
        window := window
        mf := mf
        fragOffset := fragOffset
        frameLen := frameLen
        tcpLen := tcpLen
        flags := flags
        retransmission := retransmission }
  | _ => none

def floatOrNone (value : String) : Option PyFloat :=
  if value = "" then none else PyFloat.ofText value

/- How a boolean field that is not set is rendered. -/
def falsey : List String :=
  ["", "0", "false"]

/- Whether a boolean field is set, in either rendering. -/
def isSet (value : String) : Bool :=
  decide (PyText.lower (PyText.strip value) ∉ falsey)

/- The integer of a flags field, in base sixteen or ten. -/
def flagsInt (value : String) : Option ℤ :=
  if "0x".toList.isPrefixOf (PyText.lower value).toList then
    PyText.intHex value
  else PyText.intDecimal value

/- The flags as a float; an integer past all floats raises. -/
def flagsOrNone
    (value : String) : Except Raised (Option PyFloat) :=
  if value = "" then .ok none
  else
    match flagsInt value with
    | none => .ok none
    | some n =>
        if (PyFloat.ofRat n).isFinite then
          .ok (some (PyFloat.ofRat n))
        else .error .overflowError

/- The first and the last second of the years 1 to 9999. -/
def minSecond : ℤ := -62135596800

def maxSecond : ℤ := 253402300799

/- The microsecond that is nearest to a number of seconds. -/
def nearestMicrosecond (seconds : ℚ) : ℤ :=
  truncate seconds * 1000000 +
    roundHalfEven
      (PyFloat.nearest
        ((seconds - truncate seconds) *
          microsecondsPerSecond))

/- Whether a microsecond lies in the years 1 to 9999. -/
def InYears (us : ℤ) : Prop :=
  minSecond * 1000000 ≤ us ∧ us < (maxSecond + 1) * 1000000

instance (us : ℤ) : Decidable (InYears us) :=
  inferInstanceAs (Decidable (_ ∧ _))

/-
  What a time outside the years raises: it may be no 64-bit
  second, or a second whose year is no 32-bit integer.
-/
def outOfYears (us : ℤ) : Raised :=
  let second := us / 1000000
  if second < -2 ^ 63 ∨ 2 ^ 63 ≤ second then .overflowError
  else if second < -67768040609740800 ∨
      67768036191676799 < second then .osError
  else .valueError

/- The time of an epoch, in seconds. -/
def fromTimestamp : PyFloat → Except Raised ℚ
  | .nan => .error .valueError
  | .inf _ => .error .overflowError
  | .finite seconds =>
      let us := nearestMicrosecond seconds
      if InYears us then .ok (ofMicroseconds us)
      else .error (outOfYears us)

/- The first text of two that is not empty. -/
def orElse (first second : String) : Option String :=
  if first ≠ "" then some first
  else if second ≠ "" then some second
  else none

def packetFields : List PacketField :=
  [.ttl, .tcpWindow, .frag, .frameLen, .tcpLen, .tcpFlags,
    .retransmission]

/- Every packet measurement is listed. -/
theorem mem_packetFields
    (field : PacketField) :
    field ∈ packetFields := by
  cases field <;> decide

def ofBool (b : Bool) : PyFloat :=
  .finite (if b then 1 else 0)

/- Whether the offset of a fragment is above zero. -/
def offsetPositive : Option PyFloat → Bool
  | some (.finite offset) => decide (0 < offset)
  | some (.inf negative) => !negative
  | some .nan => false
  | none => false

/- The measurements of a packet that its line carries. -/
def TsharkRow.fields
    (row : TsharkRow)
    (flagBits : Option PyFloat) :
    PacketField → Option PyFloat
  | .ttl => floatOrNone row.ttl
  | .tcpWindow => floatOrNone row.window
  | .frameLen => floatOrNone row.frameLen
  | .tcpLen => floatOrNone row.tcpLen
  | .tcpFlags => flagBits
  | .frag =>
      some
        (ofBool
          (isSet row.mf ||
            offsetPositive (floatOrNone row.fragOffset)))
  | .retransmission =>
      some (ofBool (isSet row.retransmission))

/- Whether every measurement that is carried is finite. -/
def packetFinite
    (fields : PacketField → Option PyFloat) : Bool :=
  packetFields.all (fun field =>
    (fields field).all PyFloat.isFinite)

def packetMeasurements
    (fields : PacketField → Option PyFloat) :
    Measurements ℚ :=
  .packet (fun field => (fields field).map PyFloat.value)

theorem packetMeasurements_nonempty
    (row : TsharkRow)
    (flagBits : Option PyFloat) :
    (packetMeasurements (row.fields flagBits)).Nonempty :=
  ⟨.frag, by simp [TsharkRow.fields]⟩

/- The event of a line, unless a measurement is not finite. -/
def buildPacket
    (tenantId jobId : String)
    (row : TsharkRow)
    (flagBits : Option PyFloat)
    (ts : ℚ)
    (srcPort dstPort protocol : Option ℤ) :
    Except Raised (RawEvent ℚ) :=
  if packetFinite (row.fields flagBits) then
    .ok {
      tenantId := tenantId
      jobId := jobId
      ts := ts
      srcIp := row.srcIp
      dstIp := row.dstIp
      srcPort := srcPort
      dstPort := dstPort
      protocol := protocol
      measurements := packetMeasurements (row.fields flagBits)
      nonempty := packetMeasurements_nonempty row flagBits }
  else .error .validationError

/- A packet with an epoch and both addresses, as an event. -/
def packetEvent
    (tenantId jobId : String)
    (row : TsharkRow)
    (seconds : PyFloat) : Except Raised (RawEvent ℚ) := do
  let flagBits ← flagsOrNone row.flags
  let ts ← fromTimestamp seconds
  let srcPort ← optionalInt (orElse row.tcpSport row.udpSport)
  let dstPort ← optionalInt (orElse row.tcpDport row.udpDport)
  let protocol ← optionalInt (orElse row.proto "")
  buildPacket tenantId jobId row flagBits ts srcPort dstPort
    protocol

/-
  One line as a packet event, or nothing when it is unusable:
  no addresses, or no time.
-/
def parseTsharkLine
    (tenantId jobId : String)
    (line : String) :
    Except Raised (Option (RawEvent ℚ)) :=
  match TsharkRow.ofLine line with
  | none => .ok none
  | some row =>
      match floatOrNone row.epoch with
      | none => .ok none
      | some seconds =>
          if row.srcIp = "" ∨ row.dstIp = "" then .ok none
          else
            (packetEvent tenantId jobId row seconds).map some

------------------------------------------------------------
-- Iterators
------------------------------------------------------------

/- What an iterator yields, and what it raises in the end. -/
structure Reading where
  chunks : List (List (RawEvent ℚ))
  raised : Option Raised

/- Yield a chunk, unless it is empty, and go on. -/
def Reading.yielding
    (events : List (RawEvent ℚ))
    (rest : Reading) : Reading :=
  if events = [] then rest
  else { rest with chunks := events :: rest.chunks }

/- The events of the chunks of a table. -/
def iterCsvEvents
    [DecidableEq ι]
    (pd : Pandas)
    (tenantId jobId : String)
    (broken : Option String) : List (Frame ι) → Reading
  | [] =>
      { chunks := []
        raised :=
          broken.map (fun message =>
            .ingestError ("could not read CSV: " ++ message)) }
  | frame :: rest =>
      match csvChunkToEvents pd tenantId jobId frame with
      | .error error => { chunks := [], raised := some error }
      | .ok (events, _) =>
          .yielding events
            (iterCsvEvents pd tenantId jobId broken rest)

/- Events to a progress update. -/
def packetBatch : ℕ := 500

/- The events of the lines, in batches, after some others. -/
def batchLines
    (tenantId jobId : String)
    (ending : Option Raised) :
    List (RawEvent ℚ) → List String → Reading
  | batched, [] =>
      .yielding batched { chunks := [], raised := ending }
  | batched, line :: rest =>
      match parseTsharkLine tenantId jobId line with
      | .error error => { chunks := [], raised := some error }
      | .ok none =>
          batchLines tenantId jobId ending batched rest
      | .ok (some event) =>
          let batched := batched ++ [event]
          if packetBatch ≤ batched.length then
            .yielding batched
              (batchLines tenantId jobId ending [] rest)
          else batchLines tenantId jobId ending batched rest

/- What the extraction of a capture put out. -/
structure Extraction where
  onPath : Bool
  binary : String
  lines : List String
  exitCode : ℤ
  stderr : String

/- What is raised after the last line. -/
def Extraction.ending
    (extraction : Extraction) : Option Raised :=
  if extraction.exitCode = 0 then none
  else
    some
      (.ingestError
        ("tshark exited " ++ toString extraction.exitCode ++
          ": " ++ PyText.strip extraction.stderr))

def iterPcapEvents
    (tenantId jobId : String)
    (extraction : Extraction) : Reading :=
  if extraction.onPath then
    batchLines tenantId jobId extraction.ending []
      extraction.lines
  else
    { chunks := []
      raised :=
        some
          (.ingestError
            ("'" ++ extraction.binary ++
              "' is not on PATH; packet features require " ++
              "tshark (see CLAUDE.md)")) }

end Ingest

end Nidra
