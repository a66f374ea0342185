import Nidra.Flows.Segments
import Nidra.Lib.Fallible
import Nidra.Lib.Gaps
import Nidra.Lib.NumericColumn
import Nidra.Lib.PyText

/-
  This file defines how flow records are built from a packet
  table: a key that is the same for both directions, the
  segments of each connection, the direction that a flow
  takes from its epoch, and the columns of each flow.

  Key definitions include:
    * `Packet`, `Row`, `Flow`
    * `flagValues`, `decodeFlagBits`
    * `flowKey`
    * `segmented`, `direct`
    * `assembleAll`, `assembleFlows`
-/

namespace Nidra

namespace Flows

------------------------------------------------------------
-- Packets
------------------------------------------------------------

/- The text of an IP address, which holds no bar. -/
structure Address where
  text : String
  noBar : '|' ∉ text.toList
deriving DecidableEq

/- A row of the packet table; none is a missing value. -/
structure Packet where
  frameTimeEpoch : ℚ
  ipSrc : Address
  ipDst : Address
  srcPort : Option ℤ
  dstPort : Option ℤ
  ipProto : Option ℤ
  payloadLen : Option ℚ
  tcpFlags : Option String

inductive Flag where
  | fin
  | syn
  | rst
  | psh
  | ack
  | urg
deriving DecidableEq

instance : Fintype Flag where
  elems := {.fin, .syn, .rst, .psh, .ack, .urg}
  complete := by
    intro flag
    cases flag <;> decide

/- The bit of a flag in the number that carries them. -/
def Flag.bit : Flag → ℤ
  | .fin => 0x01
  | .syn => 0x02
  | .rst => 0x04
  | .psh => 0x08
  | .ack => 0x10
  | .urg => 0x20

/- A flags text like "0x0018"; an empty one is zero. -/
def hexFlags (text : Option String) : Option ℤ :=
  let text := PyText.strip (text.getD "")
  if text = "" ∨ text = "0" then some 0
  else PyText.intHex text

/-
  The type of the numbers of a flags column, and the integer
  that a text is in a column of some type; zero if it is no
  number.
-/
def flagKind
    (reader : NumericReader)
    (flags : List (Option String)) : NumberKind :=
  kindOf (flags.map reader.cell)

def flagNumber
    (reader : NumericReader)
    (kind : NumberKind)
    (text : Option String) : Option Int64 :=
  (reader.cell text).toInt64 reader.overflow kind

/-
  The column of flags as numbers. It is read as hexadecimal
  texts when none of its values is a number other than zero;
  this raises for a text that is none. An infinity raises in
  either case. How texts are read as numbers is given.
-/
def flagValues
    (reader : NumericReader)
    (flags : List (Option String)) :
    Option (List Int64) := do
  let asInt ←
    flags.mapM (flagNumber reader (flagKind reader flags))
  if asInt.all (fun value => value = 0) &&
      flags.any Option.isSome then
    let values ← flags.mapM hexFlags
    int64Column values
  else return asInt

/- The flags that a number carries. -/
def bitsOf
    (value : Int64)
    (flag : Flag) : Bool :=
  decide (Int.land value.toInt flag.bit ≠ 0)

/- The flags of each packet. -/
def decodeFlagBits
    (reader : NumericReader)
    (flags : List (Option String)) :
    Option (List (Flag → Bool)) :=
  (flagValues reader flags).map (List.map bitsOf)

------------------------------------------------------------
-- Connections
------------------------------------------------------------

/- One end of a connection. -/
structure Endpoint where
  ip : Address
  port : ℤ
deriving DecidableEq

def Endpoint.text (e : Endpoint) : String :=
  e.ip.text ++ ":" ++ toString e.port

/- A packet with its missing values filled, and its flags. -/
structure Row where
  time : ℚ
  src : Endpoint
  dst : Endpoint
  proto : ℤ
  payload : ℚ
  bits : Flag → Bool
deriving DecidableEq

def rowOf
    (p : Packet)
    (bits : Flag → Bool) : Row :=
  { time := p.frameTimeEpoch
    src :=
      { ip := p.ipSrc
        port := p.srcPort.getD 0 }
    dst :=
      { ip := p.ipDst
        port := p.dstPort.getD 0 }
    proto := p.ipProto.getD 0
    payload := p.payloadLen.getD 0
    bits := bits }

/- The rows of a packet table. -/
def rows
    (reader : NumericReader)
    (packets : List Packet) : Option (List Row) := do
  let bits ←
    decodeFlagBits reader (packets.map Packet.tcpFlags)
  return List.zipWith rowOf packets bits

/- A key that does not depend on the direction. -/
def flowKey (row : Row) : String :=
  let a := row.src.text
  let b := row.dst.text
  let lo := if a ≤ b then a else b
  let hi := if a ≤ b then b else a
  lo ++ "|" ++ hi ++ "|" ++ toString row.proto

/- Sort by connection and by time within each. -/
def sorted (rows : List Row) : List Row :=
  sortByKey (fun row => toLex (flowKey row, row.time)) rows

def Row.tick (row : Row) : Tick :=
  { time := row.time
    fin := row.bits .fin
    rst := row.bits .rst }

/- The name of a part of a connection. -/
def partName
    (key : String)
    (id : ℕ) : String :=
  key ++ "#" ++ toString id

/- A row, and the names of its flow and direction epoch. -/
structure SegRow where
  row : Row
  flow : String
  dirEpoch : String

/- Name the flow and the direction epoch of a row. -/
def nameRow (entry : Row × ℕ × ℕ) : SegRow :=
  { row := entry.1
    flow := partName (flowKey entry.1) entry.2.1
    dirEpoch := partName (flowKey entry.1) entry.2.2 }

/- Name those of every row. -/
def segmented
    (flowTimeoutS : ℚ)
    (p : List Row) : List SegRow :=
  let parts :=
    (groupsBy flowKey p).map (fun group =>
      segmentIds (group.2.map Row.tick) flowTimeoutS)
  let seg := (parts.map Prod.fst).flatten
  let dirEpoch := (parts.map Prod.snd).flatten
  (p.zip (seg.zip dirEpoch)).map nameRow

/- A row with the ends of its flow. -/
structure DirectedRow where
  row : Row
  flow : String
  fSrc : Endpoint
  fDst : Endpoint

/-
  Forward is the direction of the first packet of the epoch,
  so that a flow that the timeout opens keeps the direction
  of the one it continues.
-/
def direct (p : List SegRow) : List DirectedRow :=
  p.map (fun r =>
    let first :=
      (p.find? (fun q => q.dirEpoch = r.dirEpoch)).getD r
    { row := r.row
      flow := r.flow
      fSrc := first.row.src
      fDst := first.row.dst })

def DirectedRow.isFwd (r : DirectedRow) : Bool :=
  r.row.src.ip = r.fSrc.ip ∧ r.row.src.port = r.fSrc.port

def DirectedRow.fwdLen (r : DirectedRow) : ℚ :=
  if r.isFwd then r.row.payload else 0

def DirectedRow.bwdLen (r : DirectedRow) : ℚ :=
  if r.isFwd then 0 else r.row.payload

------------------------------------------------------------
-- Flows
------------------------------------------------------------

/- The columns of a flow. A flag counts whether it is there. -/
structure Flow where
  srcIp : Address
  dstIp : Address
  srcPort : ℤ
  dstPort : ℤ
  protocol : ℤ
  timestamp : ℚ
  flowDuration : ℚ
  totalFwdPackets : ℕ
  totalBwdPackets : ℕ
  totalLenFwd : ℚ
  totalLenBwd : ℚ
  flagCount : Flag → ℕ
  flowIatMean : ℚ
  flowIatMax : ℚ
deriving DecidableEq

/- A flow with the number of its packets. -/
structure Assembled where
  n : ℕ
  flow : Flow
deriving DecidableEq

/- Microseconds to a second. -/
def us : ℚ := 1000000

/-
  The mean and the longest time between packets in order; a
  flow of one packet has none, which counts zero.
-/
def interArrival (times : List ℚ) : ℚ × ℚ :=
  if times.length < 2 then (0, 0)
  else
    let diffs := gaps (sortByKey (fun t => t) times)
    (average diffs * us, largest diffs * us)

/- The columns of the flow that some rows make up. -/
def flowOf
    (first : DirectedRow)
    (group : List DirectedRow) : Assembled :=
  let times := group.map (fun r => r.row.time)
  let timestamp := times.min?.getD 0
  let tLast := times.max?.getD 0
  let fwd := group.countP DirectedRow.isFwd
  let iat := interArrival times
  { n := group.length
    flow :=
      { srcIp := first.fSrc.ip
        dstIp := first.fDst.ip
        srcPort := first.fSrc.port
        dstPort := first.fDst.port
        protocol := first.row.proto
        timestamp := timestamp
        flowDuration := (tLast - timestamp) * us
        totalFwdPackets := fwd
        totalBwdPackets := group.length - fwd
        totalLenFwd := (group.map DirectedRow.fwdLen).sum
        totalLenBwd := (group.map DirectedRow.bwdLen).sum
        flagCount := fun flag =>
          if group.any (fun r => r.row.bits flag) then 1 else 0
        flowIatMean := iat.1
        flowIatMax := iat.2 } }

/- The flows of some rows, in the order they first appear. -/
def flowsOf (p : List DirectedRow) : List Assembled :=
  (groupsBy DirectedRow.flow p).filterMap (fun group =>
    group.2.head?.map (fun first => flowOf first group.2))

/- Every flow of some rows. -/
def assembleRows
    (flowTimeoutS : ℚ)
    (rows : List Row) : List Assembled :=
  flowsOf (direct (segmented flowTimeoutS (sorted rows)))

/- Every flow of a packet table, of one packet or more. -/
def assembleAll
    (reader : NumericReader)
    (packets : List Packet)
    (flowTimeoutS : ℚ) : Option (List Assembled) := do
  let rows ← rows reader packets
  return assembleRows flowTimeoutS rows

/- Packets that a flow needs to be published. -/
def minPacketsPerFlow : ℕ := 2

/- Whether a flow is published. -/
def Assembled.published (f : Assembled) : Bool :=
  minPacketsPerFlow ≤ f.n

/-
  The flows of a packet table. The answer is `none` when the
  flags cannot be read.
-/
def assembleFlows
    (reader : NumericReader)
    (packets : List Packet)
    (flowTimeoutS : ℚ) : Option (List Flow) := do
  if packets.isEmpty then return []
  let all ← assembleAll reader packets flowTimeoutS
  return (all.filter Assembled.published).map Assembled.flow

end Flows

end Nidra
