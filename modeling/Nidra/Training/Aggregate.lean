import Nidra.Common.Events
import Nidra.Lib.Groups
import Nidra.Lib.Series
import Nidra.Schema
import Nidra.Training.GraphFeatures

/-
  This file defines the aggregates of the training pipeline:
  the flows and the packets of a day, each with its window,
  and what is computed for every host and window of each.

  Key definitions include:
    * `FlowRow`, `PacketRow`
    * `binEntropy`
    * `flowAggregate`, `aggregateFlows`
    * `packetAggregate`, `aggregatePackets`
-/

namespace Nidra

namespace Training

variable {𝕜 : Type}

------------------------------------------------------------
-- Rows
------------------------------------------------------------

/- The numeric columns of a flow table. -/
inductive FlowColumn where
  | flowDuration
  | totalFwdPackets
  | totalBwdPackets
  | totalLenFwd
  | totalLenBwd
  | flagCount (flag : TcpFlag)
  | flowIatMean
  | flowIatMax
deriving DecidableEq, Repr

/-
  A flow with the window it starts in. A number that is
  missing, or a column that the table lacks, is none.
-/
structure FlowRow (𝕜 : Type) where
  srcIp : String
  dstIp : String
  dstPort : ℤ
  windowTs : ℤ
  label : String
  columns : FlowColumn → Option 𝕜

/- A packet with its window. -/
structure PacketRow (𝕜 : Type) where
  ipSrc : String
  windowTs : ℤ
  ipTtl : Option 𝕜
  tcpWindowSizeValue : Option 𝕜
  payloadLen : Option 𝕜
  isFragment : Bool
  isRetransmission : Bool

/- A host in a window. -/
abbrev HostWindow :=
  String × ℤ

def FlowRow.key (row : FlowRow 𝕜) : HostWindow :=
  (row.srcIp, row.windowTs)

def FlowRow.edge (row : FlowRow 𝕜) : FlowEdge :=
  { srcIp := row.srcIp
    dstIp := row.dstIp
    dstPort := row.dstPort }

def PacketRow.key (row : PacketRow 𝕜) : HostWindow :=
  (row.ipSrc, row.windowTs)

------------------------------------------------------------
-- Aggregates
------------------------------------------------------------

section Aggregates

variable [Field 𝕜] [LinearOrder 𝕜]

/- A ratio; a denominator of zero gives zero. -/
def safeDiv
    (numerator denominator : 𝕜) : 𝕜 :=
  divOrZero numerator denominator

/- One column of a group of flows. -/
def column
    (group : List (FlowRow 𝕜))
    (name : FlowColumn) : Series 𝕜 :=
  group.map (fun row => row.columns name)

/- Packets of a flow, both ways. -/
def totalPackets (row : FlowRow 𝕜) : 𝕜 :=
  (row.columns .totalFwdPackets).getD 0 +
    (row.columns .totalBwdPackets).getD 0

/- Bytes of a flow, both ways. -/
def totalBytes (row : FlowRow 𝕜) : 𝕜 :=
  (row.columns .totalLenFwd).getD 0 +
    (row.columns .totalLenBwd).getD 0

/- A variance is taken of more than one row. -/
def varOf
    (s : Series 𝕜) : Option 𝕜 :=
  if 1 < s.length then s.var else some 0

/- Share of packets with a flag. -/
def flagRatio
    (group : List (FlowRow 𝕜))
    (flag : TcpFlag) : 𝕜 :=
  safeDiv (column group (.flagCount flag)).sum
    (group.map totalPackets).sum

/- The flow features of one host and window. -/
def flowAggregate
    (group : List (FlowRow 𝕜)) :
    FlowFeature → Option 𝕜
  | .synRatio => some (flagRatio group .syn)
  | .ackRatio => some (flagRatio group .ack)
  | .rstRatio => some (flagRatio group .rst)
  | .finRatio => some (flagRatio group .fin)
  | .pshRatio => some (flagRatio group .psh)
  | .urgRatio => some (flagRatio group .urg)
  | .bytesTotal => some (group.map totalBytes).sum
  | .bytesUpDownRatio =>
      some
        (safeDiv (column group .totalLenFwd).sum
          (column group .totalLenBwd).sum)
  | .pktsPerFlowMean =>
      some (average (group.map totalPackets))
  | .flowDurationMean => (column group .flowDuration).mean
  | .flowDurationVar => varOf (column group .flowDuration)
  | .iatMean =>
      some (average ((column group .flowIatMean).filled 0))
  | .iatVar =>
      varOf
        (((column group .flowIatMean).filled 0).map some)
  | .iatMax => ((column group .flowIatMax).filled 0).max?
  | .activeFlowCount => some (group.length : 𝕜)

/- The flow features of every host and window with a flow. -/
def aggregateFlows
    (flows : List (FlowRow 𝕜)) :
    List (HostWindow × (FlowFeature → Option 𝕜)) :=
  (groupsBy FlowRow.key flows).map
    (fun g => (g.1, flowAggregate g.2))

variable [FloorRing 𝕜] [ExpLog 𝕜]

/- Entropy of the values over 16 bins of equal width. -/
def binEntropy (s : Series 𝕜) : 𝕜 :=
  let values := s.present
  if values = [] then 0
  else if values.eraseDups.length = 1 then 0
  else
    shannonEntropy
      ((histogram 16 values).map (fun c => (c : 𝕜)))

def indicator (b : Bool) : 𝕜 :=
  if b then 1 else 0

/- The packet features of one host and window. -/
def packetAggregate
    (group : List (PacketRow 𝕜)) :
    PacketFeature → Option 𝕜 :=
  let ttl := group.map PacketRow.ipTtl
  let tcpWindow := group.map PacketRow.tcpWindowSizeValue
  let payload := group.map PacketRow.payloadLen
  let retransmissions :=
    (group.map (fun row =>
      indicator row.isRetransmission)).sum
  fun
  | .ttlMean => Series.mean ttl
  | .ttlVar => varOf ttl
  | .tcpWindowMean => Series.mean tcpWindow
  | .tcpWindowEntropy => some (binEntropy tcpWindow)
  | .fragFlagRate =>
      some
        (average
          (group.map (fun row => indicator row.isFragment)))
  | .payloadSizeMean => Series.mean payload
  | .payloadSizeVar => varOf payload
  | .payloadSizeP95 => Series.quantileAt payload (95 / 100)
  | .payloadSizeEntropy => some (binEntropy payload)
  | .retransCount => some retransmissions
  | .retransRate =>
      some (safeDiv retransmissions (group.length : 𝕜))

/- The packet features of every host and window. -/
def aggregatePackets
    (packets : List (PacketRow 𝕜)) :
    List (HostWindow × (PacketFeature → 𝕜)) :=
  (groupsBy PacketRow.key packets).map
    (fun g =>
      (g.1, fun name => (packetAggregate g.2 name).getD 0))

end Aggregates

end Training

end Nidra
