import Nidra.Schema

/-
  This file defines the normalised records of the raw event
  stream, the state vectors of the vector stream, and the
  vocabulary of measurements each kind of record carries.

  Key definitions include:
    * `FlowField`
    * `PacketField`
    * `Measurements`
    * `RawEvent`
    * `StateVector`
-/

namespace Nidra

------------------------------------------------------------
-- Measurements
------------------------------------------------------------

/- TCP flags, in the order they are counted. -/
inductive TcpFlag where
  | syn
  | ack
  | rst
  | fin
  | psh
  | urg
deriving DecidableEq, Repr

namespace TcpFlag

def all : List TcpFlag :=
  [.syn, .ack, .rst, .fin, .psh, .urg]

/- The bit of the flag in the flags of a packet. -/
def bit : TcpFlag → ℤ
  | .syn => 0x02
  | .ack => 0x10
  | .rst => 0x04
  | .fin => 0x01
  | .psh => 0x08
  | .urg => 0x20

end TcpFlag

/- Flow-side measurements. -/
inductive FlowField where
  | duration
  | bytesFwd
  | bytesBwd
  | pktsFwd
  | pktsBwd
  | flagCount (flag : TcpFlag)
  | iatMean
  | iatStd
  | iatMax
deriving DecidableEq, Repr

/- Packet-side measurements. -/
inductive PacketField where
  | ttl
  | tcpWindow
  | frag
  | frameLen
  | tcpLen
  | tcpFlags
  | retransmission
deriving DecidableEq, Repr

/-
  The kind of a record with the measurements it carries. A
  measurement outside the vocabulary of the kind cannot be
  written down.
-/
inductive Measurements (𝕜 : Type) where
  | flow (fields : FlowField → Option 𝕜)
  | packet (fields : PacketField → Option 𝕜)

/- Whether at least one measurement is carried. -/
def Measurements.Nonempty
    {𝕜 : Type} : Measurements 𝕜 → Prop
  | .flow fields => ∃ f, fields f ≠ none
  | .packet fields => ∃ f, fields f ≠ none

------------------------------------------------------------
-- Messages
------------------------------------------------------------

/-
  One normalised record: a flow summary or one packet. The
  time is in seconds since the epoch.
-/
structure RawEvent (𝕜 : Type) where
  tenantId : String
  jobId : String
  ts : ℚ
  srcIp : String
  dstIp : String
  srcPort : Option ℤ := none
  dstPort : Option ℤ := none
  protocol : Option ℤ := none
  measurements : Measurements 𝕜
  label : Option String := none
  nonempty : measurements.Nonempty

/- One host's state over one window. -/
structure StateVector (𝕜 : Type) where
  tenantId : String
  hostId : String
  windowTs : ℤ
  features : FeatureVector 𝕜

end Nidra
