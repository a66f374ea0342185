import Mathlib
import Nidra.Lib.Numerals

/-
  This file defines the canonical state-vector schema: the
  45 features of a host's window, in their order, and the
  attack stages.

  Key definitions include:
    * `FlowFeature`
    * `PacketFeature`
    * `GraphFeature`
    * `DynamicSource`
    * `SlopeSource`
    * `Feature`, `Feature.label`
    * `featureOrder`
    * `FeatureVector`
    * `Stage`
-/

namespace Nidra

------------------------------------------------------------
-- Features
------------------------------------------------------------

/- The flow aggregates. -/
inductive FlowFeature where
  | synRatio
  | ackRatio
  | rstRatio
  | finRatio
  | pshRatio
  | urgRatio
  | bytesTotal
  | bytesUpDownRatio
  | pktsPerFlowMean
  | flowDurationMean
  | flowDurationVar
  | iatMean
  | iatVar
  | iatMax
  | activeFlowCount
deriving DecidableEq, Repr

/- The packet aggregates. -/
inductive PacketFeature where
  | ttlMean
  | ttlVar
  | tcpWindowMean
  | tcpWindowEntropy
  | fragFlagRate
  | payloadSizeMean
  | payloadSizeVar
  | payloadSizeP95
  | payloadSizeEntropy
  | retransCount
  | retransRate
deriving DecidableEq, Repr

/- The scalars of the window's host graph. -/
inductive GraphFeature where
  | outDegree
  | inDegree
  | dstIpEntropy
  | dstPortEntropy
  | newPeerCount
  | neighbourRiskFraction
  | localClusteringCoeff
  | reciprocity
deriving DecidableEq, Repr

/- The values whose history feeds the dynamics. -/
inductive DynamicSource where
  | synRatio
  | dstPortEntropy
  | outDegree
  | newPeerCount
  | iatVar
  | retransRate
deriving DecidableEq, Repr

/- The sources that also have a three-window slope. -/
inductive SlopeSource where
  | synRatio
  | dstPortEntropy
  | outDegree
  | iatVar
deriving DecidableEq, Repr

/- A slope is taken of one of the dynamic sources. -/
def SlopeSource.source : SlopeSource → DynamicSource
  | .synRatio => .synRatio
  | .dstPortEntropy => .dstPortEntropy
  | .outDegree => .outDegree
  | .iatVar => .iatVar

/- One feature of the state vector. -/
inductive Feature where
  | flow (name : FlowFeature)
  | packet (name : PacketFeature)
  | graph (name : GraphFeature)
  | delta (of : DynamicSource)
  | slope3 (of : SlopeSource)
  | isActive
deriving DecidableEq, Repr

/- The feature a dynamic source is read from. -/
def DynamicSource.feature : DynamicSource → Feature
  | .synRatio => .flow .synRatio
  | .dstPortEntropy => .graph .dstPortEntropy
  | .outDegree => .graph .outDegree
  | .newPeerCount => .graph .newPeerCount
  | .iatVar => .flow .iatVar
  | .retransRate => .packet .retransRate

/- The names of the features in messages. -/
def FlowFeature.label : FlowFeature → String
  | .synRatio => "syn_ratio"
  | .ackRatio => "ack_ratio"
  | .rstRatio => "rst_ratio"
  | .finRatio => "fin_ratio"
  | .pshRatio => "psh_ratio"
  | .urgRatio => "urg_ratio"
  | .bytesTotal => "bytes_total"
  | .bytesUpDownRatio => "bytes_up_down_ratio"
  | .pktsPerFlowMean => "pkts_per_flow_mean"
  | .flowDurationMean => "flow_duration_mean"
  | .flowDurationVar => "flow_duration_var"
  | .iatMean => "iat_mean"
  | .iatVar => "iat_var"
  | .iatMax => "iat_max"
  | .activeFlowCount => "active_flow_count"

def PacketFeature.label : PacketFeature → String
  | .ttlMean => "ttl_mean"
  | .ttlVar => "ttl_var"
  | .tcpWindowMean => "tcp_window_mean"
  | .tcpWindowEntropy => "tcp_window_entropy"
  | .fragFlagRate => "frag_flag_rate"
  | .payloadSizeMean => "payload_size_mean"
  | .payloadSizeVar => "payload_size_var"
  | .payloadSizeP95 => "payload_size_p95"
  | .payloadSizeEntropy => "payload_size_entropy"
  | .retransCount => "retrans_count"
  | .retransRate => "retrans_rate"

def GraphFeature.label : GraphFeature → String
  | .outDegree => "out_degree"
  | .inDegree => "in_degree"
  | .dstIpEntropy => "dst_ip_entropy"
  | .dstPortEntropy => "dst_port_entropy"
  | .newPeerCount => "new_peer_count"
  | .neighbourRiskFraction => "neighbour_risk_fraction"
  | .localClusteringCoeff => "local_clustering_coeff"
  | .reciprocity => "reciprocity"

def DynamicSource.label : DynamicSource → String
  | .synRatio => "syn_ratio"
  | .dstPortEntropy => "dst_port_entropy"
  | .outDegree => "out_degree"
  | .newPeerCount => "new_peer_count"
  | .iatVar => "iat_var"
  | .retransRate => "retrans_rate"

def Feature.label : Feature → String
  | .flow name => name.label
  | .packet name => name.label
  | .graph name => name.label
  | .delta of => "d_" ++ of.label
  | .slope3 of => "slope3_" ++ of.source.label
  | .isActive => "is_active"

/- The order of the features in an encoded state. -/
def featureOrder : List Feature :=
  [ .flow .synRatio, .flow .ackRatio, .flow .rstRatio,
    .flow .finRatio, .flow .pshRatio, .flow .urgRatio,
    .flow .bytesTotal, .flow .bytesUpDownRatio,
    .flow .pktsPerFlowMean, .flow .flowDurationMean,
    .flow .flowDurationVar, .flow .iatMean,
    .flow .iatVar, .flow .iatMax,
    .flow .activeFlowCount,
    .packet .ttlMean, .packet .ttlVar,
    .packet .tcpWindowMean, .packet .tcpWindowEntropy,
    .packet .fragFlagRate, .packet .payloadSizeMean,
    .packet .payloadSizeVar, .packet .payloadSizeP95,
    .packet .payloadSizeEntropy, .packet .retransCount,
    .packet .retransRate,
    .graph .outDegree, .graph .inDegree,
    .graph .dstIpEntropy, .graph .dstPortEntropy,
    .graph .newPeerCount, .graph .neighbourRiskFraction,
    .graph .localClusteringCoeff, .graph .reciprocity,
    .delta .synRatio, .delta .dstPortEntropy,
    .delta .outDegree, .delta .newPeerCount,
    .delta .iatVar, .delta .retransRate,
    .slope3 .synRatio, .slope3 .dstPortEntropy,
    .slope3 .outDegree, .slope3 .iatVar,
    .isActive ]

/- Every feature has a place in the order. -/
theorem mem_featureOrder
    (f : Feature) :
    f ∈ featureOrder := by
  cases f with
  | flow name => cases name <;> decide
  | packet name => cases name <;> decide
  | graph name => cases name <;> decide
  | delta of => cases of <;> decide
  | slope3 of => cases of <;> decide
  | isActive => decide

/- No feature has two places in the order. -/
theorem featureOrder_nodup :
    featureOrder.Nodup := by
  decide

example : featureOrder.length = 45 := rfl

/-
  A state row. It has a value for every feature and for
  nothing else, which is what every producer and consumer of
  a state vector validates.
-/
abbrev FeatureVector (𝕜 : Type) :=
  Feature → 𝕜

------------------------------------------------------------
-- Stages
------------------------------------------------------------

/- The attack stages, from the least severe. -/
inductive Stage where
  | benign
  | recon
  | initialAccess
  | lateral
  | c2
  | exfil
deriving DecidableEq, Repr

end Nidra
