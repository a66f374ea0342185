import Nidra.Common.Events
import Nidra.Lib.Folds
import Nidra.Lib.Numeric
import Nidra.Lib.SetMap
import Nidra.Lib.Tally

/-
  This file defines the 45 features of one closed window, as
  the features service computes them from the window's
  counters, its host graph and the host's history.

  Key definitions include:
    * `variance`, `shannonEntropy`, `percentile`, `olsSlope`
    * `WindowField`, `eventIncrements`
    * `WindowAccumulator`, `WindowAccumulator.fromHash`
    * `WindowGraph`, `WindowGraph.fromEdges`
    * `flowFeatures`, `packetFeatures`, `graphFeatures`
    * `deltaOf`, `slopeOf`, `computeFeatures`
-/

namespace Nidra

namespace Features

variable {𝕜 : Type}

------------------------------------------------------------
-- Numerics
------------------------------------------------------------

section Numerics

variable [Field 𝕜] [LinearOrder 𝕜]

/- A ratio, or zero when its denominator is zero. -/
def safeDiv
    (numerator denominator : 𝕜) : 𝕜 :=
  divOrZero numerator denominator

/- Population variance from running sums. -/
def variance
    (total totalSq count : 𝕜) : 𝕜 :=
  if count ≤ 0 then 0
  else max 0 (totalSq / count - (total / count) ^ 2)

/- Shannon entropy in nats of a list of counts. -/
def shannonEntropy
    [ExpLog 𝕜]
    (counts : List 𝕜) : 𝕜 :=
  let values := counts.filter (fun c => decide (0 < c))
  let total := values.sum
  if total ≤ 0 then 0
  else
    -(values.map
      (fun c => c / total * ExpLog.log (c / total))).sum

/- Sort key of a value with its count. -/
def pairLe (a b : 𝕜 × 𝕜) : Bool :=
  decide (a.1 < b.1 ∨ a.1 = b.1 ∧ a.2 ≤ b.2)

/-
  The first value at which the counts seen so far reach the
  target, or the last value when none does.
-/
def percentileScan
    (target : 𝕜) : 𝕜 → List (𝕜 × 𝕜) → 𝕜 → 𝕜
  | _, [], last => last
  | seen, (value, count) :: rest, _ =>
      if target ≤ seen + count then value
      else percentileScan target (seen + count) rest value

/- Nearest-rank quantile of a distribution of counts. -/
def percentile
    (counts : List (𝕜 × 𝕜))
    (q : 𝕜) : 𝕜 :=
  let pairs :=
    (counts.filter (fun p => decide (0 < p.2))).mergeSort
      pairLe
  let total := (pairs.map Prod.snd).sum
  if pairs = [] ∨ total ≤ 0 then 0
  else percentileScan (q * total) 0 pairs 0

/- Points required before a slope is meaningful. -/
def slopeWindow : ℕ := 3

/- Least-squares slope against evenly spaced steps. -/
def olsSlope (values : List 𝕜) : 𝕜 :=
  let n := values.length
  if n < slopeWindow then 0
  else
    let meanX : 𝕜 := ((n : 𝕜) - 1) / 2
    let meanY := values.sum / n
    let steps := (List.range n).map (fun i => (i : 𝕜))
    let denominator :=
      (steps.map (fun x => (x - meanX) ^ 2)).sum
    let numerator :=
      (List.zipWith (fun x y => (x - meanX) * (y - meanY))
        steps values).sum
    safeDiv numerator denominator

end Numerics

------------------------------------------------------------
-- Accumulation
------------------------------------------------------------

/- The running scalars of a window. -/
inductive Counter where
  | nFlows
  | pktCount
  | flowPkts
  | flag (flag : TcpFlag)
  | bytesUp
  | bytesDown
  | durSum
  | durSq
  | iatSum
  | iatSq
  | nPackets
  | nTtl
  | ttlSum
  | ttlSq
  | nTcpWindow
  | tcpWindowSum
  | fragCount
  | nPayload
  | payloadSum
  | payloadSq
  | retransCount
deriving DecidableEq, Repr

/-
  A field of a window's hash: a running scalar, or one bucket
  of a value-count distribution.
-/
inductive WindowField (𝕜 : Type) where
  | scalar (name : Counter)
  | dstIp (ip : String)
  | dstPort (port : ℤ)
  | tcpWindow (size : ℤ)
  | payload (size : ℤ)
  | flowIatMax (value : 𝕜)
deriving DecidableEq

section Accumulation

variable [Field 𝕜] [LinearOrder 𝕜] [FloorRing 𝕜]

/- The increments a flow adds to those of its envelope. -/
def flowIncrements
    (inc : Tally (WindowField 𝕜) 𝕜)
    (fields : FlowField → Option 𝕜) :
    Tally (WindowField 𝕜) 𝕜 :=
  let get := fun f => (fields f).getD 0
  let packets := get .pktsFwd + get .pktsBwd
  let inc := inc.bump (.scalar .nFlows) 1
  let inc := inc.bump (.scalar .pktCount) packets
  let inc := inc.bump (.scalar .flowPkts) packets
  let inc :=
    TcpFlag.all.foldl
      (fun inc flag =>
        let count := get (.flagCount flag)
        if count = 0 then inc
        else inc.bump (.scalar (.flag flag)) count)
      inc
  let inc := inc.bump (.scalar .bytesUp) (get .bytesFwd)
  let inc := inc.bump (.scalar .bytesDown) (get .bytesBwd)
  let duration := get .duration
  let inc := inc.bump (.scalar .durSum) duration
  let inc :=
    inc.bump (.scalar .durSq) (duration * duration)
  let iatMean := get .iatMean
  let inc := inc.bump (.scalar .iatSum) iatMean
  let inc := inc.bump (.scalar .iatSq) (iatMean * iatMean)
  inc.bump (.flowIatMax (roundTo 6 (get .iatMax))) 1

/- Add to the fields of a measurement that is present. -/
def bumpPresent
    (inc : Tally (WindowField 𝕜) 𝕜)
    (value : Option 𝕜)
    (f : 𝕜 → Tally (WindowField 𝕜) 𝕜 →
      Tally (WindowField 𝕜) 𝕜) :
    Tally (WindowField 𝕜) 𝕜 :=
  match value with
  | none => inc
  | some x => f x inc

/- The increments a packet adds to those of its envelope. -/
def packetIncrements
    (inc : Tally (WindowField 𝕜) 𝕜)
    (fields : PacketField → Option 𝕜) :
    Tally (WindowField 𝕜) 𝕜 :=
  let get := fun f => (fields f).getD 0
  let inc := inc.bump (.scalar .nPackets) 1
  let inc := inc.bump (.scalar .pktCount) 1
  let flags := truncate (get .tcpFlags)
  let inc :=
    TcpFlag.all.foldl
      (fun inc flag =>
        if Int.land flags flag.bit = 0 then inc
        else inc.bump (.scalar (.flag flag)) 1)
      inc
  let inc := inc.bump (.scalar .bytesUp) (get .frameLen)
  let inc :=
    bumpPresent inc (fields .ttl) (fun ttl inc =>
      let inc := inc.bump (.scalar .nTtl) 1
      let inc := inc.bump (.scalar .ttlSum) ttl
      inc.bump (.scalar .ttlSq) (ttl * ttl))
  let inc :=
    bumpPresent inc (fields .tcpWindow) (fun window inc =>
      let inc := inc.bump (.scalar .nTcpWindow) 1
      let inc := inc.bump (.scalar .tcpWindowSum) window
      inc.bump (.tcpWindow (truncate window)) 1)
  let inc :=
    if get .frag = 0 then inc
    else inc.bump (.scalar .fragCount) 1
  let inc :=
    bumpPresent inc (fields .tcpLen) (fun payload inc =>
      let inc := inc.bump (.scalar .nPayload) 1
      let inc := inc.bump (.scalar .payloadSum) payload
      let inc :=
        inc.bump (.scalar .payloadSq) (payload * payload)
      inc.bump (.payload (truncate payload)) 1)
  if get .retransmission = 0 then inc
  else inc.bump (.scalar .retransCount) 1

/-
  What one event adds to the open window of its source host.
-/
def eventIncrements
    (event : RawEvent 𝕜) : Tally (WindowField 𝕜) 𝕜 :=
  let inc := Tally.empty
  let inc :=
    if event.dstIp = "" then inc
    else inc.bump (.dstIp event.dstIp) 1
  let inc :=
    match event.dstPort with
    | none => inc
    | some port => inc.bump (.dstPort port) 1
  match event.measurements with
  | .flow fields => flowIncrements inc fields
  | .packet fields => packetIncrements inc fields

end Accumulation

/-
  One host's closed window: running scalars and the small
  value-count distributions.
-/
structure WindowAccumulator (𝕜 : Type) where
  scalars : Tally Counter 𝕜
  dstIp : Tally String 𝕜
  dstPort : Tally ℤ 𝕜
  tcpWindow : Tally ℤ 𝕜
  payload : Tally ℤ 𝕜
  flowIatMax : Tally 𝕜 𝕜

namespace WindowAccumulator

/- The accumulator of an empty hash. -/
def empty : WindowAccumulator 𝕜 :=
  { scalars := .empty
    dstIp := .empty
    dstPort := .empty
    tcpWindow := .empty
    payload := .empty
    flowIatMax := .empty }

section Fields

variable [DecidableEq 𝕜]

/- Sort one field of a hash under its distribution. -/
def setField
    (acc : WindowAccumulator 𝕜)
    (field : WindowField 𝕜)
    (value : 𝕜) : WindowAccumulator 𝕜 :=
  match field with
  | .scalar name =>
      { acc with scalars := acc.scalars.set name value }
  | .dstIp ip =>
      { acc with dstIp := acc.dstIp.set ip value }
  | .dstPort port =>
      { acc with dstPort := acc.dstPort.set port value }
  | .tcpWindow size =>
      { acc with tcpWindow := acc.tcpWindow.set size value }
  | .payload size =>
      { acc with payload := acc.payload.set size value }
  | .flowIatMax at' =>
      { acc with
        flowIatMax := acc.flowIatMax.set at' value }

/- Rebuild the accumulator from the window's hash. -/
def fromHash
    (mapping : Tally (WindowField 𝕜) 𝕜) :
    WindowAccumulator 𝕜 :=
  mapping.toList.foldl
    (fun acc e => acc.setField e.1 e.2) empty

end Fields

/- A running scalar, zero when it was never counted. -/
def get
    [Zero 𝕜]
    (acc : WindowAccumulator 𝕜)
    (name : Counter) : 𝕜 :=
  acc.scalars.count name

/- The number of events folded into the window. -/
def eventCount
    [Zero 𝕜]
    [Add 𝕜]
    (acc : WindowAccumulator 𝕜) : 𝕜 :=
  acc.get .nFlows + acc.get .nPackets

end WindowAccumulator

------------------------------------------------------------
-- The window graph
------------------------------------------------------------

/- The transient directed graph over hosts of one window. -/
structure WindowGraph where
  outPeers : SetMap String String
  inPeers : SetMap String String

namespace WindowGraph

/- The graph of no edge. -/
def empty : WindowGraph :=
  { outPeers := .empty
    inPeers := .empty }

/- Add one edge to the graph. -/
def addEdge
    (graph : WindowGraph)
    (edge : String × String) : WindowGraph :=
  { outPeers :=
      (graph.outPeers.add edge.1 edge.2).touch edge.2
    inPeers :=
      (graph.inPeers.add edge.2 edge.1).touch edge.1 }

def fromEdges
    (edges : List (String × String)) : WindowGraph :=
  edges.foldl addEdge empty

def successors
    (graph : WindowGraph)
    (host : String) : Finset String :=
  graph.outPeers.members host

def predecessors
    (graph : WindowGraph)
    (host : String) : Finset String :=
  graph.inPeers.members host

/- One edge adds its end to the successors of its start. -/
theorem mem_successors_addEdge
    (graph : WindowGraph)
    (edge : String × String)
    (src dst : String) :
    dst ∈ (graph.addEdge edge).successors src ↔
      (src = edge.1 ∧ dst = edge.2) ∨
        dst ∈ graph.successors src := by
  simp [addEdge, successors]

/- One edge adds its start to the predecessors of its end. -/
theorem mem_predecessors_addEdge
    (graph : WindowGraph)
    (edge : String × String)
    (src dst : String) :
    src ∈ (graph.addEdge edge).predecessors dst ↔
      (dst = edge.2 ∧ src = edge.1) ∨
        src ∈ graph.predecessors dst := by
  simp [addEdge, predecessors]

theorem mem_successors_fromEdges
    (edges : List (String × String))
    (src dst : String) :
    dst ∈ (fromEdges edges).successors src ↔
      (src, dst) ∈ edges := by
  have hFold :=
    List.foldl_iff_exists
      (fun graph => dst ∈ graph.successors src)
      (fun graph edge =>
        mem_successors_addEdge graph edge src dst)
      edges empty
  have hEmpty : dst ∉ empty.successors src := by
    simp [empty, successors]
  simpa [fromEdges, hEmpty, ← Prod.ext_iff] using hFold

theorem mem_predecessors_fromEdges
    (edges : List (String × String))
    (src dst : String) :
    src ∈ (fromEdges edges).predecessors dst ↔
      (src, dst) ∈ edges := by
  have hFold :=
    List.foldl_iff_exists
      (fun graph => src ∈ graph.predecessors dst)
      (fun graph edge =>
        mem_predecessors_addEdge graph edge src dst)
      edges empty
  have hEmpty : src ∉ empty.predecessors dst := by
    simp [empty, predecessors]
  simpa [fromEdges, hEmpty, ← Prod.ext_iff, and_comm] using hFold

def outDegree
    (graph : WindowGraph)
    (host : String) : ℕ :=
  (graph.successors host).card

def inDegree
    (graph : WindowGraph)
    (host : String) : ℕ :=
  (graph.predecessors host).card

/-
  Fraction of the host's destinations that also sent to it
  in the same window.
-/
def reciprocity
    [Field 𝕜]
    [LinearOrder 𝕜]
    (graph : WindowGraph)
    (host : String) : 𝕜 :=
  let out := graph.successors host
  safeDiv ((out ∩ graph.predecessors host).card : 𝕜)
    (out.card : 𝕜)

/- The neighbours of a host, edge direction ignored. -/
def neighbours
    (graph : WindowGraph)
    (host : String) : Finset String :=
  graph.successors host ∪ graph.predecessors host

/- Links between the nodes of a list, each counted once. -/
def countLinks
    (graph : WindowGraph)
    (present : Finset String) : List String → ℕ
  | [] => 0
  | node :: rest =>
      let reachable := graph.neighbours node ∩ present
      (rest.filter (fun other => other ∈ reachable)).length +
        countLinks graph present rest

/-
  Undirected local clustering over the host's neighbourhood,
  cut to its first `degreeCap` peers in sorted order.
-/
def clustering
    [Field 𝕜]
    [LinearOrder 𝕜]
    (graph : WindowGraph)
    (host : String)
    (degreeCap : ℕ) : 𝕜 :=
  let sampled :=
    ((graph.neighbours host).sort (· ≤ ·)).take degreeCap
  let size := sampled.length
  if size < 2 then 0
  else
    let links :=
      graph.countLinks sampled.toFinset sampled
    safeDiv (links : 𝕜) ((size : 𝕜) * ((size : 𝕜) - 1) / 2)

end WindowGraph

------------------------------------------------------------
-- The vector
------------------------------------------------------------

/- The tracked values of one past window. -/
abbrev Tracked (𝕜 : Type) :=
  DynamicSource → 𝕜

/- The state row of a silent window. -/
def zeroFeatures [Zero 𝕜] : FeatureVector 𝕜 :=
  fun _ => 0

section Vector

variable [Field 𝕜] [LinearOrder 𝕜]

def flowFeatures
    (acc : WindowAccumulator 𝕜) : FlowFeature → 𝕜 :=
  let packets := acc.get .pktCount
  let flows := acc.get .nFlows
  fun
  | .synRatio => safeDiv (acc.get (.flag .syn)) packets
  | .ackRatio => safeDiv (acc.get (.flag .ack)) packets
  | .rstRatio => safeDiv (acc.get (.flag .rst)) packets
  | .finRatio => safeDiv (acc.get (.flag .fin)) packets
  | .pshRatio => safeDiv (acc.get (.flag .psh)) packets
  | .urgRatio => safeDiv (acc.get (.flag .urg)) packets
  | .bytesTotal => acc.get .bytesUp + acc.get .bytesDown
  | .bytesUpDownRatio =>
      safeDiv (acc.get .bytesUp) (acc.get .bytesDown)
  | .pktsPerFlowMean => safeDiv (acc.get .flowPkts) flows
  | .flowDurationMean => safeDiv (acc.get .durSum) flows
  | .flowDurationVar =>
      variance (acc.get .durSum) (acc.get .durSq) flows
  | .iatMean => safeDiv (acc.get .iatSum) flows
  | .iatVar =>
      variance (acc.get .iatSum) (acc.get .iatSq) flows
  | .iatMax => percentile acc.flowIatMax.toList 1
  | .activeFlowCount => flows

/- A distribution over integers, read as numbers. -/
def numericBuckets
    (dist : Tally ℤ 𝕜) : List (𝕜 × 𝕜) :=
  dist.toList.map (fun e => ((e.1 : 𝕜), e.2))

def packetFeatures
    [ExpLog 𝕜]
    (acc : WindowAccumulator 𝕜) : PacketFeature → 𝕜 :=
  let observed := acc.get .nPackets
  fun
  | .ttlMean => safeDiv (acc.get .ttlSum) (acc.get .nTtl)
  | .ttlVar =>
      variance (acc.get .ttlSum) (acc.get .ttlSq)
        (acc.get .nTtl)
  | .tcpWindowMean =>
      safeDiv (acc.get .tcpWindowSum) (acc.get .nTcpWindow)
  | .tcpWindowEntropy => shannonEntropy acc.tcpWindow.values
  | .fragFlagRate => safeDiv (acc.get .fragCount) observed
  | .payloadSizeMean =>
      safeDiv (acc.get .payloadSum) (acc.get .nPayload)
  | .payloadSizeVar =>
      variance (acc.get .payloadSum) (acc.get .payloadSq)
        (acc.get .nPayload)
  | .payloadSizeP95 =>
      percentile (numericBuckets acc.payload) (95 / 100)
  | .payloadSizeEntropy => shannonEntropy acc.payload.values
  | .retransCount => acc.get .retransCount
  | .retransRate => safeDiv (acc.get .retransCount) observed

def graphFeatures
    [ExpLog 𝕜]
    (acc : WindowAccumulator 𝕜)
    (host : String)
    (graph previousGraph : WindowGraph)
    (newPeerCount elevatedFanout degreeCap : ℕ) :
    GraphFeature → 𝕜 :=
  let peers := graph.successors host
  let elevated :=
    (peers.filter
      (fun peer =>
        elevatedFanout ≤ previousGraph.outDegree peer)).card
  fun
  | .outDegree => (graph.outDegree host : 𝕜)
  | .inDegree => (graph.inDegree host : 𝕜)
  | .dstIpEntropy => shannonEntropy acc.dstIp.values
  | .dstPortEntropy => shannonEntropy acc.dstPort.values
  | .newPeerCount => (newPeerCount : 𝕜)
  | .neighbourRiskFraction =>
      safeDiv (elevated : 𝕜) (peers.card : 𝕜)
  | .localClusteringCoeff => graph.clustering host degreeCap
  | .reciprocity => graph.reciprocity host

/-
  Backward difference of a source, against the last window
  of the history.
-/
def deltaOf
    (current : Tracked 𝕜)
    (history : List (Tracked 𝕜))
    (source : DynamicSource) : 𝕜 :=
  match history.getLast? with
  | none => 0
  | some previous => current source - previous source

/-
  Slope of a source over the last two windows of the history
  and the current one.
-/
def slopeOf
    (current : Tracked 𝕜)
    (history : List (Tracked 𝕜))
    (source : DynamicSource) : 𝕜 :=
  let tail :=
    history.drop (history.length - (slopeWindow - 1))
  olsSlope (tail.map (fun point => point source) ++
    [current source])

/- What the next window needs of a computed vector. -/
def trackedValues
    (features : FeatureVector 𝕜) : Tracked 𝕜 :=
  fun source => features source.feature

/- The features that do not depend on the history. -/
def baseFeatures
    [ExpLog 𝕜]
    (acc : WindowAccumulator 𝕜)
    (host : String)
    (graph previousGraph : WindowGraph)
    (newPeerCount elevatedFanout degreeCap : ℕ) :
    FeatureVector 𝕜 :=
  fun
  | .flow name => flowFeatures acc name
  | .packet name => packetFeatures acc name
  | .graph name =>
      graphFeatures acc host graph previousGraph
        newPeerCount elevatedFanout degreeCap name
  | .delta _ => 0
  | .slope3 _ => 0
  | .isActive => if 0 < acc.eventCount then 1 else 0

/- The 45 features of one closed window. -/
def computeFeatures
    [ExpLog 𝕜]
    (acc : WindowAccumulator 𝕜)
    (host : String)
    (graph previousGraph : WindowGraph)
    (newPeerCount : ℕ)
    (history : List (Tracked 𝕜))
    (elevatedFanout degreeCap : ℕ) : FeatureVector 𝕜 :=
  let base :=
    baseFeatures acc host graph previousGraph
      newPeerCount elevatedFanout degreeCap
  let current := trackedValues base
  fun
  | .delta of => deltaOf current history of
  | .slope3 of => slopeOf current history of.source
  | feature => base feature

end Vector

end Features

end Nidra
