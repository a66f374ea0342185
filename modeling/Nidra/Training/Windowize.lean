import Nidra.Training.Aggregate

/-
  This file defines the state table that the training
  pipeline builds of a day: flow and packet aggregates fused,
  graph scalars taken in one chronological pass, empty
  windows filled, and backward-looking dynamics added.

  Key definitions include:
    * `FusedRow`, `fuse`
    * `PeerTracker`, `chronologicalPass`
    * `fillHost`, `fillEmptyWindows`
    * `diff`, `rollingOlsSlope3`, `addDynamics`
    * `buildStateRows`
-/

namespace Nidra

namespace Training

variable {𝕜 : Type}
variable [Field 𝕜] [LinearOrder 𝕜]

------------------------------------------------------------
-- Fusing flow and packet windows
------------------------------------------------------------

/- The value of a key in a table of distinct keys. -/
def lookupKey
    {κ α : Type}
    [DecidableEq κ]
    (table : List (κ × α))
    (key : κ) : Option α :=
  (table.find? (fun row => row.1 = key)).map Prod.snd

/- One row of the fused table. -/
structure FusedRow (𝕜 : Type) where
  key : HostWindow
  flow : FlowFeature → 𝕜
  packet : PacketFeature → 𝕜

section Fuse

variable
  (flowAgg : List (HostWindow × (FlowFeature → Option 𝕜)))
variable (packetAgg : List (HostWindow × (PacketFeature → 𝕜)))

/-
  The packet windows of the flow sources that lie in the time
  range of the flows.
-/
def packetKept :
    List (HostWindow × (PacketFeature → 𝕜)) :=
  let flowHosts := flowAgg.map (fun a => a.1.1)
  let windows := flowAgg.map (fun a => a.1.2)
  let lo := windows.min?.getD 0
  let hi := windows.max?.getD 0
  packetAgg.filter
    (fun a => a.1.1 ∈ flowHosts ∧ lo ≤ a.1.2 ∧ a.1.2 ≤ hi)

/- A row from the aggregates that its key has. -/
def fuseRow
    (packets : List (HostWindow × (PacketFeature → 𝕜)))
    (key : HostWindow) : FusedRow 𝕜 :=
  { key := key
    flow := fun name =>
      ((lookupKey flowAgg key).bind (fun f => f name)).getD 0
    packet := fun name =>
      ((lookupKey packets key).map (fun f => f name)).getD 0 }

/- Join the flow aggregates and the packet aggregates. -/
def fuse : List (FusedRow 𝕜) :=
  let flowKeys := flowAgg.map Prod.fst
  if packetAgg = [] ∨ flowAgg = [] then
    flowKeys.map (fuseRow flowAgg packetAgg)
  else
    let kept := packetKept flowAgg packetAgg
    let packetKeys :=
      (kept.map Prod.fst).filter (fun key => key ∉ flowKeys)
    (flowKeys ++ packetKeys).map (fuseRow flowAgg kept)

end Fuse

------------------------------------------------------------
-- The peer tracker
------------------------------------------------------------

/-
  The peers that each host has contacted so far, and the
  out-degrees of the window before with their median.
-/
structure PeerTracker (𝕜 : Type) where
  seen : String → Finset String
  prevOutDegree : List (String × ℕ)
  prevMedianOutDegree : 𝕜

namespace PeerTracker

def start : PeerTracker 𝕜 :=
  { seen := fun _ => ∅
    prevOutDegree := []
    prevMedianOutDegree := 0 }

def newPeerCount
    (tracker : PeerTracker 𝕜)
    (host : String)
    (peers : Finset String) : ℕ × PeerTracker 𝕜 :=
  ((peers \ tracker.seen host).card,
    { tracker with
      seen :=
        Function.update tracker.seen host
          (tracker.seen host ∪ peers) })

/- Whether a peer fanned out in the window before. -/
def elevated
    (tracker : PeerTracker 𝕜)
    (peer : String) : Prop :=
  tracker.prevMedianOutDegree <
    (((lookupKey tracker.prevOutDegree peer).getD 0 : ℕ) : 𝕜)

instance
    (tracker : PeerTracker 𝕜)
    (peer : String) :
    Decidable (tracker.elevated peer) :=
  inferInstanceAs (Decidable (_ < _))

def neighbourRiskFraction
    (tracker : PeerTracker 𝕜)
    (peers : Finset String) : 𝕜 :=
  if peers = ∅ then 0
  else
    ((peers.filter tracker.elevated).card : 𝕜) /
      (peers.card : 𝕜)

def commitWindow
    (tracker : PeerTracker 𝕜)
    (outDegreeByHost : List (String × ℕ)) :
    PeerTracker 𝕜 :=
  { tracker with
    prevOutDegree := outDegreeByHost
    prevMedianOutDegree :=
      if outDegreeByHost = [] then 0
      else
        median
          (outDegreeByHost.map (fun e => (e.2 : 𝕜))) }

end PeerTracker

------------------------------------------------------------
-- The chronological pass
------------------------------------------------------------

section Pass

variable [ExpLog 𝕜]
variable (sampling : Sampling)
variable (degreeCap : ℕ)

/- The out-degrees of a window, one for each of its hosts. -/
def outDegreeItems
    (edges : List FlowEdge) : List (String × ℕ) :=
  let graph : WindowGraphResult 𝕜 :=
    computeWindowGraph sampling degreeCap edges
  ((Adjacency.ofFlows edges).hosts.sort (· ≤ ·)).filterMap
    (fun host =>
      (graph.outDegree host).map (fun d => (host, d)))

/- The graph features of one host in a window. -/
def graphRow
    (graph : WindowGraphResult 𝕜)
    (tracker : PeerTracker 𝕜)
    (host : String) : GraphFeature → 𝕜 :=
  let peers := (graph.outPeers host).getD ∅
  let fresh := tracker.newPeerCount host peers
  fun
  | .outDegree => ((graph.outDegree host).getD 0 : ℕ)
  | .inDegree => ((graph.inDegree host).getD 0 : ℕ)
  | .dstIpEntropy => (graph.dstIpEntropy host).getD 0
  | .dstPortEntropy => (graph.dstPortEntropy host).getD 0
  | .newPeerCount => (fresh.1 : 𝕜)
  | .neighbourRiskFraction =>
      fresh.2.neighbourRiskFraction peers
  | .localClusteringCoeff =>
      (graph.localClusteringCoeff host).getD 0
  | .reciprocity => (graph.reciprocity host).getD 0

/- The hosts of a window, one after the other. -/
def visitHosts
    (graph : WindowGraphResult 𝕜) :
    PeerTracker 𝕜 → List String →
      List (String × (GraphFeature → 𝕜)) × PeerTracker 𝕜
  | tracker, [] => ([], tracker)
  | tracker, host :: rest =>
      let peers := (graph.outPeers host).getD ∅
      let row := graphRow graph tracker host
      let after :=
        visitHosts graph (tracker.newPeerCount host peers).2
          rest
      ((host, row) :: after.1, after.2)

/- The edges of one window. -/
def edgesAt
    (flows : List (FlowRow 𝕜))
    (windowTs : ℤ) : List FlowEdge :=
  (flows.filter (fun row => row.windowTs = windowTs)).map
    FlowRow.edge

/- The hosts that have a row in a window. -/
def hostsAt
    (keys : List HostWindow)
    (windowTs : ℤ) : List String :=
  (keys.filter (fun key => key.2 = windowTs)).map Prod.fst

/- The windows, in order, each with the tracker before it. -/
def chronologicalPass
    (flows : List (FlowRow 𝕜))
    (keys : List HostWindow) :
    PeerTracker 𝕜 → List ℤ →
      List (HostWindow × (GraphFeature → 𝕜))
  | _, [] => []
  | tracker, windowTs :: rest =>
      let edges := edgesAt flows windowTs
      let graph : WindowGraphResult 𝕜 :=
        computeWindowGraph sampling degreeCap edges
      let visited :=
        visitHosts graph tracker (hostsAt keys windowTs)
      let committed :=
        visited.2.commitWindow
          (outDegreeItems (𝕜 := 𝕜) sampling degreeCap edges)
      visited.1.map (fun row => ((row.1, windowTs), row.2)) ++
        chronologicalPass flows keys committed rest

/- The windows of a table, in order. -/
def windowOrder (keys : List HostWindow) : List ℤ :=
  (keys.map Prod.snd).toFinset.sort (· ≤ ·)

end Pass

------------------------------------------------------------
-- Empty windows
------------------------------------------------------------

/- The numbers from `start` by `step`, before `stop`. -/
def arange (start stop step : ℤ) : List ℤ :=
  (List.range ((stop - start + step - 1) / step).toNat).map
    (fun (i : ℕ) => start + (i : ℤ) * step)

/- A zero row for every window of a host that is missing. -/
def fillHost
    (windowSeconds : ℤ)
    (rows : List (ℤ × FeatureVector 𝕜)) :
    List (ℤ × FeatureVector 𝕜) :=
  let lo := (rows.map Prod.fst).min?.getD 0
  let hi := (rows.map Prod.fst).max?.getD 0
  (arange lo (hi + windowSeconds) windowSeconds).map
    (fun ts => (ts, (lookupKey rows ts).getD (fun _ => 0)))

/- What is done to the rows of each host. -/
def perHost
    (f : List (ℤ × FeatureVector 𝕜) →
      List (ℤ × FeatureVector 𝕜))
    (table : List (HostWindow × FeatureVector 𝕜)) :
    List (HostWindow × FeatureVector 𝕜) :=
  inGroups (fun row => row.1.1)
    (fun host group =>
      (f (group.map (fun row => (row.1.2, row.2)))).map
        (fun row => ((host, row.1), row.2)))
    table

def fillEmptyWindows
    (windowSeconds : ℤ)
    (table : List (HostWindow × FeatureVector 𝕜)) :
    List (HostWindow × FeatureVector 𝕜) :=
  perHost (fillHost windowSeconds) table

------------------------------------------------------------
-- Dynamics
------------------------------------------------------------

/- Each value less the one before; the first gives zero. -/
def diff (x : List 𝕜) : List 𝕜 :=
  (List.range x.length).map
    (fun i =>
      match i with
      | 0 => 0
      | i + 1 => x.getD (i + 1) 0 - x.getD i 0)

/- Least-squares slope over three values in a row. -/
def olsSlope3 (y₀ y₁ y₂ : 𝕜) : 𝕜 :=
  let t : List 𝕜 := [0, 1, 2]
  let y := [y₀, y₁, y₂]
  let tMean := average t
  let yMean := average y
  let denom := (t.map (fun a => (a - tMean) ^ 2)).sum
  if 0 < denom then
    (List.zipWith (fun a b => (a - tMean) * (b - yMean))
      t y).sum / denom
  else 0

/- The slope over each value and the two before it. -/
def rollingOlsSlope3 (x : List 𝕜) : List 𝕜 :=
  (List.range x.length).map
    (fun i =>
      match i with
      | 0 => 0
      | 1 => 0
      | i + 2 =>
          olsSlope3 (x.getD i 0) (x.getD (i + 1) 0)
            (x.getD (i + 2) 0))

/- Set the dynamics of a row. -/
def withDynamics
    (features : FeatureVector 𝕜)
    (delta : DynamicSource → 𝕜)
    (slope : SlopeSource → 𝕜) : FeatureVector 𝕜
  | .delta of => delta of
  | .slope3 of => slope of
  | .flow name => features (.flow name)
  | .packet name => features (.packet name)
  | .graph name => features (.graph name)
  | .isActive => features .isActive

/- The dynamics of a host's rows, in order of time. -/
def dynamicsHost
    (rows : List (ℤ × FeatureVector 𝕜)) :
    List (ℤ × FeatureVector 𝕜) :=
  let base := fun source : DynamicSource =>
    rows.map (fun row => row.2 source.feature)
  rows.mapIdx (fun i row =>
    (row.1,
      withDynamics row.2
        (fun source => (diff (base source)).getD i 0)
        (fun slope =>
          (rollingOlsSlope3 (base slope.source)).getD i 0)))

def sortTable
    (table : List (HostWindow × FeatureVector 𝕜)) :
    List (HostWindow × FeatureVector 𝕜) :=
  sortByKey (fun row => toLex row.1) table

def addDynamics
    (table : List (HostWindow × FeatureVector 𝕜)) :
    List (HostWindow × FeatureVector 𝕜) :=
  perHost dynamicsHost (sortTable table)

------------------------------------------------------------
-- The state table
------------------------------------------------------------

section Build

variable [FloorRing 𝕜] [ExpLog 𝕜]
variable (sampling : Sampling)
variable (windowSeconds : ℤ)
variable (degreeCap : ℕ)

/- The features of an observed window before its dynamics. -/
def observedFeatures
    (row : FusedRow 𝕜)
    (graph : GraphFeature → 𝕜) : FeatureVector 𝕜
  | .flow name => row.flow name
  | .packet name => row.packet name
  | .graph name => graph name
  | .delta _ => 0
  | .slope3 _ => 0
  | .isActive => 1

/- The rows of the windows in which a host was observed. -/
def observedTable
    (flows : List (FlowRow 𝕜))
    (packets : List (PacketRow 𝕜)) :
    List (HostWindow × FeatureVector 𝕜) :=
  let merged :=
    fuse (aggregateFlows flows) (aggregatePackets packets)
  let keys := merged.map FusedRow.key
  let graphRows :=
    chronologicalPass sampling degreeCap flows keys
      PeerTracker.start (windowOrder keys)
  merged.map (fun row =>
    (row.key,
      observedFeatures row
        ((lookupKey graphRows row.key).getD (fun _ => 0))))

/- The state table of one day. -/
def buildStateRows
    (flows : List (FlowRow 𝕜))
    (packets : List (PacketRow 𝕜)) :
    List (HostWindow × FeatureVector 𝕜) :=
  sortTable
    (addDynamics
      (fillEmptyWindows windowSeconds
        (observedTable sampling degreeCap flows packets)))

end Build

end Training

end Nidra
