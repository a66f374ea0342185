import Nidra.Lib.Folds
import Nidra.Lib.Numeric
import Nidra.Lib.SetMap
import Nidra.Lib.Tally

/-
  This file defines the window graph of the training
  pipeline: the transient directed multigraph of one window's
  flows and the per-host scalars taken from it.

  Key definitions include:
    * `shannonEntropy`
    * `FlowEdge`
    * `Adjacency`, `Adjacency.ofFlows`
    * `Sampling`
    * `WindowGraphResult`
    * `computeWindowGraph`
-/

namespace Nidra

namespace Training

variable {𝕜 : Type}

/- Shannon entropy of the positive ones among the counts. -/
def shannonEntropy
    [Field 𝕜]
    [LinearOrder 𝕜]
    [ExpLog 𝕜]
    (counts : List 𝕜) : 𝕜 :=
  let counts := counts.filter (fun c => decide (0 < c))
  if counts = [] then 0
  else
    let p := counts.map (fun c => c / counts.sum);
    -(p.map (fun x => x * ExpLog.log x)).sum

/- The columns of a flow that the graph is built from. -/
structure FlowEdge where
  srcIp : String
  dstIp : String
  dstPort : ℤ

------------------------------------------------------------
-- Adjacency
------------------------------------------------------------

/-
  The edges of one window: how many flows a host sent to each
  destination and port, and who sent to it.
-/
structure Adjacency where
  outEdges : TallyMap String String ℕ
  inEdges : SetMap String String
  outPorts : TallyMap String ℤ ℕ

namespace Adjacency

def empty : Adjacency :=
  { outEdges := .empty
    inEdges := .empty
    outPorts := .empty }

def addFlow
    (adj : Adjacency)
    (flow : FlowEdge) : Adjacency :=
  { outEdges := adj.outEdges.bump flow.srcIp flow.dstIp 1
    inEdges := adj.inEdges.add flow.dstIp flow.srcIp
    outPorts := adj.outPorts.bump flow.srcIp flow.dstPort 1 }

def ofFlows (flows : List FlowEdge) : Adjacency :=
  flows.foldl addFlow empty

def hosts (adj : Adjacency) : Finset String :=
  adj.outEdges.keys ∪ adj.inEdges.keys

/- The distinct destinations of a host. -/
def outPeers
    (adj : Adjacency)
    (host : String) : Finset String :=
  (adj.outEdges.tally host).keys.toFinset

/- The destinations of a host that `inEdges` finds it in. -/
def mutualCount
    (adj : Adjacency)
    (host : String) : ℕ :=
  ((adj.outPeers host).filter
    (fun peer => host ∈ adj.inEdges.members peer)).card

/- The peers of a host, edge direction ignored. -/
def neighbourSet
    (adj : Adjacency)
    (host : String) : Finset String :=
  adj.outPeers host ∪ adj.inEdges.members host

/- One flow adds its destination to those of its source. -/
theorem mem_outPeers_addFlow
    (adj : Adjacency)
    (flow : FlowEdge)
    (src dst : String) :
    dst ∈ (adj.addFlow flow).outPeers src ↔
      (src = flow.srcIp ∧ dst = flow.dstIp) ∨
        dst ∈ adj.outPeers src := by
  simp [outPeers, addFlow]

/- One flow adds its source to the senders it is read from. -/
theorem mem_inEdges_addFlow
    (adj : Adjacency)
    (flow : FlowEdge)
    (src dst : String) :
    src ∈ (adj.addFlow flow).inEdges.members dst ↔
      (dst = flow.dstIp ∧ src = flow.srcIp) ∨
        src ∈ adj.inEdges.members dst := by
  simp [addFlow]

/- One flow makes its two ends hosts of the window. -/
theorem mem_hosts_addFlow
    (adj : Adjacency)
    (flow : FlowEdge)
    (host : String) :
    host ∈ (adj.addFlow flow).hosts ↔
      (host = flow.srcIp ∨ host = flow.dstIp) ∨
        host ∈ adj.hosts := by
  simp only [hosts, addFlow, Finset.mem_union,
    TallyMap.mem_keys_bump, SetMap.mem_keys_add]
  tauto

end Adjacency

------------------------------------------------------------
-- Scalars
------------------------------------------------------------

/-
  What Python and the seeded generator decide about a sampled
  neighbourhood: the order in which a set is listed, and the
  positions drawn from a list that is too long, after the
  draws from the earlier such lists of the window.
-/
structure Sampling where
  listed : Finset String → List String
  draw : List ℕ → ℕ → List ℕ

/-
  The lengths of the lists that are drawn from before a host:
  one generator goes from host to host.
-/
def Sampling.drawnBefore
    (sampling : Sampling)
    (degreeCap : ℕ)
    (adj : Adjacency)
    (host : String) : List ℕ :=
  (((sampling.listed adj.hosts).takeWhile (· ≠ host)).map
    (fun h =>
      (sampling.listed (adj.neighbourSet h)).length)).filter
    (degreeCap < ·)

/- The neighbours of a host that clustering looks at. -/
def Sampling.neighbours
    (sampling : Sampling)
    (degreeCap : ℕ)
    (adj : Adjacency)
    (host : String) : List String :=
  let listed := sampling.listed (adj.neighbourSet host)
  if degreeCap < listed.length then
    (sampling.draw
      (sampling.drawnBefore degreeCap adj host)
      listed.length).filterMap
      (fun i => listed[i]?)
  else listed

/- Links from each node of a list to the ones after it. -/
def countLinks
    (adj : Adjacency) : List String → ℕ
  | [] => 0
  | node :: rest =>
      (rest.filter
        (fun other => other ∈ adj.neighbourSet node)).length +
        countLinks adj rest

/- The per-host scalars; a host of no flow has none. -/
structure WindowGraphResult (𝕜 : Type) where
  outDegree : String → Option ℕ
  inDegree : String → Option ℕ
  outPeers : String → Option (Finset String)
  dstIpEntropy : String → Option 𝕜
  dstPortEntropy : String → Option 𝕜
  localClusteringCoeff : String → Option 𝕜
  reciprocity : String → Option 𝕜

/- A dictionary over a set of hosts. -/
def overHosts
    {α : Type}
    (hosts : Finset String)
    (value : String → α) : String → Option α :=
  fun host => if host ∈ hosts then some (value host) else none

/- Build the window's graph and take its scalars. -/
def computeWindowGraph
    [Field 𝕜]
    [LinearOrder 𝕜]
    [ExpLog 𝕜]
    (sampling : Sampling)
    (degreeCap : ℕ)
    (flows : List FlowEdge) : WindowGraphResult 𝕜 :=
  let adj := Adjacency.ofFlows flows
  let hosts := adj.hosts
  let counts := fun tally : List ℕ =>
    tally.map (fun c => (c : 𝕜))
  { outDegree :=
      overHosts hosts
        (fun h => (adj.outEdges.tally h).keys.length)
    inDegree :=
      overHosts hosts
        (fun h => (adj.inEdges.members h).card)
    outPeers := overHosts hosts adj.outPeers
    dstIpEntropy :=
      overHosts hosts (fun h =>
        shannonEntropy
          (counts (adj.outEdges.tally h).values))
    dstPortEntropy :=
      overHosts hosts (fun h =>
        shannonEntropy
          (counts (adj.outPorts.tally h).values))
    localClusteringCoeff :=
      overHosts hosts (fun h =>
        let neighbours :=
          sampling.neighbours degreeCap adj h
        let k := neighbours.length
        if k < 2 then 0
        else
          (countLinks adj neighbours : 𝕜) /
            ((k : 𝕜) * ((k : 𝕜) - 1) / 2))
    reciprocity :=
      overHosts hosts (fun h =>
        let peers := adj.outPeers h
        if peers = ∅ then 0
        else (adj.mutualCount h : 𝕜) / (peers.card : 𝕜)) }

------------------------------------------------------------
-- What the adjacency holds
------------------------------------------------------------

namespace Adjacency

theorem mem_outPeers_ofFlows
    (flows : List FlowEdge)
    (src dst : String) :
    dst ∈ (ofFlows flows).outPeers src ↔
      ∃ flow ∈ flows,
        src = flow.srcIp ∧ dst = flow.dstIp := by
  have hFold :=
    List.foldl_iff_exists
      (fun adj => dst ∈ adj.outPeers src)
      (fun adj flow => mem_outPeers_addFlow adj flow src dst)
      flows empty
  have hEmpty : dst ∉ empty.outPeers src := by
    simp [empty, outPeers]
  simpa [ofFlows, hEmpty] using hFold

theorem mem_inEdges_ofFlows
    (flows : List FlowEdge)
    (src dst : String) :
    src ∈ (ofFlows flows).inEdges.members dst ↔
      ∃ flow ∈ flows,
        dst = flow.dstIp ∧ src = flow.srcIp := by
  have hFold :=
    List.foldl_iff_exists
      (fun adj => src ∈ adj.inEdges.members dst)
      (fun adj flow => mem_inEdges_addFlow adj flow src dst)
      flows empty
  have hEmpty : src ∉ empty.inEdges.members dst := by
    simp [empty]
  simpa [ofFlows, hEmpty] using hFold

/- The hosts of a window are the ends of its flows. -/
theorem mem_hosts_ofFlows
    (flows : List FlowEdge)
    (host : String) :
    host ∈ (ofFlows flows).hosts ↔
      ∃ flow ∈ flows,
        host = flow.srcIp ∨ host = flow.dstIp := by
  have hFold :=
    List.foldl_iff_exists
      (fun adj => host ∈ adj.hosts)
      (fun adj flow => mem_hosts_addFlow adj flow host)
      flows empty
  have hEmpty : host ∉ empty.hosts := by
    simp [empty, hosts, TallyMap.keys, TallyMap.empty,
      SetMap.keys, SetMap.empty]
  simpa [ofFlows, hEmpty] using hFold

/- Every destination of a host counts as mutual. -/
theorem mutualCount_ofFlows
    (flows : List FlowEdge)
    (host : String) :
    (ofFlows flows).mutualCount host =
      ((ofFlows flows).outPeers host).card := by
  unfold mutualCount
  rw [Finset.filter_true_of_mem]
  intro peer hPeer
  rcases (mem_outPeers_ofFlows flows host peer).mp hPeer with
    ⟨flow, hFlow, hSrc, hDst⟩
  rw [mem_inEdges_ofFlows]
  exact ⟨flow, hFlow, hDst, hSrc⟩

end Adjacency

end Training

end Nidra
