import Nidra.Features.Compute
import Nidra.Training.GraphFeatures

/-
  This file compares the window-graph scalars that the
  training pipeline computes with the ones that are served:
  the degrees are the same, and the reciprocities are the
  same exactly for a host whose destinations all answered.

  Main declarations:
    * `destinations`, `senders`, `answered`
    * `ScalarsAgree`
    * `scalarsAgree_iff`
    * `not_scalarsAgree_unanswered`
-/

namespace Nidra

namespace Parity

open Features Training

------------------------------------------------------------
-- One window's edges
------------------------------------------------------------

/- The edges that the flows of a window give its graph. -/
def edgesOf
    (flows : List FlowEdge) : List (String × String) :=
  flows.map (fun flow => (flow.srcIp, flow.dstIp))

/- The distinct destinations of a host. -/
def destinations
    (edges : List (String × String))
    (host : String) : Finset String :=
  ((edges.filter (fun e => e.1 = host)).map
    Prod.snd).toFinset

/- The distinct hosts that sent to a host. -/
def senders
    (edges : List (String × String))
    (host : String) : Finset String :=
  ((edges.filter (fun e => e.2 = host)).map
    Prod.fst).toFinset

/- The destinations of a host that also sent to it. -/
def answered
    (edges : List (String × String))
    (host : String) : Finset String :=
  destinations edges host ∩ senders edges host

@[simp] theorem mem_destinations
    (edges : List (String × String))
    (host peer : String) :
    peer ∈ destinations edges host ↔
      (host, peer) ∈ edges := by
  simp [destinations]

@[simp] theorem mem_senders
    (edges : List (String × String))
    (host peer : String) :
    peer ∈ senders edges host ↔ (peer, host) ∈ edges := by
  simp [senders]

/-
  The fraction of a host's distinct destinations that also
  sent to it.
-/
noncomputable def answeredFraction
    (edges : List (String × String))
    (host : String) : ℝ :=
  ((answered edges host).card : ℝ) /
    ((destinations edges host).card : ℝ)

/- Everything answered exactly when the fraction is full. -/
theorem answeredFraction_eq_one_iff
    {edges : List (String × String)}
    {host : String}
    (hSome : destinations edges host ≠ ∅) :
    answeredFraction edges host = 1 ↔
      destinations edges host ⊆ senders edges host := by
  have hCard :
      ((destinations edges host).card : ℝ) ≠ 0 := by
    rw [Nat.cast_ne_zero, Finset.card_ne_zero]
    exact Finset.nonempty_iff_ne_empty.mpr hSome
  rw [answeredFraction, div_eq_one_iff_eq hCard,
    Nat.cast_inj, answered]
  constructor
  · intro hEq
    have hInter :=
      Finset.eq_of_subset_of_card_le
        Finset.inter_subset_left (le_of_eq hEq.symm)
    exact Finset.inter_eq_left.mp hInter
  · intro hSub
    rw [Finset.inter_eq_left.mpr hSub]

------------------------------------------------------------
-- The served scalars
------------------------------------------------------------

/- The graph that is served for the same flows. -/
def servedGraph (flows : List FlowEdge) : WindowGraph :=
  WindowGraph.fromEdges (edgesOf flows)

theorem servedGraph_successors
    (flows : List FlowEdge)
    (host : String) :
    (servedGraph flows).successors host =
      destinations (edgesOf flows) host := by
  ext peer
  rw [servedGraph, WindowGraph.mem_successors_fromEdges,
    mem_destinations]

theorem servedGraph_predecessors
    (flows : List FlowEdge)
    (host : String) :
    (servedGraph flows).predecessors host =
      senders (edgesOf flows) host := by
  ext peer
  rw [servedGraph, WindowGraph.mem_predecessors_fromEdges,
    mem_senders]

/- What is served is the fraction that answered. -/
theorem servedGraph_reciprocity
    (flows : List FlowEdge)
    (host : String) :
    (servedGraph flows).reciprocity host =
      answeredFraction (edgesOf flows) host := by
  simp only [WindowGraph.reciprocity, safeDiv,
    divOrZero_eq_div, servedGraph_successors,
    servedGraph_predecessors, answeredFraction, answered]

------------------------------------------------------------
-- The training scalars
------------------------------------------------------------

theorem outPeers_ofFlows
    (flows : List FlowEdge)
    (host : String) :
    (Adjacency.ofFlows flows).outPeers host =
      destinations (edgesOf flows) host := by
  ext peer
  rw [Adjacency.mem_outPeers_ofFlows, mem_destinations]
  simp [edgesOf, eq_comm]

theorem inEdges_ofFlows
    (flows : List FlowEdge)
    (host : String) :
    (Adjacency.ofFlows flows).inEdges.members host =
      senders (edgesOf flows) host := by
  ext peer
  rw [Adjacency.mem_inEdges_ofFlows, mem_senders]
  simp [edgesOf, eq_comm, and_comm]

/- A host of no flow has no destination and no sender. -/
theorem not_mem_hosts
    {flows : List FlowEdge}
    {host : String}
    (hHost : host ∉ (Adjacency.ofFlows flows).hosts) :
    destinations (edgesOf flows) host = ∅ ∧
      senders (edgesOf flows) host = ∅ := by
  rw [Adjacency.mem_hosts_ofFlows] at hHost
  push Not at hHost
  constructor
  · rw [Finset.eq_empty_iff_forall_notMem]
    intro peer hPeer
    rw [mem_destinations, edgesOf, List.mem_map] at hPeer
    rcases hPeer with ⟨flow, hFlow, hEq⟩
    exact (hHost flow hFlow).1 (congrArg Prod.fst hEq).symm
  · rw [Finset.eq_empty_iff_forall_notMem]
    intro peer hPeer
    rw [mem_senders, edgesOf, List.mem_map] at hPeer
    rcases hPeer with ⟨flow, hFlow, hEq⟩
    exact (hHost flow hFlow).2 (congrArg Prod.snd hEq).symm

variable (sampling : Sampling) (degreeCap : ℕ)

/- The training scalars of a window, with real entropies. -/
noncomputable def trained
    (flows : List FlowEdge) : WindowGraphResult ℝ :=
  computeWindowGraph sampling degreeCap flows

theorem trained_outDegree
    (flows : List FlowEdge)
    (host : String) :
    ((trained sampling degreeCap flows).outDegree
      host).getD 0 =
        (destinations (edgesOf flows) host).card := by
  simp only [trained, computeWindowGraph, overHosts]
  by_cases hHost : host ∈ (Adjacency.ofFlows flows).hosts
  · rw [if_pos hHost, Option.getD_some,
      ← outPeers_ofFlows, Adjacency.outPeers,
      List.toFinset_card_of_nodup (Tally.keys_nodup _)]
  · rw [if_neg hHost, (not_mem_hosts hHost).1]
    rfl

theorem trained_inDegree
    (flows : List FlowEdge)
    (host : String) :
    ((trained sampling degreeCap flows).inDegree
      host).getD 0 =
        (senders (edgesOf flows) host).card := by
  simp only [trained, computeWindowGraph, overHosts]
  by_cases hHost : host ∈ (Adjacency.ofFlows flows).hosts
  · rw [if_pos hHost, Option.getD_some, inEdges_ofFlows]
  · rw [if_neg hHost, (not_mem_hosts hHost).2]
    rfl

/-
  A host with a destination is always trained on a full
  reciprocity: its destinations are the hosts that list it as
  a sender, not the ones it lists.
-/
theorem trained_reciprocity
    (flows : List FlowEdge)
    (host : String) :
    ((trained sampling degreeCap flows).reciprocity
      host).getD 0 =
        if destinations (edgesOf flows) host = ∅ then 0
        else 1 := by
  simp only [trained, computeWindowGraph, overHosts,
    Adjacency.mutualCount_ofFlows, outPeers_ofFlows]
  by_cases hNone : destinations (edgesOf flows) host = ∅
  · by_cases hHost : host ∈ (Adjacency.ofFlows flows).hosts
    · simp [hHost, hNone]
    · simp [hHost, hNone]
  · have hHost : host ∈ (Adjacency.ofFlows flows).hosts := by
      by_contra hHost
      exact hNone (not_mem_hosts hHost).1
    simp [hHost, hNone]

------------------------------------------------------------
-- Agreement
------------------------------------------------------------

/-
  The training scalars of a host, read as its state row reads
  them, are the served ones, and the reciprocity is the
  fraction of its destinations that also sent to it.
-/
def ScalarsAgree
    (flows : List FlowEdge)
    (host : String) : Prop :=
  let batch := trained sampling degreeCap flows
  let served := servedGraph flows
  (batch.outDegree host).getD 0 = served.outDegree host ∧
    (batch.inDegree host).getD 0 = served.inDegree host ∧
    (batch.reciprocity host).getD 0 =
      served.reciprocity host ∧
    (batch.reciprocity host).getD 0 =
      answeredFraction (edgesOf flows) host

/-
  The scalars of a host agree exactly when each of its
  destinations also sent to it in the window.
-/
theorem scalarsAgree_iff
    (flows : List FlowEdge)
    (host : String) :
    ScalarsAgree sampling degreeCap flows host ↔
      ∀ peer, (host, peer) ∈ edgesOf flows →
        (peer, host) ∈ edgesOf flows := by
  have hDegrees :
      ScalarsAgree sampling degreeCap flows host ↔
        (if destinations (edgesOf flows) host = ∅ then 0
          else 1) =
          answeredFraction (edgesOf flows) host := by
    simp only [ScalarsAgree, trained_outDegree,
      trained_inDegree, trained_reciprocity,
      servedGraph_reciprocity, WindowGraph.outDegree,
      WindowGraph.inDegree, servedGraph_successors,
      servedGraph_predecessors, true_and, and_self]
  have hSubset :
      destinations (edgesOf flows) host ⊆
          senders (edgesOf flows) host ↔
        ∀ peer, (host, peer) ∈ edgesOf flows →
          (peer, host) ∈ edgesOf flows := by
    simp only [Finset.subset_iff, mem_destinations,
      mem_senders]
  rw [hDegrees, ← hSubset]
  by_cases hNone : destinations (edgesOf flows) host = ∅
  · simp [hNone, answeredFraction]
  · rw [if_neg hNone, eq_comm]
    exact answeredFraction_eq_one_iff hNone

/- One flow that is not answered. -/
def unanswered : List FlowEdge :=
  [{ srcIp := "10.0.0.1"
     dstIp := "10.0.0.2"
     dstPort := 80 }]

/-
  The host of an unanswered flow is trained on reciprocity
  one and served reciprocity zero.
-/
theorem not_scalarsAgree_unanswered :
    ¬ ScalarsAgree ⟨fun _ => [], fun _ _ => []⟩ 200
      unanswered "10.0.0.1" := by
  rintro ⟨_, _, _, hFull⟩
  rw [trained_reciprocity] at hFull
  have hSome :
      destinations (edgesOf unanswered) "10.0.0.1" ≠ ∅ := by
    decide
  have hNone :
      answered (edgesOf unanswered) "10.0.0.1" = ∅ := by
    decide
  rw [if_neg hSome, answeredFraction, hNone] at hFull
  simp at hFull

end Parity

end Nidra
