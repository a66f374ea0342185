import Nidra.Training.Windowize

/-
  This file says when it does not matter how the neighbours
  of a host are listed and drawn from: where no host has more
  of them than the cap, any listings that name all of them
  give the same graphs, and so the same state table.

  Key definitions include:
    * `Sampling.Lists`
    * `BelowCap`

  Main declarations:
    * `computeWindowGraph_lists`
    * `buildStateRows_lists`
    * `belowCap_of_length`
-/

namespace Nidra

namespace Training

variable {𝕜 : Type}

------------------------------------------------------------
-- Listings
------------------------------------------------------------

/- A listing names every member of a set once. -/
def Sampling.Lists (sampling : Sampling) : Prop :=
  ∀ members, (sampling.listed members).Perm members.toList

/- No host up to a window has more neighbours than the cap. -/
def BelowCap
    (degreeCap : ℕ)
    (lastTs : ℤ)
    (flows : List (FlowRow 𝕜)) : Prop :=
  ∀ windowTs ≤ lastTs, ∀ host,
    ((Adjacency.ofFlows
      (edgesAt flows windowTs)).neighbourSet host).card ≤
        degreeCap

/- A sorted listing of a set. -/
def sortedListing : Sampling :=
  { listed := fun members => members.sort (· ≤ ·)
    draw := fun _ _ => [] }

theorem lists_sortedListing : sortedListing.Lists :=
  fun _ => Finset.sort_perm_toList _ _

/- Neighbours are among the hosts of the window's flows. -/
theorem belowCap_of_length
    {degreeCap : ℕ}
    {flows : List (FlowRow 𝕜)}
    (hLength : 2 * flows.length ≤ degreeCap)
    (lastTs : ℤ) :
    BelowCap degreeCap lastTs flows := by
  intro windowTs _ host
  have hSubset :
      (Adjacency.ofFlows
          (edgesAt flows windowTs)).neighbourSet host ⊆
        ((flows.map FlowRow.srcIp) ++
          (flows.map FlowRow.dstIp)).toFinset := by
    intro peer hPeer
    unfold Adjacency.neighbourSet at hPeer
    rw [Finset.mem_union, Adjacency.mem_outPeers_ofFlows,
      Adjacency.mem_inEdges_ofFlows] at hPeer
    rw [List.mem_toFinset, List.mem_append]
    rcases hPeer with ⟨edge, hEdge, _, hPeer⟩ |
      ⟨edge, hEdge, _, hPeer⟩
    · rcases List.mem_map.mp hEdge with ⟨row, hRow, rfl⟩
      exact
        Or.inr
          (List.mem_map.mpr
            ⟨row, List.mem_of_mem_filter hRow, hPeer.symm⟩)
    · rcases List.mem_map.mp hEdge with ⟨row, hRow, rfl⟩
      exact
        Or.inl
          (List.mem_map.mpr
            ⟨row, List.mem_of_mem_filter hRow, hPeer.symm⟩)
  have hCard := Finset.card_le_card hSubset
  have hBound :=
    List.toFinset_card_le
      ((flows.map FlowRow.srcIp) ++ (flows.map FlowRow.dstIp))
  rw [List.length_append, List.length_map, List.length_map]
    at hBound
  omega

------------------------------------------------------------
-- The graph of a window
------------------------------------------------------------

variable [Field 𝕜] [LinearOrder 𝕜] [ExpLog 𝕜]

/- Neighbours are neighbours of each other. -/
theorem mem_neighbourSet_comm
    (edges : List FlowEdge)
    (host peer : String) :
    peer ∈ (Adjacency.ofFlows edges).neighbourSet host ↔
      host ∈ (Adjacency.ofFlows edges).neighbourSet peer := by
  unfold Adjacency.neighbourSet
  rw [Finset.mem_union, Finset.mem_union,
    Adjacency.mem_outPeers_ofFlows,
    Adjacency.mem_outPeers_ofFlows,
    Adjacency.mem_inEdges_ofFlows,
    Adjacency.mem_inEdges_ofFlows]
  constructor
  · rintro (⟨flow, hFlow, hSrc, hDst⟩ |
      ⟨flow, hFlow, hDst, hSrc⟩)
    · exact Or.inr ⟨flow, hFlow, hDst, hSrc⟩
    · exact Or.inl ⟨flow, hFlow, hSrc, hDst⟩
  · rintro (⟨flow, hFlow, hSrc, hDst⟩ |
      ⟨flow, hFlow, hDst, hSrc⟩)
    · exact Or.inr ⟨flow, hFlow, hDst, hSrc⟩
    · exact Or.inl ⟨flow, hFlow, hSrc, hDst⟩

/- The links are counted in any order of the nodes. -/
theorem countLinks_perm
    (edges : List FlowEdge)
    {nodes nodes' : List String}
    (hPerm : nodes.Perm nodes') :
    countLinks (Adjacency.ofFlows edges) nodes =
      countLinks (Adjacency.ofFlows edges) nodes' := by
  induction hPerm with
  | nil => rfl
  | cons node hPerm ih =>
      simp only [countLinks, ih]
      rw [(hPerm.filter _).length_eq]
  | swap node other rest =>
      have hComm := mem_neighbourSet_comm edges node other
      by_cases hLink :
          other ∈ (Adjacency.ofFlows edges).neighbourSet node
      · have hBack := hComm.mp hLink
        simp only [countLinks, List.filter_cons, hLink, hBack,
          decide_true, if_true, List.length_cons]
        omega
      · have hBack :
            node ∉ (Adjacency.ofFlows edges).neighbourSet other :=
          fun hMem => hLink (hComm.mpr hMem)
        simp only [countLinks, List.filter_cons, hLink, hBack,
          decide_false, Bool.false_eq_true, if_false]
        omega
  | trans _ _ ihFirst ihSecond =>
      exact ihFirst.trans ihSecond

/- Below the cap the listing does not matter. -/
theorem computeWindowGraph_lists
    {sampling sampling' : Sampling}
    (hLists : sampling.Lists)
    (hLists' : sampling'.Lists)
    {degreeCap : ℕ}
    {edges : List FlowEdge}
    (hCap :
      ∀ host,
        ((Adjacency.ofFlows edges).neighbourSet host).card ≤
          degreeCap) :
    (computeWindowGraph sampling degreeCap edges :
        WindowGraphResult 𝕜) =
      computeWindowGraph sampling' degreeCap edges := by
  have hNeighbours :
      ∀ host,
        (sampling.neighbours degreeCap
          (Adjacency.ofFlows edges) host).Perm
        (sampling'.neighbours degreeCap
          (Adjacency.ofFlows edges) host) := by
    intro host
    have hFirst :=
      hLists ((Adjacency.ofFlows edges).neighbourSet host)
    have hSecond :=
      hLists' ((Adjacency.ofFlows edges).neighbourSet host)
    have hCount := hCap host
    unfold Sampling.neighbours
    simp only
    rw [hFirst.length_eq, hSecond.length_eq,
      Finset.length_toList, if_neg (by omega),
      if_neg (by omega)]
    exact hFirst.trans hSecond.symm
  unfold computeWindowGraph
  simp only [WindowGraphResult.mk.injEq, true_and, and_true]
  unfold overHosts
  funext host
  simp only
  rw [(hNeighbours host).length_eq,
    countLinks_perm edges (hNeighbours host)]

------------------------------------------------------------
-- The state table
------------------------------------------------------------

variable {sampling sampling' : Sampling}
variable {degreeCap : ℕ}
variable {flows : List (FlowRow 𝕜)}

/- The pass looks at the sampling for its graphs alone. -/
theorem chronologicalPass_congr
    (hGraphs :
      ∀ windowTs,
        (computeWindowGraph sampling degreeCap
            (edgesAt flows windowTs) : WindowGraphResult 𝕜) =
          computeWindowGraph sampling' degreeCap
            (edgesAt flows windowTs))
    (keys : List HostWindow)
    (tracker : PeerTracker 𝕜)
    (windows : List ℤ) :
    chronologicalPass sampling degreeCap flows keys tracker
        windows =
      chronologicalPass sampling' degreeCap flows keys tracker
        windows := by
  induction windows generalizing tracker with
  | nil => rfl
  | cons windowTs rest ih =>
      have hItems :
          outDegreeItems (𝕜 := 𝕜) sampling degreeCap
              (edgesAt flows windowTs) =
            outDegreeItems (𝕜 := 𝕜) sampling' degreeCap
              (edgesAt flows windowTs) := by
        unfold outDegreeItems
        rw [hGraphs windowTs]
      unfold chronologicalPass
      dsimp only
      rw [hGraphs windowTs, hItems, ih]

/- Below the cap any two listings give one state table. -/
theorem buildStateRows_lists
    [FloorRing 𝕜]
    (hLists : sampling.Lists)
    (hLists' : sampling'.Lists)
    (hCap : ∀ lastTs, BelowCap degreeCap lastTs flows)
    (windowSeconds : ℤ)
    (packets : List (PacketRow 𝕜)) :
    buildStateRows sampling windowSeconds degreeCap flows
        packets =
      buildStateRows sampling' windowSeconds degreeCap flows
        packets := by
  have hGraphs :
      ∀ windowTs,
        (computeWindowGraph sampling degreeCap
            (edgesAt flows windowTs) : WindowGraphResult 𝕜) =
          computeWindowGraph sampling' degreeCap
            (edgesAt flows windowTs) := fun windowTs =>
    computeWindowGraph_lists hLists hLists'
      (hCap windowTs windowTs le_rfl)
  unfold buildStateRows observedTable
  dsimp only
  rw [chronologicalPass_congr hGraphs]

end Training

end Nidra
