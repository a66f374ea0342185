import Nidra.Lib.Draws
import Nidra.Lib.Pairs
import Nidra.Parity.WindowGraph

/-
  This file compares the clustering coefficient of a host that
  the training pipeline computes with the one that is served.
  A neighbourhood within the degree cap has one coefficient,
  whatever the order of the flows and of Python's sets; from a
  larger one both sides take a sample, each in its own way.

  Key definitions include:
    * `SetOrder`, `samplingOf`
    * `neighboursOf`, `linked`
    * `trainedClustering`

  Main declarations:
    * `exists_sample`
    * `servedGraph_clustering`
    * `trainedClustering_spec`
    * `not_trainedClustering_sampled`
-/

namespace Nidra

namespace Parity

open Features Training

------------------------------------------------------------
-- Sets and Draws
------------------------------------------------------------

/-
  An order in which sets are listed. It depends on the seed
  that the texts are hashed with.
-/
structure SetOrder where
  listed : Finset String → List String
  nodup : ∀ s, (listed s).Nodup
  toFinset : ∀ s, (listed s).toFinset = s

theorem SetOrder.length_listed
    (order : SetOrder)
    (s : Finset String) :
    (order.listed s).length = s.card := by
  rw [← List.toFinset_card_of_nodup (order.nodup s),
    order.toFinset]

theorem SetOrder.mem_listed
    (order : SetOrder)
    {s : Finset String}
    {a : String} :
    a ∈ order.listed s ↔ a ∈ s := by
  rw [← List.mem_toFinset, order.toFinset]

section Draws

variable {σ : Type}
variable (g : Generator σ)
variable (degreeCap : ℕ)

/- Where a generator is after drawing from some lists. -/
def stateAfter
    (s : σ)
    (lengths : List ℕ) : σ :=
  lengths.foldl (fun s n => (g.draw s n degreeCap).2) s

/- What one run lists and draws. -/
def samplingOf
    (order : SetOrder)
    (s : σ) : Sampling :=
  { listed := order.listed
    draw := fun before n =>
      (g.draw (stateAfter g degreeCap s before) n
        degreeCap).1 }

end Draws

------------------------------------------------------------
-- Neighbourhoods
------------------------------------------------------------

/- The peers of a host, edge direction ignored. -/
def neighboursOf
    (edges : List (String × String))
    (host : String) : Finset String :=
  destinations edges host ∪ senders edges host

/- Whether one host sent to the other. -/
def linked
    (edges : List (String × String))
    (a b : String) : Bool :=
  b ∈ neighboursOf edges a

theorem linked_comm
    (edges : List (String × String))
    (a b : String) :
    linked edges a b = linked edges b a := by
  simp only [linked, neighboursOf, Finset.mem_union,
    mem_destinations, mem_senders,
    or_comm (a := (a, b) ∈ edges)]

theorem neighbourSet_ofFlows
    (flows : List FlowEdge)
    (host : String) :
    (Adjacency.ofFlows flows).neighbourSet host =
      neighboursOf (edgesOf flows) host := by
  rw [Adjacency.neighbourSet, outPeers_ofFlows,
    inEdges_ofFlows, neighboursOf]

theorem servedGraph_neighbours
    (flows : List FlowEdge)
    (host : String) :
    (servedGraph flows).neighbours host =
      neighboursOf (edgesOf flows) host := by
  rw [WindowGraph.neighbours, servedGraph_successors,
    servedGraph_predecessors, neighboursOf]

/- The order of the flows makes no difference. -/
theorem neighboursOf_perm
    {flows flows' : List FlowEdge}
    (hPerm : flows.Perm flows')
    (host : String) :
    neighboursOf (edgesOf flows) host =
      neighboursOf (edgesOf flows') host := by
  have hEdges : ∀ e,
      e ∈ edgesOf flows ↔ e ∈ edgesOf flows' :=
    fun e => (hPerm.map _).mem_iff
  ext peer
  simp only [neighboursOf, Finset.mem_union,
    mem_destinations, mem_senders, hEdges]

/- Training counts the linked pairs of a list. -/
theorem countLinks_ofFlows
    (flows : List FlowEdge)
    (l : List String) :
    countLinks (Adjacency.ofFlows flows) l =
      pairsAfter (linked (edgesOf flows)) l := by
  induction l with
  | nil => rfl
  | cons node rest ih =>
      rw [countLinks, pairsAfter, ih, neighbourSet_ofFlows]
      rfl

/- So does serving, for a list of hosts that are present. -/
theorem countLinks_servedGraph
    (flows : List FlowEdge)
    {present : Finset String}
    {l : List String}
    (hPresent : ∀ a ∈ l, a ∈ present) :
    (servedGraph flows).countLinks present l =
      pairsAfter (linked (edgesOf flows)) l := by
  induction l with
  | nil => rfl
  | cons node rest ih =>
      rw [WindowGraph.countLinks, pairsAfter,
        ih (fun a hA => hPresent a
          (List.mem_cons_of_mem _ hA)),
        servedGraph_neighbours]
      congr 2
      apply List.filter_congr
      intro other hOther
      have hIn := hPresent other
        (List.mem_cons_of_mem _ hOther)
      simp [linked, hIn]

/- What is served is the density of the first peers. -/
theorem servedGraph_clustering
    (flows : List FlowEdge)
    (host : String)
    (degreeCap : ℕ) :
    (servedGraph flows).clustering host degreeCap =
      (pairDensity (linked (edgesOf flows))
        (((neighboursOf (edgesOf flows) host).sort
          (· ≤ ·)).take degreeCap).toFinset : ℝ) := by
  have hNodup :
      (((neighboursOf (edgesOf flows) host).sort
        (· ≤ ·)).take degreeCap).Nodup :=
    (Finset.sort_nodup _ _).sublist (List.take_sublist _ _)
  rw [← pairsAfter_density (linked_comm _) hNodup]
  unfold WindowGraph.clustering
  rw [servedGraph_neighbours]
  simp only [safeDiv, divOrZero_eq_div]
  rw [countLinks_servedGraph flows
    (fun a hA => List.mem_toFinset.mpr hA)]

------------------------------------------------------------
-- One Run of Training
------------------------------------------------------------

section Runs

variable {σ : Type}
variable (g : Generator σ)
variable (degreeCap : ℕ)
variable (order : SetOrder)
variable (s : σ)
variable (flows : List FlowEdge)
variable (host : String)

/- The coefficient of a host, if it is one of the window. -/
noncomputable def trainedClustering : Option ℝ :=
  (trained (samplingOf g degreeCap order s) degreeCap
    flows).localClusteringCoeff host

/- The peers that a run looks at. -/
def sampledPeers : List String :=
  (samplingOf g degreeCap order s).neighbours degreeCap
    (Adjacency.ofFlows flows) host

/- Of a neighbourhood within the cap they are all. -/
theorem sampledPeers_of_le
    (hSmall :
      (neighboursOf (edgesOf flows) host).card ≤ degreeCap) :
    sampledPeers g degreeCap order s flows host =
      order.listed (neighboursOf (edgesOf flows) host) := by
  have hNot : ¬ degreeCap <
      (order.listed
        (neighboursOf (edgesOf flows) host)).length := by
    rw [order.length_listed]
    exact not_lt_of_ge hSmall
  unfold sampledPeers Sampling.neighbours
  rw [neighbourSet_ofFlows]
  exact if_neg hNot

/- Of a larger one they are those at the positions drawn. -/
theorem exists_sampledPeers
    (hLarge :
      degreeCap <
        (neighboursOf (edgesOf flows) host).card) :
    ∃ s',
      sampledPeers g degreeCap order s flows host =
        (order.listed
          (neighboursOf (edgesOf flows) host)).pickAt
          (g.draw s'
            (neighboursOf (edgesOf flows) host).card
            degreeCap).1 := by
  have hLength :=
    order.length_listed (neighboursOf (edgesOf flows) host)
  refine
    ⟨stateAfter g degreeCap s
      ((samplingOf g degreeCap order s).drawnBefore degreeCap
        (Adjacency.ofFlows flows) host), ?_⟩
  unfold sampledPeers Sampling.neighbours
  rw [neighbourSet_ofFlows, ← hLength]
  rw [← hLength] at hLarge
  exact if_pos hLarge

/-
  The peers that are looked at are different ones, and as many
  as the cap allows.
-/
theorem exists_sample :
    ∃ sample ⊆ neighboursOf (edgesOf flows) host,
      sample.card =
          min degreeCap
            (neighboursOf (edgesOf flows) host).card ∧
        (sampledPeers g degreeCap order s flows host).Nodup ∧
          (sampledPeers g degreeCap order s flows
            host).toFinset = sample := by
  have hLength :=
    order.length_listed (neighboursOf (edgesOf flows) host)
  have hNodup :=
    order.nodup (neighboursOf (edgesOf flows) host)
  rcases le_or_gt
    (neighboursOf (edgesOf flows) host).card degreeCap with
    hSmall | hLarge
  · rw [sampledPeers_of_le g degreeCap order s flows host
      hSmall, order.toFinset]
    exact ⟨_, subset_rfl, (min_eq_right hSmall).symm, hNodup,
      rfl⟩
  · rcases exists_sampledPeers g degreeCap order s flows host
      hLarge with ⟨s', hSampled⟩
    have hIn := g.draw_lt s'
      (neighboursOf (edgesOf flows) host).card degreeCap
    rw [← hLength] at hIn hSampled
    have hDraw := g.draw_nodup s'
      (order.listed (neighboursOf (edgesOf flows) host)).length
      degreeCap
    have hSub := List.pickAt_subperm hDraw hIn
    have hPicked := List.nodup_pickAt hNodup hDraw hIn
    rw [hSampled]
    refine ⟨_, ?_, ?_, hPicked, rfl⟩
    · intro a hA
      exact order.mem_listed.mp
        (hSub.subset (List.mem_toFinset.mp hA))
    · rw [List.toFinset_card_of_nodup hPicked,
        List.length_pickAt hIn, min_eq_left hLarge.le]
      apply g.draw_length
      rw [hLength]
      exact hLarge.le

/- The coefficient is the density of what is looked at. -/
theorem trainedClustering_eq
    (hHost : host ∈ (Adjacency.ofFlows flows).hosts) :
    trainedClustering g degreeCap order s flows host =
      some (pairDensity (linked (edgesOf flows))
        (sampledPeers g degreeCap order s flows
          host).toFinset) := by
  rcases exists_sample g degreeCap order s flows host with
    ⟨sample, -, -, hNodup, -⟩
  rw [← pairsAfter_density (linked_comm _) hNodup]
  unfold trainedClustering trained computeWindowGraph
    overHosts
  dsimp only
  rw [if_pos hHost, countLinks_ofFlows]
  rfl

end Runs

------------------------------------------------------------
-- Agreement
------------------------------------------------------------

theorem hosts_perm
    {flows flows' : List FlowEdge}
    (hPerm : flows.Perm flows')
    (host : String) :
    host ∈ (Adjacency.ofFlows flows).hosts ↔
      host ∈ (Adjacency.ofFlows flows').hosts := by
  rw [Adjacency.mem_hosts_ofFlows, Adjacency.mem_hosts_ofFlows]
  simp only [hPerm.mem_iff]

theorem linked_perm
    {flows flows' : List FlowEdge}
    (hPerm : flows.Perm flows') :
    linked (edgesOf flows) = linked (edgesOf flows') := by
  funext a b
  rw [linked, linked, neighboursOf_perm hPerm]

/- A host of no flow has no coefficient. -/
theorem trainedClustering_eq_none
    {σ : Type}
    (g : Generator σ)
    (degreeCap : ℕ)
    (order : SetOrder)
    (s : σ)
    {flows : List FlowEdge}
    {host : String}
    (hHost : host ∉ (Adjacency.ofFlows flows).hosts) :
    trainedClustering g degreeCap order s flows host =
      none := by
  unfold trainedClustering trained computeWindowGraph
    overHosts
  exact if_neg hHost

/- Within the cap the coefficient is that of all the peers. -/
theorem trainedClustering_of_le
    {σ : Type}
    (g : Generator σ)
    {degreeCap : ℕ}
    (order : SetOrder)
    (s : σ)
    {flows : List FlowEdge}
    {host : String}
    (hHost : host ∈ (Adjacency.ofFlows flows).hosts)
    (hSmall :
      (neighboursOf (edgesOf flows) host).card ≤ degreeCap) :
    trainedClustering g degreeCap order s flows host =
      some (pairDensity (linked (edgesOf flows))
        (neighboursOf (edgesOf flows) host)) := by
  rw [trainedClustering_eq g degreeCap order s flows host
      hHost,
    sampledPeers_of_le g degreeCap order s flows host hSmall,
    order.toFinset]

/- And so it is for what is served. -/
theorem servedGraph_clustering_of_le
    {flows : List FlowEdge}
    {host : String}
    {degreeCap : ℕ}
    (hSmall :
      (neighboursOf (edgesOf flows) host).card ≤ degreeCap) :
    (servedGraph flows).clustering host degreeCap =
      (pairDensity (linked (edgesOf flows))
        (neighboursOf (edgesOf flows) host) : ℝ) := by
  rw [servedGraph_clustering, List.take_of_length_le,
    Finset.sort_toFinset]
  rw [Finset.length_sort]
  exact hSmall

/-
  A host whose neighbourhood is within the cap has the same
  coefficient in every run over the same edges, and it is the
  one that is served. Every other host has the density of as
  many of its neighbours as the cap allows.
-/
theorem trainedClustering_spec
    {σ : Type}
    (g : Generator σ)
    (degreeCap : ℕ)
    (order order' : SetOrder)
    (s s' : σ)
    {flows flows' : List FlowEdge}
    (hPerm : flows.Perm flows')
    (host : String) :
    ((neighboursOf (edgesOf flows) host).card ≤ degreeCap →
      trainedClustering g degreeCap order s flows host =
          trainedClustering g degreeCap order' s' flows'
            host ∧
        (trainedClustering g degreeCap order s flows
            host).getD 0 =
          (servedGraph flows).clustering host degreeCap) ∧
      (host ∈ (Adjacency.ofFlows flows).hosts →
        ∃ sample ⊆ neighboursOf (edgesOf flows) host,
          sample.card =
              min degreeCap
                (neighboursOf (edgesOf flows) host).card ∧
            trainedClustering g degreeCap order s flows
                host =
              some (pairDensity (linked (edgesOf flows))
                sample)) := by
  constructor
  · intro hSmall
    rw [servedGraph_clustering_of_le hSmall]
    by_cases hHost :
        host ∈ (Adjacency.ofFlows flows).hosts
    · have hHost' := (hosts_perm hPerm host).mp hHost
      have hSmall' := hSmall
      rw [neighboursOf_perm hPerm] at hSmall'
      rw [trainedClustering_of_le g order s hHost hSmall,
        trainedClustering_of_le g order' s' hHost' hSmall',
        linked_perm hPerm, neighboursOf_perm hPerm]
      exact ⟨rfl, rfl⟩
    · have hHost' := fun hIn =>
        hHost ((hosts_perm hPerm host).mpr hIn)
      rcases not_mem_hosts hHost with ⟨hOut, hIn⟩
      rw [trainedClustering_eq_none g degreeCap order s hHost,
        trainedClustering_eq_none g degreeCap order' s' hHost',
        neighboursOf, hOut, hIn]
      simp [pairDensity]
  · intro hHost
    rcases exists_sample g degreeCap order s flows host with
      ⟨sample, hSub, hCard, -, hSample⟩
    refine ⟨sample, hSub, hCard, ?_⟩
    rw [trainedClustering_eq g degreeCap order s flows host
      hHost, hSample]

/- Sets listed from the least element on, and backwards. -/
noncomputable def SetOrder.ascending : SetOrder where
  listed := fun s => s.sort (· ≤ ·)
  nodup := fun s => s.sort_nodup _
  toFinset := fun s => s.sort_toFinset _

noncomputable def SetOrder.descending : SetOrder where
  listed := fun s => (s.sort (· ≤ ·)).reverse
  nodup := fun s => List.nodup_reverse.mpr (s.sort_nodup _)
  toFinset := fun s => by
    rw [List.toFinset_reverse, s.sort_toFinset]

/- A host with three peers, of which two are linked. -/
def threePeers : List FlowEdge :=
  [ { srcIp := "10.0.0.1", dstIp := "10.0.0.2", dstPort := 80 },
    { srcIp := "10.0.0.1", dstIp := "10.0.0.3", dstPort := 80 },
    { srcIp := "10.0.0.1", dstIp := "10.0.0.4", dstPort := 80 },
    { srcIp := "10.0.0.2", dstIp := "10.0.0.3", dstPort := 80 } ]

/- With room for all peers, every run finds one link of three. -/
theorem trainedClustering_spec_threePeers :
    trainedClustering .first 3 .ascending () threePeers
        "10.0.0.1" =
      trainedClustering .first 3 .descending ()
        threePeers.reverse "10.0.0.1" ∧
      (trainedClustering .first 3 .ascending () threePeers
          "10.0.0.1").getD 0 =
        (servedGraph threePeers).clustering "10.0.0.1" 3 :=
  (trainedClustering_spec .first 3 .ascending .descending () ()
    (List.reverse_perm threePeers).symm "10.0.0.1").1
      (by decide)

theorem neighboursOf_threePeers :
    (neighboursOf (edgesOf threePeers) "10.0.0.1").sort
        (· ≤ ·) =
      ["10.0.0.2", "10.0.0.3", "10.0.0.4"] := by
  have hSet : neighboursOf (edgesOf threePeers) "10.0.0.1" =
      ["10.0.0.2", "10.0.0.3", "10.0.0.4"].toFinset := by
    decide
  rw [hSet]
  exact (List.toFinset_sort (· ≤ ·) (by decide)).mpr
    (by decide)

/- The density of two peers is one or zero. -/
theorem pairDensity_threePeers :
    (pairDensity (linked (edgesOf threePeers))
        {"10.0.0.2", "10.0.0.3"} : ℝ) = 1 ∧
      (pairDensity (linked (edgesOf threePeers))
        {"10.0.0.3", "10.0.0.4"} : ℝ) = 0 := by
  have hLinked : relatedPairs (linked (edgesOf threePeers))
      {"10.0.0.2", "10.0.0.3"} = 2 := by decide
  have hFree : relatedPairs (linked (edgesOf threePeers))
      {"10.0.0.3", "10.0.0.4"} = 0 := by decide
  have hCard :
      ({"10.0.0.2", "10.0.0.3"} : Finset String).card = 2 := by
    decide
  constructor
  · rw [pairDensity, hLinked, hCard]
    norm_num
  · rw [pairDensity, hFree]
    norm_num

/-
  The generator that always draws the last positions, as the
  one that is seeded with zero does for two of three.
-/
def lastDrawn : Generator Unit where
  draw := fun s n size =>
    ((List.range n).drop (n - size), s)
  redraw := fun s n size =>
    (List.replicate (if n = 0 then 0 else size) 0, s)
  permute := fun s n => (List.range n, s)
  draw_length := by
    intro s n size hLe
    rw [List.length_drop, List.length_range]
    omega
  draw_nodup := by
    intro s n size
    exact List.nodup_range.sublist (List.drop_sublist _ _)
  draw_lt := by
    intro s n size i hMem
    exact List.mem_range.mp (List.mem_of_mem_drop hMem)
  permute_perm := Generator.first.permute_perm

/-
  With room for two of the three, and both sides going by the
  names of the peers, training draws two that are not linked
  where serving takes the first two, which are.
-/
theorem not_trainedClustering_sampled :
    (trainedClustering lastDrawn 2 .ascending () threePeers
        "10.0.0.1").getD 0 ≠
      (servedGraph threePeers).clustering "10.0.0.1" 2 := by
  have hHost :
      "10.0.0.1" ∈ (Adjacency.ofFlows threePeers).hosts :=
    (Adjacency.mem_hosts_ofFlows _ _).mpr
      ⟨_, List.mem_cons_self, Or.inl rfl⟩
  have hCard :
      (neighboursOf (edgesOf threePeers) "10.0.0.1").card =
        3 := by
    decide
  have hLarge :
      2 < (neighboursOf (edgesOf threePeers)
        "10.0.0.1").card := by
    rw [hCard]
    decide
  have hDrawn :
      (["10.0.0.2", "10.0.0.3", "10.0.0.4"].pickAt
        (lastDrawn.draw () 3 2).1).toFinset =
          {"10.0.0.3", "10.0.0.4"} := by
    decide
  have hFirst :
      (["10.0.0.2", "10.0.0.3", "10.0.0.4"].take
        2).toFinset =
          {"10.0.0.2", "10.0.0.3"} := by
    decide
  rcases exists_sampledPeers lastDrawn 2 .ascending ()
    threePeers "10.0.0.1" hLarge with ⟨_, hSampled⟩
  rw [trainedClustering_eq _ _ _ _ _ _ hHost, hSampled,
    servedGraph_clustering, hCard]
  simp only [SetOrder.ascending, neighboursOf_threePeers]
  rw [hDrawn, hFirst, pairDensity_threePeers.1,
    pairDensity_threePeers.2]
  simp

end Parity

end Nidra
