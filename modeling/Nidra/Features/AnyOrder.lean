import Nidra.Features.CountedOnce
import Nidra.Features.WindowHash

/-
  This file shows that a window does not depend on the order
  in which its events are folded in: the counters of every
  host, the listed hosts and the edges are the same, and so
  are the features computed from them.

  Key definitions include:
    * `SameAccumulator`, `SameGraph`
    * `Fold`, `World.foldAll`
    * `SameContents`, `SameFeatures`
    * `RecoversFields`

  Main declarations:
    * `computeFeatures_congr`
    * `sameContents_foldAll`
    * `anyOrder`
-/

namespace Nidra

namespace Features

set_option linter.unusedSectionVars false

variable {𝕜 : Type}
variable [Field 𝕜] [LinearOrder 𝕜]

------------------------------------------------------------
-- Statistics of a distribution
------------------------------------------------------------

theorem shannonEntropy_perm
    [ExpLog 𝕜]
    {counts counts' : List 𝕜}
    (hPerm : counts.Perm counts') :
    shannonEntropy counts = shannonEntropy counts' := by
  have hValues := hPerm.filter (fun c => decide (0 < c))
  unfold shannonEntropy
  simp only [hValues.sum_eq]
  split
  · rfl
  · rw [(hValues.map _).sum_eq]

theorem pairLe_trans
    (a b c : 𝕜 × 𝕜)
    (hFirst : pairLe a b = true)
    (hSecond : pairLe b c = true) :
    pairLe a c = true := by
  simp only [pairLe, decide_eq_true_eq] at hFirst hSecond ⊢
  rcases hFirst with hLess | ⟨hEq, hLe⟩
  · rcases hSecond with hLess' | ⟨hEq', _⟩
    · exact Or.inl (hLess.trans hLess')
    · exact Or.inl (hEq' ▸ hLess)
  · rcases hSecond with hLess' | ⟨hEq', hLe'⟩
    · exact Or.inl (hEq ▸ hLess')
    · exact Or.inr ⟨hEq.trans hEq', hLe.trans hLe'⟩

theorem pairLe_total
    (a b : 𝕜 × 𝕜) :
    (pairLe a b || pairLe b a) = true := by
  simp only [pairLe, Bool.or_eq_true, decide_eq_true_eq]
  rcases lt_trichotomy a.1 b.1 with hLess | hEq | hMore
  · exact Or.inl (Or.inl hLess)
  · rcases le_total a.2 b.2 with hLe | hGe
    · exact Or.inl (Or.inr ⟨hEq, hLe⟩)
    · exact Or.inr (Or.inr ⟨hEq.symm, hGe⟩)
  · exact Or.inr (Or.inl hMore)

theorem pairLe_antisymm
    {a b : 𝕜 × 𝕜}
    (hFirst : pairLe a b = true)
    (hSecond : pairLe b a = true) :
    a = b := by
  simp only [pairLe, decide_eq_true_eq] at hFirst hSecond
  rcases hFirst with hLess | ⟨hEq, hLe⟩
  · rcases hSecond with hLess' | ⟨hEq', _⟩
    · exact absurd hLess hLess'.not_gt
    · exact absurd hEq'.symm hLess.ne
  · rcases hSecond with hLess' | ⟨_, hGe⟩
    · exact absurd hEq hLess'.ne'
    · exact Prod.ext hEq (le_antisymm hLe hGe)

theorem percentile_perm
    {counts counts' : List (𝕜 × 𝕜)}
    (hPerm : counts.Perm counts')
    (q : 𝕜) :
    percentile counts q = percentile counts' q := by
  have hSorted :
      (counts.filter (fun p => decide (0 < p.2))).mergeSort
          pairLe =
        (counts'.filter (fun p => decide (0 < p.2))).mergeSort
          pairLe := by
    have hSame :
        ((counts.filter
            (fun p => decide (0 < p.2))).mergeSort pairLe).Perm
          ((counts'.filter
            (fun p => decide (0 < p.2))).mergeSort pairLe) :=
      (List.mergeSort_perm _ _).trans
        ((hPerm.filter _).trans (List.mergeSort_perm _ _).symm)
    exact
      hSame.eq_of_pairwise
        (fun a b _ _ hFirst hSecond =>
          pairLe_antisymm hFirst hSecond)
        (List.pairwise_mergeSort pairLe_trans pairLe_total _)
        (List.pairwise_mergeSort pairLe_trans pairLe_total _)
  unfold percentile
  rw [hSorted]

------------------------------------------------------------
-- Accumulators and graphs
------------------------------------------------------------

/- Two accumulators that hold the same for every field. -/
def SameAccumulator
    (acc acc' : WindowAccumulator 𝕜) : Prop :=
  ∀ field, acc.lookup field = acc'.lookup field

theorem sameAccumulator_fromHash
    {hash hash' : Tally (WindowField 𝕜) 𝕜}
    (hSame : hash.Same hash') :
    SameAccumulator (WindowAccumulator.fromHash hash)
      (WindowAccumulator.fromHash hash') := by
  intro field
  rw [WindowAccumulator.lookup_fromHash,
    WindowAccumulator.lookup_fromHash, hSame field]

namespace SameAccumulator

variable {acc acc' : WindowAccumulator 𝕜}
variable (hSame : SameAccumulator acc acc')
include hSame

theorem dstIp : acc.dstIp.Same acc'.dstIp :=
  fun ip => hSame (.dstIp ip)

theorem dstPort : acc.dstPort.Same acc'.dstPort :=
  fun port => hSame (.dstPort port)

theorem tcpWindow : acc.tcpWindow.Same acc'.tcpWindow :=
  fun size => hSame (.tcpWindow size)

theorem payload : acc.payload.Same acc'.payload :=
  fun size => hSame (.payload size)

theorem flowIatMax : acc.flowIatMax.Same acc'.flowIatMax :=
  fun value => hSame (.flowIatMax value)

theorem get_eq
    (name : Counter) :
    acc.get name = acc'.get name := by
  unfold WindowAccumulator.get
  rw [Tally.count_eq_lookup, Tally.count_eq_lookup]
  exact congrArg (·.getD 0) (hSame (.scalar name))

end SameAccumulator

/- Two graphs with the same neighbours of every host. -/
structure SameGraph (graph graph' : WindowGraph) : Prop where
  successors :
    ∀ host, graph.successors host = graph'.successors host
  predecessors :
    ∀ host, graph.predecessors host = graph'.predecessors host

theorem sameGraph_fromEdges
    {edges edges' : List (String × String)}
    (hEdges : ∀ edge, edge ∈ edges ↔ edge ∈ edges') :
    SameGraph (WindowGraph.fromEdges edges)
      (WindowGraph.fromEdges edges') := by
  constructor
  · intro host
    ext peer
    rw [WindowGraph.mem_successors_fromEdges,
      WindowGraph.mem_successors_fromEdges, hEdges]
  · intro host
    ext peer
    rw [WindowGraph.mem_predecessors_fromEdges,
      WindowGraph.mem_predecessors_fromEdges, hEdges]

namespace SameGraph

variable {graph graph' : WindowGraph}
variable (hSame : SameGraph graph graph')
include hSame

theorem neighbours
    (host : String) :
    graph.neighbours host = graph'.neighbours host := by
  unfold WindowGraph.neighbours
  rw [hSame.successors, hSame.predecessors]

theorem countLinks
    (present : Finset String)
    (nodes : List String) :
    graph.countLinks present nodes =
      graph'.countLinks present nodes := by
  induction nodes with
  | nil => rfl
  | cons node rest ih =>
      simp only [WindowGraph.countLinks, ih,
        hSame.neighbours node]

end SameGraph

theorem flowFeatures_congr
    {acc acc' : WindowAccumulator 𝕜}
    (hAcc : SameAccumulator acc acc') :
    flowFeatures acc = flowFeatures acc' := by
  funext name
  cases name <;>
    simp only [flowFeatures, hAcc.get_eq,
      percentile_perm hAcc.flowIatMax.toList_perm]

variable [ExpLog 𝕜]

/- The features depend on what the accumulator holds. -/
theorem computeFeatures_congr
    {acc acc' : WindowAccumulator 𝕜}
    {graph graph' : WindowGraph}
    (hAcc : SameAccumulator acc acc')
    (hGraph : SameGraph graph graph')
    (host : String)
    (previous : WindowGraph)
    (newPeerCount : ℕ)
    (history : List (Tracked 𝕜))
    (elevatedFanout degreeCap : ℕ) :
    computeFeatures acc host graph previous newPeerCount
        history elevatedFanout degreeCap =
      computeFeatures acc' host graph' previous newPeerCount
        history elevatedFanout degreeCap := by
  have hFlow := flowFeatures_congr hAcc
  have hNumeric :
      (numericBuckets acc.payload).Perm
        (numericBuckets acc'.payload) :=
    hAcc.payload.toList_perm.map _
  have hPacket : packetFeatures acc = packetFeatures acc' := by
    funext name
    cases name <;>
      simp only [packetFeatures, hAcc.get_eq,
        shannonEntropy_perm hAcc.tcpWindow.values_perm,
        shannonEntropy_perm hAcc.payload.values_perm,
        percentile_perm hNumeric]
  have hGraphFeatures :
      graphFeatures acc host graph previous newPeerCount
          elevatedFanout degreeCap =
        graphFeatures acc' host graph' previous newPeerCount
          elevatedFanout degreeCap := by
    funext name
    cases name with
    | neighbourRiskFraction =>
        simp only [graphFeatures, hGraph.successors]
    | _ =>
        simp only [graphFeatures, WindowGraph.outDegree,
          WindowGraph.inDegree, WindowGraph.reciprocity,
          WindowGraph.clustering, hGraph.successors,
          hGraph.predecessors, hGraph.neighbours,
          hGraph.countLinks,
          shannonEntropy_perm hAcc.dstIp.values_perm,
          shannonEntropy_perm hAcc.dstPort.values_perm]
  have hCount : acc.eventCount = acc'.eventCount := by
    unfold WindowAccumulator.eventCount
    rw [hAcc.get_eq, hAcc.get_eq]
  have hBase :
      baseFeatures acc host graph previous newPeerCount
          elevatedFanout degreeCap =
        baseFeatures acc' host graph' previous newPeerCount
          elevatedFanout degreeCap := by
    unfold baseFeatures
    rw [hFlow, hPacket, hGraphFeatures, hCount]
  unfold computeFeatures
  rw [hBase]

------------------------------------------------------------
-- Folding events in
------------------------------------------------------------

variable [FloorRing 𝕜]

/- An event with the clock reading it is folded in at. -/
structure Fold (𝕜 : Type) where
  event : RawEvent 𝕜
  reading : ℚ

/- Fold some events into a window, one after the other. -/
def World.foldAll
    (w : World 𝕜)
    (windowTs : ℤ)
    (folds : List (Fold 𝕜)) : World 𝕜 :=
  folds.foldl
    (fun w fold =>
      w.accumulate fold.event windowTs fold.reading) w

/- How often each edge of a window was seen. -/
def World.graphOf
    (w : World 𝕜)
    (tenantId : String)
    (windowTs : ℤ) : Tally String 𝕜 :=
  (w.graphs.get w.now (tenantId, windowTs)).getD .empty

section Keys

variable (w : World 𝕜)
variable (event : RawEvent 𝕜)
variable (windowTs : ℤ)
variable (reading : ℚ)
variable (tenantId host : String)

theorem hashOf_accumulate :
    (w.accumulate event windowTs reading).hashOf tenantId
        host windowTs =
      if event.tenantId = tenantId ∧ event.srcIp = host then
        (w.hashOf tenantId host windowTs).merge
          (eventIncrements event)
      else w.hashOf tenantId host windowTs := by
  split
  · next hOwn =>
      rcases hOwn with ⟨rfl, rfl⟩
      exact hash_accumulate_self w event windowTs reading
  · next hOther =>
      have hKey :
          (tenantId, host, windowTs) ≠
            (event.tenantId, event.srcIp, windowTs) := by
        intro hEq
        simp only [Prod.mk.injEq, and_true] at hEq
        exact hOther ⟨hEq.1.symm, hEq.2.symm⟩
      unfold World.hashOf World.accumulate
      simp only
      rw [TtlStore.get_renew_ne _ _ _ _ _ hKey]

theorem graphOf_accumulate :
    (w.accumulate event windowTs reading).graphOf tenantId
        windowTs =
      if event.tenantId = tenantId ∧ event.dstIp ≠ "" then
        (w.graphOf tenantId windowTs).bump
          (edgeField event.srcIp event.dstIp) 1
      else w.graphOf tenantId windowTs := by
  unfold World.graphOf World.accumulate
  simp only
  by_cases hNone : event.dstIp = ""
  · rw [if_pos hNone, if_neg (fun hBoth => hBoth.2 hNone)]
  · rw [if_neg hNone]
    by_cases hTenant : event.tenantId = tenantId
    · subst hTenant
      rw [if_pos ⟨rfl, hNone⟩, TtlStore.get_renew_self,
        if_pos (by linarith [windowTtlS_pos])]
      rfl
    · have hKey :
          (tenantId, windowTs) ≠ (event.tenantId, windowTs) := by
        intro hEq
        exact hTenant (congrArg Prod.fst hEq).symm
      rw [if_neg (fun hBoth => hTenant hBoth.1),
        TtlStore.get_renew_ne _ _ _ _ _ hKey]

theorem mem_hostsOf_accumulate_iff :
    host ∈
        (w.accumulate event windowTs reading).hostsOf tenantId
          windowTs ↔
      (event.tenantId = tenantId ∧ event.srcIp = host) ∨
        host ∈ w.hostsOf tenantId windowTs := by
  by_cases hTenant : event.tenantId = tenantId
  · subst hTenant
    rw [mem_hostsOf_accumulate]
    simp [eq_comm]
  · have hKey :
        (tenantId, windowTs) ≠ (event.tenantId, windowTs) := by
      intro hEq
      exact hTenant (congrArg Prod.fst hEq).symm
    unfold World.hostsOf World.accumulate
    simp only
    rw [TtlStore.get_renew_ne _ _ _ _ _ hKey]
    simp [hTenant]

end Keys

section Folds

variable (w : World 𝕜)
variable (windowTs : ℤ)
variable (tenantId host : String)

/- What the events of a host add to its counters. -/
def incrementsOf
    (events : List (RawEvent 𝕜)) :
    List (Tally (WindowField 𝕜) 𝕜) :=
  (events.filter
    (fun event =>
      event.tenantId = tenantId ∧ event.srcIp = host)).map
        eventIncrements

/- The edges that the events of a tenant are seen on. -/
def edgesSeen
    (events : List (RawEvent 𝕜)) :
    List (Tally String 𝕜) :=
  (events.filter
    (fun event =>
      event.tenantId = tenantId ∧ event.dstIp ≠ "")).map
        (fun event =>
          Tally.empty.bump
            (edgeField event.srcIp event.dstIp) 1)

theorem hashOf_foldAll
    (folds : List (Fold 𝕜)) :
    (w.foldAll windowTs folds).hashOf tenantId host windowTs =
      (incrementsOf tenantId host
        (folds.map Fold.event)).foldl Tally.merge
          (w.hashOf tenantId host windowTs) := by
  induction folds generalizing w with
  | nil => rfl
  | cons fold folds ih =>
      have hRest :=
        ih (w.accumulate fold.event windowTs fold.reading)
      rw [hashOf_accumulate] at hRest
      refine hRest.trans ?_
      unfold incrementsOf
      rw [List.map_cons, List.filter_cons]
      by_cases hOwn :
          fold.event.tenantId = tenantId ∧
            fold.event.srcIp = host
      · simp [hOwn]
      · simp [hOwn]

theorem graphOf_foldAll
    (folds : List (Fold 𝕜)) :
    ((w.foldAll windowTs folds).graphOf tenantId
        windowTs).Same
      ((edgesSeen tenantId
        (folds.map Fold.event)).foldl Tally.merge
          (w.graphOf tenantId windowTs)) := by
  induction folds generalizing w with
  | nil => exact fun _ => rfl
  | cons fold folds ih =>
      have hRest :=
        ih (w.accumulate fold.event windowTs fold.reading)
      rw [graphOf_accumulate] at hRest
      intro edge
      refine (hRest edge).trans ?_
      unfold edgesSeen
      rw [List.map_cons, List.filter_cons]
      by_cases hOwn :
          fold.event.tenantId = tenantId ∧
            fold.event.dstIp ≠ ""
      · have hBump :
            ((w.graphOf tenantId windowTs).bump
                (edgeField fold.event.srcIp fold.event.dstIp)
                1).Same
              ((w.graphOf tenantId windowTs).merge
                (Tally.empty.bump
                  (edgeField fold.event.srcIp
                    fold.event.dstIp) 1)) := by
          intro other
          rw [Tally.lookup_bump_merge, Tally.lookup_merge,
            Tally.lookup_bump_merge, Tally.lookup_empty,
            Option.merge_none_left]
        rw [if_pos hOwn, if_pos (decide_eq_true hOwn),
          List.map_cons, List.foldl_cons]
        exact Tally.same_foldl_merge hBump (List.Perm.refl _)
          edge
      · rw [if_neg hOwn,
          if_neg (by simpa using hOwn)]

theorem mem_hostsOf_foldAll
    (folds : List (Fold 𝕜)) :
    host ∈
        (w.foldAll windowTs folds).hostsOf tenantId windowTs ↔
      (∃ event ∈ folds.map Fold.event,
        event.tenantId = tenantId ∧ event.srcIp = host) ∨
          host ∈ w.hostsOf tenantId windowTs := by
  have hFold :=
    List.foldl_iff_exists
      (fun w : World 𝕜 => host ∈ w.hostsOf tenantId windowTs)
      (fun w (fold : Fold 𝕜) =>
        mem_hostsOf_accumulate_iff w fold.event windowTs
          fold.reading tenantId host)
      folds w
  unfold World.foldAll
  rw [hFold]
  simp only [List.mem_map, exists_exists_and_eq_and]

end Folds

------------------------------------------------------------
-- Any order
------------------------------------------------------------

/- Two states with the same counters, hosts and edges. -/
structure SameContents
    (tenantId : String)
    (windowTs : ℤ)
    (w w' : World 𝕜) : Prop where
  hashes :
    ∀ host,
      (w.hashOf tenantId host windowTs).Same
        (w'.hashOf tenantId host windowTs)
  hosts :
    w.hostsOf tenantId windowTs = w'.hostsOf tenantId windowTs
  edges :
    (w.graphOf tenantId windowTs).Same
      (w'.graphOf tenantId windowTs)

/- The features of every host are the same in two states. -/
def SameFeatures
    (tenantId : String)
    (windowTs : ℤ)
    (w w' : World 𝕜) : Prop :=
  ∀ host previous newPeerCount history elevatedFanout
    degreeCap,
    computeFeatures
        (WindowAccumulator.fromHash
          (w.hashOf tenantId host windowTs))
        host
        (WindowGraph.fromEdges (w.edgesOf tenantId windowTs))
        previous newPeerCount history elevatedFanout
        degreeCap =
      computeFeatures
        (WindowAccumulator.fromHash
          (w'.hashOf tenantId host windowTs))
        host
        (WindowGraph.fromEdges (w'.edgesOf tenantId windowTs))
        previous newPeerCount history elevatedFanout
        degreeCap

/-
  A hash is read back field by field: every bucket under the
  name of its distribution, whatever its text, and every
  other field as a scalar. So is the hash of a host, whose
  numbers `str` writes.
-/
structure RecoversFields (𝕜 : Type)
    [Field 𝕜] [LinearOrder 𝕜] : Prop where
  buckets :
    ∀ (mapping : Tally String 𝕜), ∀ dist ∈ distPrefixes,
      ∀ bucket,
        ((TextAccumulator.fromHash mapping).dists
            dist).lookup bucket =
          mapping.lookup (distField dist bucket)
  scalars :
    ∀ (mapping : Tally String 𝕜) (name : String),
      bucketOf name = none →
        (TextAccumulator.fromHash mapping).scalars.lookup
            name =
          mapping.lookup name
  fields :
    ∀ (str : 𝕜 → String), Function.Injective str →
      ∀ (hash : Tally (WindowField 𝕜) 𝕜)
        (field : WindowField 𝕜),
        (TextAccumulator.fromHash (textHash str hash)).held
            (field.text str) =
          hash.lookup field ∧
        (WindowAccumulator.fromHash hash).lookup field =
          hash.lookup field

theorem hostsOf_ext
    {tenantId : String}
    {windowTs : ℤ}
    {w w' : World 𝕜}
    (hMem :
      ∀ host, host ∈ w.hostsOf tenantId windowTs ↔
        host ∈ w'.hostsOf tenantId windowTs) :
    w.hostsOf tenantId windowTs =
      w'.hostsOf tenantId windowTs := by
  unfold World.hostsOf at hMem ⊢
  congr 1
  ext host
  simpa using hMem host

/- The order of the events does not show in the window. -/
theorem sameContents_foldAll
    (w : World 𝕜)
    (windowTs : ℤ)
    {folds folds' : List (Fold 𝕜)}
    (hPerm :
      (folds.map Fold.event).Perm (folds'.map Fold.event))
    (tenantId : String) :
    SameContents tenantId windowTs
      (w.foldAll windowTs folds)
      (w.foldAll windowTs folds') := by
  refine
    { hashes := ?_
      hosts := ?_
      edges := ?_ }
  · intro host
    rw [hashOf_foldAll, hashOf_foldAll]
    exact
      Tally.same_foldl_merge (fun _ => rfl)
        ((hPerm.filter _).map _)
  · apply hostsOf_ext
    intro host
    rw [mem_hostsOf_foldAll, mem_hostsOf_foldAll]
    simp only [hPerm.mem_iff]
  · intro edge
    rw [graphOf_foldAll w windowTs tenantId folds edge,
      graphOf_foldAll w windowTs tenantId folds' edge]
    exact
      Tally.same_foldl_merge (fun _ => rfl)
        ((hPerm.filter _).map _) edge

/- What is computed depends on what the window holds. -/
theorem SameContents.features
    {tenantId : String}
    {windowTs : ℤ}
    {w w' : World 𝕜}
    (hSame : SameContents tenantId windowTs w w') :
    SameFeatures tenantId windowTs w w' := by
  have hEdges :
      ∀ edge, edge ∈ w.edgesOf tenantId windowTs ↔
        edge ∈ w'.edgesOf tenantId windowTs := by
    intro edge
    have hKeys := hSame.edges.mem_keys
    unfold World.graphOf at hKeys
    unfold World.edgesOf
    simp only [List.mem_filterMap, hKeys]
  intro host previous newPeerCount history elevatedFanout
    degreeCap
  exact
    computeFeatures_congr
      (sameAccumulator_fromHash (hSame.hashes host))
      (sameGraph_fromEdges hEdges) host previous newPeerCount
      history elevatedFanout degreeCap

theorem recoversFields : RecoversFields 𝕜 where
  buckets := fun mapping _ hDist bucket =>
    TextAccumulator.lookup_dists_fromHash mapping hDist bucket
  scalars := fun mapping _ hName =>
    TextAccumulator.lookup_scalars_fromHash mapping hName
  fields := fun _ hStr hash field =>
    ⟨by
      rw [TextAccumulator.held_textHash hStr,
        WindowAccumulator.lookup_fromHash],
      WindowAccumulator.lookup_fromHash hash field⟩

/-
  A window does not depend on the order of its events, and
  its hash is read back as it was summed.
-/
theorem anyOrder
    (w : World 𝕜)
    (windowTs : ℤ)
    {folds folds' : List (Fold 𝕜)}
    (hPerm :
      (folds.map Fold.event).Perm (folds'.map Fold.event)) :
    (∀ tenantId,
        SameContents tenantId windowTs
            (w.foldAll windowTs folds)
            (w.foldAll windowTs folds') ∧
          SameFeatures tenantId windowTs
            (w.foldAll windowTs folds)
            (w.foldAll windowTs folds')) ∧
      RecoversFields 𝕜 := by
  refine ⟨fun tenantId => ?_, recoversFields⟩
  have hSame :=
    sameContents_foldAll w windowTs hPerm tenantId
  exact ⟨hSame, hSame.features⟩

------------------------------------------------------------
-- Two flows between addresses with separators
------------------------------------------------------------

local instance anyOrderExpLog : ExpLog ℚ :=
  ExpLog.tangent

/- A flow to an address whose text has the separator in it. -/
def colonFlow (srcIp : String) : Fold ℚ where
  event :=
    { tenantId := "t"
      jobId := "j"
      ts := 90
      srcIp := srcIp
      dstIp := "fe80::1"
      dstPort := some 443
      measurements := .flow (fun _ => some 2)
      nonempty := ⟨.duration, nofun⟩ }
  reading := 5

/- The two orders of two flows give the same window. -/
theorem anyOrder_twoFlows :
    (∀ tenantId,
        SameContents tenantId 90
            ((World.start 0 []).foldAll 90
              [colonFlow "fe80::2", colonFlow "fe80::3"])
            ((World.start 0 []).foldAll 90
              [colonFlow "fe80::3", colonFlow "fe80::2"]) ∧
          SameFeatures tenantId 90
            ((World.start 0 []).foldAll 90
              [colonFlow "fe80::2", colonFlow "fe80::3"])
            ((World.start 0 []).foldAll 90
              [colonFlow "fe80::3", colonFlow "fe80::2"])) ∧
      RecoversFields ℚ :=
  anyOrder (World.start 0 []) 90 (List.Perm.swap _ _ [])

end Features

end Nidra
