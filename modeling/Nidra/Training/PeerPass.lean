import Nidra.Training.StateTable

/-
  This file states what the chronological pass of the peer
  tracker computes for a host and window: the peers of all
  earlier windows are known, and the out-degrees are those of
  the window that was processed last.

  Key definitions include:
    * `peersAt`, `seenBefore`
    * `lastBefore`
    * `trackerAt`

  Main declarations:
    * `visitHosts_spec`
    * `lookupKey_chronologicalPass`
-/

namespace Nidra

namespace Training

set_option linter.unusedSectionVars false

variable {𝕜 : Type}
variable [Field 𝕜] [LinearOrder 𝕜]

------------------------------------------------------------
-- Peers
------------------------------------------------------------

/- The destinations of a host in a window. -/
def peersAt
    (flows : List (FlowRow 𝕜))
    (windowTs : ℤ)
    (host : String) : Finset String :=
  ((flows.filter
    (fun row => row.key = (host, windowTs))).map
      FlowRow.dstIp).toFinset

/- Its destinations in all windows before. -/
def seenBefore
    (flows : List (FlowRow 𝕜))
    (windowTs : ℤ)
    (host : String) : Finset String :=
  ((flows.filter
    (fun row => row.srcIp = host ∧ row.windowTs < windowTs)).map
      FlowRow.dstIp).toFinset

theorem mem_peersAt
    {flows : List (FlowRow 𝕜)}
    {windowTs : ℤ}
    {host peer : String} :
    peer ∈ peersAt flows windowTs host ↔
      ∃ row ∈ flows,
        row.key = (host, windowTs) ∧ row.dstIp = peer := by
  simp [peersAt, and_assoc]

theorem mem_seenBefore
    {flows : List (FlowRow 𝕜)}
    {windowTs : ℤ}
    {host peer : String} :
    peer ∈ seenBefore flows windowTs host ↔
      ∃ row ∈ flows,
        row.srcIp = host ∧ row.windowTs < windowTs ∧
          row.dstIp = peer := by
  simp [seenBefore, and_assoc]

/- The window that comes last before another. -/
def lastBefore
    (windows : List ℤ)
    (windowTs : ℤ) : Option ℤ :=
  (windows.filter (fun w => decide (w < windowTs))).max?

theorem lastBefore_eq_some_iff
    {windows : List ℤ}
    {windowTs before : ℤ} :
    lastBefore windows windowTs = some before ↔
      (before ∈ windows ∧ before < windowTs) ∧
        ∀ w ∈ windows, w < windowTs → w ≤ before := by
  unfold lastBefore
  rw [List.max?_eq_some_iff]
  simp only [List.mem_filter, decide_eq_true_eq, and_imp]

theorem lastBefore_eq_none_iff
    {windows : List ℤ}
    {windowTs : ℤ} :
    lastBefore windows windowTs = none ↔
      ∀ w ∈ windows, ¬ w < windowTs := by
  unfold lastBefore
  rw [List.max?_eq_none_iff, List.filter_eq_nil_iff]
  simp only [decide_eq_true_eq]

section Pass

variable [ExpLog 𝕜]
variable (sampling : Sampling)
variable (degreeCap : ℕ)

/- The graph of a window. -/
def graphAt
    (flows : List (FlowRow 𝕜))
    (windowTs : ℤ) : WindowGraphResult 𝕜 :=
  computeWindowGraph sampling degreeCap
    (edgesAt flows windowTs)

/- The destinations in a window's graph. -/
theorem outPeers_edgesAt
    (flows : List (FlowRow 𝕜))
    (windowTs : ℤ)
    (host : String) :
    (Adjacency.ofFlows (edgesAt flows windowTs)).outPeers
        host =
      peersAt flows windowTs host := by
  ext peer
  rw [Adjacency.mem_outPeers_ofFlows, mem_peersAt]
  simp only [edgesAt, List.mem_map, List.mem_filter,
    decide_eq_true_eq, FlowRow.key, Prod.mk.injEq]
  constructor
  · rintro ⟨_, ⟨row, ⟨hRow, hWindow⟩, rfl⟩, rfl, rfl⟩
    exact ⟨row, hRow, ⟨rfl, hWindow⟩, rfl⟩
  · rintro ⟨row, hRow, ⟨rfl, hWindow⟩, rfl⟩
    exact ⟨row.edge, ⟨row, ⟨hRow, hWindow⟩, rfl⟩, rfl, rfl⟩

/- A window's graph has the host's destinations. -/
theorem outPeers_graphAt
    (flows : List (FlowRow 𝕜))
    (windowTs : ℤ)
    (host : String) :
    ((graphAt sampling degreeCap flows
        windowTs).outPeers host).getD ∅ =
      peersAt flows windowTs host := by
  rw [← outPeers_edgesAt]
  unfold graphAt computeWindowGraph
  simp only [overHosts]
  split
  · rfl
  · next hAbsent =>
      symm
      apply Finset.eq_empty_of_forall_notMem
      intro peer hPeer
      apply hAbsent
      rw [Adjacency.mem_outPeers_ofFlows] at hPeer
      rcases hPeer with ⟨flow, hFlow, hSrc, _⟩
      rw [Adjacency.mem_hosts_ofFlows]
      exact ⟨flow, hFlow, Or.inl hSrc⟩

------------------------------------------------------------
-- The hosts of one window
------------------------------------------------------------

/- The row of a host depends on what it has seen itself. -/
theorem graphRow_congr
    (graph : WindowGraphResult 𝕜)
    {tracker tracker' : PeerTracker 𝕜}
    {host : String}
    (hSeen : tracker.seen host = tracker'.seen host)
    (hDegrees :
      tracker.prevOutDegree = tracker'.prevOutDegree)
    (hMedian :
      tracker.prevMedianOutDegree =
        tracker'.prevMedianOutDegree) :
    graphRow graph tracker host =
      graphRow graph tracker' host := by
  funext name
  cases name with
  | newPeerCount =>
      simp only [graphRow, PeerTracker.newPeerCount, hSeen]
  | neighbourRiskFraction =>
      have hElevated :
          (tracker.newPeerCount host
              ((graph.outPeers host).getD ∅)).2.elevated =
            (tracker'.newPeerCount host
              ((graph.outPeers host).getD ∅)).2.elevated := by
        funext peer
        simp only [PeerTracker.elevated,
          PeerTracker.newPeerCount, hDegrees, hMedian]
      simp only [graphRow, PeerTracker.neighbourRiskFraction]
      split
      · rfl
      · congr 2
        apply congrArg Finset.card
        apply Finset.filter_congr
        intro peer _
        rw [hElevated]
  | _ => rfl

/- What the tracker knows once some hosts were visited. -/
def visited
    (graph : WindowGraphResult 𝕜)
    (tracker : PeerTracker 𝕜)
    (hosts : List String) : PeerTracker 𝕜 :=
  { tracker with
    seen := fun host =>
      if host ∈ hosts then
        tracker.seen host ∪ (graph.outPeers host).getD ∅
      else tracker.seen host }

/- Each host is visited once, on its own. -/
theorem visitHosts_spec
    (graph : WindowGraphResult 𝕜)
    (tracker : PeerTracker 𝕜)
    {hosts : List String}
    (hNodup : hosts.Nodup) :
    visitHosts graph tracker hosts =
      (hosts.map (fun host =>
          (host, graphRow graph tracker host)),
        visited graph tracker hosts) := by
  induction hosts generalizing tracker with
  | nil =>
      simp [visitHosts, visited]
  | cons host rest ih =>
      rcases List.nodup_cons.mp hNodup with ⟨hNew, hRest⟩
      let next :=
        (tracker.newPeerCount host
          ((graph.outPeers host).getD ∅)).2
      have hRows :
          rest.map (fun other =>
              (other, graphRow graph next other)) =
            rest.map (fun other =>
              (other, graphRow graph tracker other)) := by
        apply List.map_congr_left
        intro other hOther
        have hNe : other ≠ host := by
          rintro rfl
          exact hNew hOther
        have hRow :
            graphRow graph next other =
              graphRow graph tracker other :=
          graphRow_congr graph (Function.update_of_ne hNe _ _)
            rfl rfl
        rw [hRow]
      have hTracker :
          visited graph next rest =
            visited graph tracker (host :: rest) := by
        unfold visited
        simp only [next, PeerTracker.newPeerCount,
          PeerTracker.mk.injEq, and_self, and_true]
        funext other
        by_cases hOther : other = host
        · subst hOther
          simp [hNew]
        · simp [hOther]
      have hStep := ih next hRest
      rw [hRows, hTracker] at hStep
      simp only [visitHosts, List.map_cons]
      rw [hStep]

------------------------------------------------------------
-- The pass over all windows
------------------------------------------------------------

/- The tracker with which a window is processed. -/
def trackerAt
    (flows : List (FlowRow 𝕜))
    (windows : List ℤ)
    (windowTs : ℤ) : PeerTracker 𝕜 :=
  let seen : PeerTracker 𝕜 :=
    { PeerTracker.start with
      seen := seenBefore flows windowTs }
  match lastBefore windows windowTs with
  | none => seen
  | some before =>
      seen.commitWindow
        (outDegreeItems (𝕜 := 𝕜) sampling degreeCap
          (edgesAt flows before))

/- The rows of one window. -/
def passRows
    (flows : List (FlowRow 𝕜))
    (keys : List HostWindow)
    (windows : List ℤ)
    (windowTs : ℤ) :
    List (HostWindow × (GraphFeature → 𝕜)) :=
  (hostsAt keys windowTs).map (fun host =>
    ((host, windowTs),
      graphRow (graphAt sampling degreeCap flows windowTs)
        (trackerAt sampling degreeCap flows windows windowTs)
        host))

section Order

variable {flows : List (FlowRow 𝕜)}
variable {keys : List HostWindow}
variable {windows : List ℤ}

/- The window processed before the next one. -/
theorem lastBefore_next
    {done rest : List ℤ}
    {windowTs next : ℤ}
    (hSorted :
      (done ++ windowTs :: next :: rest).Pairwise (· < ·)) :
    lastBefore (done ++ windowTs :: next :: rest) next =
      some windowTs := by
  rcases List.pairwise_append.mp hSorted with
    ⟨_, hLater, hDone⟩
  rcases List.pairwise_cons.mp hLater with ⟨hFirst, hRest⟩
  rw [lastBefore_eq_some_iff]
  simp only [List.mem_append, List.mem_cons]
  refine ⟨⟨Or.inr (Or.inl trivial), ?_⟩, ?_⟩
  · exact hFirst next List.mem_cons_self
  · rintro w (hW | rfl | rfl | hW) hLess
    · exact (hDone w hW windowTs List.mem_cons_self).le
    · exact le_refl _
    · exact absurd hLess (lt_irrefl _)
    · have hAfter := List.rel_of_pairwise_cons hRest hW
      omega

theorem lastBefore_first
    {rest : List ℤ}
    {windowTs : ℤ}
    (hSorted : (windowTs :: rest).Pairwise (· < ·)) :
    lastBefore (windowTs :: rest) windowTs = none := by
  rw [lastBefore_eq_none_iff]
  intro w hW
  rcases List.mem_cons.mp hW with rfl | hW
  · exact lt_irrefl _
  · have hAfter := List.rel_of_pairwise_cons hSorted hW
    omega

/- What is seen before a window is seen before the next. -/
theorem seenBefore_next
    {windowTs next : ℤ}
    (hLess : windowTs < next)
    (hNone :
      ∀ row ∈ flows,
        row.windowTs ≤ windowTs ∨ next ≤ row.windowTs)
    (host : String) :
    seenBefore flows next host =
      seenBefore flows windowTs host ∪
        peersAt flows windowTs host := by
  ext peer
  rw [Finset.mem_union, mem_seenBefore, mem_seenBefore,
    mem_peersAt]
  constructor
  · rintro ⟨row, hRow, rfl, hBefore, rfl⟩
    rcases hNone row hRow with hUpTo | hAfter
    · rcases lt_or_eq_of_le hUpTo with hOld | hNow
      · exact Or.inl ⟨row, hRow, rfl, hOld, rfl⟩
      · exact
          Or.inr ⟨row, hRow, Prod.ext rfl hNow, rfl⟩
    · omega
  · rintro (⟨row, hRow, rfl, hOld, rfl⟩ |
      ⟨row, hRow, hKey, rfl⟩)
    · exact ⟨row, hRow, rfl, by omega, rfl⟩
    · rcases Prod.mk.inj hKey with ⟨hHost, hNow⟩
      exact ⟨row, hRow, hHost, by omega, rfl⟩

theorem seenBefore_first
    {windowTs : ℤ}
    (hNone : ∀ row ∈ flows, windowTs ≤ row.windowTs)
    (host : String) :
    seenBefore flows windowTs host = ∅ := by
  apply Finset.eq_empty_of_forall_notMem
  intro peer hPeer
  rcases mem_seenBefore.mp hPeer with
    ⟨row, hRow, _, hLess, _⟩
  have hFrom := hNone row hRow
  omega

theorem mem_hostsAt
    {host : String}
    {windowTs : ℤ} :
    host ∈ hostsAt keys windowTs ↔
      (host, windowTs) ∈ keys := by
  simp only [hostsAt, List.mem_map, List.mem_filter,
    decide_eq_true_eq]
  constructor
  · rintro ⟨⟨_, _⟩, ⟨hKey, rfl⟩, rfl⟩
    exact hKey
  · intro hKey
    exact ⟨_, ⟨hKey, rfl⟩, rfl⟩

theorem nodup_hostsAt
    (hKeys : keys.Nodup)
    (windowTs : ℤ) :
    (hostsAt keys windowTs).Nodup := by
  unfold hostsAt
  refine (hKeys.filter _).map_on ?_
  rintro ⟨_, _⟩ hA ⟨_, _⟩ hB rfl
  have hWindowA := (List.mem_filter.mp hA).2
  have hWindowB := (List.mem_filter.mp hB).2
  simp only [decide_eq_true_eq] at hWindowA hWindowB
  rw [hWindowA, hWindowB]

/- One window leads to the tracker of the next one. -/
theorem commit_trackerAt
    (hFlowKeys : ∀ row ∈ flows, row.key ∈ keys)
    (hFlowWindows : ∀ row ∈ flows, row.windowTs ∈ windows)
    {done rest : List ℤ}
    {windowTs next : ℤ}
    (hSplit : windows = done ++ windowTs :: next :: rest)
    (hSorted : windows.Pairwise (· < ·)) :
    (visited (graphAt sampling degreeCap flows windowTs)
        (trackerAt sampling degreeCap flows windows windowTs)
        (hostsAt keys windowTs)).commitWindow
          (outDegreeItems (𝕜 := 𝕜) sampling degreeCap
            (edgesAt flows windowTs)) =
      trackerAt sampling degreeCap flows windows next := by
  have hLast :
      lastBefore windows next = some windowTs := by
    rw [hSplit] at hSorted ⊢
    exact lastBefore_next hSorted
  have hLess : windowTs < next := by
    rw [hSplit] at hSorted
    exact
      List.rel_of_pairwise_cons
        (List.pairwise_append.mp hSorted).2.1
        List.mem_cons_self
  have hBetween :
      ∀ row ∈ flows,
        row.windowTs ≤ windowTs ∨ next ≤ row.windowTs := by
    intro row hRow
    have hMem := hFlowWindows row hRow
    by_contra hNot
    push Not at hNot
    have hMax :
        row.windowTs ≤ windowTs := by
      have hLe := (List.max?_eq_some_iff.mp hLast).2
      apply hLe
      exact
        List.mem_filter.mpr ⟨hMem, by simpa using hNot.2⟩
    omega
  have hSeen :
      (visited (graphAt sampling degreeCap flows windowTs)
          (trackerAt sampling degreeCap flows windows windowTs)
          (hostsAt keys windowTs)).seen =
        seenBefore flows next := by
    funext host
    have hTracker :
        (trackerAt sampling degreeCap flows windows
            windowTs).seen host =
          seenBefore flows windowTs host := by
      unfold trackerAt
      simp only
      split <;> rfl
    unfold visited
    simp only [outPeers_graphAt, hTracker]
    rw [seenBefore_next hLess hBetween]
    split
    · rfl
    · next hAbsent =>
        -- A host that is not visited has no flow.
        have hNone : peersAt flows windowTs host = ∅ := by
          apply Finset.eq_empty_of_forall_notMem
          intro peer hPeer
          rcases mem_peersAt.mp hPeer with
            ⟨row, hRow, hKey, _⟩
          apply hAbsent
          rw [mem_hostsAt, ← hKey]
          exact hFlowKeys row hRow
        rw [hNone, Finset.union_empty]
  unfold trackerAt at hSeen ⊢
  rw [hLast]
  unfold PeerTracker.commitWindow at hSeen ⊢
  rw [hSeen]

/- The pass gives every window its rows. -/
theorem chronologicalPass_eq
    (hKeys : keys.Nodup)
    (hFlowKeys : ∀ row ∈ flows, row.key ∈ keys)
    (hFlowWindows : ∀ row ∈ flows, row.windowTs ∈ windows)
    (hSorted : windows.Pairwise (· < ·))
    {done rest : List ℤ}
    {tracker : PeerTracker 𝕜}
    (hSplit : windows = done ++ rest)
    (hTracker :
      ∀ windowTs ∈ rest.head?,
        tracker =
          trackerAt sampling degreeCap flows windows
            windowTs) :
    chronologicalPass sampling degreeCap flows keys tracker
        rest =
      rest.flatMap
        (passRows sampling degreeCap flows keys windows) := by
  induction rest generalizing done tracker with
  | nil => rfl
  | cons windowTs rest ih =>
      have hFirst := hTracker windowTs rfl
      subst hFirst
      have hVisit :=
        visitHosts_spec
          (graphAt sampling degreeCap flows windowTs)
          (trackerAt sampling degreeCap flows windows windowTs)
          (nodup_hostsAt hKeys windowTs)
      have hRest :
          chronologicalPass sampling degreeCap flows keys
              ((visited
                (graphAt sampling degreeCap flows windowTs)
                (trackerAt sampling degreeCap flows windows
                  windowTs)
                (hostsAt keys windowTs)).commitWindow
                  (outDegreeItems (𝕜 := 𝕜) sampling
                    degreeCap (edgesAt flows windowTs)))
              rest =
            rest.flatMap
              (passRows sampling degreeCap flows keys
                windows) := by
        have hLater :
            windows = (done ++ [windowTs]) ++ rest := by
          rw [hSplit, List.append_assoc, List.singleton_append]
        apply ih hLater
        intro next hNext
        cases rest with
        | nil => cases hNext
        | cons head rest =>
            cases hNext
            exact
              commit_trackerAt sampling degreeCap hFlowKeys
                hFlowWindows hSplit hSorted
      unfold graphAt at hVisit
      simp only [chronologicalPass, hVisit, List.flatMap_cons]
      unfold graphAt at hRest
      rw [hRest]
      congr 1
      unfold passRows
      rw [List.map_map]
      rfl

/- A window that has rows is processed. -/
theorem mem_windowOrder
    {windowTs : ℤ} :
    windowTs ∈ windowOrder keys ↔
      ∃ key ∈ keys, key.2 = windowTs := by
  simp [windowOrder]

/- What the pass computes for a host and window. -/
theorem lookupKey_chronologicalPass
    (hKeys : keys.Nodup)
    (hFlowKeys : ∀ row ∈ flows, row.key ∈ keys)
    {host : String}
    {windowTs : ℤ}
    (hKey : (host, windowTs) ∈ keys) :
    lookupKey
        (chronologicalPass sampling degreeCap flows keys
          PeerTracker.start (windowOrder keys))
        (host, windowTs) =
      some
        (graphRow (graphAt sampling degreeCap flows windowTs)
          (trackerAt sampling degreeCap flows
            (windowOrder keys) windowTs)
          host) := by
  have hSorted : (windowOrder keys).Pairwise (· < ·) :=
    Finset.sortedLT_sort _ |>.pairwise
  have hFlowWindows :
      ∀ row ∈ flows, row.windowTs ∈ windowOrder keys :=
    fun row hRow =>
      mem_windowOrder.mpr ⟨row.key, hFlowKeys row hRow, rfl⟩
  have hStart :
      ∀ first ∈ (windowOrder keys).head?,
        PeerTracker.start =
          trackerAt sampling degreeCap flows
            (windowOrder keys) first := by
    intro first hFirst
    rcases List.head?_eq_some_iff.mp hFirst with
      ⟨rest, hOrder⟩
    rw [hOrder] at hSorted
    have hSeen :
        seenBefore flows first = fun _ => (∅ : Finset String) := by
      funext other
      apply seenBefore_first
      intro row hRow
      have hMem := hFlowWindows row hRow
      rw [hOrder] at hMem
      rcases List.mem_cons.mp hMem with hEq | hRest
      · exact hEq.ge
      · exact (List.rel_of_pairwise_cons hSorted hRest).le
    unfold trackerAt
    rw [hOrder, lastBefore_first hSorted, hSeen]
    rfl
  rw [chronologicalPass_eq sampling degreeCap hKeys hFlowKeys
    hFlowWindows hSorted (List.nil_append _).symm hStart]
  have hRows :
      ∀ row, row ∈ (windowOrder keys).flatMap
            (passRows sampling degreeCap flows keys
              (windowOrder keys)) ↔
        row.1 ∈ keys ∧
          row.2 =
            graphRow
              (graphAt sampling degreeCap flows row.1.2)
              (trackerAt sampling degreeCap flows
                (windowOrder keys) row.1.2)
              row.1.1 := by
    rintro ⟨⟨other, w⟩, value⟩
    simp only [List.mem_flatMap, passRows, List.mem_map,
      Prod.mk.injEq]
    constructor
    · rintro ⟨_, _, _, hHost, ⟨rfl, rfl⟩, rfl⟩
      exact ⟨mem_hostsAt.mp hHost, rfl⟩
    · rintro ⟨hMem, rfl⟩
      exact
        ⟨w, mem_windowOrder.mpr ⟨_, hMem, rfl⟩, other,
          mem_hostsAt.mpr hMem, ⟨rfl, rfl⟩, rfl⟩
  apply lookupKey_of_forall
  · exact
      ⟨((host, windowTs),
          graphRow (graphAt sampling degreeCap flows windowTs)
            (trackerAt sampling degreeCap flows
              (windowOrder keys) windowTs)
            host),
        (hRows _).mpr ⟨hKey, rfl⟩, rfl⟩
  · intro found hFound
    exact ((hRows _).mp hFound).2

end Order

------------------------------------------------------------
-- The two features with a history
------------------------------------------------------------

section History

/- The hosts at either end of a window's flows. -/
def endsAt
    (flows : List (FlowRow 𝕜))
    (windowTs : ℤ) : List String :=
  ((flows.filter (fun row => row.windowTs = windowTs)).flatMap
    (fun row => [row.srcIp, row.dstIp])).dedup

/- The distinct destinations of a host in a window. -/
def fanOut
    (flows : List (FlowRow 𝕜))
    (windowTs : ℤ)
    (host : String) : ℕ :=
  (peersAt flows windowTs host).card

/- The median of the hosts of a window. -/
def medianFanOut
    (flows : List (FlowRow 𝕜))
    (windowTs : ℤ) : 𝕜 :=
  median
    ((endsAt flows windowTs).map
      (fun host => (fanOut flows windowTs host : 𝕜)))

/- A host with more destinations than the median host. -/
def FannedOut
    (flows : List (FlowRow 𝕜))
    (windowTs : ℤ)
    (host : String) : Prop :=
  medianFanOut flows windowTs <
    (fanOut flows windowTs host : 𝕜)

instance
    (flows : List (FlowRow 𝕜))
    (windowTs : ℤ)
    (host : String) :
    Decidable (FannedOut flows windowTs host) :=
  inferInstanceAs (Decidable (_ < _))

/- The share of the peers that something holds of. -/
def shareOf
    (peers : Finset String)
    (holds : String → Prop)
    [DecidablePred holds] : 𝕜 :=
  if peers = ∅ then 0
  else ((peers.filter holds).card : 𝕜) / (peers.card : 𝕜)

variable (flows : List (FlowRow 𝕜))

theorem hosts_edgesAt
    (windowTs : ℤ) :
    (Adjacency.ofFlows (edgesAt flows windowTs)).hosts =
      (endsAt flows windowTs).toFinset := by
  ext host
  rw [Adjacency.mem_hosts_ofFlows, List.mem_toFinset]
  simp only [edgesAt, endsAt, List.mem_map,
    List.mem_filter, decide_eq_true_eq, List.mem_dedup,
    List.mem_flatMap, List.mem_cons, List.not_mem_nil,
    or_false]
  constructor
  · rintro ⟨_, ⟨row, hRow, rfl⟩, hEnd⟩
    exact ⟨row, hRow, hEnd⟩
  · rintro ⟨row, hRow, hEnd⟩
    exact ⟨row.edge, ⟨row, hRow, rfl⟩, hEnd⟩

/- The out-degrees of a window are those of its hosts. -/
theorem outDegreeItems_edgesAt
    (windowTs : ℤ) :
    outDegreeItems (𝕜 := 𝕜) sampling degreeCap
        (edgesAt flows windowTs) =
      ((endsAt flows windowTs).toFinset.sort (· ≤ ·)).map
        (fun host => (host, fanOut flows windowTs host)) := by
  unfold outDegreeItems
  simp only [computeWindowGraph]
  rw [← List.filterMap_eq_map, hosts_edgesAt]
  apply List.filterMap_congr
  intro host hHost
  rw [Finset.mem_sort] at hHost
  simp only [overHosts, if_pos hHost, Option.map_some,
    Function.comp_apply, Option.some.injEq, Prod.mk.injEq,
    true_and]
  unfold fanOut
  rw [← outPeers_edgesAt, Adjacency.outPeers,
    List.toFinset_card_of_nodup (Tally.keys_nodup _)]

/- A host outside a window has no destinations in it. -/
theorem fanOut_eq_zero
    {flows : List (FlowRow 𝕜)}
    {windowTs : ℤ}
    {host : String}
    (hHost : host ∉ endsAt flows windowTs) :
    fanOut flows windowTs host = 0 := by
  unfold fanOut
  rw [Finset.card_eq_zero]
  apply Finset.eq_empty_of_forall_notMem
  intro peer hPeer
  rcases mem_peersAt.mp hPeer with ⟨row, hRow, hKey, _⟩
  rcases Prod.mk.inj hKey with ⟨rfl, hWindow⟩
  apply hHost
  unfold endsAt
  rw [List.mem_dedup, List.mem_flatMap]
  exact
    ⟨row,
      List.mem_filter.mpr ⟨hRow, by simpa using hWindow⟩,
      List.mem_cons_self⟩

/- The degree that the tracker finds for a peer. -/
theorem lookupKey_outDegreeItems
    (windowTs : ℤ)
    (peer : String) :
    (lookupKey
        (((endsAt flows windowTs).toFinset.sort (· ≤ ·)).map
          (fun host => (host, fanOut flows windowTs host)))
        peer).getD 0 =
      fanOut flows windowTs peer := by
  let items :=
    ((endsAt flows windowTs).toFinset.sort (· ≤ ·)).map
      (fun host => (host, fanOut flows windowTs host))
  by_cases hPeer : peer ∈ endsAt flows windowTs
  · have hSorted := List.mem_toFinset.mpr hPeer
    have hLookup :
        lookupKey items peer =
          some (fanOut flows windowTs peer) := by
      apply lookupKey_of_forall
      · exact
          ⟨_, List.mem_map.mpr
            ⟨peer, (Finset.mem_sort _).mpr hSorted, rfl⟩, rfl⟩
      · intro found hFound
        rcases List.mem_map.mp hFound with ⟨host, _, hEq⟩
        rcases Prod.mk.inj hEq with ⟨rfl, rfl⟩
        rfl
    change (lookupKey items peer).getD 0 = _
    rw [hLookup]
    rfl
  · have hLookup : lookupKey items peer = none := by
      rw [← Option.not_isSome_iff_eq_none, lookupKey_isSome]
      rintro ⟨row, hRow, hKey⟩
      rcases List.mem_map.mp hRow with ⟨host, hHost, rfl⟩
      rw [Finset.mem_sort, List.mem_toFinset] at hHost
      exact hPeer (hKey ▸ hHost)
    change (lookupKey items peer).getD 0 = _
    rw [hLookup, fanOut_eq_zero hPeer]
    rfl

/- What counts as elevated is the window processed last. -/
theorem elevated_trackerAt
    {windows : List ℤ}
    {windowTs before : ℤ}
    (hBefore : lastBefore windows windowTs = some before)
    (peer : String) :
    (trackerAt sampling degreeCap flows windows
        windowTs).elevated peer ↔
      FannedOut flows before peer := by
  unfold trackerAt
  rw [hBefore]
  simp only [PeerTracker.elevated, PeerTracker.commitWindow,
    outDegreeItems_edgesAt]
  rw [lookupKey_outDegreeItems, FannedOut, medianFanOut]
  have hPerm :
      ((endsAt flows before).toFinset.sort (· ≤ ·)).Perm
        (endsAt flows before) := by
    refine (Finset.sort_perm_toList _ _).trans ?_
    exact List.toFinset_toList (List.nodup_dedup _)
  have hMedian := median_perm (hPerm.map
    (fun host => (fanOut flows before host : 𝕜)))
  split
  · next hNone =>
      rw [List.map_eq_nil_iff] at hNone
      rw [hNone] at hMedian
      rw [← hMedian]
      simp [median, ranked]
  · rw [List.map_map, ← hMedian]
    rfl

theorem not_elevated_first
    {windows : List ℤ}
    {windowTs : ℤ}
    (hBefore : lastBefore windows windowTs = none)
    (peer : String) :
    ¬ (trackerAt sampling degreeCap flows windows
        windowTs).elevated peer := by
  unfold trackerAt
  rw [hBefore]
  simp [PeerTracker.elevated, PeerTracker.start, lookupKey]

theorem seen_trackerAt
    (windows : List ℤ)
    (windowTs : ℤ) :
    (trackerAt sampling degreeCap flows windows
        windowTs).seen =
      seenBefore flows windowTs := by
  unfold trackerAt
  simp only
  split <;> rfl

/- A peer is new when no earlier window had it. -/
theorem graphRow_newPeerCount
    (windows : List ℤ)
    (windowTs : ℤ)
    (host : String) :
    graphRow (graphAt sampling degreeCap flows windowTs)
        (trackerAt sampling degreeCap flows windows windowTs)
        host .newPeerCount =
      (((peersAt flows windowTs host \
        seenBefore flows windowTs host).card : ℕ) : 𝕜) := by
  simp only [graphRow, PeerTracker.newPeerCount,
    outPeers_graphAt, seen_trackerAt]

/- The risk around a host is the share of elevated peers. -/
theorem graphRow_neighbourRiskFraction
    (windows : List ℤ)
    (windowTs : ℤ)
    (host : String) :
    graphRow (graphAt sampling degreeCap flows windowTs)
        (trackerAt sampling degreeCap flows windows windowTs)
        host .neighbourRiskFraction =
      shareOf (peersAt flows windowTs host)
        (trackerAt sampling degreeCap flows windows
          windowTs).elevated := by
  simp only [graphRow, outPeers_graphAt, shareOf,
    PeerTracker.neighbourRiskFraction]
  split
  · rfl
  · congr 2

end History

------------------------------------------------------------
-- Observed rows
------------------------------------------------------------

section Observed

variable [FloorRing 𝕜]
variable {flows : List (FlowRow 𝕜)}
variable {packets : List (PacketRow 𝕜)}

/- The windows in which hosts were observed. -/
def observedKeys
    (flows : List (FlowRow 𝕜))
    (packets : List (PacketRow 𝕜)) : List HostWindow :=
  (fuse (aggregateFlows flows)
    (aggregatePackets packets)).map FusedRow.key

/- An observed row has the aggregates of its own key. -/
theorem mem_fuse
    {row : FusedRow 𝕜}
    (hRow :
      row ∈
        fuse (aggregateFlows flows)
          (aggregatePackets packets)) :
    row =
      fuseRow (aggregateFlows flows)
        (aggregatePackets packets) row.key := by
  have hObserved :
      Observed flows packets row.key.1 row.key.2 :=
    mem_fuse_keys.mp (List.mem_map.mpr ⟨row, hRow, rfl⟩)
  unfold fuse at hRow
  simp only at hRow
  split at hRow
  · rcases List.mem_map.mp hRow with ⟨key, _, rfl⟩
    rfl
  · next hSome =>
      have hFlows : aggregateFlows flows ≠ [] := by
        intro hNone
        exact hSome (Or.inr hNone)
      rcases List.mem_map.mp hRow with ⟨key, _, rfl⟩
      have hKey :
          (fuseRow (aggregateFlows flows)
            (packetKept (aggregateFlows flows)
              (aggregatePackets packets)) key).key = key := rfl
      rw [hKey] at hObserved ⊢
      have hSource :
          key.1 ∈
            (aggregateFlows flows).map (fun a => a.1.1) := by
        have hFlow : ∃ flow ∈ flows, flow.srcIp = key.1 := by
          rcases hObserved with ⟨flow, hFlow, hEq⟩ |
            ⟨_, hFlow, _⟩
          · exact ⟨flow, hFlow, (Prod.mk.inj hEq).1⟩
          · exact hFlow
        rcases hFlow with ⟨flow, hFlow, hHost⟩
        rcases List.mem_map.mp
            (mem_flowKeys.mpr ⟨flow, hFlow, rfl⟩) with
          ⟨a, hA, hAKey⟩
        refine List.mem_map.mpr ⟨a, hA, ?_⟩
        rw [hAKey]
        exact hHost
      have hDay : InDay flows key.2 := by
        rcases hObserved with ⟨flow, hFlow, hEq⟩ | ⟨_, _, hDay⟩
        · rcases Prod.mk.inj hEq with ⟨_, hTs⟩
          exact ⟨flow, hFlow, flow, hFlow, hTs.le, hTs.ge⟩
        · exact hDay
      rw [inDay_iff hFlows] at hDay
      have hPackets :
          lookupKey
              (packetKept (aggregateFlows flows)
                (aggregatePackets packets)) key =
            lookupKey (aggregatePackets packets) key := by
        let keep : HostWindow → Bool := fun other =>
          decide
            (other.1 ∈
                (aggregateFlows flows).map (fun a => a.1.1) ∧
              ((aggregateFlows flows).map
                (fun a => a.1.2)).min?.getD 0 ≤ other.2 ∧
              other.2 ≤
                ((aggregateFlows flows).map
                  (fun a => a.1.2)).max?.getD 0)
        have hKeep : keep key = true :=
          decide_eq_true ⟨hSource, hDay⟩
        exact lookupKey_filter (aggregatePackets packets) hKeep
      unfold fuseRow
      rw [hPackets]

/- The features of an observed window before its dynamics. -/
theorem lookupKey_observed
    {host : String}
    {windowTs : ℤ}
    (hObserved : Observed flows packets host windowTs) :
    lookupKey
        (observedTable sampling degreeCap flows packets)
        (host, windowTs) =
      some
        (observedFeatures
          (fuseRow (aggregateFlows flows)
            (aggregatePackets packets) (host, windowTs))
          (graphRow (graphAt sampling degreeCap flows windowTs)
            (trackerAt sampling degreeCap flows
              (windowOrder (observedKeys flows packets))
              windowTs)
            host)) := by
  have hKey : (host, windowTs) ∈ observedKeys flows packets :=
    mem_fuse_keys.mpr hObserved
  have hPass :=
    lookupKey_chronologicalPass sampling degreeCap
      (nodup_fuse_keys flows packets)
      (fun row hRow =>
        mem_fuse_keys.mpr (Or.inl ⟨row, hRow, rfl⟩))
      hKey
  apply lookupKey_of_forall
  · rcases (mem_observedTable sampling degreeCap).mpr
      hObserved with ⟨features, hMem⟩
    exact ⟨_, hMem, rfl⟩
  · intro found hFound
    unfold observedTable at hFound
    rcases List.mem_map.mp hFound with ⟨row, hRow, hEq⟩
    rcases Prod.mk.inj hEq with ⟨hRowKey, hFeatures⟩
    rw [← hFeatures, mem_fuse hRow, hRowKey]
    have hFused :
        (fuseRow (aggregateFlows flows)
          (aggregatePackets packets)
            (host, windowTs)).key = (host, windowTs) := rfl
    rw [hFused]
    rw [hPass]
    rfl

end Observed

end Pass

end Training

end Nidra
