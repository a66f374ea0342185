import Nidra.Parity.ServedRun
import Nidra.Training.Hindsight

/-
  This file compares the two graph features that look back,
  the new peers of a host and the share of its peers that
  fanned out, between the features worker and the peer
  tracker of training, over a run of windows in which none of
  the worker's keys expires. The new peers are the same. The
  share is taken of one and the same set of peers. Where no
  window was skipped, the worker counts those that reached a
  configured fan-out in the window before and training those
  above the median of it.

  Key definitions include:
    * `SameEdges`
    * `NoneSkipped`
    * `VectorAgrees`
    * `HistoryAgrees`, `HistoryEqual`

  Main declarations:
    * `vectorAgrees_closeVector`
    * `historyAgrees_of_kept`
-/

namespace Nidra

namespace Parity

open Features Training

set_option linter.unusedSectionVars false

variable {𝕜 : Type}
variable [Field 𝕜] [LinearOrder 𝕜] [FloorRing 𝕜]
variable [ExpLog 𝕜]
variable {cfg : FeaturesConfig}
variable {tenantId : String}

------------------------------------------------------------
-- The edges of the table
------------------------------------------------------------

/- The flows of a table are the edges of the run. -/
def SameEdges
    (run : ServedRun 𝕜 cfg tenantId)
    (flows : List (FlowRow 𝕜)) : Prop :=
  ∀ src dst ts,
    (∃ row ∈ flows,
        row.srcIp = src ∧ row.dstIp = dst ∧
          row.windowTs = ts) ↔
      ∃ b ∈ run.batches, b.windowTs = ts ∧
        ∃ a ∈ b.arrivals,
          a.fold.event.srcIp = src ∧
            a.fold.event.dstIp = dst

section Table

variable {run : ServedRun 𝕜 cfg tenantId}
variable {flows : List (FlowRow 𝕜)}
variable (hEdges : SameEdges run flows)
include hEdges

theorem mem_peersAt_run
    {ts : ℤ}
    {host peer : String} :
    peer ∈ peersAt flows ts host ↔
      ∃ b ∈ run.batches, b.windowTs = ts ∧
        peer ∈ destinationsIn b.arrivals host := by
  simp only [mem_destinationsIn]
  rw [← hEdges host peer ts, mem_peersAt]
  constructor
  · rintro ⟨row, hRow, hKey, hDst⟩
    rcases Prod.mk.inj hKey with ⟨hSrc, hTs⟩
    exact ⟨row, hRow, hSrc, hDst, hTs⟩
  · rintro ⟨row, hRow, hSrc, hDst, hTs⟩
    exact ⟨row, hRow, Prod.ext hSrc hTs, hDst⟩

theorem mem_seenBefore_run
    {ts : ℤ}
    {host peer : String} :
    peer ∈ seenBefore flows ts host ↔
      ∃ b ∈ run.batches, b.windowTs < ts ∧
        peer ∈ destinationsIn b.arrivals host := by
  simp only [mem_destinationsIn]
  rw [mem_seenBefore]
  constructor
  · rintro ⟨row, hRow, hSrc, hLess, hDst⟩
    rcases (hEdges host peer row.windowTs).mp
      ⟨row, hRow, hSrc, hDst, rfl⟩ with ⟨b, hB, hTs, hA⟩
    exact ⟨b, hB, by omega, hA⟩
  · rintro ⟨b, hB, hLess, hA⟩
    rcases (hEdges host peer b.windowTs).mpr
      ⟨b, hB, rfl, hA⟩ with ⟨row, hRow, hSrc, hDst, hTs⟩
    exact ⟨row, hRow, hSrc, by omega, hDst⟩

theorem aligned_of_sameEdges :
    ∀ row ∈ flows, cfg.windowDelta ∣ row.windowTs := by
  intro row hRow
  rcases (hEdges row.srcIp row.dstIp row.windowTs).mp
    ⟨row, hRow, rfl, rfl, rfl⟩ with ⟨b, hB, hTs, _⟩
  rw [← hTs]
  exact run.aligned b hB

end Table

------------------------------------------------------------
-- Agreement
------------------------------------------------------------

/-
  The last window with flows before a window, if there is any,
  is the one just before it.
-/
def NoneSkipped
    (cfg : FeaturesConfig)
    (flows : List (FlowRow 𝕜))
    (ts : ℤ) : Prop :=
  ∀ before ∈ lastBefore (flows.map FlowRow.windowTs) ts,
    before = ts - cfg.windowDelta

/-
  A published vector and the features of training: the new
  peers are the same, and, where no window was skipped, the
  two shares are of the same peers, those that reached the
  configured fan-out in the window before and those above the
  median of that window.
-/
structure VectorAgrees
    (cfg : FeaturesConfig)
    (flows : List (FlowRow 𝕜))
    (vector : StateVector 𝕜)
    (features : FeatureVector 𝕜) : Prop where
  newPeers :
    features (.graph .newPeerCount) =
      vector.features (.graph .newPeerCount)
  served :
    NoneSkipped cfg flows vector.windowTs →
      vector.features (.graph .neighbourRiskFraction) =
        shareOf (peersAt flows vector.windowTs vector.hostId)
          (fun peer =>
            cfg.elevatedFanout ≤
              fanOut flows (vector.windowTs - cfg.windowDelta)
                peer)
  trained :
    NoneSkipped cfg flows vector.windowTs →
      features (.graph .neighbourRiskFraction) =
        shareOf (peersAt flows vector.windowTs vector.hostId)
          (FannedOut flows
            (vector.windowTs - cfg.windowDelta))
  same :
    NoneSkipped cfg flows vector.windowTs →
      (features (.graph .neighbourRiskFraction) =
          vector.features (.graph .neighbourRiskFraction) ↔
        ((peersAt flows vector.windowTs
            vector.hostId).filter
            (FannedOut flows
              (vector.windowTs - cfg.windowDelta))).card =
          ((peersAt flows vector.windowTs
            vector.hostId).filter
            (fun peer =>
              cfg.elevatedFanout ≤
                fanOut flows
                  (vector.windowTs - cfg.windowDelta)
                  peer)).card)

/- A vector that the close of a window publishes for it. -/
def PublishedAt
    (run : ServedRun 𝕜 cfg tenantId)
    (done : List (Batch 𝕜))
    (b : Batch 𝕜)
    (vector : StateVector 𝕜) : Prop :=
  let w := b.atClose (serveAll cfg tenantId run.start done)
  .published vector ∈
      putOut w (w.closed cfg tenantId b.windowTs) ∧
    vector.windowTs = b.windowTs

/-
  In every window of the run, every host with an event has a
  vector, and every vector of the window agrees with the row
  that training computes for its host.
-/
def HistoryAgrees
    (sampling : Sampling)
    (degreeCap : ℕ)
    (run : ServedRun 𝕜 cfg tenantId)
    (flows : List (FlowRow 𝕜)) : Prop :=
  ∀ done b rest, Splits run done b rest →
    (∀ a ∈ b.arrivals, ∃ vector,
      PublishedAt run done b vector ∧
        vector.hostId = a.fold.event.srcIp) ∧
    ∀ vector, PublishedAt run done b vector →
      ∃ features,
        lookupKey (observedTable sampling degreeCap flows [])
            (vector.hostId, b.windowTs) =
          some features ∧
        VectorAgrees cfg flows vector features

/- Both features are the same in every window of the run. -/
def HistoryEqual
    (sampling : Sampling)
    (degreeCap : ℕ)
    (run : ServedRun 𝕜 cfg tenantId)
    (flows : List (FlowRow 𝕜)) : Prop :=
  ∀ done b rest, Splits run done b rest →
    ∀ vector, PublishedAt run done b vector →
      ∀ features,
        lookupKey (observedTable sampling degreeCap flows [])
            (vector.hostId, b.windowTs) =
          some features →
        features (.graph .newPeerCount) =
            vector.features (.graph .newPeerCount) ∧
          features (.graph .neighbourRiskFraction) =
            vector.features (.graph .neighbourRiskFraction)

theorem shareOf_eq_iff
    [CharZero 𝕜]
    (peers : Finset String)
    (holds holds' : String → Prop)
    [DecidablePred holds]
    [DecidablePred holds'] :
    (shareOf peers holds : 𝕜) = shareOf peers holds' ↔
      (peers.filter holds).card =
        (peers.filter holds').card := by
  unfold shareOf
  by_cases hPeers : peers = ∅
  · simp [hPeers]
  · have hCard : (peers.card : 𝕜) ≠ 0 := by
      exact_mod_cast Finset.card_ne_zero.mpr
        (Finset.nonempty_iff_ne_empty.mpr hPeers)
    rw [if_neg hPeers, if_neg hPeers, div_left_inj' hCard]
    exact Nat.cast_inj

/- With none skipped, the window before is the one meant. -/
theorem fannedOutBefore_of_noneSkipped
    {flows : List (FlowRow 𝕜)}
    {ts : ℤ}
    (hNone : NoneSkipped cfg flows ts)
    (peer : String) :
    FannedOutBefore flows ts peer ↔
      FannedOut flows (ts - cfg.windowDelta) peer := by
  have hPos := cfg.windowDelta_pos
  unfold NoneSkipped at hNone
  unfold FannedOutBefore
  cases hLast :
      lastBefore (flows.map FlowRow.windowTs) ts with
  | none =>
      -- There are no flows before at all.
      have hSilent :
          ∀ row ∈ flows,
            row.windowTs ≠ ts - cfg.windowDelta := by
        intro row hRow hTs
        have hLater :=
          lastBefore_eq_none_iff.mp hLast row.windowTs
            (List.mem_map_of_mem hRow)
        omega
      apply iff_of_false
      · rintro ⟨_, hNever, _⟩
        cases hNever
      · exact not_fannedOut_of_silent hSilent peer
  | some before =>
      have hBefore : before = ts - cfg.windowDelta :=
        hNone before hLast
      rw [← hBefore]
      constructor
      · rintro ⟨_, hSame, hFanned⟩
        cases hSame
        exact hFanned
      · intro hFanned
        exact ⟨before, rfl, hFanned⟩

/- The tracker finds elevated what the flows say. -/
theorem risk_of_flows
    (sampling : Sampling)
    (degreeCap : ℕ)
    {flows : List (FlowRow 𝕜)}
    (hFlows :
      ∀ row ∈ flows, cfg.windowDelta ∣ row.windowTs)
    (host : String)
    (ts : ℤ) :
    ((lookupKey (observedTable sampling degreeCap flows [])
        (host, ts)).getD (fun _ => 0))
          (.graph .neighbourRiskFraction) =
      shareOf (peersAt flows ts host)
        (FannedOutBefore flows ts) := by
  let day : DayInput 𝕜 cfg.windowDelta :=
    { flows := flows
      packets := []
      flowsAligned := hFlows
      packetsAligned := nofun }
  have hSilent : ¬ day.SilentBefore ts := by
    rintro ⟨_, hPacket, _⟩
    cases hPacket
  have hRisk :
      day.featuresAt sampling degreeCap host ts
          (.graph .neighbourRiskFraction) =
        shareOf (peersAt day.flows ts host)
          (fun peer =>
            ¬ day.SilentBefore ts ∧
              FannedOutBefore day.flows ts peer) :=
    risk_featuresAt
  simp only [hSilent, not_false_eq_true, true_and] at hRisk
  exact hRisk

/- The served share, from the two graphs of the close. -/
theorem risk_closeVector
    (w : World 𝕜)
    (host : String)
    (ts : ℤ) :
    (closeVector cfg tenantId ts w host ts).features
        (.graph .neighbourRiskFraction) =
      shareOf
        ((WindowGraph.fromEdges
          (w.edgesOf tenantId ts)).successors host)
        (fun peer =>
          cfg.elevatedFanout ≤
            (WindowGraph.fromEdges
              (w.edgesOf tenantId
                (ts - cfg.windowDelta))).outDegree peer) := by
  unfold closeVector shareOf
  rw [if_pos rfl]
  simp only [hostVector, windowVector, computeFeatures,
    baseFeatures, graphFeatures, Features.safeDiv,
    divOrZero_eq_div]
  split
  · next hNone =>
      rw [hNone]
      simp
  · rfl

/- The served count, from the peers that are read. -/
theorem newPeers_closeVector
    (w : World 𝕜)
    (host : String)
    (ts : ℤ) :
    (closeVector cfg tenantId ts w host ts).features
        (.graph .newPeerCount) =
      (((w.hostView tenantId host ts).fresh : ℕ) : 𝕜) := by
  unfold closeVector
  rw [if_pos rfl]
  rfl

section Window

variable {run : ServedRun 𝕜 cfg tenantId}
variable {flows : List (FlowRow 𝕜)}
variable {done rest : List (Batch 𝕜)}
variable {b : Batch 𝕜}
variable {w : World 𝕜}
variable (hEdges : SameEdges run flows)
variable (hSplit : Splits run done b rest)
include hEdges hSplit

/- The peers of the flows are those of the window. -/
theorem peersAt_eq_destinationsIn
    (host : String) :
    peersAt flows b.windowTs host =
      destinationsIn b.arrivals host := by
  ext peer
  rw [mem_peersAt_run hEdges]
  constructor
  · rintro ⟨b', hB, hTs, hPeer⟩
    rw [hSplit.eq_of_windowTs hB hTs] at hPeer
    exact hPeer
  · intro hPeer
    exact ⟨b, hSplit.mem b Follows.self_mem, rfl, hPeer⟩

variable (hReading : Reading cfg tenantId done b w)
include hReading

/- The worker counts the peers that the flows show first. -/
theorem fresh_eq_card
    {host : String}
    (hHost : host ∈ w.hostsOf tenantId b.windowTs) :
    (w.hostView tenantId host b.windowTs).fresh =
      (peersAt flows b.windowTs host \
        seenBefore flows b.windowTs host).card := by
  unfold HostView.fresh
  congr 1
  ext peer
  rw [Finset.mem_sdiff, Finset.mem_sdiff,
    hReading.peers host hHost, hReading.known host hHost,
    peersAt_eq_destinationsIn hEdges hSplit,
    mem_seenBefore_run hEdges]
  simp only [hSplit.mem_done_iff, and_assoc]

/- The graph that is read has the peers of the flows. -/
theorem successors_eq_peersAt
    (host : String) :
    (WindowGraph.fromEdges
        (w.edgesOf tenantId b.windowTs)).successors host =
      peersAt flows b.windowTs host := by
  ext peer
  rw [WindowGraph.mem_successors_fromEdges, hReading.graph,
    peersAt_eq_destinationsIn hEdges hSplit]

/- The graph before has the fan-out of the window before. -/
theorem outDegree_eq_fanOut
    (host : String) :
    (WindowGraph.fromEdges
        (w.edgesOf tenantId
          (b.windowTs - cfg.windowDelta))).outDegree host =
      fanOut flows (b.windowTs - cfg.windowDelta) host := by
  have hPos := cfg.windowDelta_pos
  unfold WindowGraph.outDegree fanOut
  congr 1
  ext peer
  rw [WindowGraph.mem_successors_fromEdges,
    hReading.previous, mem_peersAt_run hEdges]
  constructor
  · rintro ⟨b', hB, hTs, hPeer⟩
    exact ⟨b', (hSplit.mem_done_iff.mp hB).1, hTs, hPeer⟩
  · rintro ⟨b', hB, hTs, hPeer⟩
    exact
      ⟨b', hSplit.mem_done_iff.mpr ⟨hB, by omega⟩, hTs, hPeer⟩

/- The vector of a listed host agrees with its row. -/
theorem vectorAgrees_closeVector
    [CharZero 𝕜]
    (sampling : Sampling)
    (degreeCap : ℕ)
    {host : String}
    (hHost : host ∈ w.hostsOf tenantId b.windowTs) :
    ∃ features,
      lookupKey (observedTable sampling degreeCap flows [])
          (host, b.windowTs) =
        some features ∧
      VectorAgrees cfg flows
        (closeVector cfg tenantId b.windowTs w host
          b.windowTs)
        features := by
  have hObserved :
      Observed flows [] host b.windowTs := by
    rcases (hReading.hosts host).mp hHost with
      ⟨a, hA, hSrc⟩
    rcases (hEdges host a.fold.event.dstIp b.windowTs).mpr
      ⟨b, hSplit.mem b Follows.self_mem, rfl, a, hA, hSrc,
        rfl⟩ with
      ⟨row, hRow, hRowSrc, _, hRowTs⟩
    exact Or.inl ⟨row, hRow, Prod.ext hRowSrc hRowTs⟩
  have hLookup :=
    lookupKey_observed sampling degreeCap hObserved
  refine ⟨_, hLookup, ?_⟩
  have hHostId :
      (closeVector cfg tenantId b.windowTs w host
        b.windowTs).hostId = host := by
    unfold closeVector
    rw [if_pos rfl]
    rfl
  have hTs :
      (closeVector cfg tenantId b.windowTs w host
        b.windowTs).windowTs = b.windowTs := by
    unfold closeVector
    rw [if_pos rfl]
    rfl
  have hServed :
      (closeVector cfg tenantId b.windowTs w host
          b.windowTs).features
            (.graph .neighbourRiskFraction) =
        shareOf (peersAt flows b.windowTs host)
          (fun peer =>
            cfg.elevatedFanout ≤
              fanOut flows (b.windowTs - cfg.windowDelta)
                peer) := by
    rw [risk_closeVector]
    simp only [
      successors_eq_peersAt hEdges hSplit hReading,
      outDegree_eq_fanOut hEdges hSplit hReading]
  have hTrained :=
    risk_of_flows sampling degreeCap
      (aligned_of_sameEdges hEdges) host b.windowTs
  rw [hLookup, Option.getD_some] at hTrained
  have hShare :
      NoneSkipped cfg flows b.windowTs →
        (shareOf (peersAt flows b.windowTs host)
            (FannedOutBefore flows b.windowTs) : 𝕜) =
          shareOf (peersAt flows b.windowTs host)
            (FannedOut flows
              (b.windowTs - cfg.windowDelta)) := by
    intro hNone
    apply (shareOf_eq_iff _ _ _).mpr
    congr 1
    apply Finset.filter_congr
    exact fun peer _ =>
      fannedOutBefore_of_noneSkipped hNone peer
  refine
    { newPeers := ?_
      served := ?_
      trained := ?_
      same := ?_ }
  · rw [newPeers_closeVector,
      fresh_eq_card hEdges hSplit hReading hHost]
    exact
      graphRow_newPeerCount sampling degreeCap flows _
        b.windowTs host
  · rw [hHostId, hTs]
    exact fun _ => hServed
  · rw [hHostId, hTs]
    exact fun hNone => hTrained.trans (hShare hNone)
  · rw [hHostId, hTs]
    intro hNone
    rw [hServed, hTrained, hShare hNone, shareOf_eq_iff]

end Window

section Kept

variable {run : ServedRun 𝕜 cfg tenantId}
variable {done rest : List (Batch 𝕜)}
variable {b : Batch 𝕜}
variable (hSplit : Splits run done b rest)
variable (hKept : run.Kept)
include hSplit hKept

theorem reading_of_kept :
    Reading cfg tenantId done b
      (b.atClose (serveAll cfg tenantId run.start done)) := by
  rcases hSplit.served hKept with ⟨hServed, hBatch⟩
  exact reading_atClose hServed hSplit.follows hBatch

/- Every host with an event has a vector. -/
theorem published_of_arrival
    {a : Arrival 𝕜}
    (hA : a ∈ b.arrivals) :
    ∃ vector,
      PublishedAt run done b vector ∧
        vector.hostId = a.fold.event.srcIp := by
  have hHost :=
    ((reading_of_kept hSplit hKept).hosts _).mpr ⟨a, hA, rfl⟩
  let vector :=
    closeVector cfg tenantId b.windowTs
      (b.atClose (serveAll cfg tenantId run.start done))
      a.fold.event.srcIp b.windowTs
  have hId : vector.hostId = a.fold.event.srcIp := by
    simp only [vector, closeVector, if_pos]
    rfl
  have hOut : PublishedAt run done b vector :=
    (published_closed cfg tenantId _ b.windowTs vector).mpr
      ⟨by rw [hId]; exact hHost, by rw [hId]⟩
  exact ⟨vector, hOut, hId⟩

/- Every vector of the window agrees with its row. -/
theorem agrees_of_published
    [CharZero 𝕜]
    (sampling : Sampling)
    (degreeCap : ℕ)
    {flows : List (FlowRow 𝕜)}
    (hEdges : SameEdges run flows)
    {vector : StateVector 𝕜}
    (hOut : PublishedAt run done b vector) :
    ∃ features,
      lookupKey (observedTable sampling degreeCap flows [])
          (vector.hostId, b.windowTs) =
        some features ∧
      VectorAgrees cfg flows vector features := by
  rcases (published_closed cfg tenantId _ _ vector).mp hOut
    with ⟨hHost, hVector⟩
  rcases vectorAgrees_closeVector hEdges hSplit
    (reading_of_kept hSplit hKept) sampling degreeCap hHost
    with ⟨features, hLookup, hAgrees⟩
  rw [← hVector] at hAgrees
  exact ⟨features, hLookup, hAgrees⟩

end Kept

/-
  As long as nothing that is read has expired, the features
  with a history agree as far as they are meant to in every
  window of the run.
-/
theorem historyAgrees_of_kept
    [CharZero 𝕜]
    (sampling : Sampling)
    (degreeCap : ℕ)
    {run : ServedRun 𝕜 cfg tenantId}
    (hKept : run.Kept)
    {flows : List (FlowRow 𝕜)}
    (hEdges : SameEdges run flows) :
    HistoryAgrees sampling degreeCap run flows := by
  intro done b rest hSplit
  constructor
  · intro a hA
    exact published_of_arrival hSplit hKept hA
  · intro vector hOut
    exact
      agrees_of_published hSplit hKept sampling degreeCap
        hEdges hOut

------------------------------------------------------------
-- A peer that fans out below the configured bound
------------------------------------------------------------

local instance peerExpLog : ExpLog ℚ :=
  ExpLog.tangent

def peerConfig : FeaturesConfig where
  windowDelta := 30
  windowDelta_pos := by decide

def edgeArrival (srcIp dstIp : String) : Arrival ℚ where
  fold :=
    { event :=
        { tenantId := "t"
          jobId := "j"
          ts := 0
          srcIp := srcIp
          dstIp := dstIp
          dstPort := some 443
          measurements := .flow (fun _ => some 1)
          nonempty := ⟨.duration, nofun⟩ }
      reading := 0 }
  time := 0

/- A peer reaches two hosts, and is then reached itself. -/
def fannedBatch : Batch ℚ where
  windowTs := 0
  arrivals := [edgeArrival "peer" "x", edgeArrival "peer" "y"]
  closeTime := 1

def reachedBatch : Batch ℚ where
  windowTs := 30
  arrivals := [edgeArrival "host" "peer"]
  closeTime := 2

theorem address_fanned :
    ∀ b ∈ [fannedBatch, reachedBatch], ∀ a ∈ b.arrivals,
      Address a.fold.event.srcIp := by
  have hBoth :
      ∀ b ∈ [fannedBatch, reachedBatch], ∀ a ∈ b.arrivals,
        a.fold.event.srcIp ≠ "" ∧
          '>' ∉ a.fold.event.srcIp.toList := by
    decide +kernel
  intro b hB a hA
  exact ⟨(hBoth b hB a hA).1, (hBoth b hB a hA).2⟩

def fannedRun : ServedRun ℚ peerConfig "t" where
  start := World.start 0 []
  untouched :=
    { hosts := fun _ => rfl
      graphs := fun _ => rfl
      windows := fun _ _ => rfl
      peers := fun _ => rfl }
  batches := [fannedBatch, reachedBatch]
  aligned := by decide +kernel
  increasing := by decide +kernel
  tenant := by decide +kernel
  source := address_fanned
  destination := by decide +kernel

def fannedFlows : List (FlowRow ℚ) :=
  [bareFlow "peer" "x" 0, bareFlow "peer" "y" 0,
    bareFlow "host" "peer" 30]

theorem kept_fannedRun : fannedRun.Kept := by
  have hStart : Lasting 10 fannedRun.start :=
    { now := by norm_num [fannedRun, World.start]
      recent := by
        norm_num [fannedRun, World.start, windowTtlS]
      hosts := TtlStore.lasts_empty _
      windows := TtlStore.lasts_empty _
      graphs := TtlStore.lasts_empty _
      peers := TtlStore.lasts_empty _ }
  exact ServedRun.kept_of_brief hStart (by decide +kernel)

theorem sameEdges_fanned :
    SameEdges fannedRun fannedFlows := by
  intro src dst ts
  simp only [fannedRun, fannedFlows, fannedBatch,
    reachedBatch, edgeArrival, bareFlow, List.mem_cons,
    List.not_mem_nil, or_false, or_and_right, exists_or,
    exists_eq_left, and_or_left]
  tauto

/- Both are kept, and the two sides agree. -/
theorem historyAgrees_fannedRun :
    HistoryAgrees sortedListing 200 fannedRun fannedFlows :=
  historyAgrees_of_kept sortedListing 200 kept_fannedRun
    sameEdges_fanned

/-
  Two destinations are above the median of that window and
  below the configured bound of five.
-/
theorem risk_unequal_fannedRun :
    ¬ HistoryEqual sortedListing 200 fannedRun
      fannedFlows := by
  intro hEqual
  have hSplit :
      Splits fannedRun [fannedBatch] reachedBatch [] :=
    ⟨rfl⟩
  rcases published_of_arrival hSplit kept_fannedRun
    List.mem_cons_self with ⟨vector, hOut, hHost⟩
  rcases agrees_of_published hSplit kept_fannedRun
    sortedListing 200 sameEdges_fanned hOut with
    ⟨features, hLookup, hAgrees⟩
  have hRisk :=
    (hEqual _ _ _ hSplit vector hOut features hLookup).2
  have hNone :
      NoneSkipped peerConfig fannedFlows vector.windowTs := by
    rw [hOut.2]
    unfold NoneSkipped
    decide +kernel
  have hCards := (hAgrees.same hNone).mp hRisk
  rw [hHost, hOut.2] at hCards
  revert hCards
  decide +kernel

------------------------------------------------------------
-- A peer that is met again a day later
------------------------------------------------------------

def metBatch : Batch ℚ where
  windowTs := 0
  arrivals := [edgeArrival "host" "peer"]
  closeTime := 1

/- The next window arrives more than a day later. -/
def metAgainBatch : Batch ℚ where
  windowTs := 30
  arrivals :=
    [{ edgeArrival "host" "peer" with time := 90000 }]
  closeTime := 90001

theorem address_met :
    ∀ b ∈ [metBatch, metAgainBatch], ∀ a ∈ b.arrivals,
      Address a.fold.event.srcIp := by
  have hBoth :
      ∀ b ∈ [metBatch, metAgainBatch], ∀ a ∈ b.arrivals,
        a.fold.event.srcIp ≠ "" ∧
          '>' ∉ a.fold.event.srcIp.toList := by
    decide +kernel
  intro b hB a hA
  exact ⟨(hBoth b hB a hA).1, (hBoth b hB a hA).2⟩

def metRun : ServedRun ℚ peerConfig "t" where
  start := World.start 0 []
  untouched :=
    { hosts := fun _ => rfl
      graphs := fun _ => rfl
      windows := fun _ _ => rfl
      peers := fun _ => rfl }
  batches := [metBatch, metAgainBatch]
  aligned := by decide +kernel
  increasing := by decide +kernel
  tenant := by decide +kernel
  source := address_met
  destination := by decide +kernel

def metFlows : List (FlowRow ℚ) :=
  [bareFlow "host" "peer" 0, bareFlow "host" "peer" 30]

theorem sameEdges_met :
    SameEdges metRun metFlows := by
  intro src dst ts
  simp only [metRun, metFlows, metBatch, metAgainBatch,
    edgeArrival, bareFlow, List.mem_cons, List.not_mem_nil,
    or_false, or_and_right, exists_or, exists_eq_left]
  tauto

/- The peers expired, and the worker counts it as new again. -/
theorem newPeers_unequal_metRun :
    ¬ HistoryEqual sortedListing 200 metRun metFlows := by
  intro hEqual
  have hSplit : Splits metRun [metBatch] metAgainBatch [] :=
    ⟨rfl⟩
  let w :=
    metAgainBatch.atClose
      (serveAll peerConfig "t" metRun.start [metBatch])
  have hHost : "host" ∈ w.hostsOf "t" 30 := by
    decide +kernel
  have hFresh : (w.hostView "t" "host" 30).fresh = 1 := by
    decide +kernel
  let vector := closeVector peerConfig "t" 30 w "host" 30
  have hOut :
      PublishedAt metRun [metBatch] metAgainBatch vector :=
    (published_closed peerConfig "t" w 30 vector).mpr
      ⟨hHost, rfl⟩
  have hServed :
      vector.features (.graph .newPeerCount) = 1 := by
    rw [newPeers_closeVector, hFresh]
    norm_num
  have hObserved : Observed metFlows [] "host" 30 :=
    Or.inl ⟨bareFlow "host" "peer" 30, by simp [metFlows], rfl⟩
  have hSeen :
      (peersAt metFlows 30 "host" \
        seenBefore metFlows 30 "host").card = 0 := by
    decide +kernel
  have hTrained :=
    graphRow_newPeerCount sortedListing 200 metFlows
      (windowOrder (observedKeys metFlows [])) 30 "host"
  have hSame :=
    (hEqual _ _ _ hSplit vector hOut _
      (lookupKey_observed sortedListing 200 hObserved)).1
  rw [hSeen] at hTrained
  rw [hServed] at hSame
  have hBoth : ((0 : ℕ) : ℚ) = 1 := hTrained.symm.trans hSame
  norm_num at hBoth

/-
  Neither bound can be left out: the two sides count other
  peers as elevated in a run that is kept, and other peers as
  new in one that is not.
-/
theorem not_historyEqual_fannedAndMet :
    (fannedRun.Kept ∧ SameEdges fannedRun fannedFlows ∧
        ¬ HistoryEqual sortedListing 200 fannedRun
          fannedFlows) ∧
      SameEdges metRun metFlows ∧
        ¬ HistoryEqual sortedListing 200 metRun metFlows :=
  ⟨⟨kept_fannedRun, sameEdges_fanned, risk_unequal_fannedRun⟩,
    sameEdges_met, newPeers_unequal_metRun⟩

end Parity

end Nidra
