import Nidra.Training.PeerPass
import Nidra.Training.SampledGraphs

/-
  This file says when a state row of training depends on what
  comes after its window. Two inputs are compared that have
  the same rows up to a window; the rows that both of them
  produce up to there may differ only in the risk around a
  host, and they do when a window that has packets but no
  flow separates the host's window from the flows before it
  in one of the inputs only.

  Key definitions include:
    * `DayInput`, `DayInput.SameUpTo`
    * `DayInput.SilentBefore`
    * `FannedOutBefore`
    * `DayInput.NoHindsight`

  Main declarations:
    * `observedTable_agree`
    * `risk_of_row`
    * `noHindsight_iff_silence`
-/

namespace Nidra

namespace Training

set_option linter.unusedSectionVars false

variable {𝕜 : Type}

------------------------------------------------------------
-- Inputs
------------------------------------------------------------

/- The rows of a day, in windows of one width. -/
structure DayInput (𝕜 : Type) (windowSeconds : ℤ) where
  flows : List (FlowRow 𝕜)
  packets : List (PacketRow 𝕜)
  flowsAligned :
    ∀ row ∈ flows, windowSeconds ∣ row.windowTs
  packetsAligned :
    ∀ row ∈ packets, windowSeconds ∣ row.windowTs

variable {windowSeconds : ℤ}

/- Two inputs have the same rows up to a window. -/
structure DayInput.SameUpTo
    (lastTs : ℤ)
    (day day' : DayInput 𝕜 windowSeconds) : Prop where
  flows :
    day.flows.filter (fun row => row.windowTs ≤ lastTs) =
      day'.flows.filter (fun row => row.windowTs ≤ lastTs)
  packets :
    day.packets.filter (fun row => row.windowTs ≤ lastTs) =
      day'.packets.filter (fun row => row.windowTs ≤ lastTs)

/-
  Before a window, a flow source sent packets in a window
  that comes after all flows before that window.
-/
def DayInput.SilentBefore
    (day : DayInput 𝕜 windowSeconds)
    (windowTs : ℤ) : Prop :=
  ∃ packet ∈ day.packets,
    (∃ row ∈ day.flows, row.srcIp = packet.ipSrc) ∧
      packet.windowTs < windowTs ∧
        (∃ row ∈ day.flows, row.windowTs < windowTs) ∧
          ∀ row ∈ day.flows, row.windowTs < windowTs →
            row.windowTs < packet.windowTs

instance
    (day : DayInput 𝕜 windowSeconds)
    (windowTs : ℤ) :
    Decidable (day.SilentBefore windowTs) :=
  inferInstanceAs (Decidable (∃ _ ∈ _, _))

section Field

variable [Field 𝕜] [LinearOrder 𝕜]

/- A host fanned out in the last window that had flows. -/
def FannedOutBefore
    (flows : List (FlowRow 𝕜))
    (windowTs : ℤ)
    (host : String) : Prop :=
  ∃ before ∈ lastBefore (flows.map FlowRow.windowTs) windowTs,
    FannedOut flows before host

instance
    (flows : List (FlowRow 𝕜))
    (windowTs : ℤ)
    (host : String) :
    Decidable (FannedOutBefore flows windowTs host) :=
  inferInstanceAs (Decidable (∃ _ ∈ _, _))

end Field

------------------------------------------------------------
-- What both inputs have
------------------------------------------------------------

section UpTo

variable {α : Type}
variable {windowOf : α → ℤ}
variable {lastTs : ℤ}
variable {rows rows' : List α}
variable
  (hRows :
    rows.filter (fun row => windowOf row ≤ lastTs) =
      rows'.filter (fun row => windowOf row ≤ lastTs))
include hRows

/- A selection that stops at the window is the same. -/
theorem filter_of_upTo
    {keep : α → Bool}
    (hKeep : ∀ row, keep row = true → windowOf row ≤ lastTs) :
    rows.filter keep = rows'.filter keep := by
  have hBoth :
      ∀ all : List α,
        all.filter keep =
          (all.filter
            (fun row => windowOf row ≤ lastTs)).filter keep := by
    intro all
    rw [List.filter_filter]
    apply List.filter_congr
    intro row _
    cases hRow : keep row with
    | false => rfl
    | true => simp [hKeep row hRow]
  rw [hBoth rows, hRows, ← hBoth]

theorem mem_of_upTo
    {row : α}
    (hRow : row ∈ rows)
    (hTs : windowOf row ≤ lastTs) :
    row ∈ rows' := by
  have hMem :
      row ∈ rows.filter
        (fun other => windowOf other ≤ lastTs) :=
    List.mem_filter.mpr ⟨hRow, by simpa using hTs⟩
  rw [hRows] at hMem
  exact (List.mem_filter.mp hMem).1

end UpTo

namespace DayInput.SameUpTo

variable {lastTs : ℤ}
variable {day day' : DayInput 𝕜 windowSeconds}

theorem symm
    (hSame : SameUpTo lastTs day day') :
    SameUpTo lastTs day' day :=
  ⟨hSame.flows.symm, hSame.packets.symm⟩

theorem filter_flows
    (hSame : SameUpTo lastTs day day')
    {keep : FlowRow 𝕜 → Bool}
    (hKeep : ∀ row, keep row = true → row.windowTs ≤ lastTs) :
    day.flows.filter keep = day'.flows.filter keep :=
  filter_of_upTo hSame.flows hKeep

theorem filter_packets
    (hSame : SameUpTo lastTs day day')
    {keep : PacketRow 𝕜 → Bool}
    (hKeep : ∀ row, keep row = true → row.windowTs ≤ lastTs) :
    day.packets.filter keep = day'.packets.filter keep :=
  filter_of_upTo hSame.packets hKeep

theorem mem_flows
    (hSame : SameUpTo lastTs day day')
    {row : FlowRow 𝕜}
    (hRow : row ∈ day.flows)
    (hTs : row.windowTs ≤ lastTs) :
    row ∈ day'.flows :=
  mem_of_upTo hSame.flows hRow hTs

theorem mem_packets
    (hSame : SameUpTo lastTs day day')
    {row : PacketRow 𝕜}
    (hRow : row ∈ day.packets)
    (hTs : row.windowTs ≤ lastTs) :
    row ∈ day'.packets :=
  mem_of_upTo hSame.packets hRow hTs

section Field

variable [Field 𝕜] [LinearOrder 𝕜]
variable (hSame : SameUpTo lastTs day day')
variable {windowTs : ℤ}
variable (hTs : windowTs ≤ lastTs)
include hSame hTs

theorem edgesAt_eq :
    edgesAt day.flows windowTs = edgesAt day'.flows windowTs := by
  unfold edgesAt
  rw [hSame.filter_flows]
  intro row hRow
  have hWindow : row.windowTs = windowTs := by
    simpa using hRow
  omega

theorem peersAt_eq
    (host : String) :
    peersAt day.flows windowTs host =
      peersAt day'.flows windowTs host := by
  unfold peersAt
  rw [hSame.filter_flows]
  intro row hRow
  have hKey : row.key = (host, windowTs) := by
    simpa using hRow
  have hWindow := (Prod.mk.inj hKey).2
  omega

theorem seenBefore_eq
    (host : String) :
    seenBefore day.flows windowTs host =
      seenBefore day'.flows windowTs host := by
  unfold seenBefore
  rw [hSame.filter_flows]
  intro row hRow
  have hBefore : row.srcIp = host ∧ row.windowTs < windowTs := by
    simpa using hRow
  omega

theorem fannedOut_iff
    (host : String) :
    FannedOut day.flows windowTs host ↔
      FannedOut day'.flows windowTs host := by
  have hEnds :
      endsAt day.flows windowTs = endsAt day'.flows windowTs := by
    unfold endsAt
    rw [hSame.filter_flows]
    intro row hRow
    have hWindow : row.windowTs = windowTs := by
      simpa using hRow
    omega
  have hFan :
      ∀ other, fanOut day.flows windowTs other =
        fanOut day'.flows windowTs other := by
    intro other
    unfold fanOut
    rw [hSame.peersAt_eq hTs]
  unfold FannedOut medianFanOut
  simp only [hEnds, hFan]

theorem fannedOutBefore_iff
    (host : String) :
    FannedOutBefore day.flows windowTs host ↔
      FannedOutBefore day'.flows windowTs host := by
  have hLast :
      lastBefore (day.flows.map FlowRow.windowTs) windowTs =
        lastBefore (day'.flows.map FlowRow.windowTs)
          windowTs := by
    unfold lastBefore
    rw [List.filter_map, List.filter_map,
      hSame.filter_flows]
    intro row hRow
    have hBefore : row.windowTs < windowTs := by
      simpa using hRow
    omega
  unfold FannedOutBefore
  rw [hLast]
  constructor
  · rintro ⟨before, hBefore, hFanned⟩
    have hMem := List.max?_mem (Option.mem_def.mp hBefore)
    have hLess : before < windowTs := by
      simpa using (List.mem_filter.mp hMem).2
    exact
      ⟨before, hBefore,
        (hSame.fannedOut_iff (by omega) host).mp hFanned⟩
  · rintro ⟨before, hBefore, hFanned⟩
    have hMem := List.max?_mem (Option.mem_def.mp hBefore)
    have hLess : before < windowTs := by
      simpa using (List.mem_filter.mp hMem).2
    exact
      ⟨before, hBefore,
        (hSame.fannedOut_iff (by omega) host).mpr hFanned⟩

end Field

end DayInput.SameUpTo

------------------------------------------------------------
-- Observed windows of both inputs
------------------------------------------------------------

/- Two feature vectors that may differ in one feature. -/
def AgreeOffRisk
    (features features' : FeatureVector 𝕜) : Prop :=
  ∀ name, name ≠ .graph .neighbourRiskFraction →
    features name = features' name

section Rows

variable [Field 𝕜] [LinearOrder 𝕜]

theorem eq_of_agreeOffRisk
    {features features' : FeatureVector 𝕜}
    (hAgree : AgreeOffRisk features features')
    (hRisk :
      features (.graph .neighbourRiskFraction) =
        features' (.graph .neighbourRiskFraction)) :
    features = features' := by
  funext name
  by_cases hName : name = .graph .neighbourRiskFraction
  · rw [hName]
    exact hRisk
  · exact hAgree name hName

/- The risk around a host feeds none of the dynamics. -/
theorem source_ne_risk
    (source : DynamicSource) :
    source.feature ≠ .graph .neighbourRiskFraction := by
  cases source <;> decide

theorem withDynamicsAt_risk
    (value : ℕ → FeatureVector 𝕜)
    (i : ℕ) :
    withDynamicsAt value i (.graph .neighbourRiskFraction) =
      value i (.graph .neighbourRiskFraction) :=
  rfl

/- The dynamics of a window look at no later window. -/
theorem withDynamicsAt_agree
    {value value' : ℕ → FeatureVector 𝕜}
    {i : ℕ}
    (hAgree : ∀ j ≤ i, AgreeOffRisk (value j) (value' j)) :
    AgreeOffRisk (withDynamicsAt value i)
      (withDynamicsAt value' i) := by
  have hSource :
      ∀ j ≤ i, ∀ source : DynamicSource,
        value j source.feature = value' j source.feature :=
    fun j hJ source =>
      hAgree j hJ _ (source_ne_risk source)
  intro name hName
  cases name with
  | delta source =>
      match i with
      | 0 => rfl
      | i + 1 =>
          change
            value (i + 1) source.feature -
                value i source.feature =
              value' (i + 1) source.feature -
                value' i source.feature
          rw [hSource (i + 1) (by omega),
            hSource i (by omega)]
  | slope3 slope =>
      match i with
      | 0 => rfl
      | 1 => rfl
      | i + 2 =>
          change
            olsSlope3 (value i slope.source.feature)
                (value (i + 1) slope.source.feature)
                (value (i + 2) slope.source.feature) =
              olsSlope3 (value' i slope.source.feature)
                (value' (i + 1) slope.source.feature)
                (value' (i + 2) slope.source.feature)
          rw [hSource i (by omega), hSource (i + 1) (by omega),
            hSource (i + 2) (by omega)]
  | flow name => exact hAgree i (le_refl i) _ hName
  | packet name => exact hAgree i (le_refl i) _ hName
  | graph name => exact hAgree i (le_refl i) _ hName
  | isActive => exact hAgree i (le_refl i) _ hName

variable {flows : List (FlowRow 𝕜)}
variable {packets : List (PacketRow 𝕜)}
variable {host : String}
variable {ts : ℤ}

/- A host that is observed is a source of the day's flows. -/
theorem source_of_observed
    (hObserved : Observed flows packets host ts) :
    (∃ row ∈ flows, row.srcIp = host) ∧
      ∃ row ∈ flows, ts ≤ row.windowTs := by
  rcases hObserved with ⟨row, hRow, hKey⟩ |
    ⟨_, hSource, _, _, last, hLast, _, hTs⟩
  · rcases Prod.mk.inj hKey with ⟨hHost, hWindow⟩
    exact ⟨⟨row, hRow, hHost⟩, row, hRow, hWindow.ge⟩
  · exact ⟨hSource, last, hLast, hTs⟩

theorem observed_of_peer
    {peer : String}
    (hPeer : peer ∈ peersAt flows ts host) :
    Observed flows packets host ts := by
  rcases mem_peersAt.mp hPeer with ⟨row, hRow, hKey, _⟩
  exact Or.inl ⟨row, hRow, hKey⟩

variable {lastTs : ℤ}
variable {day day' : DayInput 𝕜 windowSeconds}

/-
  A window that one input observes is observed by the other,
  when the host and the window are within the other's day.
-/
theorem observed_of_sameUpTo
    (hSame : DayInput.SameUpTo lastTs day day')
    (hTs : ts ≤ lastTs)
    (hSource : ∃ row ∈ day'.flows, row.srcIp = host)
    (hEnd : ∃ row ∈ day'.flows, ts ≤ row.windowTs)
    (hObserved : Observed day.flows day.packets host ts) :
    Observed day'.flows day'.packets host ts := by
  rcases hObserved with ⟨row, hRow, hKey⟩ |
    ⟨⟨packet, hPacket, hKey⟩, _, first, hFirst, _, _, hLe, _⟩
  · have hWindow := (Prod.mk.inj hKey).2
    exact
      Or.inl
        ⟨row, hSame.mem_flows hRow (by omega), hKey⟩
  · have hWindow := (Prod.mk.inj hKey).2
    rcases hEnd with ⟨last, hLast, hGe⟩
    exact
      Or.inr
        ⟨⟨packet, hSame.mem_packets hPacket (by omega), hKey⟩,
          hSource, first, hSame.mem_flows hFirst (by omega),
          last, hLast, hLe, hGe⟩

end Rows

------------------------------------------------------------
-- Features of both inputs
------------------------------------------------------------

section Features

variable [Field 𝕜] [LinearOrder 𝕜] [FloorRing 𝕜]
variable [ExpLog 𝕜]
variable {sampling sampling' : Sampling}
variable {degreeCap : ℕ}
variable {lastTs : ℤ}
variable {day day' : DayInput 𝕜 windowSeconds}
variable {host : String}
variable {ts : ℤ}

/- The features of an observed window before its dynamics. -/
def DayInput.featuresAt
    (sampling : Sampling)
    (degreeCap : ℕ)
    (day : DayInput 𝕜 windowSeconds)
    (host : String)
    (ts : ℤ) : FeatureVector 𝕜 :=
  (lookupKey
    (observedTable sampling degreeCap day.flows day.packets)
    (host, ts)).getD (fun _ => 0)

theorem fuseRow_agree
    (hSame : DayInput.SameUpTo lastTs day day')
    (hTs : ts ≤ lastTs)
    (host : String) :
    fuseRow (aggregateFlows day.flows)
        (aggregatePackets day.packets) (host, ts) =
      fuseRow (aggregateFlows day'.flows)
        (aggregatePackets day'.packets) (host, ts) := by
  have hFlows :
      lookupKey (aggregateFlows day.flows) (host, ts) =
        lookupKey (aggregateFlows day'.flows) (host, ts) := by
    unfold aggregateFlows
    rw [lookupKey_groups, lookupKey_groups,
      hSame.filter_flows]
    intro row hRow
    have hKey : row.key = (host, ts) := by simpa using hRow
    have hWindow := (Prod.mk.inj hKey).2
    omega
  have hPackets :
      lookupKey (aggregatePackets day.packets) (host, ts) =
        lookupKey (aggregatePackets day'.packets)
          (host, ts) := by
    have hGroups :=
      lookupKey_groups PacketRow.key
        (fun group (name : PacketFeature) =>
          (packetAggregate (𝕜 := 𝕜) group name).getD 0)
    beta_reduce at hGroups
    unfold aggregatePackets
    rw [hGroups, hGroups, hSame.filter_packets]
    intro row hRow
    have hKey : row.key = (host, ts) := by simpa using hRow
    have hWindow := (Prod.mk.inj hKey).2
    omega
  unfold fuseRow
  rw [hFlows, hPackets]

/- The rows that both inputs observe have the same features. -/
theorem observedTable_agree
    (hSame : DayInput.SameUpTo lastTs day day')
    (hLists : sampling.Lists)
    (hLists' : sampling'.Lists)
    (hCap : BelowCap degreeCap lastTs day.flows)
    (hTs : ts ≤ lastTs)
    (hObserved :
      Observed day.flows day.packets host ts ↔
        Observed day'.flows day'.packets host ts) :
    AgreeOffRisk (day.featuresAt sampling degreeCap host ts)
      (day'.featuresAt sampling' degreeCap host ts) := by
  unfold DayInput.featuresAt
  by_cases hHere : Observed day.flows day.packets host ts
  · have hThere := hObserved.mp hHere
    rw [lookupKey_observed sampling degreeCap hHere,
      lookupKey_observed sampling' degreeCap hThere,
      fuseRow_agree hSame hTs host]
    have hGraph :
        (graphAt sampling degreeCap day.flows ts :
            WindowGraphResult 𝕜) =
          graphAt sampling' degreeCap day'.flows ts := by
      unfold graphAt
      rw [← hSame.edgesAt_eq hTs]
      exact
        computeWindowGraph_lists hLists hLists' (hCap ts hTs)
    intro name hName
    cases name with
    | graph name =>
        cases name with
        | neighbourRiskFraction => exact absurd rfl hName
        | newPeerCount =>
            change
              graphRow (graphAt sampling degreeCap day.flows ts)
                  (trackerAt sampling degreeCap day.flows _ ts)
                  host .newPeerCount =
                graphRow
                  (graphAt sampling' degreeCap day'.flows ts)
                  (trackerAt sampling' degreeCap day'.flows _ ts)
                  host .newPeerCount
            rw [graphRow_newPeerCount, graphRow_newPeerCount,
              hSame.peersAt_eq hTs, hSame.seenBefore_eq hTs]
        | _ =>
            simp only [Option.getD_some, observedFeatures,
              graphRow, hGraph]
    | _ => rfl
  · have hNone :
        lookupKey
            (observedTable sampling degreeCap day.flows
              day.packets) (host, ts) = none := by
      rw [← Option.not_isSome_iff_eq_none,
        lookupKey_observedTable]
      exact hHere
    have hNone' :
        lookupKey
            (observedTable sampling' degreeCap day'.flows
              day'.packets) (host, ts) = none := by
      rw [← Option.not_isSome_iff_eq_none,
        lookupKey_observedTable]
      exact fun hThere => hHere (hObserved.mpr hThere)
    rw [hNone, hNone']
    intro _ _
    rfl

end Features

------------------------------------------------------------
-- The risk around a host
------------------------------------------------------------

section Risk

variable [Field 𝕜] [LinearOrder 𝕜] [FloorRing 𝕜]
variable [ExpLog 𝕜]
variable {sampling sampling' : Sampling}
variable {degreeCap : ℕ}
variable {lastTs : ℤ}
variable {day day' : DayInput 𝕜 windowSeconds}
variable {host : String}
variable {ts : ℤ}

/- A host outside a window did not fan out in it. -/
theorem not_fannedOut_of_silent
    {flows : List (FlowRow 𝕜)}
    {before : ℤ}
    (hSilent : ∀ row ∈ flows, row.windowTs ≠ before)
    (peer : String) :
    ¬ FannedOut flows before peer := by
  have hRows :
      flows.filter
          (fun row => decide (row.windowTs = before)) = [] := by
    apply List.filter_eq_nil_iff.mpr
    intro row hRow
    simpa using hSilent row hRow
  have hEnds : endsAt flows before = [] := by
    unfold endsAt
    rw [hRows]
    rfl
  have hFan : fanOut flows before peer = 0 := by
    apply fanOut_eq_zero
    rw [hEnds]
    exact List.not_mem_nil
  unfold FannedOut medianFanOut
  rw [hEnds, hFan]
  simp [median, ranked]

/- The windows of a day are those with an observed host. -/
theorem mem_windowOrder_observed
    {w : ℤ} :
    w ∈ windowOrder (observedKeys day.flows day.packets) ↔
      ∃ h, Observed day.flows day.packets h w := by
  rw [mem_windowOrder]
  constructor
  · rintro ⟨⟨h, _⟩, hKey, rfl⟩
    exact ⟨h, mem_fuse_keys.mp hKey⟩
  · rintro ⟨h, hObserved⟩
    exact ⟨(h, w), mem_fuse_keys.mpr hObserved, rfl⟩

theorem flow_mem_windowOrder
    {row : FlowRow 𝕜}
    (hRow : row ∈ day.flows) :
    row.windowTs ∈
      windowOrder (observedKeys day.flows day.packets) :=
  mem_windowOrder_observed.mpr
    ⟨row.srcIp, Or.inl ⟨row, hRow, rfl⟩⟩

section Last

variable {before : ℤ}
variable
  (hLast :
    lastBefore
        (windowOrder (observedKeys day.flows day.packets))
        ts =
      some before)
include hLast

/- The last window has a flow: it is the last one with any. -/
theorem lastFlow_of_flow
    {row : FlowRow 𝕜}
    (hRow : row ∈ day.flows)
    (hRowTs : row.windowTs = before) :
    lastBefore (day.flows.map FlowRow.windowTs) ts =
      some before := by
  rcases lastBefore_eq_some_iff.mp hLast with
    ⟨⟨_, hLess⟩, hUpTo⟩
  refine
    lastBefore_eq_some_iff.mpr
      ⟨⟨List.mem_map.mpr ⟨row, hRow, hRowTs⟩, hLess⟩, ?_⟩
  intro w hW
  rcases List.mem_map.mp hW with ⟨flow, hFlow, rfl⟩
  exact hUpTo _ (flow_mem_windowOrder hFlow)

/- Then no window of packets alone lies in between. -/
theorem not_silentBefore_of_flow
    {row now : FlowRow 𝕜}
    (hRow : row ∈ day.flows)
    (hRowTs : row.windowTs = before)
    (hNow : now ∈ day.flows)
    (hNowTs : now.windowTs = ts) :
    ¬ day.SilentBefore ts := by
  rcases lastBefore_eq_some_iff.mp hLast with
    ⟨⟨_, hLess⟩, hUpTo⟩
  rintro ⟨packet, hPacket, hSource, hPacketTs, _, hAfter⟩
  have hGap := hAfter row hRow (by omega)
  have hObserved :
      Observed day.flows day.packets packet.ipSrc
        packet.windowTs :=
    Or.inr
      ⟨⟨packet, hPacket, rfl⟩, hSource, row, hRow, now, hNow,
        by omega, by omega⟩
  have hLe :=
    hUpTo packet.windowTs
      (mem_windowOrder_observed.mpr ⟨_, hObserved⟩) hPacketTs
  omega

/- Without a flow it is such a window of packets alone. -/
theorem silentBefore_of_noFlow
    (hNone : ∀ row ∈ day.flows, row.windowTs ≠ before) :
    day.SilentBefore ts := by
  rcases lastBefore_eq_some_iff.mp hLast with
    ⟨⟨hInOrder, hLess⟩, hUpTo⟩
  rcases mem_windowOrder_observed.mp hInOrder with
    ⟨h, hObserved⟩
  rcases hObserved with ⟨row, hRow, hKey⟩ |
    ⟨⟨packet, hPacket, hKey⟩, ⟨source, hSource, hHost⟩,
      first, hFirst, _, _, hFirstTs, _⟩
  · exact absurd (Prod.mk.inj hKey).2 (hNone row hRow)
  · rcases Prod.mk.inj hKey with ⟨rfl, hPacketTs⟩
    refine
      ⟨packet, hPacket, ⟨source, hSource, hHost⟩, by omega,
        ⟨first, hFirst, by omega⟩, ?_⟩
    intro row hRow hRowTs
    have hLe := hUpTo _ (flow_mem_windowOrder hRow) hRowTs
    have hNe := hNone row hRow
    omega

end Last

/-
  The tracker takes the last window in which any host was
  observed; when it had no flow, nobody fanned out in it.
-/
theorem elevated_iff
    {host peer : String}
    (hPeer : peer ∈ peersAt day.flows ts host)
    (other : String) :
    (trackerAt sampling degreeCap day.flows
        (windowOrder (observedKeys day.flows day.packets))
        ts).elevated other ↔
      ¬ day.SilentBefore ts ∧
        FannedOutBefore day.flows ts other := by
  rcases mem_peersAt.mp hPeer with ⟨now, hNow, hNowKey, _⟩
  have hNowTs := (Prod.mk.inj hNowKey).2
  cases hLast :
      lastBefore
        (windowOrder (observedKeys day.flows day.packets))
        ts with
  | none =>
      have hNoFlow := lastBefore_eq_none_iff.mp hLast
      refine
        iff_of_false
          (not_elevated_first sampling degreeCap day.flows
            hLast other) ?_
      rintro ⟨_, before, hBefore, _⟩
      rcases (lastBefore_eq_some_iff.mp
          (Option.mem_def.mp hBefore)).1 with
        ⟨hWindow, hLess⟩
      rcases List.mem_map.mp hWindow with ⟨row, hRow, rfl⟩
      exact hNoFlow _ (flow_mem_windowOrder hRow) hLess
  | some before =>
      rw [elevated_trackerAt sampling degreeCap day.flows
        hLast]
      by_cases hFlow :
          ∃ row ∈ day.flows, row.windowTs = before
      · rcases hFlow with ⟨row, hRow, hRowTs⟩
        have hNotSilent :=
          not_silentBefore_of_flow hLast hRow hRowTs hNow
            hNowTs
        unfold FannedOutBefore
        rw [lastFlow_of_flow hLast hRow hRowTs]
        constructor
        · intro hFanned
          exact ⟨hNotSilent, before, rfl, hFanned⟩
        · rintro ⟨_, _, hSome, hFanned⟩
          cases hSome
          exact hFanned
      · have hNone :
            ∀ row ∈ day.flows, row.windowTs ≠ before :=
          fun row hRow hEq => hFlow ⟨row, hRow, hEq⟩
        have hSilent := silentBefore_of_noFlow hLast hNone
        constructor
        · intro hFanned
          exact
            absurd hFanned (not_fannedOut_of_silent hNone other)
        · rintro ⟨hNot, _⟩
          exact absurd hSilent hNot

/- The risk around a host, from the rows of the day. -/
theorem risk_featuresAt :
    day.featuresAt sampling degreeCap host ts
        (.graph .neighbourRiskFraction) =
      shareOf (peersAt day.flows ts host)
        (fun peer =>
          ¬ day.SilentBefore ts ∧
            FannedOutBefore day.flows ts peer) := by
  unfold DayInput.featuresAt
  by_cases hPeers : peersAt day.flows ts host = ∅
  · unfold shareOf
    rw [if_pos hPeers]
    by_cases hHere : Observed day.flows day.packets host ts
    · rw [lookupKey_observed sampling degreeCap hHere]
      change
        graphRow (graphAt sampling degreeCap day.flows ts)
            (trackerAt sampling degreeCap day.flows _ ts)
            host .neighbourRiskFraction = 0
      rw [graphRow_neighbourRiskFraction, shareOf,
        if_pos hPeers]
    · rw [← lookupKey_observedTable sampling degreeCap,
        Option.not_isSome_iff_eq_none] at hHere
      rw [hHere]
      rfl
  · rcases Finset.nonempty_iff_ne_empty.mpr hPeers with
      ⟨peer, hPeer⟩
    rw [lookupKey_observed sampling degreeCap
      (observed_of_peer hPeer)]
    change
      graphRow (graphAt sampling degreeCap day.flows ts)
          (trackerAt sampling degreeCap day.flows _ ts)
          host .neighbourRiskFraction = _
    rw [graphRow_neighbourRiskFraction]
    unfold shareOf
    rw [if_neg hPeers, if_neg hPeers]
    congr 3
    apply Finset.filter_congr
    intro other _
    exact elevated_iff hPeer other

end Risk

------------------------------------------------------------
-- State rows
------------------------------------------------------------

section StateRows

variable [Field 𝕜] [LinearOrder 𝕜] [FloorRing 𝕜]
variable [ExpLog 𝕜]
variable {sampling sampling' : Sampling}
variable {degreeCap : ℕ}
variable {lastTs : ℤ}
variable {day day' : DayInput 𝕜 windowSeconds}
variable {host : String}
variable {ts : ℤ}
variable {features features' : FeatureVector 𝕜}

/- The state rows of an input. -/
def DayInput.stateRows
    (sampling : Sampling)
    (degreeCap : ℕ)
    (day : DayInput 𝕜 windowSeconds) :
    List (HostWindow × FeatureVector 𝕜) :=
  buildStateRows sampling windowSeconds degreeCap day.flows
    day.packets

/-
  A row lies between the first and the last observed window
  of its host, and its dynamics look back from it.
-/
theorem row_of_stateRows
    (hWindow : 0 < windowSeconds)
    (hRow :
      ((host, ts), features) ∈
        day.stateRows sampling degreeCap) :
    ∃ (lo : ℤ) (i : ℕ),
      Observed day.flows day.packets host lo ∧
        (∀ ts', Observed day.flows day.packets host ts' →
          lo ≤ ts') ∧
        (∃ last, Observed day.flows day.packets host last ∧
          ts ≤ last) ∧
        ts = lo + (i : ℤ) * windowSeconds ∧
        features =
          withDynamicsAt
            (fun (j : ℕ) =>
              day.featuresAt sampling degreeCap host
                (lo + (j : ℤ) * windowSeconds)) i := by
  rcases rowsOf_buildStateRows sampling degreeCap hWindow
      day.flowsAligned day.packetsAligned
      (observed_of_mem sampling windowSeconds degreeCap hRow)
    with ⟨lo, n, hLo, hHi, hRange, hRows⟩
  have hMem := mem_rowsOf.mpr hRow
  unfold DayInput.stateRows at hMem
  rw [hRows] at hMem
  rcases List.mem_map.mp hMem with ⟨i, hI, hEq⟩
  rw [List.mem_range] at hI
  rcases Prod.mk.inj hEq with ⟨hTs, hFeatures⟩
  have hBound : (i : ℤ) * windowSeconds ≤
      (n : ℤ) * windowSeconds :=
    mul_le_mul_of_nonneg_right (by omega) hWindow.le
  exact
    ⟨lo, i, hLo, fun ts' hTs' => (hRange ts' hTs').1,
      ⟨_, hHi, by omega⟩, hTs.symm, hFeatures.symm⟩

/- The risk of a state row, from the rows of its day. -/
theorem risk_of_row
    (hWindow : 0 < windowSeconds)
    (hRow :
      ((host, ts), features) ∈
        day.stateRows sampling degreeCap) :
    features (.graph .neighbourRiskFraction) =
      shareOf (peersAt day.flows ts host)
        (fun peer =>
          ¬ day.SilentBefore ts ∧
            FannedOutBefore day.flows ts peer) := by
  rcases row_of_stateRows hWindow hRow with
    ⟨lo, i, _, _, _, rfl, rfl⟩
  rw [withDynamicsAt_risk]
  exact risk_featuresAt

/- All other features of a row look at no later window. -/
theorem agreeOffRisk_of_rows
    (hWindow : 0 < windowSeconds)
    (hLists : sampling.Lists)
    (hLists' : sampling'.Lists)
    (hSame : DayInput.SameUpTo lastTs day day')
    (hCap : BelowCap degreeCap lastTs day.flows)
    (hTs : ts ≤ lastTs)
    (hRow :
      ((host, ts), features) ∈
        day.stateRows sampling degreeCap)
    (hRow' :
      ((host, ts), features') ∈
        day'.stateRows sampling' degreeCap) :
    AgreeOffRisk features features' := by
  rcases row_of_stateRows hWindow hRow with
    ⟨lo, i, hLo, hFirst, ⟨last, hLast, hLe⟩, hI, rfl⟩
  rcases row_of_stateRows hWindow hRow' with
    ⟨lo', i', hLo', hFirst', ⟨last', hLast', hLe'⟩, hI', rfl⟩
  have hObserved :
      ∀ w ≤ ts,
        Observed day.flows day.packets host w ↔
          Observed day'.flows day'.packets host w := by
    intro w hW
    rcases source_of_observed hLast with
      ⟨hSource, end', hEnd, hEndTs⟩
    rcases source_of_observed hLast' with
      ⟨hSource', end'', hEnd', hEndTs'⟩
    constructor
    · exact
        observed_of_sameUpTo hSame (by omega) hSource'
          ⟨end'', hEnd', by omega⟩
    · exact
        observed_of_sameUpTo hSame.symm (by omega) hSource
          ⟨end', hEnd, by omega⟩
  have hNonneg : 0 ≤ (i : ℤ) * windowSeconds :=
    mul_nonneg (by omega) hWindow.le
  have hNonneg' : 0 ≤ (i' : ℤ) * windowSeconds :=
    mul_nonneg (by omega) hWindow.le
  have hLoEq : lo = lo' := by
    have hLower :=
      hFirst lo' ((hObserved lo' (by omega)).mpr hLo')
    have hUpper :=
      hFirst' lo ((hObserved lo (by omega)).mp hLo)
    omega
  subst hLoEq
  have hIEq : i = i' := by
    have hMul :
        (i : ℤ) * windowSeconds = (i' : ℤ) * windowSeconds := by
      omega
    exact_mod_cast mul_right_cancel₀ hWindow.ne' hMul
  subst hIEq
  apply withDynamicsAt_agree
  intro j hJ
  have hMul :
      (j : ℤ) * windowSeconds ≤ (i : ℤ) * windowSeconds :=
    mul_le_mul_of_nonneg_right (by omega) hWindow.le
  exact
    observedTable_agree hSame hLists hLists' hCap (by omega)
      (hObserved _ (by omega))

/- A host with a flow in a window has a row there. -/
theorem row_of_peer
    (sampling : Sampling)
    (degreeCap : ℕ)
    (hWindow : 0 < windowSeconds)
    {peer : String}
    (hPeer : peer ∈ peersAt day.flows ts host) :
    ∃ features,
      ((host, ts), features) ∈
        day.stateRows sampling degreeCap := by
  have hObserved :
      Observed day.flows day.packets host ts :=
    observed_of_peer hPeer
  apply (mem_buildStateRows sampling degreeCap hWindow
    day.flowsAligned day.packetsAligned).mpr
  exact
    ⟨dvd_of_observed hWindow day.flowsAligned
        day.packetsAligned hObserved,
      ts, ts, hObserved, hObserved, le_refl ts, le_refl ts⟩

section Share

variable (peers : Finset String)
variable (holds : String → Prop)
variable [DecidablePred holds]

theorem shareOf_gap
    (gap : Prop)
    [Decidable gap] :
    (shareOf peers (fun peer => ¬ gap ∧ holds peer) : 𝕜) =
      if gap then 0 else shareOf peers holds := by
  unfold shareOf
  by_cases hGap : gap
  · simp [hGap]
  · simp only [hGap, not_false_eq_true, true_and, if_false]

theorem shareOf_eq_zero_iff
    [CharZero 𝕜] :
    (shareOf peers holds : 𝕜) = 0 ↔
      ¬ ∃ peer ∈ peers, holds peer := by
  unfold shareOf
  split
  · next hPeers =>
      simp [hPeers]
  · next hPeers =>
      rw [div_eq_zero_iff]
      simp [hPeers, Finset.filter_eq_empty_iff]

/- Two gaps give one share when no peer could count. -/
theorem shareOf_gap_iff
    [CharZero 𝕜]
    {gap gap' : Prop}
    [Decidable gap]
    [Decidable gap'] :
    (shareOf peers (fun peer => ¬ gap ∧ holds peer) : 𝕜) =
        shareOf peers (fun peer => ¬ gap' ∧ holds peer) ↔
      ((∃ peer ∈ peers, holds peer) → (gap ↔ gap')) := by
  have hZero :=
    shareOf_eq_zero_iff (𝕜 := 𝕜) peers holds
  rw [shareOf_gap, shareOf_gap]
  by_cases hGap : gap
  · by_cases hGap' : gap'
    · simp [hGap, hGap']
    · simp only [hGap, hGap', if_true, if_false, iff_false,
        not_true_eq_false]
      rw [eq_comm, hZero]
  · by_cases hGap' : gap'
    · simp only [hGap, hGap', if_true, if_false, iff_true]
      rw [hZero]
    · simp [hGap, hGap']

end Share

/-
  The rows that two inputs produce up to a window are the
  same, when the inputs are the same up to there.
-/
def DayInput.NoHindsight
    (sampling sampling' : Sampling)
    (degreeCap : ℕ)
    (lastTs : ℤ)
    (day day' : DayInput 𝕜 windowSeconds) : Prop :=
  ∀ host, ∀ ts ≤ lastTs, ∀ features features',
    ((host, ts), features) ∈
        day.stateRows sampling degreeCap →
      ((host, ts), features') ∈
          day'.stateRows sampling' degreeCap →
        features = features'

/-
  Where a host has a peer that fanned out in the last window
  with flows, a silent window lies between in both inputs or
  in none.
-/
def DayInput.SilenceAgrees
    (lastTs : ℤ)
    (day day' : DayInput 𝕜 windowSeconds) : Prop :=
  ∀ host, ∀ ts ≤ lastTs,
    (∃ peer ∈ peersAt day.flows ts host,
        FannedOutBefore day.flows ts peer) →
      (day.SilentBefore ts ↔ day'.SilentBefore ts)

/-
  The future stays out of the rows exactly when it adds no
  silent window before a host whose peers fanned out.
-/
theorem noHindsight_iff_silence
    [CharZero 𝕜]
    (hWindow : 0 < windowSeconds)
    (hLists : sampling.Lists)
    (hLists' : sampling'.Lists)
    (hSame : DayInput.SameUpTo lastTs day day')
    (hCap : BelowCap degreeCap lastTs day.flows) :
    DayInput.NoHindsight sampling sampling' degreeCap lastTs
        day day' ↔
      DayInput.SilenceAgrees lastTs day day' := by
  have hShares :
      ∀ host, ∀ ts ≤ lastTs,
        (shareOf (peersAt day'.flows ts host)
            (fun peer =>
              ¬ day'.SilentBefore ts ∧
                FannedOutBefore day'.flows ts peer) : 𝕜) =
          shareOf (peersAt day.flows ts host)
            (fun peer =>
              ¬ day'.SilentBefore ts ∧
                FannedOutBefore day.flows ts peer) := by
    intro host ts hTs
    rw [hSame.peersAt_eq hTs]
    unfold shareOf
    simp only [hSame.fannedOutBefore_iff hTs]
  constructor
  · intro hNone host ts hTs hPeer
    rcases hPeer with ⟨peer, hPeer, hFanned⟩
    have hPeer' : peer ∈ peersAt day'.flows ts host :=
      hSame.peersAt_eq hTs host ▸ hPeer
    rcases row_of_peer sampling degreeCap hWindow hPeer with
      ⟨features, hRow⟩
    rcases row_of_peer sampling' degreeCap hWindow hPeer' with
      ⟨features', hRow'⟩
    have hEq := hNone host ts hTs features features' hRow hRow'
    have hRisk := risk_of_row hWindow hRow
    rw [hEq, risk_of_row hWindow hRow', hShares host ts hTs]
      at hRisk
    exact
      (shareOf_gap_iff _ _).mp hRisk.symm
        ⟨peer, hPeer, hFanned⟩
  · intro hSilence host ts hTs features features' hRow hRow'
    apply eq_of_agreeOffRisk
    · exact
        agreeOffRisk_of_rows hWindow hLists hLists' hSame hCap
          hTs hRow hRow'
    · rw [risk_of_row hWindow hRow, risk_of_row hWindow hRow',
        hShares host ts hTs]
      exact
        (shareOf_gap_iff _ _).mpr
          (fun hPeer => hSilence host ts hTs hPeer)

end StateRows

------------------------------------------------------------
-- A source that only later events reveal
------------------------------------------------------------

section Example

def bareFlow
    (srcIp dstIp : String)
    (windowTs : ℤ) : FlowRow ℚ :=
  { srcIp := srcIp
    dstIp := dstIp
    dstPort := 443
    windowTs := windowTs
    label := "BENIGN"
    columns := fun _ => none }

def barePacket
    (ipSrc : String)
    (windowTs : ℤ) : PacketRow ℚ :=
  { ipSrc := ipSrc
    windowTs := windowTs
    ipTtl := none
    tcpWindowSizeValue := none
    payloadLen := none
    isFragment := false
    isRetransmission := false }

/-
  A peer fans out, a window passes in which only another host
  sends packets, and the peer is contacted.
-/
def revealedFlows : List (FlowRow ℚ) :=
  [bareFlow "peer" "x" 0, bareFlow "peer" "y" 0,
    bareFlow "host" "peer" 60]

def unrevealed : DayInput ℚ 30 where
  flows := revealedFlows
  packets := [barePacket "other" 30]
  flowsAligned := by decide
  packetsAligned := by decide

/- Later the other host starts a flow of its own. -/
def revealed : DayInput ℚ 30 where
  flows := revealedFlows ++ [bareFlow "other" "x" 90]
  packets := [barePacket "other" 30]
  flowsAligned := by decide
  packetsAligned := by decide

local instance hindsightExpLog : ExpLog ℚ :=
  ExpLog.tangent

theorem sameUpTo_revealed :
    DayInput.SameUpTo 60 unrevealed revealed :=
  { flows := rfl
    packets := rfl }

/- Before the first window there is nothing to differ. -/
theorem noHindsight_firstWindow :
    DayInput.NoHindsight sortedListing sortedListing 200 30
      unrevealed revealed := by
  have hSame : DayInput.SameUpTo 30 unrevealed revealed :=
    { flows := rfl
      packets := rfl }
  refine
    (noHindsight_iff_silence (by decide) lists_sortedListing
      lists_sortedListing hSame
      (belowCap_of_length (by decide) 30)).mpr ?_
  rintro host ts hTs ⟨peer, hPeer, before, hBefore, _⟩
  rcases mem_peersAt.mp hPeer with ⟨row, hRow, hKey, _⟩
  have hRowTs := (Prod.mk.inj hKey).2
  have hFirst : ts = 0 := by
    have hWindows :
        ∀ flow ∈ unrevealed.flows,
          flow.windowTs = 0 ∨ flow.windowTs = 60 := by decide
    rcases hWindows row hRow with hEq | hEq <;> omega
  subst hFirst
  have hNone :
      lastBefore (unrevealed.flows.map FlowRow.windowTs) 0 =
        none := by
    decide
  rw [hNone] at hBefore
  cases hBefore

/- The later flow takes the risk out of the earlier row. -/
theorem not_noHindsight_revealed :
    DayInput.SameUpTo 60 unrevealed revealed ∧
      BelowCap 200 60 unrevealed.flows ∧
        ¬ DayInput.NoHindsight sortedListing sortedListing
          200 60 unrevealed revealed := by
  refine
    ⟨sameUpTo_revealed, belowCap_of_length (by decide) 60, ?_⟩
  intro hNone
  have hPeer :
      "peer" ∈ peersAt unrevealed.flows 60 "host" := by decide
  have hPeer' :
      "peer" ∈ peersAt revealed.flows 60 "host" := by decide
  rcases row_of_peer sortedListing 200 (by decide) hPeer with
    ⟨features, hRow⟩
  rcases row_of_peer sortedListing 200 (by decide) hPeer' with
    ⟨features', hRow'⟩
  have hEq :=
    hNone "host" 60 (le_refl 60) features features' hRow hRow'
  have hRisk := risk_of_row (by decide) hRow
  rw [hEq, risk_of_row (by decide) hRow'] at hRisk
  revert hRisk
  decide +kernel

end Example

end Training

end Nidra
