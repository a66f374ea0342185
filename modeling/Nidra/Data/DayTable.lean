import Nidra.Data.Labels

/-
  This file defines the labelled table of one day: windows
  assigned to flows and packets, state rows, and labels. No
  flow is lost on the way, and a row has the most severe
  stage of the flows of its host and window.

  Key definitions include:
    * `alignWindow`
    * `RawFlow`, `prepareFlowsForWindowing`
    * `RawPacket`, `preparePacketsForWindowing`
    * `windowizeDay`, `loadAndLabelDay`
    * `DayKept`

  Main declarations:
    * `mem_labelledDay`
    * `dayKept_loadAndLabelDay`
-/

namespace Nidra

namespace Data

set_option linter.unusedSectionVars false

open Training

------------------------------------------------------------
-- Windows of flows and packets
------------------------------------------------------------

/- The beginning of the window that contains a time. -/
def alignWindow
    (epoch : ℚ)
    (windowSeconds : ℤ) : ℤ :=
  ⌊epoch / windowSeconds⌋ * windowSeconds

/- A flow as it is loaded, with the time that was read. -/
structure RawFlow where
  srcIp : Option String
  dstIp : Option String
  dstPort : ℤ
  epoch : Option ℚ
  label : String
  columns : FlowColumn → Option ℚ

/- A packet as it is loaded. -/
structure RawPacket where
  ipSrc : Option String
  frameTimeEpoch : ℚ
  ipTtl : Option ℚ
  tcpWindowSizeValue : Option ℚ
  payloadLen : Option ℚ
  isFragment : Bool
  isRetransmission : Bool

section Inputs

variable (windowSeconds : ℤ)

/- A flow without a time or an address is dropped. -/
def prepareFlow (raw : RawFlow) : Option (FlowRow ℚ) := do
  let epoch ← raw.epoch
  let srcIp ← raw.srcIp
  let dstIp ← raw.dstIp
  return {
    srcIp := srcIp
    dstIp := dstIp
    dstPort := raw.dstPort
    windowTs := alignWindow epoch windowSeconds
    label := raw.label
    columns := raw.columns }

def prepareFlowsForWindowing
    (flows : List RawFlow) : List (FlowRow ℚ) :=
  flows.filterMap (prepareFlow windowSeconds)

/- A packet without a source is in the group of no host. -/
def preparePacket
    (raw : RawPacket) : Option (PacketRow ℚ) := do
  let ipSrc ← raw.ipSrc
  return {
    ipSrc := ipSrc
    windowTs := alignWindow raw.frameTimeEpoch windowSeconds
    ipTtl := raw.ipTtl
    tcpWindowSizeValue := raw.tcpWindowSizeValue
    payloadLen := raw.payloadLen
    isFragment := raw.isFragment
    isRetransmission := raw.isRetransmission }

def preparePacketsForWindowing
    (packets : List RawPacket) : List (PacketRow ℚ) :=
  packets.filterMap (preparePacket windowSeconds)

def buildDayInputs
    (flows : List RawFlow)
    (packets : List RawPacket) :
    List (FlowRow ℚ) × List (PacketRow ℚ) :=
  (prepareFlowsForWindowing windowSeconds flows,
    preparePacketsForWindowing windowSeconds packets)

/- Every prepared row is in a window. -/
theorem dvd_preparedFlow
    {flows : List RawFlow}
    {row : FlowRow ℚ}
    (hRow : row ∈ prepareFlowsForWindowing windowSeconds flows) :
    windowSeconds ∣ row.windowTs := by
  rcases List.mem_filterMap.mp hRow with ⟨raw, _, hSome⟩
  unfold prepareFlow at hSome
  cases hEpoch : raw.epoch with
  | none => simp [hEpoch] at hSome
  | some epoch =>
      cases hSrc : raw.srcIp with
      | none => simp [hEpoch, hSrc] at hSome
      | some srcIp =>
          cases hDst : raw.dstIp with
          | none => simp [hEpoch, hSrc, hDst] at hSome
          | some dstIp =>
              simp only [hEpoch, hSrc, hDst,
                Option.bind_eq_bind, Option.bind_some,
                Option.pure_def, Option.some.injEq] at hSome
              rw [← hSome]
              exact dvd_mul_left _ _

theorem dvd_preparedPacket
    {packets : List RawPacket}
    {row : PacketRow ℚ}
    (hRow :
      row ∈ preparePacketsForWindowing windowSeconds packets) :
    windowSeconds ∣ row.windowTs := by
  rcases List.mem_filterMap.mp hRow with ⟨raw, _, hSome⟩
  unfold preparePacket at hSome
  cases hSrc : raw.ipSrc with
  | none => simp [hSrc] at hSome
  | some ipSrc =>
      simp only [hSrc, Option.bind_eq_bind, Option.bind_some,
        Option.pure_def, Option.some.injEq] at hSome
      rw [← hSome]
      exact dvd_mul_left _ _

end Inputs

------------------------------------------------------------
-- The table of a day
------------------------------------------------------------

section Day

variable [ExpLog ℚ]
variable (sampling : Sampling)
variable (dialect : LabelDialect)
variable (windowSeconds : ℤ)

/- The degree above which neighbourhoods are sampled. -/
def defaultDegreeCap : ℕ := 200

/- The state rows of the hosts with enough windows. -/
def windowizeDay
    (minWindowsPerHost : ℕ)
    (flows : List (FlowRow ℚ))
    (packets : List (PacketRow ℚ)) :
    List (HostWindow × FeatureVector ℚ) :=
  let states :=
    buildStateRows sampling windowSeconds defaultDegreeCap
      flows packets
  if minWindowsPerHost ≤ 1 then states
  else
    states.filter (fun row =>
      decide
        (minWindowsPerHost ≤
          states.countP (fun other => other.1.1 = row.1.1)))

/- The labelled table of one day. -/
def loadAndLabelDay
    (minWindowsPerHost horizonK : ℕ)
    (flows : List (FlowRow ℚ))
    (packets : List (PacketRow ℚ)) : List StateRow :=
  attachRiskLabel
    (windowizeDay sampling windowSeconds minWindowsPerHost
      flows packets)
    (labelStageTable dialect flows).1 horizonK

/-
  What the labelled table of a day keeps of its flows and
  packets.
-/
structure DayKept
    (flows : List (FlowRow ℚ))
    (packets : List (PacketRow ℚ))
    (table : List StateRow) : Prop where
  /- One row per window from the first to the last. -/
  rows :
    ∀ host ts,
      (∃ row ∈ table, row.hostId = host ∧ row.windowTs = ts) ↔
        windowSeconds ∣ ts ∧
          ∃ first last,
            Observed flows packets host first ∧
              Observed flows packets host last ∧
                first ≤ ts ∧ ts ≤ last
  once : DistinctWindows table
  /- Every flow is in one of them. -/
  covered :
    ∀ flow ∈ flows,
      ∃ row ∈ table,
        row.hostId = flow.srcIp ∧
          row.windowTs = flow.windowTs
  /- A window is active when its host sent something. -/
  active :
    ∀ row ∈ table,
      (row.features .isActive = 1 ∨
        row.features .isActive = 0) ∧
      (row.features .isActive = 1 ↔
        (∃ flow ∈ flows,
          flow.key = (row.hostId, row.windowTs)) ∨
        (∃ packet ∈ packets,
          packet.key = (row.hostId, row.windowTs)))
  /- No flow is more severe than the stage of its row. -/
  severe :
    ∀ row ∈ table, ∀ flow ∈ flows,
      flow.key = (row.hostId, row.windowTs) →
        (dialect.mapLabelToStage flow.label).severity ≤
          row.stageLabel.severity
  /- The stage is that of a flow, benign when there is none. -/
  stage :
    ∀ row ∈ table,
      (∃ flow ∈ flows,
        flow.key = (row.hostId, row.windowTs) ∧
          dialect.mapLabelToStage flow.label =
            row.stageLabel) ∨
      ((∀ flow ∈ flows,
        flow.key ≠ (row.hostId, row.windowTs)) ∧
          row.stageLabel = .benign)

------------------------------------------------------------
-- Stages of a day
------------------------------------------------------------

/- The stage that is joined to a host and window. -/
theorem lookup_labelStageTable
    (flows : List (FlowRow ℚ))
    (key : HostWindow) :
    ((lookupKey (labelStageTable dialect flows).1
          key).getD .benign =
        mostSevere dialect
          (flows.filter (fun row => row.key = key)) ∧
      ∃ row ∈ flows, row.key = key) ∨
    ((∀ row ∈ flows, row.key ≠ key) ∧
      (lookupKey (labelStageTable dialect flows).1
          key).getD .benign = .benign) := by
  let groups :=
    sortByKey (fun g => toLex g.1)
      (groupsBy FlowRow.key flows)
  have hTable :
      (labelStageTable dialect flows).1 =
        groups.map
          (fun g => (g.1, mostSevere dialect g.2)) := rfl
  have hNodup :
      ((labelStageTable dialect flows).1.map
        Prod.fst).Nodup := by
    have hPerm :
        (groups.map Prod.fst).Perm
          ((groupsBy FlowRow.key flows).map Prod.fst) :=
      (sortByKey_perm _ _).map _
    have hKeys :
        ((groupsBy FlowRow.key flows).map Prod.fst).Nodup := by
      unfold groupsBy
      rw [List.map_map]
      simp only [Function.comp_def, List.map_id']
      exact List.nodup_eraseDups _
    rw [hTable, List.map_map]
    exact hPerm.nodup_iff.mpr hKeys
  by_cases hFlow : ∃ row ∈ flows, row.key = key
  · left
    refine ⟨?_, hFlow⟩
    have hGroup :
        (key, flows.filter (fun row => row.key = key)) ∈
          groups :=
      mem_sortByKey.mpr (mem_groupsBy.mpr ⟨hFlow, rfl⟩)
    have hMem :
        (key,
            mostSevere dialect
              (flows.filter (fun row => row.key = key))) ∈
          (labelStageTable dialect flows).1 := by
      rw [hTable]
      exact List.mem_map.mpr ⟨_, hGroup, rfl⟩
    rw [lookupKey_of_mem hNodup hMem]
    rfl
  · right
    push Not at hFlow
    refine ⟨hFlow, ?_⟩
    have hNone :
        lookupKey (labelStageTable dialect flows).1 key =
          none := by
      rw [← Option.not_isSome_iff_eq_none, lookupKey_isSome]
      rintro ⟨row, hRow, hKey⟩
      rw [hTable] at hRow
      rcases List.mem_map.mp hRow with ⟨g, hGroup, rfl⟩
      rcases mem_groupsBy.mp (mem_sortByKey.mp hGroup) with
        ⟨⟨flow, hFlowMem, hFlowKey⟩, _⟩
      exact hFlow flow hFlowMem (hFlowKey.trans hKey)
    rw [hNone]
    rfl

/- A labelled row is a state row with its stage. -/
theorem mem_labelledDay
    {stateTable : List (HostWindow × FeatureVector ℚ)}
    {stageTable : List (HostWindow × Stage)}
    {horizonK : ℕ}
    {row : StateRow}
    (hRow :
      row ∈ attachRiskLabel stateTable stageTable horizonK) :
    ((row.hostId, row.windowTs), row.features) ∈ stateTable ∧
      row.stageLabel =
        (lookupKey stageTable
          (row.hostId, row.windowTs)).getD .benign := by
  rcases mem_reattachRiskLabel.mp ⟨row, hRow, rfl⟩ with
    ⟨labelled, hLabelled, hEq⟩
  rcases List.mem_map.mp (mem_sortRows.mp hLabelled) with
    ⟨⟨⟨host, ts⟩, features⟩, hState, rfl⟩
  unfold StateRow.unlabelled at hEq
  simp only [StateRow.mk.injEq] at hEq
  rcases hEq with ⟨hHost, hTs, hFeatures, hStage, _⟩
  rw [← hHost, ← hTs, ← hFeatures, ← hStage]
  exact ⟨hState, rfl⟩

/- The keys of the labelled rows are those of the states. -/
theorem keys_labelledDay
    (stateTable : List (HostWindow × FeatureVector ℚ))
    (stageTable : List (HostWindow × Stage))
    (horizonK : ℕ) :
    ((attachRiskLabel stateTable stageTable horizonK).map
        StateRow.key).Perm
      (stateTable.map (fun row => toLex row.1)) := by
  unfold attachRiskLabel
  refine (reattachRiskLabel_keys _ _).trans ?_
  refine ((sortByKey_perm _ _).map _).trans ?_
  rw [List.map_map]
  exact List.Perm.refl _

/- A host and window has a labelled row if it has a state. -/
theorem exists_labelledRow_iff
    {stateTable : List (HostWindow × FeatureVector ℚ)}
    {stageTable : List (HostWindow × Stage)}
    {horizonK : ℕ}
    (host : String)
    (ts : ℤ) :
    (∃ row ∈ attachRiskLabel stateTable stageTable horizonK,
        row.hostId = host ∧ row.windowTs = ts) ↔
      ∃ features, ((host, ts), features) ∈ stateTable := by
  have hMem :=
    (keys_labelledDay stateTable stageTable
      horizonK).mem_iff (a := toLex (host, ts))
  simp only [List.mem_map] at hMem
  constructor
  · rintro ⟨row, hRow, rfl, rfl⟩
    rcases hMem.mp ⟨row, hRow, rfl⟩ with
      ⟨⟨key, features⟩, hState, hKey⟩
    have hSame : key = (row.hostId, row.windowTs) :=
      toLex_inj.mp hKey
    rw [hSame] at hState
    exact ⟨features, hState⟩
  · rintro ⟨features, hState⟩
    rcases hMem.mpr ⟨_, hState, rfl⟩ with ⟨row, hRow, hKey⟩
    have hSame : (row.hostId, row.windowTs) = (host, ts) :=
      toLex_inj.mp hKey
    exact
      ⟨row, hRow, (Prod.mk.inj hSame).1,
        (Prod.mk.inj hSame).2⟩

/- A window between two of the day's windows is in it. -/
theorem inDay_of_observed
    {flows : List (FlowRow ℚ)}
    {packets : List (PacketRow ℚ)}
    {host : String}
    {ts : ℤ}
    (hTs : Observed flows packets host ts) :
    InDay flows ts ∧ ∃ row ∈ flows, row.srcIp = host := by
  rcases hTs with ⟨row, hRow, hKey⟩ | ⟨_, hSource, hDay⟩
  · rcases Prod.mk.inj hKey with ⟨hHost, hWindow⟩
    exact
      ⟨⟨row, hRow, row, hRow, hWindow.le, hWindow.ge⟩,
        ⟨row, hRow, hHost⟩⟩
  · exact ⟨hDay, hSource⟩

/-
  Between windows in which a host is observed, it is observed
  where it sent something.
-/
theorem observed_iff_sent
    {flows : List (FlowRow ℚ)}
    {packets : List (PacketRow ℚ)}
    {host : String}
    {first last ts : ℤ}
    (hFirst : Observed flows packets host first)
    (hLast : Observed flows packets host last)
    (hFrom : first ≤ ts)
    (hTo : ts ≤ last) :
    Observed flows packets host ts ↔
      (∃ flow ∈ flows, flow.key = (host, ts)) ∨
        (∃ packet ∈ packets, packet.key = (host, ts)) := by
  constructor
  · rintro (hFlow | ⟨hPacket, _⟩)
    · exact Or.inl hFlow
    · exact Or.inr hPacket
  · rintro (hFlow | hPacket)
    · exact Or.inl hFlow
    · right
      rcases inDay_of_observed hFirst with
        ⟨⟨low, hLow, _, _, hLowLe, _⟩, hSource⟩
      rcases inDay_of_observed hLast with
        ⟨⟨_, _, high, hHigh, _, hLeHigh⟩, _⟩
      exact
        ⟨hPacket, hSource, low, hLow, high, hHigh,
          hLowLe.trans hFrom, hTo.trans hLeHigh⟩

/- No flow is more severe than the stage that is joined. -/
theorem severity_le_joined
    {flows : List (FlowRow ℚ)}
    {flow : FlowRow ℚ}
    (hFlow : flow ∈ flows)
    {key : HostWindow}
    (hKey : flow.key = key) :
    (dialect.mapLabelToStage flow.label).severity ≤
      ((lookupKey (labelStageTable dialect flows).1
        key).getD .benign).severity := by
  rcases lookup_labelStageTable dialect flows key with
    ⟨hMost, _⟩ | ⟨hNone, _⟩
  · rw [hMost]
    have hMem :
        flow ∈ flows.filter (fun f => f.key = key) :=
      List.mem_filter.mpr ⟨hFlow, by simpa using hKey⟩
    exact
      (mostSevere_spec dialect
        (List.ne_nil_of_mem hMem)).2 flow hMem
  · exact absurd hKey (hNone flow hFlow)

/- The stage that is joined is one of a flow, if there is one. -/
theorem joined_cases
    (flows : List (FlowRow ℚ))
    (key : HostWindow) :
    (∃ flow ∈ flows,
      flow.key = key ∧
        dialect.mapLabelToStage flow.label =
          (lookupKey (labelStageTable dialect flows).1
            key).getD .benign) ∨
    ((∀ flow ∈ flows, flow.key ≠ key) ∧
      (lookupKey (labelStageTable dialect flows).1
        key).getD .benign = .benign) := by
  rcases lookup_labelStageTable dialect flows key with
    ⟨hMost, flow, hFlow, hKey⟩ | hNone
  · left
    have hMem :
        flow ∈ flows.filter (fun f => f.key = key) :=
      List.mem_filter.mpr ⟨hFlow, by simpa using hKey⟩
    rcases (mostSevere_spec dialect
        (List.ne_nil_of_mem hMem)).1 with
      ⟨worst, hWorst, hEq⟩
    rcases List.mem_filter.mp hWorst with
      ⟨hWorstMem, hWorstKey⟩
    refine ⟨worst, hWorstMem, by simpa using hWorstKey, ?_⟩
    rw [hMost]
    exact hEq
  · exact Or.inr hNone

/-
  The labelled table of a day, with no limit on its hosts,
  keeps every flow and every stage.
-/
theorem dayKept_loadAndLabelDay
    (hWindow : 0 < windowSeconds)
    (horizonK : ℕ)
    (rawFlows : List RawFlow)
    (rawPackets : List RawPacket) :
    DayKept dialect windowSeconds
      (buildDayInputs windowSeconds rawFlows rawPackets).1
      (buildDayInputs windowSeconds rawFlows rawPackets).2
      (loadAndLabelDay sampling dialect windowSeconds 1
        horizonK
        (buildDayInputs windowSeconds rawFlows rawPackets).1
        (buildDayInputs windowSeconds rawFlows
          rawPackets).2) := by
  let flows := prepareFlowsForWindowing windowSeconds rawFlows
  let packets :=
    preparePacketsForWindowing windowSeconds rawPackets
  have hFlows : ∀ row ∈ flows, windowSeconds ∣ row.windowTs :=
    fun row hRow => dvd_preparedFlow windowSeconds hRow
  have hPackets :
      ∀ row ∈ packets, windowSeconds ∣ row.windowTs :=
    fun row hRow => dvd_preparedPacket windowSeconds hRow
  let states :=
    buildStateRows sampling windowSeconds defaultDegreeCap
      flows packets
  let table :=
    attachRiskLabel states (labelStageTable dialect flows).1
      horizonK
  change DayKept dialect windowSeconds flows packets table
  have hRows :
      ∀ host ts,
        (∃ row ∈ table,
            row.hostId = host ∧ row.windowTs = ts) ↔
          windowSeconds ∣ ts ∧
            ∃ first last,
              Observed flows packets host first ∧
                Observed flows packets host last ∧
                  first ≤ ts ∧ ts ≤ last := by
    intro host ts
    rw [← mem_buildStateRows sampling defaultDegreeCap
      hWindow hFlows hPackets]
    exact exists_labelledRow_iff host ts
  refine
    { rows := hRows
      once := ?_
      covered := ?_
      active := ?_
      severe := ?_
      stage := ?_ }
  · have hNodup :=
      nodup_buildStateRows sampling defaultDegreeCap hWindow
        hFlows hPackets
    refine (keys_labelledDay _ _ _).nodup_iff.mpr ?_
    have hMap :
        states.map (fun row => toLex row.1) =
          (states.map Prod.fst).map toLex := by
      rw [List.map_map]
      rfl
    rw [hMap]
    exact hNodup.map toLex.injective
  · intro flow hFlow
    have hObserved :
        Observed flows packets flow.srcIp flow.windowTs :=
      Or.inl ⟨flow, hFlow, rfl⟩
    exact
      (hRows _ _).mpr
        ⟨hFlows flow hFlow, _, _, hObserved, hObserved,
          le_refl _, le_refl _⟩
  · intro row hRow
    rcases mem_labelledDay hRow with ⟨hState, _⟩
    rcases (hRows _ _).mp ⟨row, hRow, rfl, rfl⟩ with
      ⟨_, first, last, hFirst, hLast, hFrom, hTo⟩
    rw [← observed_iff_sent hFirst hLast hFrom hTo]
    rcases isActive_buildStateRows sampling defaultDegreeCap
        hWindow hFlows hPackets hState with
      ⟨hOne, hObserved⟩ | ⟨hZero, hSilent⟩
    · exact ⟨Or.inl hOne, iff_of_true hOne hObserved⟩
    · refine ⟨Or.inr hZero, iff_of_false ?_ hSilent⟩
      rw [hZero]
      exact zero_ne_one
  · intro row hRow flow hFlow hKey
    rw [(mem_labelledDay hRow).2]
    exact severity_le_joined dialect hFlow hKey
  · intro row hRow
    rw [(mem_labelledDay hRow).2]
    exact joined_cases dialect flows _

end Day

------------------------------------------------------------
-- One day
------------------------------------------------------------

section Examples

local instance dayExpLog : ExpLog ℚ := ExpLog.tangent

/- Neighbours are listed by name, and the first are drawn. -/
def byName : Sampling :=
  { listed := fun hosts => hosts.sort (· ≤ ·)
    draw := fun _ n => (List.range n).take 200 }

/- A taxonomy of one attack. -/
def scanDialect : LabelDialect :=
  { mapLabelToStage := fun label =>
      if label = "PortScan" then .recon else .benign
    isRecognised := fun label =>
      label = "PortScan" || label = "BENIGN" }

/- A flow of a host that starts at some time. -/
def flowAt
    (epoch : ℚ)
    (label : String) : RawFlow :=
  { srcIp := some "10.0.0.1"
    dstIp := some "10.0.0.2"
    dstPort := 22
    epoch := some epoch
    label := label
    columns := fun _ => none }

/- A packet of the same host. -/
def packetAt (epoch : ℚ) : RawPacket :=
  { ipSrc := some "10.0.0.1"
    frameTimeEpoch := epoch
    ipTtl := some 64
    tcpWindowSizeValue := some 8192
    payloadLen := none
    isFragment := false
    isRetransmission := false }

def scanFlows : List RawFlow :=
  [flowAt 5 "BENIGN", flowAt 10 "PortScan",
    flowAt 200 "BENIGN"]

/- The window after the scan has a packet and no flow. -/
theorem dayKept_scanAndSilence :
    DayKept scanDialect 60
      (buildDayInputs 60 scanFlows [packetAt 70]).1
      (buildDayInputs 60 scanFlows [packetAt 70]).2
      (loadAndLabelDay byName scanDialect 60 1 3
        (buildDayInputs 60 scanFlows [packetAt 70]).1
        (buildDayInputs 60 scanFlows [packetAt 70]).2) :=
  dayKept_loadAndLabelDay byName scanDialect 60 (by decide) 3
    scanFlows [packetAt 70]

end Examples

end Data

end Nidra
