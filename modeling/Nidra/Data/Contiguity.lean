import Nidra.Data.Dataset
import Nidra.Data.RiskSlices
import Nidra.Lib.Fallible
import Nidra.Lib.Steps

/-
  This file defines the parts of a split with their risk
  labels, and proves exactly when every sample that is cut
  from a part is contiguous in time: a sample is a range of
  a host's rows, so the windows of a host must go on without
  a gap over all the captures that the part was joined from.

  Key definitions include:
    * `buildSplits`, `SplitResult.parts`
    * `SamplesContiguous`
    * `UnbrokenHosts`

  Main declarations:
    * `exists_source_of_mem`
    * `samplesContiguous_iff_evenly`
    * `samplesContiguous_iff`
    * `not_samplesContiguous_twoCaptures`
-/

namespace Nidra

namespace Data

------------------------------------------------------------
-- Splits
------------------------------------------------------------

/- The risk labels of a part, for the horizon that is set. -/
def relabel
    (horizonK : Option ℕ)
    (part : List StateRow) : List StateRow :=
  match horizonK with
  | none => part
  | some k => reattachRiskLabelSliced part k

def buildSplits
    (dayTables : DayTables)
    (roles : SplitRoles)
    (horizonK : Option ℕ) : Except String SplitResult :=
  (buildParts dayTables roles).map (fun parts =>
    { parts with
      train := relabel horizonK parts.train
      val := relabel horizonK parts.val })

def SplitResult.parts
    (splits : SplitResult) : List (List StateRow) :=
  [splits.train, splits.val, splits.test, splits.holdout]

/- A row of some capture. -/
def InCaptures
    (dayTables : DayTables)
    (row : StateRow) : Prop :=
  ∃ key table, dayTables key = some table ∧ row ∈ table

theorem inCaptures_of_concat
    {dayTables : DayTables}
    {keys : List String}
    {row : StateRow}
    (hRow : row ∈ dayTables.concat keys) :
    InCaptures dayTables row := by
  rcases List.mem_flatMap.mp hRow with ⟨key, _, hIn⟩
  cases hTable : dayTables key with
  | none =>
      rw [hTable] at hIn
      cases hIn
  | some table =>
      rw [hTable] at hIn
      exact ⟨key, table, hTable, hIn⟩

/- What the cut leaves of some captures. -/
theorem inCaptures_of_split
    {dayTables : DayTables}
    {keys : List String}
    {valFraction : ℚ}
    {perDay : Bool}
    {preOnsetMarginS : ℕ}
    {row : StateRow}
    (hRow :
      row ∈ (temporalTrainValSplit (dayTables.concat keys)
          valFraction perDay preOnsetMarginS).1 ∨
        row ∈ (temporalTrainValSplit (dayTables.concat keys)
          valFraction perDay preOnsetMarginS).2) :
    InCaptures dayTables row := by
  rcases hRow with hTrain | hVal
  · exact inCaptures_of_concat (List.mem_filter.mp hTrain).1
  · exact inCaptures_of_concat (List.mem_filter.mp hVal).1

theorem inCaptures_of_buildParts
    {dayTables : DayTables}
    {roles : SplitRoles}
    {parts : SplitResult}
    (hParts : buildParts dayTables roles = .ok parts)
    {part : List StateRow}
    (hPart : part ∈ parts.parts)
    {row : StateRow}
    (hRow : row ∈ part) :
    InCaptures dayTables row := by
  unfold buildParts at hParts
  dsimp only at hParts
  split at hParts
  · cases hParts
  · split at hParts
    · split at hParts
      · rw [Except.bind_eq_ok_iff] at hParts
        rcases hParts with ⟨train, hTrain, hParts⟩
        rw [Except.bind_eq_ok_iff] at hParts
        rcases hParts with ⟨val, hVal, hParts⟩
        cases hParts
        rw [eq_append_of_joinParts hTrain,
          eq_append_of_joinParts hVal] at hPart
        simp only [SplitResult.parts, List.mem_cons,
          List.not_mem_nil, or_false] at hPart
        rcases hPart with rfl | rfl | rfl | rfl
        · rcases List.mem_append.mp hRow with hRest | hCarved
          · exact inCaptures_of_concat hRest
          · exact inCaptures_of_split (Or.inl hCarved)
        · rcases List.mem_append.mp hRow with hVal | hCarved
          · exact inCaptures_of_concat hVal
          · exact inCaptures_of_split (Or.inr hCarved)
        · exact inCaptures_of_concat hRow
        · exact inCaptures_of_concat hRow
      · cases hParts
        simp only [SplitResult.parts, List.mem_cons,
          List.not_mem_nil, or_false] at hPart
        rcases hPart with rfl | rfl | rfl | rfl
        · exact inCaptures_of_concat hRow
        · exact inCaptures_of_concat hRow
        · exact inCaptures_of_concat hRow
        · exact inCaptures_of_concat hRow
    · cases hParts
      simp only [SplitResult.parts, List.mem_cons,
        List.not_mem_nil, or_false] at hPart
      rcases hPart with rfl | rfl | rfl | rfl
      · exact inCaptures_of_split (Or.inl hRow)
      · exact inCaptures_of_split (Or.inr hRow)
      · exact inCaptures_of_concat hRow
      · exact inCaptures_of_concat hRow

/- Labelling a part again keeps the windows of its rows. -/
theorem exists_of_mem_relabel
    {horizonK : Option ℕ}
    {part : List StateRow}
    {row : StateRow}
    (hRow : row ∈ relabel horizonK part) :
    ∃ source ∈ part, source.key = row.key := by
  cases horizonK with
  | none => exact ⟨row, hRow, rfl⟩
  | some k =>
      unfold relabel at hRow
      dsimp only at hRow
      rw [reattachRiskLabelSliced_eq] at hRow
      have hKey :=
        (reattachRiskLabel_keys part k).mem_iff.mp
          (List.mem_map_of_mem hRow)
      exact List.mem_map.mp hKey

/- Every row of a part is a row of a capture. -/
theorem exists_source_of_mem
    {dayTables : DayTables}
    {roles : SplitRoles}
    {horizonK : Option ℕ}
    {splits : SplitResult}
    (hSplits :
      buildSplits dayTables roles horizonK = .ok splits)
    {part : List StateRow}
    (hPart : part ∈ splits.parts)
    {row : StateRow}
    (hRow : row ∈ part) :
    ∃ source,
      InCaptures dayTables source ∧ source.key = row.key := by
  unfold buildSplits at hSplits
  cases hParts : buildParts dayTables roles with
  | error message =>
      rw [hParts] at hSplits
      cases hSplits
  | ok parts =>
      rw [hParts] at hSplits
      cases hSplits
      have hSource : ∀ source ∈ parts.parts, ∀ r ∈ source,
          InCaptures dayTables r :=
        fun source hIn r hR =>
          inCaptures_of_buildParts hParts hIn hR
      simp only [SplitResult.parts, List.mem_cons,
        List.not_mem_nil, or_false] at hPart
      rcases hPart with rfl | rfl | rfl | rfl
      · rcases exists_of_mem_relabel hRow with
          ⟨source, hIn, hKey⟩
        exact ⟨source,
          hSource parts.train (by simp [SplitResult.parts])
            source hIn, hKey⟩
      · rcases exists_of_mem_relabel hRow with
          ⟨source, hIn, hKey⟩
        exact ⟨source,
          hSource parts.val (by simp [SplitResult.parts])
            source hIn, hKey⟩
      · exact ⟨row,
          hSource parts.test (by simp [SplitResult.parts])
            row hRow, rfl⟩
      · exact ⟨row,
          hSource parts.holdout (by simp [SplitResult.parts])
            row hRow, rfl⟩

/- Where captures are aligned, so are the parts. -/
theorem aligned_of_buildSplits
    {windowSeconds : ℤ}
    {dayTables : DayTables}
    {roles : SplitRoles}
    {horizonK : Option ℕ}
    {splits : SplitResult}
    (hSplits :
      buildSplits dayTables roles horizonK = .ok splits)
    (hAligned :
      ∀ key table,
        dayTables key = some table →
          WindowAligned windowSeconds table)
    {part : List StateRow}
    (hPart : part ∈ splits.parts) :
    WindowAligned windowSeconds part := by
  intro row hRow
  rcases exists_source_of_mem hSplits hPart hRow with
    ⟨source, ⟨key, table, hTable, hIn⟩, hKey⟩
  have hTs : source.windowTs = row.windowTs :=
    congrArg (fun k => (ofLex k).2) hKey
  rw [← hTs]
  exact hAligned key table hTable source hIn

------------------------------------------------------------
-- Samples of a Part
------------------------------------------------------------

/- The windows of a host, in the order of its rows. -/
def hostWindows
    (part : List StateRow)
    (hostId : String) : List ℤ :=
  (hostRows part hostId).map StateRow.windowTs

theorem hostWindows_perm
    (part : List StateRow)
    (hostId : String) :
    (hostWindows part hostId).Perm
      ((part.filter (fun row => row.hostId = hostId)).map
        StateRow.windowTs) :=
  (((sortByKey_perm StateRow.key part).filter _).map _)

theorem hostWindows_pairwise
    (part : List StateRow)
    (hostId : String) :
    (hostWindows part hostId).Pairwise (· ≤ ·) := by
  unfold hostWindows hostRows
  rw [filter_sortRows, List.pairwise_map]
  exact sortByKey_pairwise StateRow.windowTs _

/- The rows of a sample are a range of the host's rows. -/
theorem sample_rows_eq
    {part : List StateRow}
    {L K : ℕ+}
    {lookup : EpisodeLookup}
    {c : Candidate}
    {sample : Sample}
    (hMem : c ∈ enumerateCandidates part L K)
    (hSample :
      materializeOne part L K lookup c = some sample) :
    sample.rows =
      ((hostRows part c.hostId).drop (c.t + 1 - L)).take
        (L + K) := by
  rcases mem_enumerateCandidates.mp hMem with
    ⟨t, row, hLow, _, hRow, hEq⟩
  have hT : c.t = t := by rw [hEq]; rfl
  rw [materializeOne, hT, hRow] at hSample
  cases hSample
  have hNext : t + 1 - (L : ℕ) + L = t + 1 := by omega
  change _ ++ _ = _
  rw [hT, List.take_add, List.drop_drop, hNext]

/-
  Every sample of a part has its rows, all of its host, at
  consecutive multiples of the window length.
-/
def SamplesContiguous
    (windowSeconds : ℤ)
    (part : List StateRow)
    (L K : ℕ+) : Prop :=
  ∀ c ∈ enumerateCandidates part L K,
    ∀ lookup,
      ∃ sample,
        materializeOne part L K lookup c = some sample ∧
          sample.rows.length = (L : ℕ) + K ∧
            (∀ row ∈ sample.rows,
              row.hostId = c.hostId ∧
                windowSeconds ∣ row.windowTs) ∧
              Evenly windowSeconds
                (sample.rows.map StateRow.windowTs)

/-
  No window of a host is repeated, and after each of its
  windows but the last one the next window is in the part,
  for every host that has enough rows for a sample.
-/
def UnbrokenHosts
    (windowSeconds : ℤ)
    (part : List StateRow)
    (L K : ℕ+) : Prop :=
  ∀ hostId,
    (L : ℕ) + K ≤
        (part.filter (fun row => row.hostId = hostId)).length →
      Gapless windowSeconds
        ((part.filter (fun row => row.hostId = hostId)).map
          StateRow.windowTs)

section Samples

variable {windowSeconds : ℤ}
variable {part : List StateRow}
variable {L K : ℕ+}

/- Hosts are unbroken when their windows go on by steps. -/
theorem unbrokenHosts_iff
    (hWindow : 0 < windowSeconds)
    (hAligned : WindowAligned windowSeconds part) :
    UnbrokenHosts windowSeconds part L K ↔
      ∀ hostId,
        (L : ℕ) + K ≤ (hostWindows part hostId).length →
          Evenly windowSeconds (hostWindows part hostId) := by
  have hHost : ∀ hostId,
      ((part.filter
          (fun row => row.hostId = hostId)).length =
        (hostWindows part hostId).length) ∧
      (Gapless windowSeconds
          ((part.filter
            (fun row => row.hostId = hostId)).map
              StateRow.windowTs) ↔
        Evenly windowSeconds (hostWindows part hostId)) := by
    intro hostId
    have hPerm := hostWindows_perm part hostId
    have hMultiple :
        ∀ t ∈ hostWindows part hostId, windowSeconds ∣ t := by
      intro t hT
      rcases List.mem_map.mp (hPerm.subset hT) with
        ⟨row, hRow, rfl⟩
      exact hAligned row (List.mem_filter.mp hRow).1
    constructor
    · rw [hPerm.length_eq, List.length_map]
    · rw [evenly_iff_gapless hWindow
        (hostWindows_pairwise part hostId) hMultiple]
      exact ⟨Gapless.of_perm hPerm.symm,
        Gapless.of_perm hPerm⟩
  unfold UnbrokenHosts
  apply forall_congr'
  intro hostId
  rw [(hHost hostId).1, (hHost hostId).2]

/-
  Samples are contiguous exactly when the windows of every
  host with enough rows go on by steps.
-/
theorem samplesContiguous_iff_evenly
    (hAligned : WindowAligned windowSeconds part) :
    SamplesContiguous windowSeconds part L K ↔
      ∀ hostId,
        (L : ℕ) + K ≤ (hostWindows part hostId).length →
          Evenly windowSeconds (hostWindows part hostId) := by
  have hL : 0 < (L : ℕ) := L.pos
  have hK : 0 < (K : ℕ) := K.pos
  constructor
  · intro hSamples hostId hFits
    rw [evenly_iff_slices (by omega) hFits]
    intro start hStart
    -- The origin whose sample begins at the start.
    have hLength :
        (hostWindows part hostId).length =
          (hostRows part hostId).length := List.length_map _
    have hLt :
        start + L - 1 < (hostRows part hostId).length := by
      omega
    have hMem : candidateAt hostId (start + L - 1)
        (hostRows part hostId)[start + L - 1] ∈
          enumerateCandidates part L K :=
      mem_enumerateCandidates.mpr
        ⟨start + L - 1, _, by omega, by
          change _ < (hostRows part hostId).length
          omega, List.getElem?_eq_getElem hLt, rfl⟩
    rcases hSamples _ hMem (fun _ => []) with
      ⟨sample, hSample, -, -, hEvenly⟩
    rw [sample_rows_eq hMem hSample] at hEvenly
    have hFirst : start + L - 1 + 1 - (L : ℕ) = start := by
      omega
    simpa only [hostWindows, candidateAt, hFirst,
      List.map_take, List.map_drop] using hEvenly
  · intro hHosts c hMem lookup
    rcases Option.isSome_iff_exists.mp
      (materializeOne_isSome hMem lookup) with
      ⟨sample, hSample⟩
    have hRows := sample_rows_eq hMem hSample
    rcases mem_enumerateCandidates.mp hMem with
      ⟨t, row, hLow, hHigh, _, hEq⟩
    have hT : c.t = t := by rw [hEq]; rfl
    refine ⟨sample, hSample, ?_, ?_, ?_⟩
    · rw [hRows, List.length_take, List.length_drop, hT]
      omega
    · intro r hR
      rw [hRows] at hR
      have hIn := mem_hostRows.mp
        (List.mem_of_mem_drop (List.mem_of_mem_take hR))
      exact ⟨hIn.2, hAligned r hIn.1⟩
    · rw [hRows, List.map_take, List.map_drop]
      apply Evenly.slice
      apply hHosts
      rw [hostWindows, List.length_map]
      omega

/- Only the hosts of a part have windows in it. -/
theorem unbrokenHosts_of_rows
    (hWindow : 0 < windowSeconds)
    (hAligned : WindowAligned windowSeconds part)
    (hRows :
      ∀ row ∈ part,
        Evenly windowSeconds (hostWindows part row.hostId)) :
    UnbrokenHosts windowSeconds part L K := by
  rw [unbrokenHosts_iff hWindow hAligned]
  intro hostId hFits
  have hPos : 0 < (hostWindows part hostId).length := by
    have hL := L.pos
    omega
  rw [hostWindows, List.length_map] at hPos
  rcases List.exists_mem_of_length_pos hPos with ⟨row, hRow⟩
  rcases mem_hostRows.mp hRow with ⟨hIn, hHost⟩
  rw [← hHost]
  exact hRows row hIn

end Samples

/-
  Every sample of a part is contiguous in time exactly when
  no host with enough rows has a window missing or repeated.
-/
theorem samplesContiguous_iff
    {windowSeconds : ℤ}
    {dayTables : DayTables}
    {roles : SplitRoles}
    {horizonK : Option ℕ}
    {splits : SplitResult}
    {part : List StateRow}
    (hWindow : 0 < windowSeconds)
    (hAligned :
      ∀ key table,
        dayTables key = some table →
          WindowAligned windowSeconds table)
    (hSplits :
      buildSplits dayTables roles horizonK = .ok splits)
    (hPart : part ∈ splits.parts)
    (L K : ℕ+) :
    SamplesContiguous windowSeconds part L K ↔
      UnbrokenHosts windowSeconds part L K := by
  have hPartAligned :=
    aligned_of_buildSplits hSplits hAligned hPart
  rw [unbrokenHosts_iff hWindow hPartAligned]
  exact samplesContiguous_iff_evenly hPartAligned

------------------------------------------------------------
-- Two Captures of One Host
------------------------------------------------------------

/- Three captures of a host, with pauses between them. -/
def pausedCaptures : DayTables := fun day =>
  if day = "monday" then
    some
      [ silentRow "10.0.0.1" 0 .benign,
        silentRow "10.0.0.1" 60 .benign ]
  else if day = "tuesday" then
    some
      [ silentRow "10.0.0.1" 600 .benign,
        silentRow "10.0.0.1" 660 .c2 ]
  else if day = "friday" then
    some
      [ silentRow "10.0.0.1" 6000 .benign,
        silentRow "10.0.0.1" 6060 .c2 ]
  else none

def fridayValidated : SplitRoles :=
  { trainDays := ["monday", "tuesday"]
    testDays := []
    holdoutDays := []
    valFraction := 1 / 5
    valBlockPerDay := true
    preOnsetMarginS := defaultPreOnsetMarginS
    valDays := ["friday"]
    valCarveTrainDays := [] }

/- The parts of the captures, for a horizon of two windows. -/
def fridaySplits : SplitResult :=
  { train :=
      relabel (some 2)
        (pausedCaptures.concat fridayValidated.trainDays)
    val :=
      relabel (some 2)
        (pausedCaptures.concat fridayValidated.valDays)
    test := []
    holdout := [] }

theorem buildSplits_pausedCaptures :
    buildSplits pausedCaptures fridayValidated (some 2) =
      .ok fridaySplits := rfl

theorem pausedCaptures_unbroken
    {key : String}
    {table : List StateRow}
    (hTable : pausedCaptures key = some table) :
    WindowAligned 60 table ∧
      ∀ row ∈ table,
        Evenly 60 (hostWindows table row.hostId) := by
  unfold pausedCaptures at hTable
  split_ifs at hTable <;> cases hTable
  · exact ⟨by decide +kernel, by decide +kernel⟩
  · exact ⟨by decide +kernel, by decide +kernel⟩
  · exact ⟨by decide +kernel, by decide +kernel⟩

/- A part that is one capture has contiguous samples. -/
theorem samplesContiguous_iff_friday :
    SamplesContiguous 60 fridaySplits.val 1 1 := by
  refine (samplesContiguous_iff (by decide)
    (fun key table hTable =>
      (pausedCaptures_unbroken hTable).1)
    buildSplits_pausedCaptures
    (List.mem_cons_of_mem _ List.mem_cons_self) 1 1).mpr ?_
  exact unbrokenHosts_of_rows (by decide) (by decide +kernel)
    (by decide +kernel)

/-
  In a part of two captures, a sample goes from the last
  window of the first to the first window of the second.
-/
theorem not_samplesContiguous_twoCaptures :
    (∀ key table,
      pausedCaptures key = some table →
        WindowAligned 60 table ∧
          ∀ row ∈ table,
            Evenly 60 (hostWindows table row.hostId)) ∧
    ∃ splits,
      buildSplits pausedCaptures fridayValidated (some 2) =
          .ok splits ∧
        ¬ SamplesContiguous 60 splits.train 2 2 := by
  refine ⟨fun key table hTable =>
    pausedCaptures_unbroken hTable, fridaySplits,
    buildSplits_pausedCaptures, ?_⟩
  rw [samplesContiguous_iff_evenly (by decide +kernel)]
  intro hEvenly
  have hHost := hEvenly "10.0.0.1" (by decide +kernel)
  revert hHost
  decide +kernel

end Data

end Nidra
