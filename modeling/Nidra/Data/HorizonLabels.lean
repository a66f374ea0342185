import Nidra.Data.Contiguity
import Nidra.Lib.Lookahead

/-
  This file proves exactly when the risk labels of the
  training and validation parts say what lies in the horizon:
  labels look at the next rows of a host, so at each row the
  host's next attack has to be as far in rows as in windows.

  Key definitions include:
    * `HorizonLabelled`
    * `SpacedAttacks`

  Main declarations:
    * `horizonLabelled_reattach`
    * `spacedAttacks_of_unbroken`
    * `spacedAttacks_iff_of_distinct`
    * `horizonLabelled_iff`
    * `not_horizonLabelled_pause`
-/

namespace Nidra

namespace Data

------------------------------------------------------------
-- Labels of a Part
------------------------------------------------------------

/-
  A row of a part has the label 1 exactly when its host has an
  attack window in the part within the horizon.
-/
def HorizonLabelled
    (windowSeconds : ℤ)
    (horizonK : ℕ)
    (part : List StateRow) : Prop :=
  ∀ row ∈ part,
    (row.riskLabel = 1 ↔
      ∃ other ∈ part,
        other.hostId = row.hostId ∧
          other.isAttack = true ∧
            row.windowTs < other.windowTs ∧
              other.windowTs ≤
                row.windowTs + horizonK * windowSeconds)

/-
  At every row of a host, its next attack window is at most
  the horizon's number of rows further on exactly when it is
  at most as many windows later. An attack row that repeats
  the window of the row is followed by one in the horizon.
-/
def SpacedAttacks
    (windowSeconds : ℤ)
    (horizonK : ℕ)
    (part : List StateRow) : Prop :=
  ∀ hostId (i : ℕ) row,
    (hostTimeline part hostId)[i]? = some row →
      SpacedAt StateRow.windowTs StateRow.isAttack
        (hostTimeline part hostId) horizonK
        (horizonK * windowSeconds) i row.windowTs

theorem hostTimeline_pairwise
    (part : List StateRow)
    (hostId : String) :
    (hostTimeline part hostId).Pairwise
      (fun a b => a.windowTs ≤ b.windowTs) :=
  sortByKey_pairwise StateRow.windowTs _

section Relabelled

variable {horizonK : ℕ}
variable {rows labelled : List StateRow}
variable {reach t : ℤ}

/- Labels are not looked at when attacks are. -/
theorem aheadInTime_unlabelled :
    AheadInTime StateRow.windowTs StateRow.isAttack
        (rows.map StateRow.unlabelled) reach t ↔
      AheadInTime StateRow.windowTs StateRow.isAttack rows
        reach t := by
  constructor
  · rintro ⟨b, hMem, hAttack, hLater, hWithin⟩
    rcases List.mem_map.mp hMem with ⟨row, hRow, rfl⟩
    exact ⟨row, hRow, hAttack, hLater, hWithin⟩
  · rintro ⟨row, hRow, hAttack, hLater, hWithin⟩
    exact ⟨row.unlabelled, List.mem_map_of_mem hRow,
      hAttack, hLater, hWithin⟩

/- The attacks in a while are there before the labels. -/
theorem RiskLabelled.aheadInTime_iff
    (hLabelled : RiskLabelled horizonK rows labelled) :
    AheadInTime StateRow.windowTs StateRow.isAttack labelled
        reach t ↔
      AheadInTime StateRow.windowTs StateRow.isAttack rows
        reach t := by
  rw [← aheadInTime_unlabelled, hLabelled.unchanged,
    aheadInTime_unlabelled]

/- Rows that only differ in labels lie at the same times. -/
theorem exists_row_of_unlabelled
    (hSame :
      rows.map StateRow.unlabelled =
        labelled.map StateRow.unlabelled)
    {i : ℕ}
    {row : StateRow}
    (hRow : rows[i]? = some row) :
    ∃ after,
      labelled[i]? = some after ∧
        after.windowTs = row.windowTs := by
  have hPlace := congrArg (fun l => l[i]?) hSame.symm
  rw [List.getElem?_map, List.getElem?_map, hRow,
    Option.map_some, Option.map_eq_some_iff] at hPlace
  rcases hPlace with ⟨after, hAfter, hTs⟩
  have hTime := congrArg StateRow.windowTs hTs
  exact ⟨after, hAfter, hTime⟩

/-
  The labels of one host tell its attacks in the horizon when
  its attacks are spaced.
-/
theorem RiskLabelled.horizon_iff
    (hLabelled : RiskLabelled horizonK rows labelled)
    (hSorted :
      rows.Pairwise (fun a b => a.windowTs ≤ b.windowTs)) :
    (∀ (i : ℕ) after, labelled[i]? = some after →
        (after.riskLabel = 1 ↔
          AheadInTime StateRow.windowTs StateRow.isAttack
            labelled reach after.windowTs)) ↔
      ∀ (i : ℕ) row, rows[i]? = some row →
        SpacedAt StateRow.windowTs StateRow.isAttack rows
          horizonK reach i row.windowTs := by
  constructor
  · intro hTold i row hRow
    rcases exists_row_of_unlabelled hLabelled.unchanged.symm
      hRow with ⟨after, hAfter, hSame⟩
    have hHere := hTold i after hAfter
    rw [(hLabelled.label i after hAfter).2,
      hLabelled.aheadInTime_iff, hSame] at hHere
    exact (spacedAt_iff hSorted hRow).mp hHere
  · intro hSpaced i after hAfter
    rcases exists_row_of_unlabelled hLabelled.unchanged
      hAfter with ⟨row, hRow, hSame⟩
    rw [(hLabelled.label i after hAfter).2,
      hLabelled.aheadInTime_iff, ← hSame]
    exact (spacedAt_iff hSorted hRow).mpr
      (hSpaced i row hRow)

end Relabelled

section Parts

variable {windowSeconds : ℤ}
variable {horizonK : ℕ}
variable {part : List StateRow}

/- The rows of a part are looked at host by host. -/
theorem horizonLabelled_iff_hosts :
    HorizonLabelled windowSeconds horizonK part ↔
      ∀ hostId (i : ℕ) row,
        (part.filter
            (fun row => row.hostId = hostId))[i]? = some row →
          (row.riskLabel = 1 ↔
            AheadInTime StateRow.windowTs StateRow.isAttack
              (part.filter (fun row => row.hostId = hostId))
              (horizonK * windowSeconds) row.windowTs) := by
  have hAhead : ∀ row : StateRow,
      (∃ other ∈ part,
        other.hostId = row.hostId ∧
          other.isAttack = true ∧
            row.windowTs < other.windowTs ∧
              other.windowTs ≤
                row.windowTs + horizonK * windowSeconds) ↔
        AheadInTime StateRow.windowTs StateRow.isAttack
          (part.filter (fun r => r.hostId = row.hostId))
          (horizonK * windowSeconds) row.windowTs := by
    intro row
    unfold AheadInTime
    simp only [List.mem_filter, decide_eq_true_eq, and_assoc]
  constructor
  · intro hLabelled hostId i row hRow
    rcases List.mem_filter.mp (List.mem_of_getElem? hRow) with
      ⟨hIn, hHost⟩
    have hHere := hLabelled row hIn
    rw [hAhead, of_decide_eq_true hHost] at hHere
    exact hHere
  · intro hHosts row hIn
    have hMem :
        row ∈ part.filter (fun r => r.hostId = row.hostId) :=
      List.mem_filter.mpr ⟨hIn, decide_eq_true rfl⟩
    rcases List.mem_iff_getElem?.mp hMem with ⟨i, hRow⟩
    rw [hAhead]
    exact hHosts row.hostId i row hRow

/- Labels computed for a part tell the horizon when spaced. -/
theorem horizonLabelled_reattach :
    HorizonLabelled windowSeconds horizonK
        (reattachRiskLabelSliced part horizonK) ↔
      SpacedAttacks windowSeconds horizonK part := by
  rw [horizonLabelled_iff_hosts]
  apply forall_congr'
  intro hostId
  have hLabelled := riskLabelled_hostRisk horizonK
    (hostTimeline part hostId)
  rw [← filter_sortRows,
    ← filter_reattachRiskLabelSliced] at hLabelled
  rw [filter_sortRows] at hLabelled
  exact hLabelled.horizon_iff
    (hostTimeline_pairwise part hostId)

end Parts

------------------------------------------------------------
-- Spaced Attacks
------------------------------------------------------------

section Spaced

variable {windowSeconds : ℤ}
variable {horizonK : ℕ}
variable {part : List StateRow}

/- Hosts with one row each window have spaced attacks. -/
theorem spacedAttacks_of_unbroken
    (hWindow : 0 < windowSeconds)
    (hUnbroken :
      ∀ row ∈ part,
        Evenly windowSeconds
          (hostWindows part row.hostId)) :
    SpacedAttacks windowSeconds horizonK part := by
  intro hostId i row hRow
  have hMem := List.mem_of_getElem? hRow
  rw [hostTimeline, mem_sortByKey, List.mem_filter] at hMem
  have hEvenly := hUnbroken row hMem.1
  rw [of_decide_eq_true hMem.2, hostWindows, hostRows,
    filter_sortRows] at hEvenly
  exact spacedAt_of_evenly hWindow hEvenly hRow

/- Without repeated windows, a host's rows go on in time. -/
theorem hostTimeline_pairwise_lt
    (hDistinct : DistinctWindows part)
    (hostId : String) :
    (hostTimeline part hostId).Pairwise
      (fun a b => a.windowTs < b.windowTs) := by
  apply sortByKey_pairwise_lt
  have hKeys :
      ((part.filter (fun row => row.hostId = hostId)).map
        StateRow.key).Nodup :=
    hDistinct.sublist (List.filter_sublist.map _)
  refine List.Nodup.map_on ?_ hKeys.of_map
  intro a hA b hB hTs
  have hHostA := of_decide_eq_true (List.mem_filter.mp hA).2
  have hHostB := of_decide_eq_true (List.mem_filter.mp hB).2
  refine List.inj_on_of_nodup_map hKeys hA hB ?_
  unfold StateRow.key
  rw [hHostA, hHostB, hTs]

/-
  Where no window is repeated, only missing windows matter:
  the next attack window must not be out of the horizon and
  yet among the horizon's number of next rows.
-/
theorem spacedAttacks_iff_of_distinct
    (hWindow : 0 < windowSeconds)
    (hAligned : WindowAligned windowSeconds part)
    (hDistinct : DistinctWindows part) :
    SpacedAttacks windowSeconds horizonK part ↔
      ∀ hostId (i : ℕ) row,
        (hostTimeline part hostId)[i]? = some row →
          ∀ j other,
            NextFlag StateRow.windowTs StateRow.isAttack
                (hostTimeline part hostId) i row.windowTs j
                other →
              j ≤ i + horizonK →
                other.windowTs ≤
                  row.windowTs + horizonK * windowSeconds := by
  apply forall_congr'
  intro hostId
  have hSorted := hostTimeline_pairwise_lt hDistinct hostId
  have hMultiple :
      ∀ row ∈ hostTimeline part hostId,
        windowSeconds ∣ row.windowTs := by
    intro row hRow
    rw [hostTimeline, mem_sortByKey] at hRow
    exact hAligned row (List.mem_filter.mp hRow).1
  constructor
  · intro hSpaced i row hRow
    exact (spacedAt_iff_of_lt hWindow hSorted hMultiple
      hRow).mp (hSpaced i row hRow)
  · intro hWithin i row hRow
    exact (spacedAt_iff_of_lt hWindow hSorted hMultiple
      hRow).mpr (hWithin i row hRow)

end Spaced

/-
  After a cut, the labels of the training and validation rows
  say what lies in the horizon exactly when the attacks of the
  part are spaced.
-/
theorem horizonLabelled_iff
    {dayTables : DayTables}
    {roles : SplitRoles}
    {parts : SplitResult}
    (hParts : buildParts dayTables roles = .ok parts)
    (windowSeconds : ℤ)
    (horizonK : ℕ) :
    ∃ splits,
      buildSplits dayTables roles (some horizonK) =
          .ok splits ∧
        (HorizonLabelled windowSeconds horizonK splits.train ↔
          SpacedAttacks windowSeconds horizonK parts.train) ∧
        (HorizonLabelled windowSeconds horizonK splits.val ↔
          SpacedAttacks windowSeconds horizonK parts.val) := by
  refine
    ⟨{ parts with
        train := relabel (some horizonK) parts.train
        val := relabel (some horizonK) parts.val },
      ?_, horizonLabelled_reattach,
      horizonLabelled_reattach⟩
  unfold buildSplits
  rw [hParts]
  rfl

/- The parts of the captures before they are labelled. -/
def fridayParts : SplitResult :=
  { train := pausedCaptures.concat fridayValidated.trainDays
    val := pausedCaptures.concat fridayValidated.valDays
    test := []
    holdout := [] }

theorem buildParts_pausedCaptures :
    buildParts pausedCaptures fridayValidated =
      .ok fridayParts := rfl

theorem horizonLabelled_iff_friday :
    ∃ splits,
      buildSplits pausedCaptures fridayValidated (some 2) =
          .ok splits ∧
        HorizonLabelled 60 2 splits.val := by
  rcases horizonLabelled_iff buildParts_pausedCaptures 60 2
    with ⟨splits, hSplits, _, hVal⟩
  refine ⟨splits, hSplits, hVal.mpr ?_⟩
  exact spacedAttacks_of_unbroken (by decide)
    (by decide +kernel)

/-
  The last window of the first capture gets the label 1 for
  an attack in the second capture, ten windows later.
-/
theorem not_horizonLabelled_pause :
    (∀ key table,
      pausedCaptures key = some table →
        WindowAligned 60 table ∧
          ∀ row ∈ table,
            Evenly 60 (hostWindows table row.hostId)) ∧
    ∃ splits,
      buildSplits pausedCaptures fridayValidated (some 2) =
          .ok splits ∧
        ¬ HorizonLabelled 60 2 splits.train := by
  refine ⟨fun key table hTable =>
    pausedCaptures_unbroken hTable, fridaySplits,
    buildSplits_pausedCaptures, ?_⟩
  unfold HorizonLabelled
  decide +kernel

end Data

end Nidra
