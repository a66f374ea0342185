import Nidra.Data.Labels
import Nidra.Lib.Cuts

/-
  This file defines the risk labels of a table as the slices
  of its sorted rows are labelled, between the first rows of
  the hosts, and proves that each row is labelled by the rows
  of its own host that follow it, and by no others.

  Key definitions include:
    * `reattachRiskLabelSliced`
    * `hostTimeline`
    * `RiskLabelled`

  Main declarations:
    * `filter_reattachRiskLabelSliced`
    * `reattachRiskLabelSliced_eq`
    * `reattachRiskLabelSliced_spec`
-/

namespace Nidra

namespace Data

------------------------------------------------------------
-- Slices of the Hosts
------------------------------------------------------------

/- The labels of a slice of the attack flags. -/
def sliceRisk
    (isAttack : List Bool)
    (horizonK lo hi : ℕ) : List ℕ :=
  riskLabelFromAttackFlags ((isAttack.drop lo).take (hi - lo))
    horizonK

/- The labels of all rows, written slice by slice. -/
def slicedRisk
    (rows : List StateRow)
    (horizonK : ℕ) : List ℕ :=
  let isAttack := rows.map StateRow.isAttack
  let bounds := cuts (rows.map StateRow.hostId)
  (List.consecutive bounds).foldl
    (fun risk span =>
      risk.writeAt span.1
        (sliceRisk isAttack horizonK span.1 span.2))
    (List.replicate rows.length 0)

/- The risk labels for a horizon, over the sorted rows. -/
def reattachRiskLabelSliced
    (labelled : List StateRow)
    (horizonK : ℕ) : List StateRow :=
  let df := sortRows labelled
  withRisk df (slicedRisk df horizonK)

------------------------------------------------------------
-- The Label of a Place
------------------------------------------------------------

/- The labels of the rows of one host. -/
def hostLabels
    (rows : List StateRow)
    (horizonK : ℕ)
    (hostId : String) : List ℕ :=
  riskLabelFromAttackFlags
    ((rows.filter (fun row => row.hostId = hostId)).map
      StateRow.isAttack)
    horizonK

/- The label of a place, from the place within its host. -/
def labelAt
    (rows : List StateRow)
    (horizonK i : ℕ) : ℕ :=
  let hosts := rows.map StateRow.hostId
  ((hosts[i]?).bind (fun hostId =>
    (hostLabels rows horizonK hostId)[i - hosts.idxOf hostId]?)).getD 0

section Slices

variable {rows : List StateRow}

/- Rows are sorted by host. -/
theorem sortRows_pairwise_hostId (table : List StateRow) :
    (sortRows table).Pairwise
      (fun a b => a.hostId ≤ b.hostId) := by
  refine (sortByKey_pairwise StateRow.key table).imp ?_
  intro a b hKey
  rcases (StateRow.key_le_iff a b).mp hKey with hLt | hSame
  · exact hLt.le
  · exact hSame.1.le

/- A slice between two cuts is labelled as its host is. -/
theorem sliceRisk_of_cut
    (hSorted :
      rows.Pairwise (fun a b => a.hostId ≤ b.hostId))
    (horizonK : ℕ)
    {lo hi : ℕ}
    (hSpan :
      (lo, hi) ∈
        List.consecutive (cuts (rows.map StateRow.hostId))) :
    ∃ hostId ∈ rows.map StateRow.hostId,
      (rows.map StateRow.hostId).idxOf hostId = lo ∧
        lo < hi ∧ hi ≤ rows.length ∧
        rows.filter (fun row => row.hostId = hostId) =
          (rows.drop lo).take (hi - lo) ∧
        sliceRisk (rows.map StateRow.isAttack) horizonK lo hi =
          hostLabels rows horizonK hostId := by
  rcases filter_eq_slice_of_cut hSorted hSpan with
    ⟨hostId, hMem, hFirst, hLt, hLe, hSlice⟩
  refine ⟨hostId, hMem, hFirst, hLt, hLe, hSlice, ?_⟩
  unfold sliceRisk hostLabels
  rw [hSlice, List.map_take, List.map_drop]

/- Every slice is written with the labels of its places. -/
theorem fills_sliceRisk
    (hSorted :
      rows.Pairwise (fun a b => a.hostId ≤ b.hostId))
    (horizonK : ℕ)
    {span : ℕ × ℕ}
    (hSpan :
      span ∈
        List.consecutive (cuts (rows.map StateRow.hostId))) :
    List.Fills (labelAt rows horizonK) rows.length span.1
      (sliceRisk (rows.map StateRow.isAttack) horizonK
        span.1 span.2) := by
  rcases span with ⟨lo, hi⟩
  rcases sliceRisk_of_cut hSorted horizonK hSpan with
    ⟨hostId, _, hFirst, hLt, hLe, hSlice, hLabels⟩
  have hLength :
      (hostLabels rows horizonK hostId).length = hi - lo := by
    unfold hostLabels
    rw [length_riskLabelFromAttackFlags, List.length_map, hSlice,
      List.length_take, List.length_drop]
    omega
  dsimp only
  rw [hLabels]
  refine ⟨by omega, ?_⟩
  intro k hK
  have hIn : lo + k < rows.length := by omega
  have hHost :
      (rows.map StateRow.hostId)[lo + k]? = some hostId := by
    have hMem :
        rows[lo + k] ∈ (rows.drop lo).take (hi - lo) := by
      apply List.mem_of_getElem? (i := k)
      rw [List.getElem?_take, if_pos (by omega),
        List.getElem?_drop]
      exact List.getElem?_eq_getElem hIn
    rw [← hSlice] at hMem
    rw [List.getElem?_map, List.getElem?_eq_getElem hIn,
      Option.map_some,
      of_decide_eq_true (List.mem_filter.mp hMem).2]
  unfold labelAt
  dsimp only
  rw [hHost, Option.bind_some, hFirst, Nat.add_sub_cancel_left,
    List.getElem?_eq_getElem hK, Option.getD_some]

/- The slices to write, each with its first place. -/
def riskWrites
    (rows : List StateRow)
    (horizonK : ℕ) : List (ℕ × List ℕ) :=
  (List.consecutive (cuts (rows.map StateRow.hostId))).map
    (fun span =>
      (span.1,
        sliceRisk (rows.map StateRow.isAttack) horizonK
          span.1 span.2))

theorem slicedRisk_eq_writes
    (rows : List StateRow)
    (horizonK : ℕ) :
    slicedRisk rows horizonK =
      (riskWrites rows horizonK).foldl
        (fun risk w => risk.writeAt w.1 w.2)
        (List.replicate rows.length 0) := by
  unfold slicedRisk riskWrites
  rw [List.foldl_map]

theorem fills_riskWrites
    (hSorted :
      rows.Pairwise (fun a b => a.hostId ≤ b.hostId))
    (horizonK : ℕ) :
    ∀ w ∈ riskWrites rows horizonK,
      List.Fills (labelAt rows horizonK)
        (List.replicate rows.length 0).length w.1 w.2 := by
  intro w hW
  rcases List.mem_map.mp hW with ⟨span, hSpan, rfl⟩
  rw [List.length_replicate]
  exact fills_sliceRisk hSorted horizonK hSpan

theorem length_slicedRisk
    (hSorted :
      rows.Pairwise (fun a b => a.hostId ≤ b.hostId))
    (horizonK : ℕ) :
    (slicedRisk rows horizonK).length = rows.length := by
  rw [slicedRisk_eq_writes,
    List.length_foldl_writeAt (fills_riskWrites hSorted horizonK),
    List.length_replicate]

/- All slices together label every place. -/
theorem slicedRisk_getElem?
    (hSorted :
      rows.Pairwise (fun a b => a.hostId ≤ b.hostId))
    (horizonK : ℕ)
    {i : ℕ}
    (hLt : i < rows.length) :
    (slicedRisk rows horizonK)[i]? =
      some (labelAt rows horizonK i) := by
  have hIn : i < (rows.map StateRow.hostId).length := by
    rw [List.length_map]
    exact hLt
  rcases exists_cut hIn with ⟨span, hSpan, hFrom, hTo⟩
  rw [slicedRisk_eq_writes]
  apply List.getElem?_foldl_writeAt
    (fills_riskWrites hSorted horizonK)
  refine Or.inr ⟨_, List.mem_map_of_mem hSpan, hFrom, ?_⟩
  -- The slice is as long as the span.
  rcases span with ⟨lo, hi⟩
  rcases sliceRisk_of_cut hSorted horizonK hSpan with
    ⟨hostId, _, _, _, hLe, hSlice, hLabels⟩
  dsimp only at hFrom hTo ⊢
  unfold sliceRisk
  rw [length_riskLabelFromAttackFlags, List.length_take,
    List.length_drop, List.length_map]
  omega

------------------------------------------------------------
-- The Rows of One Host
------------------------------------------------------------

/- The span of a host that has rows. -/
theorem exists_span_of_host
    (hSorted :
      rows.Pairwise (fun a b => a.hostId ≤ b.hostId))
    {hostId : String}
    (hMem : hostId ∈ rows.map StateRow.hostId) :
    ∃ lo hi,
      (lo, hi) ∈
          List.consecutive (cuts (rows.map StateRow.hostId)) ∧
        ∀ (i : ℕ) b,
          (rows.map StateRow.hostId)[i]? = some b →
            (b = hostId ↔ lo ≤ i ∧ i < hi) := by
  have hFirst := List.getElem?_idxOf hMem
  rcases exists_cut (List.idxOf_lt_length_iff.mpr hMem) with
    ⟨⟨lo, hi⟩, hSpan, hFrom, hTo⟩
  rcases exists_key_of_cut (List.pairwise_map.mpr hSorted) hSpan
    with ⟨k, _, _, _, _, hIff⟩
  have hKey : hostId = k :=
    (hIff _ hostId hFirst).mpr ⟨hFrom, hTo⟩
  exact ⟨lo, hi, hSpan, hKey ▸ hIff⟩

/- The written labels of a span are those of its slice. -/
theorem slice_slicedRisk
    (hSorted :
      rows.Pairwise (fun a b => a.hostId ≤ b.hostId))
    (horizonK : ℕ)
    {lo hi : ℕ}
    (hSpan :
      (lo, hi) ∈
        List.consecutive (cuts (rows.map StateRow.hostId))) :
    ((slicedRisk rows horizonK).drop lo).take (hi - lo) =
      sliceRisk (rows.map StateRow.isAttack) horizonK lo hi := by
  have hFills := fills_sliceRisk hSorted horizonK hSpan
  have hLength :
      (sliceRisk (rows.map StateRow.isAttack) horizonK lo
        hi).length = hi - lo := by
    rcases sliceRisk_of_cut hSorted horizonK hSpan with
      ⟨_, _, _, _, hLe, _, _⟩
    unfold sliceRisk
    rw [length_riskLabelFromAttackFlags, List.length_take,
      List.length_drop, List.length_map]
    omega
  apply List.ext_getElem?
  intro k
  rw [List.getElem?_take, List.getElem?_drop]
  split_ifs with hK
  · rw [hFills.2 k (by rw [hLength]; exact hK)]
    apply slicedRisk_getElem? hSorted
    have hFits := hFills.1
    dsimp only at hFits
    omega
  · rw [List.getElem?_eq_none]
    omega

@[simp] theorem map_hostId_withRisk
    {risk : List ℕ}
    (hLength : risk.length = rows.length) :
    (withRisk rows risk).map StateRow.hostId =
      rows.map StateRow.hostId := by
  have hUnlabelled := map_unlabelled_withRisk hLength
  have hHosts :=
    congrArg (List.map StateRow.hostId) hUnlabelled
  rw [List.map_map, List.map_map] at hHosts
  exact hHosts

/- A table's rows of one host get the labels of that host. -/
theorem filter_withRisk_slicedRisk
    (hSorted :
      rows.Pairwise (fun a b => a.hostId ≤ b.hostId))
    (horizonK : ℕ)
    (hostId : String) :
    (withRisk rows (slicedRisk rows horizonK)).filter
        (fun row => row.hostId = hostId) =
      hostRisk horizonK
        (rows.filter (fun row => row.hostId = hostId)) := by
  have hLength := length_slicedRisk hSorted horizonK
  have hHosts := map_hostId_withRisk hLength
  by_cases hMem : hostId ∈ rows.map StateRow.hostId
  · rcases exists_span_of_host hSorted hMem with
      ⟨lo, hi, hSpan, hIff⟩
    have hSlice :
        ∀ l : List StateRow,
          l.map StateRow.hostId = rows.map StateRow.hostId →
            l.filter (fun row => row.hostId = hostId) =
              (l.drop lo).take (hi - lo) := by
      intro l hSame
      apply filter_eq_slice
      intro i row hRow
      rw [decide_eq_true_iff]
      apply hIff
      rw [← hSame, List.getElem?_map, hRow, Option.map_some]
    rw [hSlice _ hHosts, hostRisk, hSlice _ rfl]
    unfold withRisk
    rw [List.drop_zipWith, List.take_zipWith,
      slice_slicedRisk hSorted horizonK hSpan]
    unfold sliceRisk
    rw [List.map_take, List.map_drop]
  · have hNone :
        ∀ l : List StateRow,
          l.map StateRow.hostId = rows.map StateRow.hostId →
            l.filter (fun row => row.hostId = hostId) = [] := by
      intro l hSame
      apply List.filter_eq_nil_iff.mpr
      intro row hRow hIs
      apply hMem
      rw [← hSame]
      exact List.mem_map.mpr ⟨row, hRow, of_decide_eq_true hIs⟩
    rw [hNone _ hHosts, hNone _ rfl]
    rfl

end Slices

/- Labelled by slices, a host's rows are labelled alone. -/
theorem filter_reattachRiskLabelSliced
    (labelled : List StateRow)
    (horizonK : ℕ)
    (hostId : String) :
    (reattachRiskLabelSliced labelled horizonK).filter
        (fun row => row.hostId = hostId) =
      hostRisk horizonK
        ((sortRows labelled).filter
          (fun row => row.hostId = hostId)) :=
  filter_withRisk_slicedRisk (sortRows_pairwise_hostId labelled)
    horizonK hostId

theorem map_hostId_reattachRiskLabelSliced
    (labelled : List StateRow)
    (horizonK : ℕ) :
    (reattachRiskLabelSliced labelled horizonK).map
        StateRow.hostId =
      (sortRows labelled).map StateRow.hostId :=
  map_hostId_withRisk
    (length_slicedRisk (sortRows_pairwise_hostId labelled)
      horizonK)

/- The slices give what grouping the rows by host gives. -/
theorem reattachRiskLabelSliced_eq
    (labelled : List StateRow)
    (horizonK : ℕ) :
    reattachRiskLabelSliced labelled horizonK =
      reattachRiskLabel labelled horizonK := by
  have hHosts :=
    map_hostId_reattachRiskLabelSliced labelled horizonK
  have hSorted :
      (reattachRiskLabelSliced labelled horizonK).Pairwise
        (fun a b => a.hostId ≤ b.hostId) := by
    have hKeys := sortRows_pairwise_hostId labelled
    rw [← List.pairwise_map (f := StateRow.hostId)
      (R := fun a b => a ≤ b), ← hHosts] at hKeys
    exact List.pairwise_map.mp hKeys
  rw [← inGroups_of_sorted hSorted]
  unfold reattachRiskLabel inGroups groupsBy
  rw [hHosts, List.flatMap_map, List.flatMap_map]
  apply List.flatMap_congr
  intro hostId _
  exact filter_reattachRiskLabelSliced labelled horizonK hostId

------------------------------------------------------------
-- Labels of Later Attacks
------------------------------------------------------------

/- The rows of one host in the order of time. -/
def hostTimeline
    (table : List StateRow)
    (hostId : String) : List StateRow :=
  sortByKey StateRow.windowTs
    (table.filter (fun row => row.hostId = hostId))

/- The rows of a host are sorted by time. -/
theorem filter_sortRows
    (table : List StateRow)
    (hostId : String) :
    (sortRows table).filter (fun row => row.hostId = hostId) =
      hostTimeline table hostId := by
  unfold sortRows hostTimeline
  rw [sortByKey_filter]
  have hSame :=
    List.map_insertionSort
      (r := fun a b : StateRow => a.key ≤ b.key)
      (s := fun a b : StateRow => a.windowTs ≤ b.windowTs) id
      (table.filter (fun row => row.hostId = hostId)) (by
        intro a hA b hB
        have hHostA :=
          of_decide_eq_true (List.mem_filter.mp hA).2
        have hHostB :=
          of_decide_eq_true (List.mem_filter.mp hB).2
        rw [StateRow.key_le_iff, hHostA, hHostB]
        simp)
  rw [List.map_id, List.map_id] at hSame
  exact hSame

/-
  The rows of a host, each labelled by whether one of the next
  rows is an attack, and otherwise as they were.
-/
structure RiskLabelled
    (horizonK : ℕ)
    (rows labelled : List StateRow) : Prop where
  unchanged :
    labelled.map StateRow.unlabelled =
      rows.map StateRow.unlabelled
  label :
    ∀ (i : ℕ) row, labelled[i]? = some row →
      (row.riskLabel = 0 ∨ row.riskLabel = 1) ∧
        (row.riskLabel = 1 ↔
          ∃ j other, i < j ∧ j ≤ i + horizonK ∧
            rows[j]? = some other ∧ other.isAttack = true)

theorem riskLabelFromAttackFlags_mem
    {isAttack : List Bool}
    {horizonK label : ℕ}
    (hMem : label ∈ riskLabelFromAttackFlags isAttack horizonK) :
    label = 0 ∨ label = 1 := by
  rcases List.mem_map.mp hMem with ⟨idx, _, rfl⟩
  dsimp only
  split
  · exact Or.inr rfl
  · exact Or.inl rfl

theorem riskLabelled_hostRisk
    (horizonK : ℕ)
    (rows : List StateRow) :
    RiskLabelled horizonK rows (hostRisk horizonK rows) := by
  refine ⟨map_unlabelled_hostRisk horizonK rows, ?_⟩
  intro i row hRow
  unfold hostRisk withRisk at hRow
  rcases List.getElem?_zipWith_eq_some.mp hRow with
    ⟨before, label, hBefore, hLabel, rfl⟩
  have hLt : i < (rows.map StateRow.isAttack).length := by
    rw [List.length_map]
    exact (List.getElem?_eq_some_iff.mp hBefore).1
  refine
    ⟨riskLabelFromAttackFlags_mem (List.mem_of_getElem? hLabel),
      ?_⟩
  have hOne :=
    riskLabelFromAttackFlags_eq_one
      (rows.map StateRow.isAttack) horizonK hLt
  rw [hLabel, Option.some.injEq] at hOne
  dsimp only
  rw [hOne]
  simp only [List.getElem?_map, Option.map_eq_some_iff]
  constructor
  · rintro ⟨j, hFrom, hTo, other, hOther, hIs⟩
    exact ⟨j, other, hFrom, hTo, hOther, hIs⟩
  · rintro ⟨j, other, hFrom, hTo, hOther, hIs⟩
    exact ⟨j, hFrom, hTo, other, hOther, hIs⟩

/-
  For every host, the rows are labelled by its own later rows,
  whatever rows other hosts have.
-/
theorem reattachRiskLabelSliced_spec
    (labelled : List StateRow)
    (horizonK : ℕ)
    (hostId : String) :
    RiskLabelled horizonK (hostTimeline labelled hostId)
        ((reattachRiskLabelSliced labelled horizonK).filter
          (fun row => row.hostId = hostId)) ∧
      ∀ other : List StateRow,
        other.filter (fun row => row.hostId = hostId) =
            labelled.filter (fun row => row.hostId = hostId) →
          (reattachRiskLabelSliced other horizonK).filter
              (fun row => row.hostId = hostId) =
            (reattachRiskLabelSliced labelled horizonK).filter
              (fun row => row.hostId = hostId) := by
  have hRows :
      ∀ table,
        (reattachRiskLabelSliced table horizonK).filter
            (fun row => row.hostId = hostId) =
          hostRisk horizonK (hostTimeline table hostId) := by
    intro table
    rw [filter_reattachRiskLabelSliced, filter_sortRows]
  constructor
  · rw [hRows]
    exact riskLabelled_hostRisk horizonK _
  · intro other hSame
    rw [hRows, hRows, hostTimeline, hSame, hostTimeline]

end Data

end Nidra
