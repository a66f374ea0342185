import Nidra.Flows.Assemble
import Nidra.Lib.TextKeys

/-
  This file proves that every packet of a table is counted
  in one flow, with its payload, and that the times between
  the packets of a flow add up to its duration, which stays
  within the timeout.

  Key definitions include:
    * `Assembled.dropped`
    * `Conserved`, `Timely`

  Main declarations:
    * `segmented_eq`
    * `pairwise_segmented`
    * `conserved_assembleRows`
    * `timely_assembleRows`
-/

namespace Nidra

namespace Flows

------------------------------------------------------------
-- What is conserved
------------------------------------------------------------

/- A flow that is not published. -/
def Assembled.dropped (f : Assembled) : Bool :=
  !f.published

/- The packets of a flow, in both directions. -/
def Flow.packets (f : Flow) : ℕ :=
  f.totalFwdPackets + f.totalBwdPackets

/- The payload of a flow, in both directions. -/
def Flow.payload (f : Flow) : ℚ :=
  f.totalLenFwd + f.totalLenBwd

/-
  Flows, of which some are published and the others dropped,
  hold a number of packets and a payload, and one that is
  dropped has one packet.
-/
structure Conserved
    (count : ℕ)
    (payload : ℚ)
    (all : List Assembled) : Prop where
  packets :
    ((all.filter Assembled.published).map
        (fun f => f.flow.packets)).sum +
      (all.filter Assembled.dropped).length = count
  dropped :
    ∀ f ∈ all.filter Assembled.dropped, f.flow.packets = 1
  payloads :
    ((all.filter Assembled.published).map
        (fun f => f.flow.payload)).sum +
      ((all.filter Assembled.dropped).map
        (fun f => f.flow.payload)).sum = payload

/-
  The times between the packets of a flow, in microseconds:
  the mean times their number is the duration, and neither
  the longest of them nor the duration is over its bound.
-/
structure Timely
    (flowTimeoutS : ℚ)
    (f : Flow) : Prop where
  mean :
    f.flowIatMean * (f.packets - 1 : ℕ) = f.flowDuration
  meanMax : f.flowIatMean ≤ f.flowIatMax
  maxDuration : f.flowIatMax ≤ f.flowDuration
  duration : f.flowDuration ≤ flowTimeoutS * us

------------------------------------------------------------
-- Names
------------------------------------------------------------

theorem partName_inj
    {key key' : String}
    {id id' : ℕ}
    (hName : partName key id = partName key' id') :
    key = key' ∧ id = id' := by
  have hCut :=
    String.split_at_last
      (not_mem_toString_nat (c := '#') (by decide) id)
      (not_mem_toString_nat (by decide) id') hName
  exact ⟨hCut.1, Nat.repr_injective hCut.2⟩

------------------------------------------------------------
-- The groups of a sorted table
------------------------------------------------------------

theorem sorted_pairwise (rows : List Row) :
    (sorted rows).Pairwise
      (fun a b =>
        flowKey a ≤ flowKey b ∧
          (flowKey a = flowKey b → a.time ≤ b.time)) := by
  apply (sortByKey_pairwise _ rows).imp
  intro a b hLe
  rcases (Prod.Lex.le_iff).mp hLe with hLt | ⟨hEq, hTime⟩
  · exact ⟨hLt.le, fun hEq => absurd hEq hLt.ne⟩
  · exact ⟨hEq.le, fun _ => hTime⟩

/- The packets of a connection are in the order of time. -/
theorem inTime_group
    {rows : List Row}
    {key : String}
    {group : List Row}
    (hGroup : (key, group) ∈ groupsBy flowKey (sorted rows)) :
    InTime (group.map Row.tick) := by
  rcases mem_groupsBy.mp hGroup with ⟨_, rfl⟩
  rw [InTime, List.pairwise_map, List.pairwise_filter]
  apply (sorted_pairwise rows).imp
  intro a b hBoth hA hB
  rw [decide_eq_true_eq] at hA hB
  exact hBoth.2 (hA.trans hB.symm)

/- Name the flows and epochs of one connection. -/
def nameGroup
    (flowTimeoutS : ℚ)
    (group : List Row) : List SegRow :=
  let ids := segmentIds (group.map Row.tick) flowTimeoutS
  (group.zip (ids.1.zip ids.2)).map nameRow

/- Lists of the same lengths may be joined before a zip. -/
theorem zip_flatten
    {α β γ : Type}
    (groups : List α)
    (f : α → List β)
    (g : α → List γ)
    (hLengths : ∀ a ∈ groups, (f a).length = (g a).length) :
    (groups.flatMap f).zip ((groups.map g).flatten) =
      groups.flatMap (fun a => (f a).zip (g a)) := by
  induction groups with
  | nil => rfl
  | cons a groups ih =>
      rw [List.flatMap_cons, List.map_cons,
        List.flatten_cons, List.flatMap_cons,
        List.zip_append (hLengths a List.mem_cons_self),
        ih (fun b hB => hLengths b (List.mem_cons_of_mem _ hB))]

/- The rows are named connection by connection. -/
theorem segmented_eq
    (flowTimeoutS : ℚ)
    (rows : List Row) :
    segmented flowTimeoutS (sorted rows) =
      (groupsBy flowKey (sorted rows)).flatMap (fun group =>
        nameGroup flowTimeoutS group.2) := by
  let ids := fun group : String × List Row =>
    segmentIds (group.2.map Row.tick) flowTimeoutS
  have hRows :
      (groupsBy flowKey (sorted rows)).flatMap Prod.snd =
        sorted rows :=
    inGroups_of_sorted
      ((sorted_pairwise rows).imp (fun hBoth => hBoth.1))
  have hLengths :
      ∀ group ∈ groupsBy flowKey (sorted rows),
        (ids group).1.length = group.2.length ∧
          (ids group).2.length = group.2.length := by
    intro group hGroup
    rcases
      segmentIds_spans flowTimeoutS (inTime_group hGroup) with
      ⟨history, hTicks, hIds, _⟩
    have hLength := congrArg List.length hTicks
    rw [List.length_map, List.length_map] at hLength
    simp only [ids, hIds, List.length_map, hLength, and_self]
  have hIds :
      ((groupsBy flowKey (sorted rows)).map (fun group =>
          (ids group).1)).flatten.zip
        ((groupsBy flowKey (sorted rows)).map (fun group =>
          (ids group).2)).flatten =
        ((groupsBy flowKey (sorted rows)).map (fun group =>
          (ids group).1.zip (ids group).2)).flatten := by
    rw [← List.flatMap_def, zip_flatten, List.flatMap_def]
    intro group hGroup
    rw [(hLengths group hGroup).1, (hLengths group hGroup).2]
  have hZip :
      (sorted rows).zip
          ((groupsBy flowKey (sorted rows)).map (fun group =>
            (ids group).1.zip (ids group).2)).flatten =
        (groupsBy flowKey (sorted rows)).flatMap (fun group =>
          group.2.zip ((ids group).1.zip (ids group).2)) := by
    have hJoined :=
      zip_flatten (groupsBy flowKey (sorted rows)) Prod.snd
        (fun group => (ids group).1.zip (ids group).2)
        (by
          intro group hGroup
          rw [List.length_zip, (hLengths group hGroup).1,
            (hLengths group hGroup).2, min_self])
    rw [hRows] at hJoined
    exact hJoined
  unfold segmented
  simp only [List.map_map, Function.comp_def]
  rw [hIds, hZip, List.map_flatMap]
  rfl

/- A row of a connection is named after its key. -/
theorem nameGroup_key
    {rows : List Row}
    {key : String}
    {group : List Row}
    (hGroup : (key, group) ∈ groupsBy flowKey (sorted rows))
    {flowTimeoutS : ℚ}
    {r : SegRow}
    (hMem : r ∈ nameGroup flowTimeoutS group) :
    flowKey r.row = key ∧
      ∃ id, r.flow = partName (flowKey r.row) id := by
  rcases List.mem_map.mp hMem with ⟨entry, hEntry, rfl⟩
  refine ⟨?_, entry.2.1, rfl⟩
  rcases mem_groupsBy.mp hGroup with ⟨_, rfl⟩
  have hRow := (List.of_mem_zip hEntry).1
  have hKey := (List.mem_filter.mp hRow).2
  rw [decide_eq_true_eq] at hKey
  exact hKey

/- One connection keeps its rows, which are as they should. -/
theorem nameGroup_spans
    {rows : List Row}
    {key : String}
    {group : List Row}
    (hGroup : (key, group) ∈ groupsBy flowKey (sorted rows))
    (flowTimeoutS : ℚ) :
    (nameGroup flowTimeoutS group).map SegRow.row = group ∧
      (nameGroup flowTimeoutS group).Pairwise (fun a b =>
        a.flow = b.flow →
          a.row.time ≤ b.row.time ∧
            b.row.time - a.row.time ≤ flowTimeoutS) := by
  have hTimes := inTime_group hGroup
  rcases segmentIds_spans flowTimeoutS hTimes with
    ⟨history, hTicks, hIds, hSpans⟩
  have hLength := congrArg List.length hTicks
  rw [List.length_map, List.length_map] at hLength
  -- The rows with their ids are the history of the loop.
  have hMarks :
      (group.zip
          ((history.map Mark.seg).zip
            (history.map Mark.epoch))).map (fun entry =>
              ({ tick := entry.1.tick
                 seg := entry.2.1
                 epoch := entry.2.2 } : Mark)) =
        history := by
    have hSame := marks_of_history history
    rw [hTicks, marks, List.zip_map_left, List.map_map]
      at hSame
    exact hSame
  unfold nameGroup
  rw [hIds]
  constructor
  · rw [List.map_map]
    change
      (group.zip
        ((history.map Mark.seg).zip
          (history.map Mark.epoch))).map Prod.fst = group
    apply List.map_fst_zip
    simp [hLength]
  · rw [List.pairwise_map]
    have hBoth :
        history.Pairwise (fun p q =>
          p.seg = q.seg →
            p.tick.time ≤ q.tick.time ∧
              q.tick.time - p.tick.time ≤ flowTimeoutS) := by
      rw [← hTicks, InTime, List.pairwise_map] at hTimes
      exact
        (hTimes.and hSpans).imp
          (fun hAnd hSame => ⟨hAnd.1, hAnd.2 hSame⟩)
    rw [← hMarks, List.pairwise_map] at hBoth
    apply hBoth.imp
    intro a b hSame hFlow
    exact hSame (partName_inj hFlow).2

/-
  In the whole table, of two rows of one flow the first is
  not later, and not earlier by more than the timeout.
-/
theorem pairwise_segmented
    (flowTimeoutS : ℚ)
    (rows : List Row) :
    (segmented flowTimeoutS (sorted rows)).Pairwise
      (fun a b =>
        a.flow = b.flow →
          a.row.time ≤ b.row.time ∧
            b.row.time - a.row.time ≤ flowTimeoutS) := by
  rw [segmented_eq, List.pairwise_flatMap]
  constructor
  · intro group hGroup
    exact (nameGroup_spans hGroup flowTimeoutS).2
  · have hKeys :
        (groupsBy flowKey (sorted rows)).Pairwise
          (fun g g' => g.1 ≠ g'.1) := by
      rw [groupsBy, List.pairwise_map]
      exact List.nodup_eraseDups ((sorted rows).map flowKey)
    apply hKeys.imp_of_mem
    intro g g' hG hG' hNe a hA b hB hFlow
    rcases nameGroup_key hG hA with ⟨hKeyA, idA, hNameA⟩
    rcases nameGroup_key hG' hB with ⟨hKeyB, idB, hNameB⟩
    rw [hNameA, hNameB] at hFlow
    have hKey := (partName_inj hFlow).1
    rw [hKeyA, hKeyB] at hKey
    exact absurd hKey hNe

/- The rows are those of the table. -/
theorem map_row_segmented
    (flowTimeoutS : ℚ)
    (rows : List Row) :
    (segmented flowTimeoutS (sorted rows)).map SegRow.row =
      sorted rows := by
  have hRows :
      (groupsBy flowKey (sorted rows)).flatMap Prod.snd =
        sorted rows :=
    inGroups_of_sorted
      ((sorted_pairwise rows).imp (fun hBoth => hBoth.1))
  rw [segmented_eq, List.map_flatMap]
  conv_rhs => rw [← hRows]
  apply List.flatMap_congr
  intro group hGroup
  exact (nameGroup_spans hGroup flowTimeoutS).1

------------------------------------------------------------
-- Totals
------------------------------------------------------------

/- What depends on the group alone, over all flows. -/
theorem map_flowsOf
    {β : Type}
    {ofFlow : Assembled → β}
    {ofGroup : List DirectedRow → β}
    (hSame :
      ∀ first group, ofFlow (flowOf first group) = ofGroup group)
    (p : List DirectedRow) :
    (flowsOf p).map ofFlow =
      (groupsBy DirectedRow.flow p).map (fun group =>
        ofGroup group.2) := by
  unfold flowsOf
  rw [List.map_filterMap, ← List.filterMap_eq_map]
  apply List.filterMap_congr
  intro group hGroup
  cases hHead : group.2.head? with
  | none =>
      rw [List.head?_eq_none_iff] at hHead
      exact absurd hHead (groupsBy_ne_nil hGroup)
  | some first =>
      simp [hSame]

/- A total over all flows is one over all rows. -/
theorem sum_flowsOf
    {M : Type}
    [AddCommMonoid M]
    {ofFlow : Assembled → M}
    (ofRow : DirectedRow → M)
    (hSame :
      ∀ first group,
        ofFlow (flowOf first group) = (group.map ofRow).sum)
    (p : List DirectedRow) :
    ((flowsOf p).map ofFlow).sum = (p.map ofRow).sum := by
  rw [map_flowsOf hSame, sum_groupsBy]

theorem packets_flowOf
    (first : DirectedRow)
    (group : List DirectedRow) :
    (flowOf first group).flow.packets = group.length := by
  have hLe : group.countP DirectedRow.isFwd ≤ group.length :=
    List.countP_le_length
  unfold Flow.packets flowOf
  dsimp only
  omega

theorem payload_flowOf
    (first : DirectedRow)
    (group : List DirectedRow) :
    (flowOf first group).flow.payload =
      (group.map (fun r => r.row.payload)).sum := by
  unfold Flow.payload flowOf
  dsimp only
  rw [← List.sum_map_add]
  apply congrArg
  apply List.map_congr_left
  intro r _
  unfold DirectedRow.fwdLen DirectedRow.bwdLen
  cases r.isFwd <;> simp

/- A total over the flows, published or dropped. -/
theorem sum_published_dropped
    {M : Type}
    [AddCommMonoid M]
    (f : Assembled → M)
    (all : List Assembled) :
    ((all.filter Assembled.published).map f).sum +
        ((all.filter Assembled.dropped).map f).sum =
      (all.map f).sum := by
  have hPerm :=
    List.filter_append_perm Assembled.published all
  rw [← (hPerm.map f).sum_eq, List.map_append,
    List.sum_append]
  rfl

/- A flow has a packet, and is of the rows of a table. -/
theorem mem_flowsOf
    {p : List DirectedRow}
    {f : Assembled}
    (hMem : f ∈ flowsOf p) :
    ∃ first rest name,
      p.filter (fun r => r.flow = name) = first :: rest ∧
        f = flowOf first (first :: rest) := by
  rcases List.mem_filterMap.mp hMem with
    ⟨⟨name, group⟩, hGroup, hFlow⟩
  rcases mem_groupsBy.mp hGroup with ⟨_, rfl⟩
  cases hRows : p.filter (fun r => r.flow = name) with
  | nil => simp [hRows] at hFlow
  | cons first rest =>
      refine ⟨first, rest, name, hRows, ?_⟩
      simpa [hRows] using hFlow.symm

/- The rows of a table are in its flows, once each. -/
theorem conserved_assembleRows
    (flowTimeoutS : ℚ)
    (rows : List Row) :
    Conserved rows.length (rows.map Row.payload).sum
      (assembleRows flowTimeoutS rows) := by
  let p := direct (segmented flowTimeoutS (sorted rows))
  have hRows : (p.map DirectedRow.row).Perm rows := by
    have hSorted := map_row_segmented flowTimeoutS rows
    have hDirect :
        p.map DirectedRow.row =
          (segmented flowTimeoutS (sorted rows)).map
            SegRow.row := by
      simp only [p, direct, List.map_map]
      rfl
    rw [hDirect, hSorted]
    exact sortByKey_perm _ rows
  have hOne :
      ∀ f ∈ (flowsOf p).filter Assembled.dropped,
        f.flow.packets = 1 := by
    intro f hMem
    rcases List.mem_filter.mp hMem with ⟨hFlow, hDropped⟩
    rcases mem_flowsOf hFlow with ⟨first, rest, _, _, rfl⟩
    rw [packets_flowOf]
    simp [Assembled.dropped, Assembled.published, flowOf,
      minPacketsPerFlow] at hDropped
    simp [hDropped]
  refine
    { packets := ?_
      dropped := hOne
      payloads := ?_ }
  · have hSum :=
      sum_published_dropped (fun f => f.flow.packets)
        (flowsOf p)
    have hDropped :
        (((flowsOf p).filter Assembled.dropped).map
            (fun f => f.flow.packets)).sum =
          ((flowsOf p).filter Assembled.dropped).length := by
      rw [List.map_congr_left hOne]
      simp
    have hAll :
        ((flowsOf p).map (fun f => f.flow.packets)).sum =
          rows.length := by
      rw [sum_flowsOf (fun _ => 1) (by simp [packets_flowOf])]
      simpa using hRows.length_eq
    rw [hDropped, hAll] at hSum
    exact hSum
  · have hAll :
        ((flowsOf p).map (fun f => f.flow.payload)).sum =
          (rows.map Row.payload).sum := by
      rw [sum_flowsOf _ payload_flowOf,
        ← (hRows.map Row.payload).sum_eq, List.map_map]
      rfl
    exact (sum_published_dropped _ _).trans hAll

------------------------------------------------------------
-- Times
------------------------------------------------------------

/- The times of a flow of two packets or more. -/
theorem timely_flowOf
    {flowTimeoutS : ℚ}
    {first : DirectedRow}
    {rest : List DirectedRow}
    (hSpans :
      (first :: rest).Pairwise (fun a b =>
        a.row.time ≤ b.row.time ∧
          b.row.time - a.row.time ≤ flowTimeoutS))
    (hTwo : rest ≠ []) :
    Timely flowTimeoutS
      (flowOf first (first :: rest)).flow := by
  let times := (first :: rest).map (fun r => r.row.time)
  have hUs : (0 : ℚ) ≤ us := by norm_num [us]
  have hLength : 2 ≤ times.length := by
    have hPos := List.length_pos_of_ne_nil hTwo
    simp only [times, List.length_map, List.length_cons]
    omega
  have hDuration :
      (flowOf first (first :: rest)).flow.flowDuration =
        spread times * us := rfl
  have hIat :
      interArrival times =
        (average (gaps (sortByKey (fun t => t) times)) * us,
          largest (gaps (sortByKey (fun t => t) times)) * us) :=
    if_neg (by omega)
  have hMean :
      (flowOf first (first :: rest)).flow.flowIatMean =
        average (gaps (sortByKey (fun t => t) times)) * us :=
    congrArg Prod.fst hIat
  have hMax :
      (flowOf first (first :: rest)).flow.flowIatMax =
        largest (gaps (sortByKey (fun t => t) times)) * us :=
    congrArg Prod.snd hIat
  have hSpread : spread times ≤ flowTimeoutS := by
    have hSorted :
        times.Pairwise (fun a b => a ≤ b) := by
      rw [List.pairwise_map]
      exact hSpans.imp (fun hBoth => hBoth.1)
    have hSome : rest.map (fun r => r.row.time) ≠ [] := by
      simpa using hTwo
    rcases List.mem_map.mp (List.getLast_mem hSome) with
      ⟨r, hR, hTime⟩
    change spread (first.row.time :: _) ≤ _
    rw [spread_of_sorted hSorted, List.getLastD_eq_getLast?,
      List.getLast?_eq_some_getLast hSome, Option.getD_some,
      ← hTime]
    exact (List.rel_of_pairwise_cons hSpans hR).2
  refine
    { mean := ?_
      meanMax := ?_
      maxDuration := ?_
      duration := ?_ }
  · rw [hMean, hDuration, packets_flowOf]
    have hGaps := average_gaps_sort hLength
    rw [← hGaps]
    simp only [times, List.length_map]
    ring
  · rw [hMean, hMax]
    apply mul_le_mul_of_nonneg_right _ hUs
    apply average_le_largest
    apply List.ne_nil_of_length_pos
    rw [length_gaps, (sortByKey_perm _ times).length_eq]
    omega
  · rw [hMax, hDuration]
    exact
      mul_le_mul_of_nonneg_right (largest_gaps_sort_le times)
        hUs
  · rw [hDuration]
    exact mul_le_mul_of_nonneg_right hSpread hUs

/- Every flow that is published is as it should be. -/
theorem timely_assembleRows
    (flowTimeoutS : ℚ)
    (rows : List Row) :
    ∀ f ∈
        (assembleRows flowTimeoutS rows).filter
          Assembled.published,
      Timely flowTimeoutS f.flow := by
  intro f hMem
  rcases List.mem_filter.mp hMem with ⟨hFlow, hPublished⟩
  rcases mem_flowsOf hFlow with
    ⟨first, rest, name, hGroup, rfl⟩
  apply timely_flowOf
  · rw [← hGroup, List.pairwise_filter, direct,
      List.pairwise_map]
    apply (pairwise_segmented flowTimeoutS rows).imp
    intro a b hSpans hA hB
    rw [decide_eq_true_eq] at hA hB
    exact hSpans (hA.trans hB.symm)
  · rintro rfl
    simp [Assembled.published, flowOf, minPacketsPerFlow]
      at hPublished

end Flows

end Nidra
