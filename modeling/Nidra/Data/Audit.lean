import Nidra.Data.Episodes
import Nidra.Lib.Intervals

/-
  This file defines the merged attack episodes of a table,
  and proves when they are the gap closures of the attack
  windows in time: `findEpisodes` cuts runs by the order of
  the rows alone, so it is neighbouring attack rows far apart
  in time that it wrongly keeps together.

  Key definitions include:
    * `MergedEpisode`, `mergeEpisodes`
    * `AttackAt`
    * `GapLinked`
    * `GapClosure`
    * `NeighboursNear`

  Main declarations:
    * `mergeEpisodes_cover`
    * `linked_of_contains`
    * `gapClosure_iff`
-/

namespace Nidra

namespace Data

------------------------------------------------------------
-- Merged Episodes
------------------------------------------------------------

/- An episode with its length in windows. -/
structure MergedEpisode extends Episode where
  nWindows : ℤ
deriving DecidableEq, Repr

namespace Episode

def key (ep : Episode) : String ×ₗ ℤ :=
  toLex (ep.hostId, ep.startTs)

def interval (ep : Episode) : ℤ × ℤ :=
  (ep.startTs, ep.endTs)

def Contains
    (ep : Episode)
    (t : ℤ) : Prop :=
  ep.startTs ≤ t ∧ t ≤ ep.endTs

end Episode

/- At most the gap's windows lie from an end to a start. -/
def NearInTime
    (windowSeconds mergeGapWindows : ℤ)
    (finish start : ℤ) : Prop :=
  (start - finish) / windowSeconds - 1 ≤ mergeGapWindows

instance NearInTime.decidableRel
    (windowSeconds mergeGapWindows : ℤ) :
    DecidableRel (NearInTime windowSeconds mergeGapWindows) :=
  fun _ _ => inferInstanceAs (Decidable (_ ≤ _))

def mergedEpisode
    (windowSeconds : ℤ)
    (hostId : String)
    (i : ℤ × ℤ) : MergedEpisode :=
  { hostId := hostId
    startTs := i.1
    endTs := i.2
    nWindows := (i.2 - i.1) / windowSeconds + 1 }

/- The runs of one host, merged over the gap. -/
def mergeRuns
    (windowSeconds mergeGapWindows : ℤ)
    (hostId : String)
    (runs : List Episode) : List MergedEpisode :=
  (mergeNear (NearInTime windowSeconds mergeGapWindows)
    (runs.map Episode.interval)).map
      (mergedEpisode windowSeconds hostId)

/-
  The attack episodes of each host, with runs that are at
  most the gap apart merged into one.
-/
def mergeEpisodes
    (table : List StateRow)
    (windowSeconds mergeGapWindows : ℤ) :
    List MergedEpisode :=
  inGroups Episode.hostId
    (mergeRuns windowSeconds mergeGapWindows)
    (sortByKey Episode.key (findEpisodes table))

/- The merged episodes of one host. -/
def hostEpisodes
    (table : List StateRow)
    (windowSeconds mergeGapWindows : ℤ)
    (hostId : String) : List MergedEpisode :=
  (mergeEpisodes table windowSeconds mergeGapWindows).filter
    (fun ep => ep.hostId = hostId)

/- The runs of attack rows of one host, as intervals. -/
def attackRuns
    (table : List StateRow)
    (hostId : String) : List (ℤ × ℤ) :=
  ((findEpisodes table).filter
    (fun ep => ep.hostId = hostId)).map Episode.interval

------------------------------------------------------------
-- One Host
------------------------------------------------------------

/- Episodes come in the order of their hosts and starts. -/
theorem findEpisodes_pairwise
    (table : List StateRow) :
    (findEpisodes table).Pairwise
      (fun a b => a.key ≤ b.key) := by
  rw [findEpisodes_eq, List.pairwise_filterMap]
  refine (runs_pairwise
    (sortByKey_pairwise StateRow.key table)).2.imp ?_
  intro s t hBefore a hA b hB
  cases s with
  | nil => simp [episodeOf] at hA
  | cons first rest =>
      cases t with
      | nil => simp [episodeOf] at hB
      | cons first' rest' =>
          have hKeys := hBefore first (by simp) first'
            (by simp)
          simp only [episodeOf, Option.ite_none_right_eq_some,
            Option.some.injEq] at hA hB
          rw [← hA.2, ← hB.2]
          exact hKeys

/-
  What holds from each row to the later ones of its host
  holds from each run's end to the later runs' starts.
-/
theorem attackRuns_pairwise
    {R : ℤ → ℤ → Prop}
    {table : List StateRow}
    (hSorted :
      (sortRows table).Pairwise
        (fun a b =>
          a.hostId = b.hostId → R a.windowTs b.windowTs))
    (hostId : String) :
    (attackRuns table hostId).Pairwise
      (fun i j => R i.2 j.1) := by
  have hPairwise :
      (findEpisodes table).Pairwise
        (fun a b => a.hostId = b.hostId → R a.endTs b.startTs) := by
    rw [findEpisodes_eq, List.pairwise_filterMap]
    refine (runs_pairwise hSorted).2.imp_of_mem ?_
    intro s t hS _ hBefore a hA b hB hHost
    cases s with
    | nil => simp [episodeOf] at hA
    | cons first rest =>
        cases t with
        | nil => simp [episodeOf] at hB
        | cons first' rest' =>
            have hLast :=
              List.getLast_mem
                (show first :: rest ≠ [] by simp)
            simp only [episodeOf,
              Option.ite_none_right_eq_some,
              Option.some.injEq] at hA hB
            rw [← hA.2, ← hB.2] at hHost ⊢
            exact hBefore _ hLast first' (by simp)
              ((run_uniform hS hLast).1.trans hHost)
  unfold attackRuns
  rw [List.pairwise_map]
  refine (hPairwise.filter _).imp_of_mem ?_
  intro a b hA hB hImp
  apply hImp
  rw [of_decide_eq_true (List.mem_filter.mp hA).2,
    of_decide_eq_true (List.mem_filter.mp hB).2]

/- Runs of one host come in order. -/
theorem attackRuns_inOrder
    (table : List StateRow)
    (hostId : String) :
    IntervalsInOrder (attackRuns table hostId) := by
  refine ⟨?_, attackRuns_pairwise ?_ hostId⟩
  · intro i hI
    rcases List.mem_map.mp hI with ⟨ep, hEp, rfl⟩
    exact Episode.start_le_end_of_mem
      (List.mem_of_mem_filter hEp)
  · refine (sortByKey_pairwise StateRow.key table).imp ?_
    intro a b hKey hHost
    rcases (StateRow.key_le_iff a b).mp hKey with hLt | hTs
    · exact absurd (hHost ▸ hLt) (lt_irrefl _)
    · exact hTs.2

/- They do not touch when the windows are distinct. -/
theorem attackRuns_strict
    {table : List StateRow}
    (hDistinct : DistinctWindows table)
    (hostId : String) :
    (attackRuns table hostId).Pairwise
      (fun i j => i.2 < j.1) := by
  refine attackRuns_pairwise ?_ hostId
  refine (sortByKey_pairwise_lt hDistinct).imp ?_
  intro a b hKey hHost
  rcases (StateRow.key_lt_iff a b).mp hKey with hLt | hTs
  · exact absurd (hHost ▸ hLt) (lt_irrefl _)
  · exact hTs.2

/- The merged episodes of a host are its merged runs. -/
theorem hostEpisodes_eq
    (table : List StateRow)
    (windowSeconds mergeGapWindows : ℤ)
    (hostId : String) :
    hostEpisodes table windowSeconds mergeGapWindows hostId =
      (mergeNear (NearInTime windowSeconds mergeGapWindows)
        (attackRuns table hostId)).map
          (mergedEpisode windowSeconds hostId) := by
  unfold hostEpisodes mergeEpisodes
  rw [sortByKey_of_pairwise (findEpisodes_pairwise table)]
  have hKeyOf :
      ∀ k g,
        ∀ ep ∈ mergeRuns windowSeconds mergeGapWindows k g,
          ep.hostId = k := by
    intro k g ep hEp
    rcases List.mem_map.mp hEp with ⟨i, _, rfl⟩
    rfl
  rw [inGroups_filter hKeyOf]
  split
  · rfl
  · next hNone =>
      have hNil : attackRuns table hostId = [] := by
        unfold attackRuns
        rw [List.map_eq_nil_iff, List.filter_eq_nil_iff]
        intro ep hEp hHost
        exact hNone
          (List.mem_map.mpr
            ⟨ep, hEp, of_decide_eq_true hHost⟩)
      rw [hNil]
      rfl

theorem mem_hostEpisodes
    {table : List StateRow}
    {windowSeconds mergeGapWindows : ℤ}
    {hostId : String}
    {ep : MergedEpisode} :
    ep ∈ hostEpisodes table windowSeconds mergeGapWindows
        hostId ↔
      ep ∈ mergeEpisodes table windowSeconds
          mergeGapWindows ∧
        ep.hostId = hostId := by
  rw [hostEpisodes, List.mem_filter, decide_eq_true_iff]

/- The interval of a merged episode is a merged run. -/
theorem exists_merged_of_mem
    {table : List StateRow}
    {windowSeconds mergeGapWindows : ℤ}
    {hostId : String}
    {ep : MergedEpisode}
    (hMem :
      ep ∈ hostEpisodes table windowSeconds mergeGapWindows
        hostId) :
    ep.interval ∈
      mergeNear (NearInTime windowSeconds mergeGapWindows)
        (attackRuns table hostId) := by
  rw [hostEpisodes_eq] at hMem
  rcases List.mem_map.mp hMem with ⟨i, hI, rfl⟩
  exact hI

theorem exists_hostEpisode_of_merged
    {table : List StateRow}
    {windowSeconds mergeGapWindows : ℤ}
    {hostId : String}
    {i : ℤ × ℤ}
    (hMem :
      i ∈ mergeNear
        (NearInTime windowSeconds mergeGapWindows)
        (attackRuns table hostId)) :
    ∃ ep ∈ hostEpisodes table windowSeconds mergeGapWindows
        hostId,
      ep.interval = i := by
  rw [hostEpisodes_eq]
  exact ⟨mergedEpisode windowSeconds hostId i,
    List.mem_map_of_mem hMem, rfl⟩

------------------------------------------------------------
-- Attack Windows
------------------------------------------------------------

/- The host is under attack in the window. -/
def AttackAt
    (table : List StateRow)
    (hostId : String)
    (t : ℤ) : Prop :=
  ∃ row ∈ table,
    row.hostId = hostId ∧ row.isAttack = true ∧
      row.windowTs = t

instance AttackAt.decidable
    (table : List StateRow)
    (hostId : String)
    (t : ℤ) :
    Decidable (AttackAt table hostId t) :=
  inferInstanceAs (Decidable (∃ row ∈ table, _))

instance Episode.Contains.decidable
    (ep : Episode)
    (t : ℤ) :
    Decidable (ep.Contains t) :=
  inferInstanceAs (Decidable (_ ∧ _))

/- The run of an attack row, as an interval of its host. -/
theorem run_mem_attackRuns
    {table : List StateRow}
    {first : StateRow}
    {rest : List StateRow}
    (hRun : first :: rest ∈ runs table)
    (hAttack : first.isAttack = true) :
    (first.windowTs,
        ((first :: rest).getLast (by simp)).windowTs) ∈
      attackRuns table first.hostId := by
  have hEp :=
    mem_findEpisodes.mpr ⟨first, rest, hRun, hAttack, rfl⟩
  exact List.mem_map_of_mem
    (List.mem_filter.mpr ⟨hEp, decide_eq_true rfl⟩)

theorem exists_run_of_attackRuns
    {table : List StateRow}
    {hostId : String}
    {i : ℤ × ℤ}
    (hI : i ∈ attackRuns table hostId) :
    ∃ first rest,
      first :: rest ∈ runs table ∧
        first.isAttack = true ∧
        first.hostId = hostId ∧
        i = (first.windowTs,
          ((first :: rest).getLast (by simp)).windowTs) := by
  rcases List.mem_map.mp hI with ⟨ep, hEp, rfl⟩
  rcases List.mem_filter.mp hEp with ⟨hMem, hHost⟩
  rcases mem_findEpisodes.mp hMem with
    ⟨first, rest, hRun, hAttack, rfl⟩
  exact ⟨first, rest, hRun, hAttack,
    of_decide_eq_true hHost, rfl⟩

/- Every run of attack rows lies in a merged episode. -/
theorem exists_hostEpisode_of_run
    {table : List StateRow}
    {hostId : String}
    (windowSeconds mergeGapWindows : ℤ)
    {i : ℤ × ℤ}
    (hI : i ∈ attackRuns table hostId) :
    ∃ ep ∈ hostEpisodes table windowSeconds mergeGapWindows
        hostId,
      ep.startTs ≤ i.1 ∧ i.2 ≤ ep.endTs := by
  rcases mergeNear_covers
    (NearInTime windowSeconds mergeGapWindows)
    (attackRuns_inOrder table hostId) hI with
    ⟨j, hJ, hStart, hFinish⟩
  rcases exists_hostEpisode_of_merged hJ with ⟨ep, hEp, rfl⟩
  exact ⟨ep, hEp, hStart, hFinish⟩

/- Every attack window lies in a merged episode. -/
theorem mergeEpisodes_cover
    {table : List StateRow}
    {hostId : String}
    (windowSeconds mergeGapWindows : ℤ)
    {t : ℤ}
    (hAttack : AttackAt table hostId t) :
    ∃ ep ∈ hostEpisodes table windowSeconds mergeGapWindows
        hostId,
      ep.Contains t := by
  rcases hAttack with ⟨row, hRow, rfl, hIs, rfl⟩
  rcases exists_run_of_mem hRow with
    ⟨first, rest, hRun, hIn⟩
  rcases run_uniform hRun hIn with ⟨hHost, hSame⟩
  have hI :=
    run_mem_attackRuns hRun (hSame.symm.trans hIs)
  rw [← hHost] at hI
  rcases exists_hostEpisode_of_run windowSeconds
    mergeGapWindows hI with ⟨ep, hEp, hStart, hFinish⟩
  exact ⟨ep, hEp, hStart.trans (run_head_le hRun hIn),
    (run_le_getLast hRun hIn).trans hFinish⟩

------------------------------------------------------------
-- Gap Closures
------------------------------------------------------------

section GapClosure

variable (table : List StateRow)
variable (windowSeconds mergeGapWindows : ℤ)
variable (hostId : String)

/-
  Two attack windows of the host with at most the gap's slots
  between them.
-/
def GapStep (t u : ℤ) : Prop :=
  AttackAt table hostId t ∧ AttackAt table hostId u ∧
    slotsBetween windowSeconds t u ≤ mergeGapWindows

/- A chain of attack windows joins the two. -/
def GapLinked : ℤ → ℤ → Prop :=
  Relation.ReflTransGen
    (GapStep table windowSeconds mergeGapWindows hostId)

/-
  Episodes of a host that are its attack windows, gathered
  over gaps in time.
-/
structure GapClosure
    (episodes : List MergedEpisode) : Prop where
  disjoint :
    episodes.Pairwise
      (fun a b =>
        a.endTs < b.startTs ∨ b.endTs < a.startTs)
  ends :
    ∀ ep ∈ episodes,
      AttackAt table hostId ep.startTs ∧
        AttackAt table hostId ep.endTs
  covers :
    ∀ t, AttackAt table hostId t →
      ∃ ep ∈ episodes, ep.Contains t
  linked :
    ∀ t u, AttackAt table hostId t →
      AttackAt table hostId u →
        ((∃ ep ∈ episodes, ep.Contains t ∧ ep.Contains u) ↔
          GapLinked table windowSeconds mergeGapWindows
            hostId t u)

/-
  Attack rows of the host that stand next to each other in
  the sorted table have at most the gap's slots between them.
-/
def NeighboursNear : Prop :=
  (sortRows table).IsChain
    (fun a b =>
      a.hostId = hostId → b.hostId = hostId →
        a.isAttack = true → b.isAttack = true →
          slotsBetween windowSeconds a.windowTs b.windowTs ≤
            mergeGapWindows)

instance NeighboursNear.decidable :
    Decidable
      (NeighboursNear table windowSeconds mergeGapWindows
        hostId) :=
  inferInstanceAs (Decidable (List.IsChain _ _))

variable {table windowSeconds mergeGapWindows hostId}

theorem GapLinked.symm
    {t u : ℤ}
    (hLinked :
      GapLinked table windowSeconds mergeGapWindows hostId
        t u) :
    GapLinked table windowSeconds mergeGapWindows hostId
      u t := by
  induction hLinked with
  | refl => exact Relation.ReflTransGen.refl
  | tail hChain hStep ih =>
      rcases hStep with ⟨hX, hY, hSlots⟩
      rw [slotsBetween_comm] at hSlots
      exact Relation.ReflTransGen.head ⟨hY, hX, hSlots⟩ ih

/-
  A chain that passes a stretch without attack windows has a
  step over it.
-/
theorem slots_le_of_linked
    (hWindow : 0 < windowSeconds)
    {x y : ℤ}
    (hOrder : x < y)
    (hEmpty :
      ∀ t, AttackAt table hostId t → t ≤ x ∨ y ≤ t)
    {u : ℤ}
    (hLinked :
      GapLinked table windowSeconds mergeGapWindows hostId
        x u)
    (hPast : y ≤ u) :
    slotsBetween windowSeconds x y ≤ mergeGapWindows := by
  induction hLinked with
  | refl => omega
  | tail hChain hStep ih =>
      rename_i b c
      rcases hStep with ⟨hB, hC, hSlots⟩
      rcases hEmpty b hB with hBefore | hAfter
      · exact (slotsBetween_mono hWindow hBefore hOrder.le
          hPast).trans hSlots
      · exact ih hAfter

/- Along a run the attack windows are linked. -/
theorem linked_of_run
    (hNear :
      NeighboursNear table windowSeconds mergeGapWindows
        hostId)
    {first : StateRow}
    {rest : List StateRow}
    (hRun : first :: rest ∈ runs table)
    (hAttack : first.isAttack = true)
    (hHost : first.hostId = hostId)
    {row : StateRow}
    (hRow : row ∈ first :: rest) :
    GapLinked table windowSeconds mergeGapWindows hostId
      first.windowTs row.windowTs := by
  refine List.IsChain.induction
    (fun row =>
      GapLinked table windowSeconds mergeGapWindows hostId
        first.windowTs row.windowTs)
    (first :: rest) (List.isChain_isInfix _) ?_ ?_ row hRow
  · intro a b hPair hA
    have hInA : a ∈ first :: rest :=
      hPair.subset (by simp)
    have hInB : b ∈ first :: rest :=
      hPair.subset (by simp)
    rcases run_uniform hRun hInA with ⟨hHostA, hAttackA⟩
    rcases run_uniform hRun hInB with ⟨hHostB, hAttackB⟩
    rw [hHost] at hHostA hHostB
    rw [hAttack] at hAttackA hAttackB
    refine hA.tail ⟨?_, ?_, ?_⟩
    · exact ⟨a, run_subset hRun hInA, hHostA, hAttackA, rfl⟩
    · exact ⟨b, run_subset hRun hInB, hHostB, hAttackB, rfl⟩
    · have hChain :=
        hNear.infix (hPair.trans (run_infix_rows hRun))
      exact List.isChain_pair.mp hChain hHostA hHostB
        hAttackA hAttackB
  · intro hNe
    exact Relation.ReflTransGen.refl

theorem nearInTime_iff
    {finish start : ℤ}
    (hOrder : finish ≤ start) :
    NearInTime windowSeconds mergeGapWindows finish start ↔
      slotsBetween windowSeconds finish start ≤
        mergeGapWindows := by
  unfold NearInTime slotsBetween
  rw [abs_of_nonneg (sub_nonneg.mpr hOrder)]

/- Near runs of a host are linked across the gap. -/
theorem linked_of_near
    {i i' : ℤ × ℤ}
    (hI : i ∈ attackRuns table hostId)
    (hI' : i' ∈ attackRuns table hostId)
    (hOrder : i.2 ≤ i'.1)
    (hNear :
      NearInTime windowSeconds mergeGapWindows i.2 i'.1) :
    GapLinked table windowSeconds mergeGapWindows hostId
      i.2 i'.1 := by
  rcases List.mem_map.mp hI with ⟨ep, hEp, rfl⟩
  rcases List.mem_map.mp hI' with ⟨ep', hEp', rfl⟩
  rcases List.mem_filter.mp hEp with ⟨hMem, hHost⟩
  rcases List.mem_filter.mp hEp' with ⟨hMem', hHost'⟩
  rw [decide_eq_true_iff] at hHost hHost'
  have hEnd := (Episode.ends_of_mem hMem).2
  have hStart := (Episode.ends_of_mem hMem').1
  rw [hHost] at hEnd
  rw [hHost'] at hStart
  exact Relation.ReflTransGen.single
    ⟨hEnd, hStart, (nearInTime_iff hOrder).mp hNear⟩

------------------------------------------------------------
-- Disjointness and Separation
------------------------------------------------------------

theorem hostEpisodes_disjoint
    (hDistinct : DistinctWindows table)
    (windowSeconds mergeGapWindows : ℤ)
    (hostId : String) :
    (hostEpisodes table windowSeconds mergeGapWindows
        hostId).Pairwise
      (fun a b =>
        a.endTs < b.startTs ∨ b.endTs < a.startTs) := by
  rw [hostEpisodes_eq, List.pairwise_map]
  refine (mergeNear_strict _ (attackRuns_inOrder table hostId)
    (attackRuns_strict hDistinct hostId)).imp ?_
  intro i j hBefore
  exact Or.inl hBefore

theorem hostEpisodes_ends
    {ep : MergedEpisode}
    (hEp :
      ep ∈ hostEpisodes table windowSeconds mergeGapWindows
        hostId) :
    AttackAt table hostId ep.startTs ∧
      AttackAt table hostId ep.endTs := by
  have hRuns :
      ∀ i ∈ attackRuns table hostId,
        AttackAt table hostId i.1 ∧
          AttackAt table hostId i.2 := by
    intro i hI
    rcases List.mem_map.mp hI with ⟨run, hRun, rfl⟩
    rcases List.mem_filter.mp hRun with ⟨hMem, hHost⟩
    have hEnds := Episode.ends_of_mem hMem
    rw [of_decide_eq_true hHost] at hEnds
    exact hEnds
  rcases mergeNear_endpoints _
    (attackRuns_inOrder table hostId)
    (exists_merged_of_mem hEp) with
    ⟨⟨i, hI, hStart⟩, ⟨i', hI', hEnd⟩⟩
  have hStartTs : ep.startTs = i.1 := hStart
  have hEndTs : ep.endTs = i'.2 := hEnd
  rw [hStartTs, hEndTs]
  exact ⟨(hRuns i hI).1, (hRuns i' hI').2⟩

/- A window lies in at most one merged episode. -/
theorem hostEpisodes_unique
    (hDistinct : DistinctWindows table)
    {ep ep' : MergedEpisode}
    (hEp :
      ep ∈ hostEpisodes table windowSeconds mergeGapWindows
        hostId)
    (hEp' :
      ep' ∈ hostEpisodes table windowSeconds mergeGapWindows
        hostId)
    {t : ℤ}
    (hIn : ep.Contains t)
    (hIn' : ep'.Contains t) :
    ep = ep' := by
  by_contra hNe
  have hSymm :
      Std.Symm
        (fun a b : MergedEpisode =>
          a.endTs < b.startTs ∨ b.endTs < a.startTs) :=
    ⟨fun a b => Or.symm⟩
  have hApart :=
    (hostEpisodes_disjoint hDistinct windowSeconds
      mergeGapWindows hostId).forall hEp hEp' hNe
  rcases hIn with ⟨hStart, hEnd⟩
  rcases hIn' with ⟨hStart', hEnd'⟩
  rcases hApart with hBefore | hBefore
  · omega
  · omega

/- Two episodes of a host are more than the gap apart. -/
theorem hostEpisodes_apart
    (hWindow : 0 < windowSeconds)
    {ep ep' : MergedEpisode}
    (hEp :
      ep ∈ hostEpisodes table windowSeconds mergeGapWindows
        hostId)
    (hEp' :
      ep' ∈ hostEpisodes table windowSeconds mergeGapWindows
        hostId)
    (hNe : ep ≠ ep') :
    (ep.endTs ≤ ep'.startTs ∧
        ¬ NearInTime windowSeconds mergeGapWindows
          ep.endTs ep'.startTs) ∨
      (ep'.endTs ≤ ep.startTs ∧
        ¬ NearInTime windowSeconds mergeGapWindows
          ep'.endTs ep.startTs) := by
  have hNear :
      ∀ e s s' : ℤ,
        NearInTime windowSeconds mergeGapWindows e s' →
          s ≤ s' →
            NearInTime windowSeconds mergeGapWindows e s := by
    intro e s s' hNear hLe
    unfold NearInTime at hNear ⊢
    have hDiv :=
      Int.ediv_le_ediv hWindow (show s - e ≤ s' - e by omega)
    omega
  have hOrder := attackRuns_inOrder table hostId
  have hPairwise :
      (hostEpisodes table windowSeconds mergeGapWindows
          hostId).Pairwise
        (fun a b =>
          a.endTs ≤ b.startTs ∧
            ¬ NearInTime windowSeconds mergeGapWindows
              a.endTs b.startTs) := by
    rw [hostEpisodes_eq, List.pairwise_map]
    exact
      (hOrder.mergeNear
        (NearInTime windowSeconds mergeGapWindows)).apart.and
      (mergeNear_apart
        (NearInTime windowSeconds mergeGapWindows)
        hNear hOrder)
  have hSymm :
      Std.Symm
        (fun a b : MergedEpisode =>
          (a.endTs ≤ b.startTs ∧
              ¬ NearInTime windowSeconds mergeGapWindows
                a.endTs b.startTs) ∨
            (b.endTs ≤ a.startTs ∧
              ¬ NearInTime windowSeconds mergeGapWindows
                b.endTs a.startTs)) :=
    ⟨fun a b => Or.symm⟩
  have hEither := hPairwise.imp
    (fun {a b} hBefore => Or.inl (b :=
      b.endTs ≤ a.startTs ∧
        ¬ NearInTime windowSeconds mergeGapWindows
          b.endTs a.startTs) hBefore)
  exact hEither.forall hEp hEp' hNe

------------------------------------------------------------
-- The Closure
------------------------------------------------------------

/- The attack windows of an episode are linked. -/
theorem linked_of_contains
    (hDistinct : DistinctWindows table)
    (hNear :
      NeighboursNear table windowSeconds mergeGapWindows
        hostId)
    {ep : MergedEpisode}
    (hEp :
      ep ∈ hostEpisodes table windowSeconds mergeGapWindows
        hostId)
    {t : ℤ}
    (hAttack : AttackAt table hostId t)
    (hIn : ep.Contains t) :
    GapLinked table windowSeconds mergeGapWindows hostId
      ep.startTs t := by
  rcases hAttack with ⟨row, hRow, hRowHost, hIs, rfl⟩
  rcases exists_run_of_mem hRow with
    ⟨first, rest, hRun, hInRun⟩
  rcases run_uniform hRun hInRun with ⟨hSameHost, hSame⟩
  have hFirst : first.isAttack = true := hSame.symm.trans hIs
  have hHost : first.hostId = hostId :=
    hSameHost.symm.trans hRowHost
  have hI := run_mem_attackRuns hRun hFirst
  rw [hHost] at hI
  -- The run lies in the episode that its row lies in.
  rcases exists_hostEpisode_of_run windowSeconds
    mergeGapWindows hI with ⟨ep', hEp', hStart, hFinish⟩
  have hIn' : ep'.Contains row.windowTs :=
    ⟨hStart.trans (run_head_le hRun hInRun),
      (run_le_getLast hRun hInRun).trans hFinish⟩
  have hSameEp := hostEpisodes_unique hDistinct hEp hEp' hIn hIn'
  subst hSameEp
  -- The start is linked to the end of each run in it.
  have hToEnd :=
    mergeNear_linked
      (NearInTime windowSeconds mergeGapWindows)
      (fun _ => Relation.ReflTransGen.refl)
      (fun _ _ _ => Relation.ReflTransGen.trans)
      (attackRuns_inOrder table hostId)
      (by
        intro k hK
        rcases exists_run_of_attackRuns hK with
          ⟨first', rest', hRun', hAttack', hHost', rfl⟩
        exact linked_of_run hNear hRun' hAttack' hHost'
          (List.getLast_mem (by simp)))
      (by
        intro k hK k' hK' hOrder hGap
        exact linked_of_near hK hK' hOrder hGap)
      (exists_merged_of_mem hEp) hI hStart hFinish
  have hRunEnd :=
    linked_of_run hNear hRun hFirst hHost
      (List.getLast_mem (by simp))
  have hRunRow := linked_of_run hNear hRun hFirst hHost hInRun
  exact hToEnd.trans (hRunEnd.symm.trans hRunRow)

/- Attack windows joined by a step lie in one episode. -/
theorem contains_of_step
    (hWindow : 0 < windowSeconds)
    {ep : MergedEpisode}
    (hEp :
      ep ∈ hostEpisodes table windowSeconds mergeGapWindows
        hostId)
    {t u : ℤ}
    (hIn : ep.Contains t)
    (hStep :
      GapStep table windowSeconds mergeGapWindows hostId
        t u) :
    ep.Contains u := by
  rcases hStep with ⟨_, hAttack, hSlots⟩
  rcases mergeEpisodes_cover windowSeconds mergeGapWindows
    hAttack with ⟨ep', hEp', hIn'⟩
  by_cases hSame : ep = ep'
  · subst hSame
    exact hIn'
  · exfalso
    rcases hIn with ⟨hStart, hEnd⟩
    rcases hIn' with ⟨hStart', hEnd'⟩
    rcases hostEpisodes_apart hWindow hEp hEp' hSame with
      ⟨hOrder, hFar⟩ | ⟨hOrder, hFar⟩
    · apply hFar
      rw [nearInTime_iff hOrder]
      exact (slotsBetween_mono hWindow hEnd hOrder
        hStart').trans hSlots
    · apply hFar
      rw [nearInTime_iff hOrder]
      rw [slotsBetween_comm] at hSlots
      exact (slotsBetween_mono hWindow hEnd' hOrder
        hStart).trans hSlots

/-
  The merged episodes of a host are its gap closures exactly
  when neighbouring attack rows of the host are near in time.
-/
theorem gapClosure_iff
    (hWindow : 0 < windowSeconds)
    (hDistinct : DistinctWindows table)
    (mergeGapWindows : ℤ)
    (hostId : String) :
    GapClosure table windowSeconds mergeGapWindows hostId
        (hostEpisodes table windowSeconds mergeGapWindows
          hostId) ↔
      NeighboursNear table windowSeconds mergeGapWindows
        hostId := by
  constructor
  · intro hClosure
    refine (List.isChain_isInfix (sortRows table)).imp ?_
    intro a b hPair hHostA hHostB hAttackA hAttackB
    have hInA : a ∈ table :=
      mem_sortRows.mp (hPair.subset (by simp))
    have hInB : b ∈ table :=
      mem_sortRows.mp (hPair.subset (by simp))
    have hTogether : sameRun a b = true := by
      rw [sameRun_iff]
      exact ⟨hHostA.trans hHostB.symm,
        hAttackA.trans hAttackB.symm⟩
    -- Neighbours lie in one run, so in one episode.
    rcases exists_run_of_pair hPair hTogether with
      ⟨first, rest, hRun, hRunA, hRunB⟩
    rcases run_uniform hRun hRunA with ⟨hHost, hSame⟩
    have hI := run_mem_attackRuns hRun
      (hSame.symm.trans hAttackA)
    rw [← hHost, hHostA] at hI
    rcases exists_hostEpisode_of_run windowSeconds
      mergeGapWindows hI with ⟨ep, hEp, hStart, hFinish⟩
    have hLinked :=
      (hClosure.linked a.windowTs b.windowTs
        ⟨a, hInA, hHostA, hAttackA, rfl⟩
        ⟨b, hInB, hHostB, hAttackB, rfl⟩).mp
        ⟨ep, hEp,
          ⟨hStart.trans (run_head_le hRun hRunA),
            (run_le_getLast hRun hRunA).trans hFinish⟩,
          ⟨hStart.trans (run_head_le hRun hRunB),
            (run_le_getLast hRun hRunB).trans hFinish⟩⟩
    -- The chain steps over the stretch between them.
    have hKeys :=
      (not_between_neighbours hDistinct hPair hInA).1
    have hOrder : a.windowTs < b.windowTs := by
      rcases (StateRow.key_lt_iff a b).mp hKeys with
        hLt | hTs
      · rw [hHostA, hHostB] at hLt
        exact absurd hLt (lt_irrefl _)
      · exact hTs.2
    refine slots_le_of_linked hWindow hOrder ?_ hLinked le_rfl
    rintro t ⟨row, hRow, hRowHost, _, rfl⟩
    rcases (not_between_neighbours hDistinct hPair hRow).2
      with hBefore | hAfter
    · rcases (StateRow.key_le_iff row a).mp hBefore with
        hLt | hTs
      · rw [hRowHost, hHostA] at hLt
        exact absurd hLt (lt_irrefl _)
      · exact Or.inl hTs.2
    · rcases (StateRow.key_le_iff b row).mp hAfter with
        hLt | hTs
      · rw [hRowHost, hHostB] at hLt
        exact absurd hLt (lt_irrefl _)
      · exact Or.inr hTs.2
  · intro hNear
    refine ⟨?_, ?_, ?_, ?_⟩
    · exact hostEpisodes_disjoint hDistinct windowSeconds
        mergeGapWindows hostId
    · intro ep hEp
      exact hostEpisodes_ends hEp
    · intro t hAttack
      exact mergeEpisodes_cover windowSeconds mergeGapWindows
        hAttack
    · intro t u hT hU
      constructor
      · rintro ⟨ep, hEp, hInT, hInU⟩
        have hToT := linked_of_contains hDistinct hNear hEp
          hT hInT
        have hToU := linked_of_contains hDistinct hNear hEp
          hU hInU
        exact hToT.symm.trans hToU
      · intro hLinked
        rcases mergeEpisodes_cover windowSeconds
          mergeGapWindows hT with ⟨ep, hEp, hIn⟩
        refine ⟨ep, hEp, hIn, ?_⟩
        clear hU
        induction hLinked with
        | refl => exact hIn
        | tail hChain hStep ih =>
            exact contains_of_step hWindow hEp ih hStep

end GapClosure

------------------------------------------------------------
-- Two Captures
------------------------------------------------------------

/-
  Two captures of one host, a day apart: the first ends with
  an attack window and the second begins with one.
-/
def twoCaptures : DayTables := fun day =>
  if day = "monday" then
    some
      [ silentRow "10.0.0.1" 0 .benign,
        silentRow "10.0.0.1" 60 .c2 ]
  else if day = "tuesday" then
    some
      [ silentRow "10.0.0.1" 86400 .c2,
        silentRow "10.0.0.1" 86460 .benign ]
  else none

def bothTested : SplitRoles :=
  { trainDays := []
    testDays := ["monday", "tuesday"]
    holdoutDays := []
    valFraction := 1 / 5
    valBlockPerDay := true
    preOnsetMarginS := defaultPreOnsetMarginS
    valDays := []
    valCarveTrainDays := [] }

/- One capture with a pause of one window in its attack. -/
def pausedCapture : List StateRow :=
  [ silentRow "10.0.0.1" 0 .c2,
    silentRow "10.0.0.1" 60 .benign,
    silentRow "10.0.0.1" 120 .c2 ]

theorem gapClosure_pausedCapture :
    GapClosure pausedCapture 60 1 "10.0.0.1"
      (hostEpisodes pausedCapture 60 1 "10.0.0.1") :=
  (gapClosure_iff (by decide) (by decide +kernel) 1
    "10.0.0.1").mpr (by decide +kernel)

/-
  In the test part of both captures, the two attack windows
  lie in one episode of a day, with a gap of five windows.
-/
theorem not_gapClosure_twoCaptures :
    ∃ parts,
      buildParts twoCaptures bothTested = .ok parts ∧
        DistinctWindows parts.test ∧
        WindowAligned 60 parts.test ∧
        ¬ GapClosure parts.test 60 5 "10.0.0.1"
          (hostEpisodes parts.test 60 5 "10.0.0.1") := by
  refine ⟨_, rfl, by decide +kernel, by decide +kernel, ?_⟩
  intro hClosure
  have hTogether :
      ∃ ep ∈ hostEpisodes
          (twoCaptures.concat bothTested.testDays) 60 5
          "10.0.0.1",
        ep.Contains 60 ∧ ep.Contains 86400 := by
    decide +kernel
  have hEmpty :
      ∀ row ∈ twoCaptures.concat bothTested.testDays,
        row.isAttack = true →
          row.windowTs ≤ 60 ∨ 86400 ≤ row.windowTs := by
    decide +kernel
  have hLinked :=
    (hClosure.linked 60 86400 (by decide +kernel)
      (by decide +kernel)).mp hTogether
  have hSlots :=
    slots_le_of_linked (by decide) (by decide)
      (by
        rintro t ⟨row, hRow, _, hAttack, rfl⟩
        exact hEmpty row hRow hAttack)
      hLinked le_rfl
  exact absurd hSlots (by decide)

end Data

end Nidra
