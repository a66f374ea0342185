import Nidra.Data.Table
import Nidra.Training.StateTable

/-
  This file defines the labels of a state table: the most
  severe stage among the flows of each host and window, and
  whether an attack follows within the next windows.

  Key definitions include:
    * `Stage.severity`
    * `LabelDialect`, `mostSevere`, `labelStageTable`
    * `riskLabelFromAttackFlags`
    * `attachRiskLabel`, `reattachRiskLabel`

  Main declarations:
    * `mostSevere_spec`
    * `riskLabelFromAttackFlags_eq_one`
-/

namespace Nidra

/- The place of a stage in the order of severity. -/
def Stage.severity : Stage → ℕ
  | .benign => 0
  | .recon => 1
  | .initialAccess => 2
  | .lateral => 3
  | .c2 => 4
  | .exfil => 5

namespace Data

open Training

------------------------------------------------------------
-- Stages
------------------------------------------------------------

/-
  A label taxonomy: the stage that each raw label is mapped
  to, and whether a rule of it matches the label.
-/
structure LabelDialect where
  mapLabelToStage : String → Stage
  isRecognised : String → Bool

section StageTable

variable {𝕜 : Type}
variable (dialect : LabelDialect)

/- The first of the most severe stages of some flows. -/
def mostSevere (group : List (FlowRow 𝕜)) : Stage :=
  ((group.map
    (fun row => dialect.mapLabelToStage row.label)).argmax
      Stage.severity).getD .benign

/-
  The most severe stage of every host and window with a flow,
  and the labels that no rule matches.
-/
def labelStageTable
    (flows : List (FlowRow 𝕜)) :
    List (HostWindow × Stage) × List String :=
  let groups :=
    sortByKey (fun g => toLex g.1)
      (groupsBy FlowRow.key flows)
  let unmapped :=
    (flows.map FlowRow.label).filter
      (fun label => !dialect.isRecognised label)
  (groups.map (fun g => (g.1, mostSevere dialect g.2)),
    sortByKey id unmapped.eraseDups)

/- No flow of a group is more severe than its stage. -/
theorem mostSevere_spec
    {group : List (FlowRow 𝕜)}
    (hGroup : group ≠ []) :
    (∃ row ∈ group,
      dialect.mapLabelToStage row.label =
        mostSevere dialect group) ∧
    ∀ row ∈ group,
      (dialect.mapLabelToStage row.label).severity ≤
        (mostSevere dialect group).severity := by
  let stages :=
    group.map
      (fun row => dialect.mapLabelToStage row.label)
  have hSome : stages.argmax Stage.severity ≠ none := by
    rw [Ne, List.argmax_eq_none]
    simpa [stages] using hGroup
  rcases Option.ne_none_iff_exists'.mp hSome with
    ⟨stage, hStage⟩
  have hMost : mostSevere dialect group = stage := by
    unfold mostSevere
    rw [hStage]
    rfl
  rw [hMost]
  constructor
  · exact List.mem_map.mp (List.argmax_mem hStage)
  · intro row hRow
    exact
      List.le_of_mem_argmax
        (List.mem_map.mpr ⟨row, hRow, rfl⟩) hStage

end StageTable

------------------------------------------------------------
-- Risk
------------------------------------------------------------

/- How many of the first windows are attacks. -/
def cumulativeAttacks
    (isAttack : List Bool)
    (count : ℕ) : ℕ :=
  ((isAttack.take count).map Bool.toNat).sum

/-
  For each window of one host, whether any of the next
  windows is an attack.
-/
def riskLabelFromAttackFlags
    (isAttack : List Bool)
    (horizonK : ℕ) : List ℕ :=
  let n := isAttack.length
  (List.range n).map (fun idx =>
    let hi := min n (idx + 1 + horizonK)
    let ahead : ℤ :=
      (cumulativeAttacks isAttack hi : ℤ) -
        cumulativeAttacks isAttack (idx + 1)
    if 0 < ahead then 1 else 0)

@[simp] theorem length_riskLabelFromAttackFlags
    (isAttack : List Bool)
    (horizonK : ℕ) :
    (riskLabelFromAttackFlags isAttack horizonK).length =
      isAttack.length := by
  simp [riskLabelFromAttackFlags]

theorem cumulativeAttacks_succ
    (isAttack : List Bool)
    {count : ℕ}
    (hCount : count < isAttack.length) :
    cumulativeAttacks isAttack (count + 1) =
      cumulativeAttacks isAttack count +
        isAttack[count].toNat := by
  unfold cumulativeAttacks
  rw [List.take_succ_eq_append_getElem hCount,
    List.map_append, List.sum_append]
  simp

/- More windows hold an attack when one is among them. -/
theorem cumulativeAttacks_lt
    (isAttack : List Bool)
    {lo hi : ℕ}
    (hOrder : lo ≤ hi)
    (hBound : hi ≤ isAttack.length) :
    cumulativeAttacks isAttack lo <
        cumulativeAttacks isAttack hi ↔
      ∃ j, lo ≤ j ∧ j < hi ∧ isAttack[j]? = some true := by
  induction hi with
  | zero =>
      have hLo : lo = 0 := by omega
      rw [hLo]
      simp
  | succ hi ih =>
      by_cases hLast : lo = hi + 1
      · rw [hLast]
        constructor
        · intro hLess
          omega
        · rintro ⟨j, hFrom, hTo, _⟩
          omega
      · have hStep := ih (by omega) (by omega)
        have hMono :
            cumulativeAttacks isAttack lo ≤
              cumulativeAttacks isAttack hi := by
          unfold cumulativeAttacks
          apply List.Sublist.sum_le_sum
          · exact
              (List.take_sublist_take_left (by omega)).map _
          · intro x _
            exact Nat.zero_le x
        rw [cumulativeAttacks_succ isAttack (by omega)]
        cases hFlag : isAttack[hi] with
        | true =>
            constructor
            · intro _
              refine ⟨hi, by omega, by omega, ?_⟩
              rw [List.getElem?_eq_getElem (by omega), hFlag]
            · intro _
              rw [Bool.toNat_true]
              omega
        | false =>
            rw [Bool.toNat_false, Nat.add_zero, hStep]
            constructor
            · rintro ⟨j, hFrom, hTo, hAttack⟩
              exact ⟨j, hFrom, by omega, hAttack⟩
            · rintro ⟨j, hFrom, hTo, hAttack⟩
              refine ⟨j, hFrom, ?_, hAttack⟩
              by_contra hNot
              have hJ : j = hi := by omega
              subst hJ
              rw [List.getElem?_eq_getElem (by omega),
                hFlag] at hAttack
              cases hAttack

/- A window is labelled when one of the next is an attack. -/
theorem riskLabelFromAttackFlags_eq_one
    (isAttack : List Bool)
    (horizonK : ℕ)
    {idx : ℕ}
    (hIdx : idx < isAttack.length) :
    (riskLabelFromAttackFlags isAttack horizonK)[idx]? =
        some 1 ↔
      ∃ j, idx < j ∧ j ≤ idx + horizonK ∧
        isAttack[j]? = some true := by
  have hAhead :=
    cumulativeAttacks_lt isAttack
      (show idx + 1 ≤
        min isAttack.length (idx + 1 + horizonK) by omega)
      (Nat.min_le_left _ _)
  unfold riskLabelFromAttackFlags
  rw [List.getElem?_map, List.getElem?_range hIdx,
    Option.map_some, Option.some.injEq]
  have hOne :
      ∀ p : Prop, ∀ [Decidable p],
        ((if p then 1 else 0 : ℕ) = 1 ↔ p) := by
    intro p _
    split <;> simp [*]
  rw [hOne, sub_pos, Nat.cast_lt, hAhead]
  constructor
  · rintro ⟨j, hFrom, hTo, hAttack⟩
    exact ⟨j, by omega, by omega, hAttack⟩
  · rintro ⟨j, hFrom, hTo, hAttack⟩
    have hBound : j < isAttack.length := by
      rcases List.getElem?_eq_some_iff.mp hAttack with
        ⟨hBound, _⟩
      exact hBound
    exact ⟨j, by omega, by omega, hAttack⟩

/- Rows with the labels computed for them. -/
def withRisk
    (rows : List StateRow)
    (risk : List ℕ) : List StateRow :=
  List.zipWith
    (fun row label => { row with riskLabel := label })
    rows risk

/- The rows of one host with their risk labels. -/
def hostRisk
    (horizonK : ℕ)
    (rows : List StateRow) : List StateRow :=
  withRisk rows
    (riskLabelFromAttackFlags (rows.map StateRow.isAttack)
      horizonK)

/- Compute the risk labels again, host by host. -/
def reattachRiskLabel
    (labelled : List StateRow)
    (horizonK : ℕ) : List StateRow :=
  inGroups StateRow.hostId
    (fun _ rows => hostRisk horizonK rows)
    (sortRows labelled)

/- A state table with its stages and risk labels. -/
def attachRiskLabel
    (stateTable : List (HostWindow × FeatureVector ℚ))
    (stageTable : List (HostWindow × Stage))
    (horizonK : ℕ) : List StateRow :=
  let labelled :=
    stateTable.map (fun row =>
      { hostId := row.1.1
        windowTs := row.1.2
        features := row.2
        stageLabel :=
          (lookupKey stageTable row.1).getD .benign
        riskLabel := 0
        splitGroup := none })
  reattachRiskLabel (sortRows labelled) horizonK

------------------------------------------------------------
-- What labelling keeps
------------------------------------------------------------

/- A row without its risk label. -/
def StateRow.unlabelled (row : StateRow) : StateRow :=
  { row with riskLabel := 0 }

theorem map_unlabelled_withRisk
    {rows : List StateRow}
    {risk : List ℕ}
    (hLength : risk.length = rows.length) :
    (withRisk rows risk).map StateRow.unlabelled =
      rows.map StateRow.unlabelled := by
  unfold withRisk
  rw [List.map_zipWith]
  apply List.ext_getElem
  · simp [hLength]
  · intro i hLeft hRight
    simp [StateRow.unlabelled]

theorem map_unlabelled_hostRisk
    (horizonK : ℕ)
    (rows : List StateRow) :
    (hostRisk horizonK rows).map StateRow.unlabelled =
      rows.map StateRow.unlabelled := by
  apply map_unlabelled_withRisk
  simp

/- Labelling changes nothing but the risk labels. -/
theorem reattachRiskLabel_perm
    (labelled : List StateRow)
    (horizonK : ℕ) :
    ((reattachRiskLabel labelled horizonK).map
        StateRow.unlabelled).Perm
      (labelled.map StateRow.unlabelled) := by
  have hGroups :
      (reattachRiskLabel labelled horizonK).map
          StateRow.unlabelled =
        (inGroups StateRow.hostId (fun _ rows => rows)
          (sortRows labelled)).map StateRow.unlabelled := by
    unfold reattachRiskLabel inGroups
    rw [List.map_flatMap, List.map_flatMap]
    apply List.flatMap_congr
    intro g _
    exact map_unlabelled_hostRisk horizonK g.2
  rw [hGroups]
  exact
    ((inGroups_perm _ _).trans (sortByKey_perm _ _)).map _

theorem reattachRiskLabel_keys
    (labelled : List StateRow)
    (horizonK : ℕ) :
    ((reattachRiskLabel labelled horizonK).map
        StateRow.key).Perm
      (labelled.map StateRow.key) := by
  have hPerm :=
    (reattachRiskLabel_perm labelled horizonK).map
      StateRow.key
  rw [List.map_map, List.map_map] at hPerm
  exact hPerm

theorem mem_reattachRiskLabel
    {labelled : List StateRow}
    {horizonK : ℕ}
    {row : StateRow} :
    (∃ labelledRow ∈ reattachRiskLabel labelled horizonK,
        labelledRow.unlabelled = row.unlabelled) ↔
      ∃ labelledRow ∈ labelled,
        labelledRow.unlabelled = row.unlabelled := by
  have hIff :=
    (reattachRiskLabel_perm labelled horizonK).mem_iff
      (a := row.unlabelled)
  simpa only [List.mem_map] using hIff

end Data

end Nidra
