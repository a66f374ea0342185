import Nidra.Lib.GroupMeans
import Nidra.Training.OnsetLoss

/-
  This file defines the weights that the heads are trained
  with, and the losses that use them, and proves what the
  weighted losses are means of: the risk loss of a mean over
  the attack stages among the positives, and the stage loss
  of a mean over the stages that occur.

  Key definitions include:
    * `stageBalancedSampleWeights`, `riskHeadLoss`
    * `computeClassWeights`, `stageHeadLoss`

  Main declarations:
    * `sum_stageBalanced`
    * `riskHeadLoss_stageBalanced`
    * `stageHeadLoss_classMeans`
-/

namespace Nidra

namespace Training

section Definitions

variable {S 𝕜 : Type}
variable [Field 𝕜] [LinearOrder 𝕜]
variable [DecidableEq S]

------------------------------------------------------------
-- The risk head
------------------------------------------------------------

/- The stages of the positive rows. -/
def positiveStages (rows : List (ℤ × S)) : List S :=
  (rows.filter (fun row => row.1 = 1)).map Prod.snd

/- A positive counts by how rare its stage is. -/
def inverseFrequency (positive : List S) (g : S) : 𝕜 :=
  1 / (positive.count g : 𝕜)

/-
  The weights of the rows: negatives count one, and positives
  by their stages, so that all of them count as before.
-/
def stageBalancedSampleWeights
    (risk : List ℤ)
    (stages : List S) : Except String (List 𝕜) :=
  if risk.length ≠ stages.length then
    .error
      s!"{risk.length} labels against {stages.length} stages"
  else
    let rows := risk.zip stages
    let positive := positiveStages rows
    if positive = [] then .ok (risk.map (fun _ => 1))
    else
      let total : 𝕜 :=
        (positive.map (inverseFrequency positive)).sum
      .ok
        (rows.map
          (fun row =>
            if row.1 = 1 then
              inverseFrequency positive row.2 *
                ((positive.length : 𝕜) / total)
            else 1))

variable [ExpLog 𝕜]

/- Cross entropy where positives count so much more. -/
def bcePosWeight
    (posWeight : Option 𝕜)
    (logit label : 𝕜) : 𝕜 :=
  (1 - label) * logit +
    ((posWeight.getD 1 - 1) * label + 1) *
      (ExpLog.log (1 + ExpLog.exp (-|logit|)) +
        max (-logit) 0)

def riskHeadLoss
    (perRow : List 𝕜)
    (sampleWeight : Option (List 𝕜)) : 𝕜 :=
  match sampleWeight with
  | none => average perRow
  | some w =>
      if w.sum ≤ 0 then average perRow
      else (List.zipWith (· * ·) perRow w).sum / w.sum

end Definitions

------------------------------------------------------------
-- The stage head
------------------------------------------------------------

section Classes

variable {𝕜 : Type}
variable [Field 𝕜]

/- How many classes are counted: all that occur at least. -/
def binCount
    (stageIdx : List ℕ)
    (nClasses : ℕ) : ℕ :=
  stageIdx.foldr (fun c n => max (c + 1) n) nClasses

/- How often each class occurs, once at least. -/
def clippedCounts
    (stageIdx : List ℕ)
    (nClasses : ℕ) : List ℕ :=
  (List.range (binCount stageIdx nClasses)).map
    (fun c => max (stageIdx.count c) 1)

def computeClassWeights
    (stageIdx : List ℕ)
    (nClasses : ℕ) : List 𝕜 :=
  let counts := clippedCounts stageIdx nClasses
  counts.map
    (fun count : ℕ =>
      (counts.sum : 𝕜) / ((nClasses : 𝕜) * (count : 𝕜)))

/-
  Cross entropy with class weights: each row counts by the
  weight of its class, and the loss is the weighted mean.
-/
def stageHeadLoss
    (perRow : List 𝕜)
    (labels : List ℕ)
    (classWeights : List 𝕜) : 𝕜 :=
  let weights := labels.map (fun c => classWeights.getD c 0)
  (List.zipWith (· * ·) perRow weights).sum / weights.sum

end Classes

------------------------------------------------------------
-- What the risk loss is a mean of
------------------------------------------------------------

section Stages

variable {ρ S 𝕜 : Type}
variable [DecidableEq S]
variable [Field 𝕜] [LinearOrder 𝕜] [IsStrictOrderedRing 𝕜]
variable (risk : ρ → ℤ)
variable (stage : ρ → S)

/- The positive rows, and the others. -/
def positiveRows (rows : List ρ) : List ρ :=
  rows.filter (fun row => risk row = 1)

def otherRows (rows : List ρ) : List ρ :=
  rows.filter (fun row => ¬ risk row = 1)

/- The weight of a row. -/
def rowWeight
    (rows : List ρ)
    (row : ρ) : 𝕜 :=
  let positive := (positiveRows risk rows).map stage
  if risk row = 1 then
    inverseFrequency positive (stage row) *
      ((positive.length : 𝕜) /
        (positive.map (inverseFrequency positive)).sum)
  else 1

omit [LinearOrder 𝕜] [IsStrictOrderedRing 𝕜] in
theorem stageBalancedSampleWeights_eq (rows : List ρ) :
    stageBalancedSampleWeights (rows.map risk)
        (rows.map stage) =
      .ok (rows.map (rowWeight risk stage rows : ρ → 𝕜)) := by
  have hZip :
      (rows.map risk).zip (rows.map stage) =
        rows.map (fun row => (risk row, stage row)) :=
    List.zip_map'
  have hPositive :
      positiveStages
          ((rows.map risk).zip (rows.map stage)) =
        (positiveRows risk rows).map stage := by
    rw [hZip]
    unfold positiveStages positiveRows
    rw [List.filter_map, List.map_map]
    rfl
  unfold stageBalancedSampleWeights
  rw [if_neg (by simp)]
  dsimp only
  rw [hPositive, hZip]
  split
  · rename_i hNone
    congr 1
    rw [List.map_map]
    apply List.map_congr_left
    intro row hRow
    have hNot : ¬ risk row = 1 := by
      intro hIs
      have hMem : row ∈ positiveRows risk rows :=
        List.mem_filter.mpr ⟨hRow, decide_eq_true hIs⟩
      rw [List.map_eq_nil_iff.mp hNone] at hMem
      cases hMem
    unfold rowWeight
    rw [if_neg hNot]
    rfl
  · congr 1
    rw [List.map_map]
    rfl

/-
  The weights move only the mix of the positives: whatever is
  summed over the rows, the others count as they do, and the
  positives count as often as the mean over their stages of
  the mean over each.
-/
theorem sum_stageBalanced
    (value : ρ → 𝕜)
    (rows : List ρ) :
    (rows.map
        (fun row =>
          value row * rowWeight risk stage rows row)).sum =
      ((otherRows risk rows).map value).sum +
        ((positiveRows risk rows).length : 𝕜) *
          groupMean stage value (positiveRows risk rows) := by
  have hSplit :=
    ((List.filter_append_perm
        (fun row => decide (risk row = 1)) rows).map
      (fun row =>
        value row * rowWeight risk stage rows row)).sum_eq
  rw [← hSplit, List.map_append, List.sum_append, add_comm]
  congr 1
  · have hOthers :
        rows.filter (fun row => !decide (risk row = 1)) =
          otherRows risk rows := by
      unfold otherRows
      apply List.filter_congr
      intro row _
      simp
    rw [hOthers]
    congr 1
    apply List.map_congr_left
    intro row hRow
    have hNot : ¬ risk row = 1 := by
      simpa using (List.mem_filter.mp hRow).2
    unfold rowWeight
    rw [if_neg hNot, mul_one]
  · have hPositives :
        rows.filter (fun row => decide (risk row = 1)) =
          positiveRows risk rows := rfl
    rw [hPositives, ← weightedMean_eq_groupMean]
    generalize hTotal :
      ((positiveRows risk rows).map
        (fun row =>
          1 /
            ((((positiveRows risk rows).map stage).count
              (stage row) : ℕ) : 𝕜))).sum = total
    have hWeights :
        (positiveRows risk rows).map
            (fun row =>
              value row * rowWeight risk stage rows row) =
          (positiveRows risk rows).map
            (fun row =>
              value row /
                  ((((positiveRows risk rows).map stage).count
                    (stage row) : ℕ) : 𝕜) *
                (((positiveRows risk rows).length : 𝕜) /
                  total)) := by
      apply List.map_congr_left
      intro row hRow
      have hIs : risk row = 1 := by
        simpa using (List.mem_filter.mp hRow).2
      unfold rowWeight
      rw [if_pos hIs, List.map_map, List.length_map, ← hTotal]
      unfold inverseFrequency
      dsimp only [Function.comp_def]
      ring
    rw [hWeights, List.sum_map_mul_right]
    ring

/- All rows together count as many as they are. -/
theorem sum_rowWeight (rows : List ρ) :
    (rows.map (rowWeight risk stage rows : ρ → 𝕜)).sum =
      (rows.length : 𝕜) := by
  have hSum :=
    sum_stageBalanced risk stage (fun _ => (1 : 𝕜)) rows
  have hLengths :
      (positiveRows risk rows).length +
          (otherRows risk rows).length =
        rows.length := by
    rw [List.length_eq_length_filter_add
      (fun row => decide (risk row = 1)) (l := rows)]
    congr 2
    unfold otherRows
    apply List.filter_congr
    intro row _
    simp
  simp only [one_mul] at hSum
  rw [hSum, ← hLengths, Nat.cast_add, add_comm]
  congr 1
  · rcases eq_or_ne (positiveRows risk rows) [] with
      hNone | hSome
    · rw [hNone]
      simp
    · rw [groupMean_one stage hSome, mul_one]
  · simp

end Stages

/- A row as a head is trained on it. -/
structure HeadRow (S 𝕜 : Type) where
  logit : 𝕜
  risk : ℤ
  stage : S

section Losses

variable {S 𝕜 : Type}
variable [DecidableEq S]
variable [Field 𝕜] [LinearOrder 𝕜] [IsStrictOrderedRing 𝕜]

omit [LinearOrder 𝕜] [IsStrictOrderedRing 𝕜] in
theorem sum_zipWith_map
    {ρ : Type}
    (f g : ρ → 𝕜)
    (rows : List ρ) :
    (List.zipWith (· * ·) (rows.map f) (rows.map g)).sum =
      (rows.map (fun row => f row * g row)).sum := by
  rw [List.zipWith_map, List.zipWith_self]

/-
  The loss that is balanced over the stages: its positives
  count as many as they are, and enter by the mean over their
  stages of the mean over each.
-/
theorem riskHeadLoss_stageBalanced
    [ExpLog 𝕜]
    (posWeight : Option 𝕜)
    {rows : List (HeadRow S 𝕜)}
    (hRows : rows ≠ []) :
    ∃ w,
      stageBalancedSampleWeights (rows.map HeadRow.risk)
            (rows.map HeadRow.stage) =
          .ok w ∧
        w.sum = (rows.length : 𝕜) ∧
        let loss := fun row : HeadRow S 𝕜 =>
          bcePosWeight posWeight row.logit (row.risk : 𝕜)
        riskHeadLoss (rows.map loss) (some w) =
          (((otherRows HeadRow.risk rows).map loss).sum +
              ((positiveRows HeadRow.risk rows).length : 𝕜) *
                groupMean HeadRow.stage loss
                  (positiveRows HeadRow.risk rows)) /
            (rows.length : 𝕜) := by
  refine ⟨_,
    stageBalancedSampleWeights_eq HeadRow.risk HeadRow.stage
      rows,
    sum_rowWeight HeadRow.risk HeadRow.stage rows, ?_⟩
  intro loss
  have hPos : (0 : 𝕜) < (rows.length : 𝕜) :=
    Nat.cast_pos.mpr (List.length_pos_iff.mpr hRows)
  unfold riskHeadLoss
  dsimp only
  rw [sum_rowWeight, if_neg (not_le.mpr hPos),
    sum_zipWith_map, sum_stageBalanced]

/- The exponential of the examples. -/
@[reducible]
def headExpLog : ExpLog ℚ := ExpLog.tangent

/- Two positives of a stage, one of another, one negative. -/
def fourRows : List (HeadRow ℕ ℚ) :=
  [{ logit := 2
     risk := 1
     stage := 5 },
    { logit := 3
      risk := 1
      stage := 5 },
    { logit := -1
      risk := 1
      stage := 1 },
    { logit := 0
      risk := 0
      stage := 0 }]

attribute [local instance] headExpLog in
/- Each positive of the common stage counts three quarters. -/
theorem riskHeadLoss_stageBalanced_fourRows :
    stageBalancedSampleWeights (fourRows.map HeadRow.risk)
          (fourRows.map HeadRow.stage) =
        .ok ([3 / 4, 3 / 4, 3 / 2, 1] : List ℚ) ∧
      ∃ w,
        stageBalancedSampleWeights (fourRows.map HeadRow.risk)
              (fourRows.map HeadRow.stage) =
            .ok w ∧
          w.sum = (fourRows.length : ℚ) ∧
          let loss := fun row : HeadRow ℕ ℚ =>
            bcePosWeight none row.logit (row.risk : ℚ)
          riskHeadLoss (fourRows.map loss) (some w) =
            (((otherRows HeadRow.risk fourRows).map
                  loss).sum +
                ((positiveRows HeadRow.risk
                    fourRows).length : ℚ) *
                  groupMean HeadRow.stage loss
                    (positiveRows HeadRow.risk fourRows)) /
              (fourRows.length : ℚ) :=
  ⟨by decide +kernel,
    riskHeadLoss_stageBalanced none (by decide)⟩

end Losses

------------------------------------------------------------
-- What the stage loss is a mean of
------------------------------------------------------------

section ClassMeans

variable {ρ 𝕜 : Type}
variable [Field 𝕜] [LinearOrder 𝕜] [IsStrictOrderedRing 𝕜]

theorem lt_binCount
    {stageIdx : List ℕ}
    {c : ℕ}
    (hMem : c ∈ stageIdx)
    (nClasses : ℕ) :
    c < binCount stageIdx nClasses := by
  induction stageIdx with
  | nil => cases hMem
  | cons a rest ih =>
      have hStep :
          binCount (a :: rest) nClasses =
            max (a + 1) (binCount rest nClasses) := rfl
      rw [hStep]
      rcases List.mem_cons.mp hMem with rfl | hRest
      · omega
      · have hLt := ih hRest
        omega

theorem clippedCounts_sum_ne_zero
    {stageIdx : List ℕ}
    (hSome : stageIdx ≠ [])
    (nClasses : ℕ) :
    (clippedCounts stageIdx nClasses).sum ≠ 0 := by
  rcases List.exists_mem_of_ne_nil stageIdx hSome with
    ⟨c, hMem⟩
  have hIn :
      max (stageIdx.count c) 1 ∈
        clippedCounts stageIdx nClasses :=
    List.mem_map_of_mem
      (List.mem_range.mpr (lt_binCount hMem nClasses))
  intro hZero
  have hNone := List.sum_eq_zero_iff.mp hZero _ hIn
  omega

omit [LinearOrder 𝕜] [IsStrictOrderedRing 𝕜] in
/- A class that occurs is weighted by how often it does. -/
theorem computeClassWeights_getD
    {stageIdx : List ℕ}
    {c : ℕ}
    (hMem : c ∈ stageIdx)
    (nClasses : ℕ) :
    (computeClassWeights stageIdx nClasses : List 𝕜).getD c
        0 =
      ((clippedCounts stageIdx nClasses).sum : 𝕜) /
          (nClasses : 𝕜) *
        (1 / ((stageIdx.count c : ℕ) : 𝕜)) := by
  have hLt := lt_binCount hMem nClasses
  have hCount : max (stageIdx.count c) 1 = stageIdx.count c :=
    max_eq_left (List.one_le_count_iff.mpr hMem)
  unfold computeClassWeights clippedCounts
  rw [List.getD_eq_getElem?_getD]
  simp only [List.map_map, List.getElem?_map,
    List.getElem?_range hLt, Option.map_some, Option.getD_some,
    Function.comp_apply, hCount]
  ring

/-
  The stage loss is the mean over the stages that occur of the
  mean over each, however many rows they have.
-/
theorem stageHeadLoss_classMeans
    (label : ρ → ℕ)
    (loss : ρ → 𝕜)
    {rows : List ρ}
    (hRows : rows ≠ [])
    {nClasses : ℕ}
    (hClasses : nClasses ≠ 0) :
    stageHeadLoss (rows.map loss) (rows.map label)
        (computeClassWeights (rows.map label) nClasses) =
      groupMean label loss rows := by
  generalize hScale :
    ((clippedCounts (rows.map label) nClasses).sum : 𝕜) /
      (nClasses : 𝕜) = scale
  have hWeights :
      (rows.map label).map
          (fun c =>
            (computeClassWeights (rows.map label)
              nClasses : List 𝕜).getD c 0) =
        rows.map
          (fun row =>
            scale *
              (1 /
                (((rows.map label).count (label row) : ℕ) :
                  𝕜))) := by
    rw [List.map_map, ← hScale]
    apply List.map_congr_left
    intro row hRow
    exact
      computeClassWeights_getD
        (List.mem_map_of_mem hRow) nClasses
  have hScaled : scale ≠ 0 := by
    rw [← hScale]
    exact
      div_ne_zero
        (Nat.cast_ne_zero.mpr
          (clippedCounts_sum_ne_zero
            (mt List.map_eq_nil_iff.mp hRows) nClasses))
        (Nat.cast_ne_zero.mpr hClasses)
  have hTerms :
      rows.map
          (fun row =>
            loss row *
              (scale *
                (1 /
                  (((rows.map label).count (label row) : ℕ) :
                    𝕜)))) =
        rows.map
          (fun row =>
            scale *
              (loss row /
                (((rows.map label).count (label row) : ℕ) :
                  𝕜))) := by
    apply List.map_congr_left
    intro row _
    ring
  unfold stageHeadLoss
  dsimp only
  rw [hWeights, sum_zipWith_map, hTerms,
    List.sum_map_mul_left, List.sum_map_mul_left,
    mul_div_mul_left _ _ hScaled, weightedMean_eq_groupMean]

/- Three rows of a stage and one of another. -/
theorem stageHeadLoss_classMeans_threeToOne :
    stageHeadLoss ([0, 0, 0, 5].map (fun c : ℕ => (c : ℚ)))
        ([0, 0, 0, 5].map id)
        (computeClassWeights ([0, 0, 0, 5].map id) 6) =
      groupMean id (fun c : ℕ => (c : ℚ)) [0, 0, 0, 5] :=
  stageHeadLoss_classMeans id (fun c : ℕ => (c : ℚ))
    (by decide) (by decide)

end ClassMeans

end Training

end Nidra
