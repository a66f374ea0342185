import Nidra.Lib.Groups

/-
  This file defines weighted confusion counts at a threshold,
  and the threshold that is chosen by the precision and recall
  curve, and proves that no threshold whatever has a higher
  F1, unless positives are rarer than one in a trillion.

  Key definitions include:
    * `ScoredRow`, `confusionAt`
    * `PrecisionRecallCurve`
    * `bestF1Threshold`

  Main declarations:
    * `bestF1Threshold_spec`
-/

namespace Nidra

namespace Evaluation

section Definitions

variable {𝕜 : Type}
variable [Field 𝕜] [LinearOrder 𝕜]

------------------------------------------------------------
-- Confusion
------------------------------------------------------------

/- A row of an evaluation set, with its score and its weight. -/
structure ScoredRow (𝕜 : Type) where
  label : Bool
  score : 𝕜
  weight : 𝕜
deriving DecidableEq

/- How much the rows that are chosen weigh together. -/
def weightOf
    (rows : List (ScoredRow 𝕜))
    (chosen : ScoredRow 𝕜 → Bool) : 𝕜 :=
  ((rows.filter chosen).map ScoredRow.weight).sum

/- A share of nothing is zero. -/
def shareOf (part whole : 𝕜) : 𝕜 :=
  if 0 < whole then part / whole else 0

def f1Of (precision recallRate : 𝕜) : 𝕜 :=
  shareOf (2 * precision * recallRate) (precision + recallRate)

structure Confusion (𝕜 : Type) where
  threshold : 𝕜
  tp : 𝕜
  fp : 𝕜
  fn : 𝕜
  tn : 𝕜
  precision : 𝕜
  recallRate : 𝕜
  f1 : 𝕜
  fpr : 𝕜
  nAlerts : 𝕜
deriving DecidableEq

def confusionAt
    (rows : List (ScoredRow 𝕜))
    (threshold : 𝕜) : Confusion 𝕜 :=
  let pred := fun row : ScoredRow 𝕜 =>
    decide (threshold ≤ row.score)
  let tp := weightOf rows (fun row => pred row && row.label)
  let fp := weightOf rows (fun row => pred row && !row.label)
  let fn := weightOf rows (fun row => !pred row && row.label)
  let tn := weightOf rows (fun row => !pred row && !row.label)
  let precision := shareOf tp (tp + fp)
  let recallRate := shareOf tp (tp + fn)
  { threshold := threshold
    tp := tp
    fp := fp
    fn := fn
    tn := tn
    precision := precision
    recallRate := recallRate
    f1 := f1Of precision recallRate
    fpr := shareOf fp (fp + tn)
    nAlerts := tp + fp }

------------------------------------------------------------
-- The best threshold
------------------------------------------------------------

/- Rows that have a curve: all count, and one is positive. -/
structure HasCurve (rows : List (ScoredRow 𝕜)) : Prop where
  weights : ∀ row ∈ rows, 0 < row.weight
  positive : ∃ row ∈ rows, row.label = true

/- Precision, recall and the thresholds they are at. -/
structure CurvePoints (𝕜 : Type) where
  precision : List 𝕜
  recallRate : List 𝕜
  thresholds : List 𝕜

/-
  The curve that the metrics library computes: the thresholds
  are the distinct scores in order, and after all of them
  comes precision one at recall zero.
-/
structure PrecisionRecallCurve
    (𝕜 : Type) [Field 𝕜] [LinearOrder 𝕜] where
  curve : List (ScoredRow 𝕜) → CurvePoints 𝕜
  sorted :
    ∀ rows, HasCurve rows →
      (curve rows).thresholds.Pairwise (fun a b => a < b)
  scores :
    ∀ rows, HasCurve rows → ∀ t,
      t ∈ (curve rows).thresholds ↔
        ∃ row ∈ rows, row.score = t
  precision :
    ∀ rows, HasCurve rows →
      (curve rows).precision =
        (curve rows).thresholds.map
            (fun t => (confusionAt rows t).precision) ++ [1]
  recallRate :
    ∀ rows, HasCurve rows →
      (curve rows).recallRate =
        (curve rows).thresholds.map
            (fun t => (confusionAt rows t).recallRate) ++ [0]

/- A sum of precision and recall is no less than this. -/
def f1Floor : 𝕜 :=
  1 / 1000000000000

def clippedF1 (precision recallRate : 𝕜) : 𝕜 :=
  2 * precision * recallRate / max (precision + recallRate) f1Floor

def clippedF1At
    (rows : List (ScoredRow 𝕜))
    (t : 𝕜) : 𝕜 :=
  clippedF1 (confusionAt rows t).precision
    (confusionAt rows t).recallRate

/- The place of the first of the largest numbers. -/
def firstArgmax (l : List 𝕜) : ℕ :=
  ((List.range l.length).argmax
    (fun i => l.getD i 0)).getD 0

/- A threshold, and the F1 there. -/
def bestF1Threshold
    (library : PrecisionRecallCurve 𝕜)
    (rows : List (ScoredRow 𝕜)) : 𝕜 × 𝕜 :=
  if rows.filter ScoredRow.label = [] then (1 / 2, 0)
  else
    let points := library.curve rows
    let f1 :=
      List.zipWith clippedF1 points.precision points.recallRate
    let i :=
      if points.thresholds = [] then 0
      else firstArgmax f1.dropLast
    (points.thresholds.getD
        (min i (points.thresholds.length - 1)) 0,
      f1.getD i 0)

/- How much of the rows' weight is that of positives. -/
def prevalence (rows : List (ScoredRow 𝕜)) : 𝕜 :=
  weightOf rows ScoredRow.label / weightOf rows (fun _ => true)

end Definitions

------------------------------------------------------------
-- F1 with and without the floor
------------------------------------------------------------

section Floor

variable {𝕜 : Type}
variable [Field 𝕜] [LinearOrder 𝕜] [IsStrictOrderedRing 𝕜]

theorem f1Floor_pos : (0 : 𝕜) < f1Floor := by
  unfold f1Floor
  positivity

theorem clippedF1_of_le
    {p r : 𝕜}
    (hLarge : f1Floor ≤ p + r) :
    clippedF1 p r = f1Of p r := by
  have hPos : 0 < p + r := lt_of_lt_of_le f1Floor_pos hLarge
  unfold clippedF1 f1Of shareOf
  rw [max_eq_left hLarge, if_pos hPos]

/- Under the floor, both are less than half of it. -/
theorem f1_of_lt
    {p r : 𝕜}
    (hP : 0 ≤ p)
    (hR : 0 ≤ r)
    (hSmall : p + r < f1Floor) :
    f1Of p r < f1Floor ∧ clippedF1 p r < f1Floor := by
  have hFloor : (0 : 𝕜) < f1Floor := f1Floor_pos
  have hSum : 0 ≤ p + r := add_nonneg hP hR
  have hProduct : 2 * p * r ≤ (p + r) * (p + r) := by
    nlinarith [mul_self_nonneg (p - r)]
  constructor
  · unfold f1Of shareOf
    split
    · rename_i hPos
      rw [div_lt_iff₀ hPos]
      nlinarith
    · exact hFloor
  · unfold clippedF1
    rw [max_eq_right hSmall.le, div_lt_iff₀ hFloor]
    nlinarith

/-
  Where some F1 reaches the floor, the largest with the floor
  is the largest without it.
-/
theorem f1Of_le_of_argmax
    {τ : Type}
    {p r : τ → 𝕜}
    (hP : ∀ t, 0 ≤ p t)
    (hR : ∀ t, 0 ≤ r t)
    {all : τ → Prop}
    {best : τ}
    (hBest :
      ∀ t, all t →
        clippedF1 (p t) (r t) ≤ clippedF1 (p best) (r best))
    {enough : τ}
    (hAll : all enough)
    (hEnough : f1Floor ≤ f1Of (p enough) (r enough)) :
    clippedF1 (p best) (r best) = f1Of (p best) (r best) ∧
      ∀ t, all t →
        f1Of (p t) (r t) ≤ f1Of (p best) (r best) := by
  have hLarge :
      ∀ t, f1Floor ≤ f1Of (p t) (r t) →
        f1Floor ≤ p t + r t := by
    intro t hReach
    by_contra hSmall
    have hLess :=
      (f1_of_lt (hP t) (hR t) (not_le.mp hSmall)).1
    exact absurd hReach (not_le.mpr hLess)
  have hReach :
      f1Floor ≤ clippedF1 (p best) (r best) := by
    have hClip := clippedF1_of_le (hLarge enough hEnough)
    calc
      f1Floor ≤ f1Of (p enough) (r enough) := hEnough
      _ = clippedF1 (p enough) (r enough) := hClip.symm
      _ ≤ clippedF1 (p best) (r best) := hBest enough hAll
  have hBestLarge : f1Floor ≤ p best + r best := by
    by_contra hSmall
    have hLess :=
      (f1_of_lt (hP best) (hR best) (not_le.mp hSmall)).2
    exact absurd hReach (not_le.mpr hLess)
  have hSame := clippedF1_of_le hBestLarge
  refine ⟨hSame, ?_⟩
  intro t hT
  rw [← hSame]
  rcases le_or_gt f1Floor (p t + r t) with hBig | hSmall
  · rw [← clippedF1_of_le hBig]
    exact hBest t hT
  · have hLess := (f1_of_lt (hP t) (hR t) hSmall).1
    exact hLess.le.trans hReach

end Floor

------------------------------------------------------------
-- Confusion at every threshold
------------------------------------------------------------

section Thresholds

variable {𝕜 : Type}
variable [Field 𝕜] [LinearOrder 𝕜] [IsStrictOrderedRing 𝕜]
variable {rows : List (ScoredRow 𝕜)}

theorem shareOf_nonneg
    {part whole : 𝕜}
    (hPart : 0 ≤ part) :
    0 ≤ shareOf part whole := by
  unfold shareOf
  split
  · rename_i hPos
    exact div_nonneg hPart hPos.le
  · exact le_rfl

theorem weightOf_nonneg
    (hRows : ∀ row ∈ rows, 0 < row.weight)
    (chosen : ScoredRow 𝕜 → Bool) :
    0 ≤ weightOf rows chosen := by
  apply List.sum_nonneg
  intro w hMem
  rcases List.mem_map.mp hMem with ⟨row, hRow, rfl⟩
  exact (hRows row (List.mem_of_mem_filter hRow)).le

theorem weightOf_pos
    (hRows : ∀ row ∈ rows, 0 < row.weight)
    {chosen : ScoredRow 𝕜 → Bool}
    {row : ScoredRow 𝕜}
    (hRow : row ∈ rows)
    (hChosen : chosen row = true) :
    0 < weightOf rows chosen := by
  apply List.sum_pos
  · intro w hMem
    rcases List.mem_map.mp hMem with ⟨row', hRow', rfl⟩
    exact hRows row' (List.mem_of_mem_filter hRow')
  · have hIn : row ∈ rows.filter chosen :=
      List.mem_filter.mpr ⟨hRow, hChosen⟩
    exact List.ne_nil_of_mem (List.mem_map_of_mem hIn)

omit [LinearOrder 𝕜] [IsStrictOrderedRing 𝕜] in
theorem weightOf_congr
    {chosen chosen' : ScoredRow 𝕜 → Bool}
    (hSame : ∀ row ∈ rows, chosen row = chosen' row) :
    weightOf rows chosen = weightOf rows chosen' := by
  unfold weightOf
  rw [List.filter_congr hSame]

omit [LinearOrder 𝕜] [IsStrictOrderedRing 𝕜] in
/- The weight of all rows is split by label. -/
theorem weightOf_labels
    (rows : List (ScoredRow 𝕜)) :
    weightOf rows ScoredRow.label +
        weightOf rows (fun row => !row.label) =
      weightOf rows (fun _ => true) := by
  have hSplit :=
    ((List.filter_append_perm ScoredRow.label rows).map
      ScoredRow.weight).sum_eq
  unfold weightOf
  rw [List.map_append, List.sum_append] at hSplit
  simpa using hSplit

omit [IsStrictOrderedRing 𝕜] in
/- Two thresholds that alert on the same rows are alike. -/
theorem confusionAt_congr
    {t t' : 𝕜}
    (hSame :
      ∀ row ∈ rows, t ≤ row.score ↔ t' ≤ row.score) :
    confusionAt rows t =
      { confusionAt rows t' with threshold := t } := by
  have hPred :
      ∀ row ∈ rows,
        decide (t ≤ row.score) = decide (t' ≤ row.score) :=
    fun row hRow => decide_eq_decide.mpr (hSame row hRow)
  have hWeight :
      ∀ chosen : Bool → Bool → Bool,
        weightOf rows
            (fun row =>
              chosen (decide (t ≤ row.score)) row.label) =
          weightOf rows
            (fun row =>
              chosen (decide (t' ≤ row.score)) row.label) :=
    fun chosen =>
      weightOf_congr
        (fun row hRow => by rw [hPred row hRow])
  have hTp := hWeight (fun pred label => pred && label)
  have hFp := hWeight (fun pred label => pred && !label)
  have hFn := hWeight (fun pred label => !pred && label)
  have hTn := hWeight (fun pred label => !pred && !label)
  unfold confusionAt
  dsimp only
  rw [hTp, hFp, hFn, hTn]

omit [IsStrictOrderedRing 𝕜] in
/- A threshold over all scores has no alert. -/
theorem f1_of_above
    {t : 𝕜}
    (hAbove : ∀ row ∈ rows, row.score < t) :
    (confusionAt rows t).f1 = 0 := by
  have hNone :
      weightOf rows
          (fun row => decide (t ≤ row.score) && row.label) =
        0 := by
    rw [weightOf_congr
      (fun row hRow => by
        simp [not_le.mpr (hAbove row hRow)] :
        ∀ row ∈ rows,
          (decide (t ≤ row.score) && row.label) = false)]
    simp [weightOf]
  unfold confusionAt
  dsimp only
  rw [hNone]
  simp [f1Of, shareOf]

omit [IsStrictOrderedRing 𝕜] in
/- Any other alerts like one of the scores. -/
theorem exists_score_alike
    {t : 𝕜}
    (hBelow : ∃ row ∈ rows, t ≤ row.score) :
    ∃ row ∈ rows,
      (confusionAt rows t).f1 =
        (confusionAt rows row.score).f1 := by
  rcases hBelow with ⟨row, hRow, hLe⟩
  have hSome :
      (rows.filter (fun row => decide (t ≤ row.score))) ≠ [] :=
    List.ne_nil_of_mem
      (List.mem_filter.mpr ⟨hRow, decide_eq_true hLe⟩)
  cases hLeast :
      (rows.filter
        (fun row => decide (t ≤ row.score))).argmin
          ScoredRow.score with
  | none => exact absurd (List.argmin_eq_none.mp hLeast) hSome
  | some low =>
      rcases List.mem_filter.mp (List.argmin_mem hLeast) with
        ⟨hLow, hAlerts⟩
      refine ⟨low, hLow, ?_⟩
      rw [confusionAt_congr]
      intro row hRow
      constructor
      · intro hAlert
        exact
          List.le_of_mem_argmin
            (List.mem_filter.mpr
              ⟨hRow, decide_eq_true hAlert⟩) hLeast
      · intro hAbove
        exact (of_decide_eq_true hAlerts).trans hAbove

/- The lowest score alerts on all rows. -/
theorem exists_score_prevalence
    (hCurve : HasCurve rows) :
    ∃ row ∈ rows,
      prevalence rows ≤ (confusionAt rows row.score).f1 := by
  rcases hCurve.positive with ⟨row, hRow, hLabel⟩
  cases hLeast : rows.argmin ScoredRow.score with
  | none =>
      rw [List.argmin_eq_none.mp hLeast] at hRow
      cases hRow
  | some low =>
      refine ⟨low, List.argmin_mem hLeast, ?_⟩
      have hAll :
          ∀ row ∈ rows, decide (low.score ≤ row.score) = true :=
        fun row hRow =>
          decide_eq_true (List.le_of_mem_argmin hRow hLeast)
      have hTp :
          weightOf rows
              (fun row =>
                decide (low.score ≤ row.score) && row.label) =
            weightOf rows ScoredRow.label :=
        weightOf_congr (fun row hRow => by
          rw [hAll row hRow, Bool.true_and])
      have hFp :
          weightOf rows
              (fun row =>
                decide (low.score ≤ row.score) &&
                  !row.label) =
            weightOf rows (fun row => !row.label) :=
        weightOf_congr (fun row hRow => by
          rw [hAll row hRow, Bool.true_and])
      have hFn :
          weightOf rows
              (fun row =>
                !decide (low.score ≤ row.score) &&
                  row.label) =
            0 := by
        rw [weightOf_congr (fun row hRow => by
          rw [hAll row hRow, Bool.not_true, Bool.false_and] :
          ∀ row ∈ rows,
            (!decide (low.score ≤ row.score) && row.label) =
              false)]
        simp [weightOf]
      have hPos : 0 < weightOf rows ScoredRow.label :=
        weightOf_pos hCurve.weights hRow hLabel
      have hWhole : 0 < weightOf rows (fun _ => true) :=
        weightOf_pos hCurve.weights hRow rfl
      have hPart :
          weightOf rows ScoredRow.label ≤
            weightOf rows (fun _ => true) := by
        rw [← weightOf_labels]
        exact
          le_add_of_nonneg_right
            (weightOf_nonneg hCurve.weights _)
      have hShare : 0 < prevalence rows :=
        div_pos hPos hWhole
      have hShareLe : prevalence rows ≤ 1 :=
        (div_le_one hWhole).mpr hPart
      unfold confusionAt
      dsimp only
      rw [hTp, hFp, hFn, weightOf_labels, add_zero]
      have hPrecision :
          shareOf (weightOf rows ScoredRow.label)
              (weightOf rows (fun _ => true)) =
            prevalence rows := by
        unfold shareOf
        rw [if_pos hWhole]
        rfl
      have hRecall :
          shareOf (weightOf rows ScoredRow.label)
              (weightOf rows ScoredRow.label) =
            1 := by
        unfold shareOf
        rw [if_pos hPos, div_self hPos.ne']
      rw [hPrecision, hRecall]
      unfold f1Of shareOf
      rw [if_pos (by linarith), mul_one,
        le_div_iff₀ (by linarith)]
      nlinarith

------------------------------------------------------------
-- The choice
------------------------------------------------------------

omit [IsStrictOrderedRing 𝕜] in
theorem firstArgmax_spec
    {l : List 𝕜}
    (hSome : l ≠ []) :
    firstArgmax l < l.length ∧
      ∀ i < l.length,
        l.getD i 0 ≤ l.getD (firstArgmax l) 0 := by
  unfold firstArgmax
  cases hMax :
      (List.range l.length).argmax (fun i => l.getD i 0) with
  | none =>
      have hNone := List.argmax_eq_none.mp hMax
      rw [List.range_eq_nil, List.length_eq_zero_iff] at hNone
      exact absurd hNone hSome
  | some i =>
      refine ⟨List.mem_range.mp (List.argmax_mem hMax), ?_⟩
      intro j hLt
      exact
        List.le_of_mem_argmax (List.mem_range.mpr hLt) hMax

omit [IsStrictOrderedRing 𝕜] in
/- With a curve, what is chosen is the best point of it. -/
theorem bestF1Threshold_eq
    (library : PrecisionRecallCurve 𝕜)
    (hCurve : HasCurve rows) :
    ∃ best ∈ (library.curve rows).thresholds,
      bestF1Threshold library rows =
          (best, clippedF1At rows best) ∧
        ∀ t ∈ (library.curve rows).thresholds,
          clippedF1At rows t ≤ clippedF1At rows best := by
  rcases hCurve.positive with ⟨row, hRow, hLabel⟩
  have hPositives : rows.filter ScoredRow.label ≠ [] :=
    List.ne_nil_of_mem
      (List.mem_filter.mpr ⟨hRow, hLabel⟩)
  have hIn :
      row.score ∈ (library.curve rows).thresholds :=
    (library.scores rows hCurve row.score).mpr
      ⟨row, hRow, rfl⟩
  unfold bestF1Threshold
  dsimp only
  rw [if_neg hPositives, library.precision rows hCurve,
    library.recallRate rows hCurve]
  revert hIn
  generalize (library.curve rows).thresholds = ts
  intro hIn
  have hSome : ts ≠ [] := List.ne_nil_of_mem hIn
  have hZip :
      List.zipWith clippedF1
          (ts.map (fun t => (confusionAt rows t).precision) ++
            [1])
          (ts.map
              (fun t => (confusionAt rows t).recallRate) ++
            [0]) =
        ts.map (clippedF1At rows) ++ [clippedF1 1 0] := by
    rw [List.zipWith_append (by simp), List.zipWith_map,
      List.zipWith_self]
    rfl
  rcases firstArgmax_spec
      (mt List.map_eq_nil_iff.mp hSome :
        ts.map (clippedF1At rows) ≠ []) with ⟨hLt, hMax⟩
  rw [List.length_map] at hLt hMax
  rw [hZip, List.dropLast_concat, if_neg hSome]
  generalize firstArgmax (ts.map (clippedF1At rows)) = i
    at hLt hMax
  have hPlace : min i (ts.length - 1) = i := by omega
  have hGet :
      ∀ j (hJ : j < ts.length),
        (ts.map (clippedF1At rows)).getD j 0 =
          clippedF1At rows ts[j] := by
    intro j hJ
    simp [List.getD_eq_getElem?_getD, hJ]
  refine ⟨ts[i], List.getElem_mem hLt, ?_, ?_⟩
  · rw [hPlace]
    simp [List.getD_eq_getElem?_getD, List.getElem?_append,
      hLt]
  · intro t hT
    rcases List.getElem_of_mem hT with ⟨j, hJ, rfl⟩
    have hLe := hMax j hJ
    rw [hGet j hJ, hGet i hLt] at hLe
    exact hLe

/-
  What is chosen is a score, its F1 is the one that is given,
  and no threshold has a higher one.
-/
theorem bestF1Threshold_spec
    (library : PrecisionRecallCurve 𝕜)
    (hCurve : HasCurve rows)
    (hPrevalence : f1Floor ≤ prevalence rows) :
    (∃ row ∈ rows,
        row.score = (bestF1Threshold library rows).1) ∧
      (confusionAt rows (bestF1Threshold library rows).1).f1 =
          (bestF1Threshold library rows).2 ∧
        ∀ t,
          (confusionAt rows t).f1 ≤
            (bestF1Threshold library rows).2 := by
  rcases bestF1Threshold_eq library hCurve with
    ⟨best, hBest, hEq, hMax⟩
  unfold clippedF1At at hMax
  have hPrecision :
      ∀ t, 0 ≤ (confusionAt rows t).precision :=
    fun t => shareOf_nonneg (weightOf_nonneg hCurve.weights _)
  have hRecall :
      ∀ t, 0 ≤ (confusionAt rows t).recallRate :=
    fun t => shareOf_nonneg (weightOf_nonneg hCurve.weights _)
  rcases exists_score_prevalence hCurve with
    ⟨low, hLow, hReach⟩
  have hLowIn :=
    (library.scores rows hCurve low.score).mpr ⟨low, hLow, rfl⟩
  rcases f1Of_le_of_argmax hPrecision hRecall hMax hLowIn
      (hPrevalence.trans hReach) with ⟨hSame, hTop⟩
  rw [hEq]
  unfold clippedF1At
  refine ⟨(library.scores rows hCurve best).mp hBest,
    hSame.symm, ?_⟩
  intro t
  dsimp only
  rw [hSame]
  by_cases hBelow : ∃ row ∈ rows, t ≤ row.score
  · rcases exists_score_alike hBelow with
      ⟨row, hRow, hAlike⟩
    rw [hAlike]
    exact
      hTop row.score
        ((library.scores rows hCurve row.score).mpr
          ⟨row, hRow, rfl⟩)
  · have hAbove : ∀ row ∈ rows, row.score < t := by
      intro row hRow
      by_contra hLe
      exact hBelow ⟨row, hRow, not_lt.mp hLe⟩
    rw [f1_of_above hAbove]
    exact
      shareOf_nonneg
        (mul_nonneg
          (mul_nonneg zero_le_two (hPrecision best))
          (hRecall best))

end Thresholds

/- The curve over the sorted distinct scores. -/
def sortedCurve
    (𝕜 : Type) [Field 𝕜] [LinearOrder 𝕜] :
    PrecisionRecallCurve 𝕜 :=
  { curve := fun rows =>
      let thresholds :=
        sortByKey id (rows.map ScoredRow.score).eraseDups
      { precision :=
          thresholds.map
              (fun t => (confusionAt rows t).precision) ++ [1]
        recallRate :=
          thresholds.map
              (fun t => (confusionAt rows t).recallRate) ++
            [0]
        thresholds := thresholds }
    sorted := by
      intro rows _
      apply sortByKey_pairwise_lt
      exact
        (List.map_id _).symm ▸ List.nodup_eraseDups _
    scores := by
      intro rows _ t
      rw [mem_sortByKey, List.mem_eraseDups, List.mem_map]
    precision := fun _ _ => rfl
    recallRate := fun _ _ => rfl }

end Evaluation

end Nidra
