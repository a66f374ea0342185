import Nidra.Data.FeatureKinds
import Nidra.Lib.Greedy

/-
  This file defines what the feature scaler learns from the
  active rows: which features are dropped and why, and the
  center and scale of the others. A feature is dropped as a
  duplicate only because of an earlier one that stays.

  Key definitions include:
    * `DropReason`, `FitState`
    * `ActiveStatistics`
    * `firstPass`, `pruneDuplicates`
    * `fitFeatures`

  Main declarations:
    * `keptOf_pruneFrom`
    * `droppedAsDuplicate_iff`
    * `pruneDuplicates_distinct`, `exists_earlier_of_pruned`
    * `fitFeatures_duplicates`
-/

namespace Nidra

namespace Data

set_option linter.unusedSectionVars false

variable {𝕜 : Type}
variable [Field 𝕜] [LinearOrder 𝕜] [IsStrictOrderedRing 𝕜]

------------------------------------------------------------
-- Thresholds
------------------------------------------------------------

/- The least scale of a feature. -/
def scaleFloor : 𝕜 := 1 / 1000

/- Above this correlation a feature repeats an earlier one. -/
def duplicateAbsCorr : 𝕜 := 999 / 1000

/- Below this deviation a feature is constant. -/
def constantStd : 𝕜 := 1 / 100000000

/- The one feature that may be constant. -/
def activityFeature : Feature := .isActive

theorem scaleFloor_pos : 0 < (scaleFloor : 𝕜) := by
  unfold scaleFloor
  positivity

------------------------------------------------------------
-- The State of a Fit
------------------------------------------------------------

inductive DropReason (𝕜 : Type) where
  | declared
  | constant (value : 𝕜)
  | duplicate (of : Feature) (absCorr : 𝕜)
deriving DecidableEq

/-
  What has been decided so far. No scale is ever zero or
  negative, so that a scaled value can be scaled back.
-/
structure FitState (𝕜 : Type)
    [Zero 𝕜] [LT 𝕜] where
  kinds : Feature → Kind
  center : FeatureVector 𝕜
  scale : FeatureVector 𝕜
  reasons : List (Feature × DropReason 𝕜)
  scale_pos : ∀ f, 0 < scale f

namespace FitState

/- Nothing is centered or scaled at first. -/
def start (kinds : Feature → Kind) : FitState 𝕜 where
  kinds := kinds
  center := fun _ => 0
  scale := fun _ => 1
  reasons := []
  scale_pos := fun _ => one_pos

def kept
    (fit : FitState 𝕜)
    (f : Feature) : Bool :=
  fit.kinds f != .drop

def keptOf
    (fit : FitState 𝕜)
    (fs : List Feature) : List Feature :=
  fs.filter fit.kept

def note
    (fit : FitState 𝕜)
    (f : Feature)
    (reason : DropReason 𝕜) : FitState 𝕜 :=
  { fit with reasons := fit.reasons ++ [(f, reason)] }

/- A dropped feature is neither centered nor scaled. -/
def drop
    (fit : FitState 𝕜)
    (f : Feature)
    (reason : DropReason 𝕜) : FitState 𝕜 where
  kinds := Function.update fit.kinds f .drop
  center := Function.update fit.center f 0
  scale := Function.update fit.scale f 1
  reasons := fit.reasons ++ [(f, reason)]
  scale_pos := by
    intro g
    rcases eq_or_ne g f with rfl | hNe
    · simp
    · simpa [hNe] using fit.scale_pos g

def standardize
    (fit : FitState 𝕜)
    (f : Feature)
    (mean std : 𝕜) : FitState 𝕜 where
  kinds := fit.kinds
  center := Function.update fit.center f mean
  scale := Function.update fit.scale f (max std scaleFloor)
  reasons := fit.reasons
  scale_pos := by
    intro g
    rcases eq_or_ne g f with rfl | hNe
    · simp [scaleFloor_pos]
    · simpa [hNe] using fit.scale_pos g

@[simp] theorem kept_drop_self
    (fit : FitState 𝕜)
    (f : Feature)
    (reason : DropReason 𝕜) :
    (fit.drop f reason).kept f = false := by
  simp [kept, drop]

@[simp] theorem kept_drop_of_ne
    (fit : FitState 𝕜)
    {f g : Feature}
    (reason : DropReason 𝕜)
    (hNe : g ≠ f) :
    (fit.drop f reason).kept g = fit.kept g := by
  simp [kept, drop, hNe]

@[simp] theorem reasons_drop
    (fit : FitState 𝕜)
    (f : Feature)
    (reason : DropReason 𝕜) :
    (fit.drop f reason).reasons =
      fit.reasons ++ [(f, reason)] := rfl

end FitState

------------------------------------------------------------
-- Fitting
------------------------------------------------------------

/- The statistics of the active training rows. -/
structure ActiveStatistics (𝕜 : Type) where
  mean : FeatureVector 𝕜
  std : FeatureVector 𝕜
  corr : Feature → Feature → 𝕜

/- Decide on one feature from its own statistics. -/
def fitFeature
    (stats : ActiveStatistics 𝕜)
    (fit : FitState 𝕜)
    (f : Feature) : FitState 𝕜 :=
  if fit.kinds f = .drop then fit.note f .declared
  else if stats.std f < constantStd ∧ f ≠ activityFeature then
    fit.drop f (.constant (stats.mean f))
  else if fit.kinds f = .unitRange then fit
  else fit.standardize f (stats.mean f) (stats.std f)

def firstPass
    (stats : ActiveStatistics 𝕜)
    (kinds : Feature → Kind) : FitState 𝕜 :=
  featureOrder.foldl (fitFeature stats) (.start kinds)

def isDuplicate
    (corr : Feature → Feature → 𝕜)
    (a b : Feature) : Bool :=
  duplicateAbsCorr < |corr a b|

/- Compare a feature with the earlier ones, in their order. -/
def checkEarlier
    (corr : Feature → Feature → 𝕜)
    (a : Feature) :
    List Feature → FitState 𝕜 → FitState 𝕜
  | [], fit => fit
  | b :: rest, fit =>
      if fit.kinds a = .drop ∨ fit.kinds b = .drop then
        checkEarlier corr a rest fit
      else if isDuplicate corr a b then
        fit.drop a (.duplicate b |corr a b|)
      else checkEarlier corr a rest fit

def pruneFrom
    (corr : Feature → Feature → 𝕜) :
    List Feature → List Feature → FitState 𝕜 → FitState 𝕜
  | _, [], fit => fit
  | earlier, a :: rest, fit =>
      pruneFrom corr (earlier ++ [a]) rest
        (checkEarlier corr a earlier fit)

def pruneDuplicates
    (corr : Feature → Feature → 𝕜)
    (fit : FitState 𝕜) : FitState 𝕜 :=
  let kept := fit.keptOf featureOrder
  if 1 < kept.length then pruneFrom corr [] kept fit
  else fit

/- The features' part of a fit. -/
def fitFeatures
    (stats : ActiveStatistics 𝕜)
    (kinds : Feature → Kind) : FitState 𝕜 :=
  pruneDuplicates stats.corr (firstPass stats kinds)

------------------------------------------------------------
-- Pruning Is a Greedy Choice
------------------------------------------------------------

theorem FitState.mem_keptOf
    {fit : FitState 𝕜}
    {fs : List Feature}
    {f : Feature} :
    f ∈ fit.keptOf fs ↔ f ∈ fs ∧ fit.kept f = true :=
  List.mem_filter

theorem FitState.keptOf_drop
    {fit : FitState 𝕜}
    {fs : List Feature}
    {f : Feature}
    (reason : DropReason 𝕜)
    (hNotMem : f ∉ fs) :
    (fit.drop f reason).keptOf fs = fit.keptOf fs := by
  apply List.filter_congr
  intro g hG
  exact FitState.kept_drop_of_ne fit reason
    (ne_of_mem_of_not_mem hG hNotMem)

/-
  A feature is dropped for the first earlier one that still
  stands and that it repeats, and stands when there is none.
-/
theorem checkEarlier_eq
    {corr : Feature → Feature → 𝕜}
    {a : Feature}
    {fit : FitState 𝕜}
    (hKept : fit.kept a = true)
    (earlier : List Feature) :
    checkEarlier corr a earlier fit =
      match (fit.keptOf earlier).find? (isDuplicate corr a) with
      | some b => fit.drop a (.duplicate b |corr a b|)
      | none => fit := by
  have hKind : fit.kinds a ≠ .drop := by
    simpa [FitState.kept] using hKept
  induction earlier with
  | nil => rfl
  | cons b earlier ih =>
      rw [checkEarlier, ih]
      by_cases hDrop : fit.kinds b = .drop
      · simp [hDrop, FitState.keptOf, FitState.kept]
      · cases hCorr : isDuplicate corr a b with
        | true =>
            simp [hKind, hDrop, hCorr, FitState.keptOf,
              FitState.kept]
        | false =>
            simp [hKind, hDrop, hCorr, FitState.keptOf,
              FitState.kept]

/- What is not looked at stays as it is. -/
theorem kept_pruneFrom_of_notMem
    {corr : Feature → Feature → 𝕜}
    {earlier rest : List Feature}
    {fit : FitState 𝕜}
    {f : Feature}
    (hNodup : rest.Nodup)
    (hKept : ∀ g ∈ rest, fit.kept g = true)
    (hNotMem : f ∉ rest) :
    (pruneFrom corr earlier rest fit).kept f = fit.kept f := by
  induction rest generalizing earlier fit with
  | nil => rfl
  | cons a rest ih =>
      rcases List.nodup_cons.mp hNodup with ⟨hA, hRest⟩
      have hNe : f ≠ a := fun hEq => hNotMem (by simp [hEq])
      have hNotRest : f ∉ rest :=
        fun hMem => hNotMem (List.mem_cons_of_mem _ hMem)
      rw [pruneFrom, checkEarlier_eq (hKept a (by simp))]
      split
      · rw [ih hRest _ hNotRest,
          FitState.kept_drop_of_ne _ _ hNe]
        intro g hG
        rw [FitState.kept_drop_of_ne _ _
          (ne_of_mem_of_not_mem hG hA)]
        exact hKept g (List.mem_cons_of_mem _ hG)
      · exact ih hRest
          (fun g hG => hKept g (List.mem_cons_of_mem _ hG))
          hNotRest

/- Pruning keeps what a greedy choice keeps. -/
theorem keptOf_pruneFrom
    {corr : Feature → Feature → 𝕜}
    {earlier rest : List Feature}
    {fit : FitState 𝕜}
    (hNodup : (earlier ++ rest).Nodup)
    (hKept : ∀ g ∈ rest, fit.kept g = true) :
    (pruneFrom corr earlier rest fit).keptOf
        (earlier ++ rest) =
      greedyFrom (isDuplicate corr) (fit.keptOf earlier)
        rest := by
  induction rest generalizing earlier fit with
  | nil => rw [List.append_nil, pruneFrom, greedyFrom]
  | cons a rest ih =>
      have hSplit : earlier ++ a :: rest =
          (earlier ++ [a]) ++ rest := by simp
      have hA : fit.kept a = true := hKept a (by simp)
      have hRest : ∀ g ∈ rest, fit.kept g = true :=
        fun g hG => hKept g (List.mem_cons_of_mem _ hG)
      have hParts := List.nodup_append.mp hNodup
      have hNotRest : a ∉ rest :=
        (List.nodup_cons.mp hParts.2.1).1
      have hNotEarlier : a ∉ earlier := fun hMem =>
        hParts.2.2 a hMem a (by simp) rfl
      rw [hSplit] at hNodup ⊢
      rw [pruneFrom, greedyFrom, checkEarlier_eq hA]
      cases hFind :
          (fit.keptOf earlier).find? (isDuplicate corr a) with
      | some b =>
          have hAny : (fit.keptOf earlier).any
              (fun b => isDuplicate corr a b) = true :=
            List.any_eq_true.mpr
              ⟨b, List.mem_of_find?_eq_some hFind,
                List.find?_some hFind⟩
          rw [if_pos hAny, ih hNodup]
          · congr 1
            rw [FitState.keptOf, List.filter_append,
              ← FitState.keptOf,
              FitState.keptOf_drop _ hNotEarlier]
            simp
          · intro g hG
            rw [FitState.kept_drop_of_ne _ _
              (ne_of_mem_of_not_mem hG hNotRest)]
            exact hRest g hG
      | none =>
          have hAny : ¬ (fit.keptOf earlier).any
              (fun b => isDuplicate corr a b) = true := by
            rw [List.any_eq_true]
            rintro ⟨b, hB, hDuplicate⟩
            exact List.find?_eq_none.mp hFind b hB hDuplicate
          rw [if_neg hAny, ih hNodup hRest]
          congr 1
          simp [FitState.keptOf, List.filter_append, hA]

/- One feature alone has nothing to repeat. -/
theorem pruneDuplicates_eq
    (corr : Feature → Feature → 𝕜)
    (fit : FitState 𝕜) :
    pruneDuplicates corr fit =
      pruneFrom corr [] (fit.keptOf featureOrder) fit := by
  rw [pruneDuplicates]
  split
  · rfl
  · next hLength =>
      rcases hKept : fit.keptOf featureOrder with
        _ | ⟨a, _ | ⟨b, rest⟩⟩
      · rfl
      · rfl
      · rw [hKept] at hLength
        simp at hLength

theorem keptOf_featureOrder_nodup
    (fit : FitState 𝕜) :
    (fit.keptOf featureOrder).Nodup :=
  featureOrder_nodup.filter _

theorem kept_pruneDuplicates_iff
    {corr : Feature → Feature → 𝕜}
    {fit : FitState 𝕜}
    {f : Feature} :
    (pruneDuplicates corr fit).kept f = true ↔
      f ∈ greedyFrom (isDuplicate corr) []
        (fit.keptOf featureOrder) := by
  have hNodup := keptOf_featureOrder_nodup fit
  have hKept : ∀ g ∈ fit.keptOf featureOrder,
      fit.kept g = true :=
    fun g hG => (FitState.mem_keptOf.mp hG).2
  have hGreedy :
      (pruneFrom corr [] (fit.keptOf featureOrder) fit).keptOf
          (fit.keptOf featureOrder) =
        greedyFrom (isDuplicate corr) []
          (fit.keptOf featureOrder) :=
    keptOf_pruneFrom hNodup hKept
  rw [pruneDuplicates_eq, ← hGreedy, FitState.mem_keptOf]
  constructor
  · intro hF
    refine ⟨?_, hF⟩
    by_contra hNotMem
    rw [kept_pruneFrom_of_notMem hNodup hKept hNotMem] at hF
    exact hNotMem
      (FitState.mem_keptOf.mpr ⟨mem_featureOrder f, hF⟩)
  · exact fun hF => hF.2

------------------------------------------------------------
-- Reasons
------------------------------------------------------------

/- A feature that was dropped because of another one. -/
def FitState.DroppedAsDuplicate
    (fit : FitState 𝕜)
    (a : Feature) : Prop :=
  ∃ b absCorr, (a, .duplicate b absCorr) ∈ fit.reasons

theorem firstPass_reasons
    (stats : ActiveStatistics 𝕜)
    (kinds : Feature → Kind)
    (a : Feature) :
    ¬ (firstPass stats kinds).DroppedAsDuplicate a := by
  unfold firstPass
  apply List.foldlRecOn
    (motive := fun fit : FitState 𝕜 =>
      ¬ fit.DroppedAsDuplicate a)
  · rintro ⟨b, absCorr, hMem⟩
    exact absurd hMem List.not_mem_nil
  · rintro fit hFit f - ⟨b, absCorr, hMem⟩
    apply hFit
    refine ⟨b, absCorr, ?_⟩
    unfold fitFeature at hMem
    split at hMem
    · simpa [FitState.note] using hMem
    · split at hMem
      · simpa using hMem
      · split at hMem
        · exact hMem
        · exact hMem

/- Pruning has a reason for what it drops and for no other. -/
theorem droppedAsDuplicate_pruneFrom
    {corr : Feature → Feature → 𝕜}
    {earlier rest : List Feature}
    {fit : FitState 𝕜}
    (hNodup : rest.Nodup)
    (hKept : ∀ g ∈ rest, fit.kept g = true)
    (a : Feature) :
    (pruneFrom corr earlier rest fit).DroppedAsDuplicate a ↔
      fit.DroppedAsDuplicate a ∨
        (a ∈ rest ∧
          (pruneFrom corr earlier rest fit).kept a =
            false) := by
  induction rest generalizing earlier fit with
  | nil => simp [pruneFrom]
  | cons c rest ih =>
      rcases List.nodup_cons.mp hNodup with ⟨hC, hRest⟩
      have hKeptC : fit.kept c = true := hKept c (by simp)
      have hKeptRest : ∀ g ∈ rest, fit.kept g = true :=
        fun g hG => hKept g (List.mem_cons_of_mem _ hG)
      rw [pruneFrom, checkEarlier_eq hKeptC]
      split
      · next b hFind =>
          have hDropped : ∀ g ∈ rest,
              (fit.drop c (.duplicate b |corr c b|)).kept g =
                true := by
            intro g hG
            rw [FitState.kept_drop_of_ne _ _
              (ne_of_mem_of_not_mem hG hC)]
            exact hKeptRest g hG
          rw [ih hRest hDropped]
          rcases eq_or_ne a c with rfl | hNe
          · have hSelf :
                (fit.drop a
                  (.duplicate b |corr a b|)).DroppedAsDuplicate
                    a :=
              ⟨b, |corr a b|, by simp⟩
            rw [kept_pruneFrom_of_notMem hRest hDropped hC]
            simp [hSelf]
          · simp [FitState.DroppedAsDuplicate, hNe]
      · rw [ih hRest hKeptRest]
        rcases eq_or_ne a c with rfl | hNe
        · rw [kept_pruneFrom_of_notMem hRest hKeptRest hC]
          simp [hC, hKeptC]
        · simp [hNe]

/-
  What is dropped as a duplicate is what the first pass kept
  and the fit does not.
-/
theorem droppedAsDuplicate_iff
    (stats : ActiveStatistics 𝕜)
    (kinds : Feature → Kind)
    (a : Feature) :
    (fitFeatures stats kinds).DroppedAsDuplicate a ↔
      (firstPass stats kinds).kept a = true ∧
        (fitFeatures stats kinds).kept a = false := by
  unfold fitFeatures
  rw [pruneDuplicates_eq, droppedAsDuplicate_pruneFrom
    (keptOf_featureOrder_nodup _)
    (fun g hG => (FitState.mem_keptOf.mp hG).2)]
  simp [firstPass_reasons, FitState.mem_keptOf,
    mem_featureOrder]

------------------------------------------------------------
-- Duplicates
------------------------------------------------------------

theorem featureOrder_pairwise :
    featureOrder.Pairwise
      (fun b a =>
        featureOrder.idxOf b < featureOrder.idxOf a) := by
  decide +kernel

/- No two of the features that are kept repeat each other. -/
theorem pruneDuplicates_distinct
    {corr : Feature → Feature → 𝕜}
    {fit : FitState 𝕜}
    {a b : Feature}
    (hSymm : ∀ a b, corr a b = corr b a)
    (hNe : a ≠ b)
    (hA : (pruneDuplicates corr fit).kept a = true)
    (hB : (pruneDuplicates corr fit).kept b = true) :
    |corr a b| ≤ duplicateAbsCorr := by
  have hPairwise :=
    @greedyFrom_pairwise _ (isDuplicate corr) []
      (fit.keptOf featureOrder) List.Pairwise.nil
  have hSymmetric : Std.Symm (fun b a =>
      isDuplicate corr a b = false) := by
    refine ⟨?_⟩
    intro x y hXY
    rw [isDuplicate, hSymm]
    exact hXY
  have hFree := hPairwise.forall
    (kept_pruneDuplicates_iff.mp hB)
    (kept_pruneDuplicates_iff.mp hA) hNe.symm
  simpa [isDuplicate] using hFree

/- What is dropped repeats an earlier one that is kept. -/
theorem exists_earlier_of_pruned
    {corr : Feature → Feature → 𝕜}
    {fit : FitState 𝕜}
    {a : Feature}
    (hKept : fit.kept a = true)
    (hDropped : (pruneDuplicates corr fit).kept a = false) :
    ∃ b,
      featureOrder.idxOf b < featureOrder.idxOf a ∧
        (pruneDuplicates corr fit).kept b = true ∧
          duplicateAbsCorr < |corr a b| := by
  have hMem : a ∈ fit.keptOf featureOrder :=
    FitState.mem_keptOf.mpr ⟨mem_featureOrder a, hKept⟩
  rcases List.append_of_mem hMem with ⟨before, after, hSplit⟩
  have hNotMem : a ∉ greedyFrom (isDuplicate corr) []
      (before ++ a :: after) := by
    rw [← hSplit, ← kept_pruneDuplicates_iff, hDropped]
    exact Bool.false_ne_true
  rcases exists_conflict_of_dropped hNotMem with
    ⟨b, hB, hGreedy, hConflict⟩
  refine ⟨b, ?_, ?_, by simpa [isDuplicate] using hConflict⟩
  · have hOrder := featureOrder_pairwise.filter fit.kept
    rw [← FitState.keptOf, hSplit] at hOrder
    exact (List.pairwise_append.mp hOrder).2.2 b hB a
      (by simp)
  · rw [← hSplit] at hGreedy
    exact kept_pruneDuplicates_iff.mpr hGreedy

/-
  After a fit no two features that are kept repeat each other,
  and a feature dropped as a duplicate repeats an earlier one
  that is kept to the end.
-/
theorem fitFeatures_duplicates
    (stats : ActiveStatistics 𝕜)
    (kinds : Feature → Kind)
    (hSymm : ∀ a b, stats.corr a b = stats.corr b a) :
    (∀ a b,
      a ≠ b →
        (fitFeatures stats kinds).kept a = true →
          (fitFeatures stats kinds).kept b = true →
            |stats.corr a b| ≤ duplicateAbsCorr) ∧
      ∀ a,
        (fitFeatures stats kinds).DroppedAsDuplicate a →
          ∃ b,
            featureOrder.idxOf b < featureOrder.idxOf a ∧
              (fitFeatures stats kinds).kept b = true ∧
                duplicateAbsCorr < |stats.corr a b| := by
  constructor
  · intro a b hNe hA hB
    exact pruneDuplicates_distinct hSymm hNe hA hB
  · intro a hDuplicate
    rcases (droppedAsDuplicate_iff stats kinds a).mp hDuplicate
      with ⟨hFirst, hDropped⟩
    exact exists_earlier_of_pruned hFirst hDropped

/-
  Three varying features, of which the second repeats both of
  the others while these do not repeat each other.
-/
def chainedStatistics : ActiveStatistics ℚ where
  mean := fun _ => 1 / 2
  std := fun f =>
    match f with
    | .flow .synRatio => 1 / 4
    | .flow .ackRatio => 1 / 4
    | .flow .rstRatio => 1 / 4
    | _ => 0
  corr := fun a b =>
    if a = b then 1
    else if a = .flow .ackRatio ∨ b = .flow .ackRatio then
      9995 / 10000
    else 998 / 1000

theorem chainedStatistics_corr_symm
    (a b : Feature) :
    chainedStatistics.corr a b =
      chainedStatistics.corr b a := by
  simp only [chainedStatistics, eq_comm (a := a) (b := b),
    or_comm (a := a = .flow .ackRatio)]

/- The one in the middle goes, and the last one stays. -/
theorem fitFeatures_duplicates_chained :
    (fitFeatures chainedStatistics
        featureTransforms).kept (.flow .rstRatio) = true ∧
      |chainedStatistics.corr (.flow .rstRatio)
        (.flow .synRatio)| ≤ duplicateAbsCorr ∧
      ∃ b,
        featureOrder.idxOf b <
            featureOrder.idxOf (.flow .ackRatio) ∧
          (fitFeatures chainedStatistics
            featureTransforms).kept b = true ∧
            duplicateAbsCorr <
              |chainedStatistics.corr (.flow .ackRatio) b| := by
  have hDuplicates :=
    fitFeatures_duplicates chainedStatistics featureTransforms
      chainedStatistics_corr_symm
  have hRst :
      (fitFeatures chainedStatistics
        featureTransforms).kept (.flow .rstRatio) = true := by
    decide +kernel
  have hSyn :
      (fitFeatures chainedStatistics
        featureTransforms).kept (.flow .synRatio) = true := by
    decide +kernel
  refine ⟨hRst, ?_, ?_⟩
  · exact hDuplicates.1 _ _ (by decide) hRst hSyn
  · apply hDuplicates.2
    rw [droppedAsDuplicate_iff]
    constructor
    · decide +kernel
    · decide +kernel

end Data

end Nidra
