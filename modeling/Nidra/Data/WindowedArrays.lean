import Nidra.Data.Dataset
import Nidra.Data.Geometry
import Nidra.Lib.Draws
import Nidra.Lib.Slices

/-
  This file defines the capped sample set of a split, with a
  weight for each sample, and a further cut of such a set. It
  states what the weights of each risk class sum to.

  Key definitions include:
    * `positionsOf`, `keepByRisk`
    * `buildWindowedArrays`
    * `subsampleStratifiedByRisk`
    * `classWeight`, `classCount`

  Main declarations:
    * `KeptSpec.filter_positives`
    * `KeptSpec.filter_negatives`
    * `classWeight_build_one`, `classWeight_build_zero`
    * `cappedWeights_spec`
-/

namespace Nidra

namespace Data

------------------------------------------------------------
-- Selection by Risk
------------------------------------------------------------

/- The positions that have a label. -/
def positionsOf
    (labels : List ℕ)
    (label : ℕ) : List ℕ :=
  (List.range labels.length).filter
    (fun i => labels[i]? = some label)

/- What is kept of each class, and the generator after it. -/
structure Kept (σ : Type) where
  positives : List ℕ
  negatives : List ℕ
  state : σ

section Selection

variable {σ : Type}
variable (g : Generator σ)

/- Keep the positives first, and fill up with negatives. -/
def keepByRisk
    (s : σ)
    (labels : List ℕ)
    (cap : ℕ) : Kept σ :=
  let pos := positionsOf labels 1
  let neg := positionsOf labels 0
  if cap ≤ pos.length then
    let drawn := g.choice s pos cap false
    { positives := drawn.1
      negatives := []
      state := drawn.2 }
  else
    let drawn := g.choice s neg
      (min (cap - pos.length) neg.length) false
    { positives := pos
      negatives := drawn.1
      state := drawn.2 }

def Kept.select (kept : Kept σ) : List ℕ :=
  (g.shuffle kept.state
    (kept.positives ++ kept.negatives)).1

/- How many of its class a position that is kept stands for. -/
def capWeight
    (labels : List ℕ)
    (cap : ℕ)
    (kept : Kept σ)
    (i : ℕ) : ℚ :=
  let nPos := (positionsOf labels 1).length
  let nNeg := (positionsOf labels 0).length
  if cap ≤ nPos then
    if i ∈ kept.positives then
      nPos / kept.positives.length
    else 1
  else if i ∈ kept.negatives then
    nNeg / (max kept.negatives.length 1 : ℕ)
  else 1

end Selection

------------------------------------------------------------
-- Windowed Arrays
------------------------------------------------------------

inductive WindowsError where
  | emptyTable
  | noSteps
deriving DecidableEq, Repr

def WindowsError.message : WindowsError → String
  | .emptyTable =>
      "cannot infer window_seconds from an empty table"
  | .noSteps =>
      "cannot infer window_seconds: no host has two windows"

/- The steps between the windows of a host. -/
def windowSteps (table : List StateRow) : List ℤ :=
  (sortRows table).consecutive.filterMap (fun pair =>
    if pair.1.hostId = pair.2.hostId ∧
        pair.1.windowTs < pair.2.windowTs then
      some (pair.2.windowTs - pair.1.windowTs)
    else none)

def inferWindowSeconds
    (table : List StateRow) : Except WindowsError ℤ :=
  if table.isEmpty then .error .emptyTable
  else
    match (windowSteps table).min? with
    | none => .error .noSteps
    | some step => .ok step

/- The episodes of a host, in order and with their numbers. -/
def episodeLookup (table : List StateRow) : EpisodeLookup :=
  fun hostId =>
    sortByKey
      (fun ep => toLex (ep.1, toLex (ep.2.1, ep.2.2)))
      ((findEpisodes table).zipIdx.filterMap (fun entry =>
        if entry.1.hostId = hostId then
          some (entry.1.startTs, entry.1.endTs, entry.2)
        else none))

/- One entry of each of the arrays. -/
structure WindowedSample where
  sample : Sample
  sampleWeight : ℚ
  insideEpisode : Bool
  minutesToOnset : Option ℚ

def WindowedSample.riskLabel (row : WindowedSample) : ℕ :=
  row.sample.riskLabel

section Building

variable (table : List StateRow)
variable (L : ℕ+)
variable (K : ℕ)

/- The entry of a selected candidate. -/
def windowedSample
    (windowSeconds : ℤ)
    (candidates : List Candidate)
    (weight : ℕ → ℚ)
    (i : ℕ) : Option WindowedSample := do
  let candidate ← candidates[i]?
  let sample ←
    materializeOne table L K (episodeLookup table) candidate
  let geometry :=
    episodeGeometry table windowSeconds defaultMergeGapWindows
      candidate.hostId candidate.originTs
  some
    { sample := sample
      sampleWeight := weight i
      insideEpisode := geometry.inside
      minutesToOnset := geometry.minutesToOnset }

variable {σ : Type}
variable (g : Generator σ)

/- Which candidates are kept, and with which weights. -/
def selectCandidates
    (s : σ)
    (labels : List ℕ)
    (maxSamples : Option ℕ+) : List ℕ × (ℕ → ℚ) :=
  match maxSamples with
  | none => (List.range labels.length, fun _ => 1)
  | some cap =>
      if labels.length ≤ cap then
        (List.range labels.length, fun _ => 1)
      else
        let kept := keepByRisk g s labels cap
        (kept.select g, capWeight labels cap kept)

def buildWindowedArrays
    (s : σ)
    (maxSamples : Option ℕ+) :
    Except WindowsError (List WindowedSample) :=
  let df := sortRows table
  let candidates := enumerateCandidates df L K
  if candidates.isEmpty then .ok []
  else
    let labels := candidates.map Candidate.riskLabel
    let selected := selectCandidates g s labels maxSamples
    (inferWindowSeconds df).map (fun windowSeconds =>
      selected.1.filterMap
        (windowedSample df L K windowSeconds candidates
          selected.2))

end Building

/- Cut a set down; its weights stay what they are. -/
def subsampleStratifiedByRisk
    {σ : Type}
    (g : Generator σ)
    (s : σ)
    (arrays : List WindowedSample)
    (maxN : Option ℕ) : List WindowedSample :=
  match maxN with
  | none => arrays
  | some cap =>
      if arrays.length ≤ cap then arrays
      else
        arrays.pickAt
          ((keepByRisk g s
            (arrays.map WindowedSample.riskLabel)
              cap).select g)

------------------------------------------------------------
-- Sums by Class
------------------------------------------------------------

/- The total weight of a risk class. -/
def classWeight
    (arrays : List WindowedSample)
    (label : ℕ) : ℚ :=
  ((arrays.filter (fun row => row.riskLabel = label)).map
    WindowedSample.sampleWeight).sum

/- How many candidates of a split are of a risk class. -/
def classCount
    (table : List StateRow)
    (L : ℕ+)
    (K : ℕ)
    (label : ℕ) : ℕ :=
  ((enumerateCandidates table L K).filter
    (fun c => c.riskLabel = label)).length

------------------------------------------------------------
-- What Is Kept
------------------------------------------------------------

theorem mem_positionsOf
    {labels : List ℕ}
    {label i : ℕ} :
    i ∈ positionsOf labels label ↔ labels[i]? = some label := by
  unfold positionsOf
  rw [List.mem_filter, List.mem_range, decide_eq_true_iff]
  constructor
  · exact fun hMem => hMem.2
  · intro hLabel
    exact ⟨(List.getElem?_eq_some_iff.mp hLabel).1, hLabel⟩

theorem length_positionsOf
    (labels : List ℕ)
    (label : ℕ) :
    (positionsOf labels label).length = labels.count label := by
  conv_rhs => rw [← List.pickAt_range labels]
  rw [List.pickAt, List.count_filterMap, positionsOf,
    ← List.countP_eq_length_filter]
  apply List.countP_congr
  intro i _
  simp

/-
  Of each class a part is kept: as many positives as the cap
  allows, and as many negatives as are left to it.
-/
structure KeptSpec
    {σ : Type}
    (labels : List ℕ)
    (cap : ℕ)
    (kept : Kept σ) : Prop where
  positives :
    kept.positives.Subperm (positionsOf labels 1)
  negatives :
    kept.negatives.Subperm (positionsOf labels 0)
  positives_length :
    kept.positives.length =
      min cap (positionsOf labels 1).length
  negatives_length :
    kept.negatives.length =
      min (cap - (positionsOf labels 1).length)
        (positionsOf labels 0).length

section Selected

variable {σ : Type}
variable (g : Generator σ)

theorem keepByRisk_spec
    (s : σ)
    (labels : List ℕ)
    (cap : ℕ) :
    KeptSpec labels cap (keepByRisk g s labels cap) := by
  unfold keepByRisk
  by_cases hCap : cap ≤ (positionsOf labels 1).length
  · simp only [if_pos hCap]
    refine
      { positives := g.choice_subperm s _ _
        negatives := List.nil_subperm
        positives_length := ?_
        negatives_length := ?_ }
    · rw [g.choice_length s hCap, min_eq_left hCap]
    · rw [Nat.sub_eq_zero_of_le hCap, Nat.zero_min]
      rfl
  · simp only [if_neg hCap]
    refine
      { positives := List.Subperm.refl _
        negatives := g.choice_subperm s _ _
        positives_length := ?_
        negatives_length := ?_ }
    · rw [min_eq_right (le_of_not_ge hCap)]
    · rw [g.choice_length s (min_le_right _ _)]

variable {labels : List ℕ}
variable {cap : ℕ}
variable {kept : Kept σ}

theorem KeptSpec.label_positive
    (hSpec : KeptSpec labels cap kept)
    {i : ℕ}
    (hMem : i ∈ kept.positives) :
    labels[i]? = some 1 :=
  mem_positionsOf.mp (hSpec.positives.subset hMem)

theorem KeptSpec.label_negative
    (hSpec : KeptSpec labels cap kept)
    {i : ℕ}
    (hMem : i ∈ kept.negatives) :
    labels[i]? = some 0 :=
  mem_positionsOf.mp (hSpec.negatives.subset hMem)

theorem Kept.select_perm
    (kept : Kept σ) :
    (kept.select g).Perm
      (kept.positives ++ kept.negatives) :=
  g.shuffle_perm _ _

/- The positives of a selection are the ones that were kept. -/
theorem KeptSpec.filter_positives
    (hSpec : KeptSpec labels cap kept) :
    ((kept.select g).filter
        (fun i => labels[i]? = some 1)).Perm
      kept.positives := by
  refine ((kept.select_perm g).filter _).trans ?_
  rw [List.filter_append]
  have hPos : kept.positives.filter
      (fun i => labels[i]? = some 1) = kept.positives := by
    apply List.filter_eq_self.mpr
    intro i hMem
    rw [hSpec.label_positive hMem]
    rfl
  have hNeg : kept.negatives.filter
      (fun i => labels[i]? = some 1) = [] := by
    apply List.filter_eq_nil_iff.mpr
    intro i hMem
    rw [hSpec.label_negative hMem]
    decide
  rw [hPos, hNeg, List.append_nil]

theorem KeptSpec.filter_negatives
    (hSpec : KeptSpec labels cap kept) :
    ((kept.select g).filter
        (fun i => labels[i]? = some 0)).Perm
      kept.negatives := by
  refine ((kept.select_perm g).filter _).trans ?_
  rw [List.filter_append]
  have hPos : kept.positives.filter
      (fun i => labels[i]? = some 0) = [] := by
    apply List.filter_eq_nil_iff.mpr
    intro i hMem
    rw [hSpec.label_positive hMem]
    decide
  have hNeg : kept.negatives.filter
      (fun i => labels[i]? = some 0) = kept.negatives := by
    apply List.filter_eq_self.mpr
    intro i hMem
    rw [hSpec.label_negative hMem]
    rfl
  rw [hPos, hNeg, List.nil_append]

/- What is selected is a position. -/
theorem KeptSpec.lt_of_mem_select
    (hSpec : KeptSpec labels cap kept)
    {i : ℕ}
    (hMem : i ∈ kept.select g) :
    i < labels.length := by
  have hLabel : ∃ label, labels[i]? = some label := by
    rcases List.mem_append.mp
      ((kept.select_perm g).subset hMem) with hPos | hNeg
    · exact ⟨1, hSpec.label_positive hPos⟩
    · exact ⟨0, hSpec.label_negative hNeg⟩
  rcases hLabel with ⟨label, hLabel⟩
  exact (List.getElem?_eq_some_iff.mp hLabel).1

end Selected

------------------------------------------------------------
-- Sums over a Selection
------------------------------------------------------------

/-
  When entries are picked at positions, the weight of a class
  is the sum over the positions of that class.
-/
theorem classWeight_filterMap
    {labels select : List ℕ}
    {row : ℕ → Option WindowedSample}
    {weight : ℕ → ℚ}
    (hRow :
      ∀ i ∈ select,
        ∃ r,
          row i = some r ∧
            labels[i]? = some r.riskLabel ∧
              r.sampleWeight = weight i)
    (label : ℕ) :
    classWeight (select.filterMap row) label =
      ((select.filter
        (fun i => labels[i]? = some label)).map weight).sum := by
  unfold classWeight
  induction select with
  | nil => rfl
  | cons i select ih =>
      rcases hRow i (by simp) with ⟨r, hAt, hLabel, hWeight⟩
      have hRest := ih
        (fun j hMem => hRow j (List.mem_cons_of_mem _ hMem))
      rw [List.filterMap_cons, hAt, List.filter_cons,
        List.filter_cons]
      by_cases hClass : r.riskLabel = label
      · simp [hClass, hLabel, hWeight, hRest]
      · simp [hClass, hLabel, hRest]

theorem sum_map_const
    {select : List ℕ}
    {weight : ℕ → ℚ}
    {w : ℚ}
    (hWeight : ∀ i ∈ select, weight i = w) :
    (select.map weight).sum = select.length * w := by
  rw [List.map_congr_left hWeight, List.map_const',
    List.sum_replicate, nsmul_eq_mul]

section Weights

variable {σ : Type}
variable {labels : List ℕ}
variable {cap : ℕ}
variable {kept : Kept σ}

/- The positives that are kept stand for all of them. -/
theorem KeptSpec.sum_positives
    (hSpec : KeptSpec labels cap kept)
    (hCap : 0 < cap) :
    (kept.positives.map (capWeight labels cap kept)).sum =
      labels.count 1 := by
  rw [← length_positionsOf labels 1]
  have hLength := hSpec.positives_length
  by_cases hFull : cap ≤ (positionsOf labels 1).length
  · rw [min_eq_left hFull] at hLength
    have hWeight : ∀ i ∈ kept.positives,
        capWeight labels cap kept i =
          ((positionsOf labels 1).length : ℚ) / cap := by
      intro i hMem
      simp [capWeight, hFull, hMem, hLength]
    rw [sum_map_const hWeight, hLength]
    have hNe : (cap : ℚ) ≠ 0 := by exact_mod_cast hCap.ne'
    field_simp
  · rw [min_eq_right (le_of_not_ge hFull)] at hLength
    have hWeight : ∀ i ∈ kept.positives,
        capWeight labels cap kept i = 1 := by
      intro i hMem
      have hNot : i ∉ kept.negatives := by
        intro hNegative
        have hLabel := hSpec.label_negative hNegative
        rw [hSpec.label_positive hMem] at hLabel
        cases hLabel
      simp [capWeight, hFull, hNot]
    rw [sum_map_const hWeight, hLength, mul_one]

/- The negatives do so, too, when the cap leaves room. -/
theorem KeptSpec.sum_negatives
    (hSpec : KeptSpec labels cap kept)
    (hRoom : labels.count 1 < cap) :
    (kept.negatives.map (capWeight labels cap kept)).sum =
      labels.count 0 := by
  rw [← length_positionsOf] at hRoom ⊢
  have hLength := hSpec.negatives_length
  have hWeight : ∀ i ∈ kept.negatives,
      capWeight labels cap kept i =
        ((positionsOf labels 0).length : ℚ) /
          (max kept.negatives.length 1 : ℕ) := by
    intro i hMem
    simp [capWeight, not_le_of_gt hRoom, hMem]
  rw [sum_map_const hWeight]
  rcases Nat.eq_zero_or_pos (positionsOf labels 0).length
    with hNone | hSome
  · rw [hNone] at hLength ⊢
    simp
  · have hPos : 0 < kept.negatives.length := by omega
    rw [max_eq_left hPos]
    have hNe : (kept.negatives.length : ℚ) ≠ 0 := by
      exact_mod_cast hPos.ne'
    field_simp

/- No negatives are kept when the cap leaves no room. -/
theorem KeptSpec.negatives_eq_nil
    (hSpec : KeptSpec labels cap kept)
    (hFull : cap ≤ labels.count 1) :
    kept.negatives = [] := by
  rw [← length_positionsOf] at hFull
  have hLength := hSpec.negatives_length
  rw [Nat.sub_eq_zero_of_le hFull, Nat.zero_min] at hLength
  exact List.eq_nil_of_length_eq_zero hLength

/- All positives are kept when the cap has room for them. -/
theorem KeptSpec.positives_perm
    (hSpec : KeptSpec labels cap kept)
    (hRoom : labels.count 1 ≤ cap) :
    kept.positives.Perm (positionsOf labels 1) := by
  rw [← length_positionsOf] at hRoom
  apply hSpec.positives.perm_of_length_le
  rw [hSpec.positives_length, min_eq_right hRoom]

end Weights

------------------------------------------------------------
-- The Weights of a Built Set
------------------------------------------------------------

theorem sortRows_sortRows (table : List StateRow) :
    sortRows (sortRows table) = sortRows table :=
  sortByKey_of_pairwise
    (sortByKey_pairwise StateRow.key table)

theorem enumerateCandidates_sortRows
    (table : List StateRow)
    (L : ℕ+)
    (K : ℕ) :
    enumerateCandidates (sortRows table) L K =
      enumerateCandidates table L K := by
  rw [enumerateCandidates, enumerateCandidates,
    sortRows_sortRows]

/- The labels of the candidate origins of a split. -/
def candidateLabels
    (table : List StateRow)
    (L : ℕ+)
    (K : ℕ) : List ℕ :=
  (enumerateCandidates table L K).map Candidate.riskLabel

theorem classCount_eq
    (table : List StateRow)
    (L : ℕ+)
    (K label : ℕ) :
    classCount table L K label =
      (candidateLabels table L K).count label := by
  rw [classCount, candidateLabels, List.count,
    List.countP_map, ← List.countP_eq_length_filter]
  rfl

section Built

variable {σ : Type}
variable {g : Generator σ}
variable {s : σ}
variable {table : List StateRow}
variable {L : ℕ+}
variable {K : ℕ}
variable {maxSamples : Option ℕ+}

/- A sample has the label of its candidate. -/
theorem riskLabel_of_materializeOne
    {lookup : EpisodeLookup}
    {c : Candidate}
    {sample : Sample}
    (hMem : c ∈ enumerateCandidates table L K)
    (hSample :
      materializeOne table L K lookup c = some sample) :
    sample.riskLabel = c.riskLabel := by
  rcases mem_enumerateCandidates.mp hMem with
    ⟨t, row, _, _, hRow, hEq⟩
  have hT : c.t = t := by rw [hEq]; rfl
  have hRisk : c.riskLabel = row.riskLabel := by rw [hEq]; rfl
  rw [materializeOne, hT, hRow] at hSample
  cases hSample
  exact hRisk.symm

/- Every candidate makes an entry, with its label. -/
theorem exists_windowedSample
    (windowSeconds : ℤ)
    (weight : ℕ → ℚ)
    {i : ℕ}
    (hLt : i < (enumerateCandidates table L K).length) :
    ∃ r,
      windowedSample table L K windowSeconds
          (enumerateCandidates table L K) weight i = some r ∧
        (candidateLabels table L K)[i]? = some r.riskLabel ∧
          r.sampleWeight = weight i := by
  have hAt := List.getElem?_eq_getElem hLt
  generalize (enumerateCandidates table L K)[i] = c at hAt
  have hMem : c ∈ enumerateCandidates table L K :=
    List.mem_of_getElem? hAt
  rcases Option.isSome_iff_exists.mp
    (materializeOne_isSome hMem (episodeLookup table)) with
    ⟨sample, hSample⟩
  have hRisk := riskLabel_of_materializeOne hMem hSample
  let geometry :=
    episodeGeometry table windowSeconds defaultMergeGapWindows
      c.hostId c.originTs
  refine ⟨
    { sample := sample
      sampleWeight := weight i
      insideEpisode := geometry.inside
      minutesToOnset := geometry.minutesToOnset }, ?_, ?_, rfl⟩
  · rw [windowedSample, hAt, Option.bind_eq_bind,
      Option.bind_some, hSample]
    rfl
  · rw [candidateLabels, List.getElem?_map, hAt,
      Option.map_some, ← hRisk]
    rfl

theorem candidateLabels_sortRows :
    candidateLabels (sortRows table) L K =
      candidateLabels table L K := by
  rw [candidateLabels, candidateLabels,
    enumerateCandidates_sortRows]

/- The entries of a built set are those of the selection. -/
theorem exists_of_build
    {built : List WindowedSample}
    (hBuilt :
      buildWindowedArrays table L K g s maxSamples =
        .ok built) :
    ∃ windowSeconds,
      built =
        (selectCandidates g s (candidateLabels table L K)
          maxSamples).1.filterMap
          (windowedSample (sortRows table) L K windowSeconds
            (enumerateCandidates (sortRows table) L K)
            (selectCandidates g s (candidateLabels table L K)
              maxSamples).2) := by
  rw [← candidateLabels_sortRows]
  unfold buildWindowedArrays at hBuilt
  dsimp only at hBuilt
  split at hBuilt
  · next hEmpty =>
      have hLabels :
          candidateLabels (sortRows table) L K = [] := by
        rw [candidateLabels, List.isEmpty_iff.mp hEmpty]
        rfl
      cases hBuilt
      refine ⟨0, ?_⟩
      rw [hLabels]
      cases maxSamples with
      | none => rfl
      | some cap => simp [selectCandidates]
  · cases hInfer : inferWindowSeconds (sortRows table) with
    | error error =>
        rw [hInfer] at hBuilt
        cases hBuilt
    | ok windowSeconds =>
        rw [hInfer] at hBuilt
        cases hBuilt
        exact ⟨windowSeconds, rfl⟩

/- What is selected is a position of a candidate. -/
theorem lt_of_mem_selectCandidates
    {labels : List ℕ}
    {i : ℕ}
    (hMem : i ∈ (selectCandidates g s labels maxSamples).1) :
    i < labels.length := by
  unfold selectCandidates at hMem
  split at hMem
  · exact List.mem_range.mp hMem
  · split at hMem
    · exact List.mem_range.mp hMem
    · exact (keepByRisk_spec g s labels _).lt_of_mem_select g
        hMem

/- The classes of a built set, by what was selected. -/
theorem classWeight_build
    {built : List WindowedSample}
    (hBuilt :
      buildWindowedArrays table L K g s maxSamples =
        .ok built)
    (label : ℕ) :
    classWeight built label =
      (((selectCandidates g s (candidateLabels table L K)
          maxSamples).1.filter
        (fun i =>
          (candidateLabels table L K)[i]? = some label)).map
        (selectCandidates g s (candidateLabels table L K)
          maxSamples).2).sum := by
  rcases exists_of_build hBuilt with ⟨windowSeconds, rfl⟩
  apply classWeight_filterMap
  intro i hMem
  have hLt := lt_of_mem_selectCandidates hMem
  rw [← candidateLabels_sortRows] at hLt ⊢
  rw [candidateLabels, List.length_map] at hLt
  exact exists_windowedSample windowSeconds _ hLt

/- The sum over all positions of a label, each counted once. -/
theorem sum_uncapped
    (labels : List ℕ)
    (label : ℕ) :
    (((List.range labels.length).filter
        (fun i => labels[i]? = some label)).map
        (fun _ => (1 : ℚ))).sum =
      labels.count label := by
  rw [← positionsOf, sum_map_const (fun _ _ => rfl),
    length_positionsOf, mul_one]

/- The positives of a built set stand for all of them. -/
theorem classWeight_build_one
    {built : List WindowedSample}
    (hBuilt :
      buildWindowedArrays table L K g s maxSamples =
        .ok built) :
    classWeight built 1 = classCount table L K 1 := by
  rw [classWeight_build hBuilt, classCount_eq]
  generalize candidateLabels table L K = labels
  cases maxSamples with
  | none => exact sum_uncapped labels 1
  | some cap =>
      unfold selectCandidates
      dsimp only
      split
      · exact sum_uncapped labels 1
      · have hSpec := keepByRisk_spec g s labels cap
        rw [((hSpec.filter_positives g).map _).sum_eq]
        exact hSpec.sum_positives cap.pos

/-
  The negatives of a built set stand for all of them, unless
  the positives alone fill the cap, which leaves none.
-/
theorem classWeight_build_zero
    {built : List WindowedSample}
    (hBuilt :
      buildWindowedArrays table L K g s maxSamples =
        .ok built) :
    classWeight built 0 =
      if maxSamples.any (fun cap =>
          cap < (candidateLabels table L K).length ∧
            cap ≤ classCount table L K 1) then 0
      else (classCount table L K 0 : ℚ) := by
  rw [classWeight_build hBuilt, classCount_eq, classCount_eq]
  generalize candidateLabels table L K = labels
  cases maxSamples with
  | none => exact sum_uncapped labels 0
  | some cap =>
      unfold selectCandidates
      dsimp only
      by_cases hFits : labels.length ≤ cap
      · rw [if_pos hFits, if_neg (by simp [hFits])]
        exact sum_uncapped labels 0
      · have hSpec := keepByRisk_spec g s labels cap
        rw [if_neg hFits,
          ((hSpec.filter_negatives g).map _).sum_eq]
        by_cases hFull : (cap : ℕ) ≤ labels.count 1
        · rw [hSpec.negatives_eq_nil hFull, if_pos]
          · rfl
          · simpa [hFull] using hFits
        · rw [if_neg (by simp [hFull]),
            hSpec.sum_negatives (lt_of_not_ge hFull)]

end Built

------------------------------------------------------------
-- The Weights of a Set That Is Cut Again
------------------------------------------------------------

section Subsampled

variable {σ : Type}
variable {g : Generator σ}
variable {s : σ}

/- The weight at a position. -/
def weightAt
    (arrays : List WindowedSample)
    (i : ℕ) : ℚ :=
  (arrays[i]?.map WindowedSample.sampleWeight).getD 0

theorem classWeight_pickAt
    {arrays : List WindowedSample}
    {select : List ℕ}
    (hIn : ∀ i ∈ select, i < arrays.length)
    (label : ℕ) :
    classWeight (arrays.pickAt select) label =
      ((select.filter (fun i =>
        (arrays.map WindowedSample.riskLabel)[i]? =
          some label)).map (weightAt arrays)).sum := by
  apply classWeight_filterMap
  intro i hMem
  have hLt := hIn i hMem
  have hAt := List.getElem?_eq_getElem hLt
  refine ⟨arrays[i], hAt, ?_, ?_⟩
  · rw [List.getElem?_map, hAt, Option.map_some]
  · rw [weightAt, hAt, Option.map_some, Option.getD_some]

theorem classWeight_eq_sum
    (arrays : List WindowedSample)
    (label : ℕ) :
    classWeight arrays label =
      ((positionsOf (arrays.map WindowedSample.riskLabel)
        label).map (weightAt arrays)).sum := by
  have hAll := @classWeight_pickAt arrays
    (List.range arrays.length)
    (fun i hMem => List.mem_range.mp hMem) label
  rw [List.pickAt_range] at hAll
  rw [hAll, positionsOf, List.length_map]

/- A cut with room for all positives keeps their weight. -/
theorem classWeight_subsample_one
    {arrays : List WindowedSample}
    {maxN : Option ℕ}
    (hRoom :
      ∀ n ∈ maxN,
        (arrays.map WindowedSample.riskLabel).count 1 ≤ n) :
    classWeight (subsampleStratifiedByRisk g s arrays maxN) 1 =
      classWeight arrays 1 := by
  cases maxN with
  | none => rfl
  | some cap =>
      unfold subsampleStratifiedByRisk
      dsimp only
      split
      · rfl
      · have hSpec := keepByRisk_spec g s
          (arrays.map WindowedSample.riskLabel) cap
        rw [classWeight_pickAt, classWeight_eq_sum,
          ((hSpec.filter_positives g).map _).sum_eq,
          ((hSpec.positives_perm (hRoom cap rfl)).map
            _).sum_eq]
        intro i hMem
        simpa using hSpec.lt_of_mem_select g hMem

end Subsampled

/-
  The weights of the positives sum to their number in the
  split, and so do those of the negatives, unless the
  positives alone fill the cap. A second cut keeps the weight
  of the positives when it has room for them, and keeps
  everything when it has room for everything.
-/
theorem cappedWeights_spec
    {σ : Type}
    (g : Generator σ)
    (s s' : σ)
    (table : List StateRow)
    (L : ℕ+)
    (K : ℕ)
    (maxSamples : Option ℕ+)
    (maxN : Option ℕ)
    {built : List WindowedSample}
    (hBuilt :
      buildWindowedArrays table L K g s maxSamples =
        .ok built) :
    classWeight built 1 = classCount table L K 1 ∧
      classWeight built 0 =
        (if maxSamples.any (fun cap =>
            cap < (enumerateCandidates table L K).length ∧
              cap ≤ classCount table L K 1) then 0
        else (classCount table L K 0 : ℚ)) ∧
      ((∀ n ∈ maxN,
          (built.map WindowedSample.riskLabel).count 1 ≤ n) →
        classWeight
            (subsampleStratifiedByRisk g s' built maxN) 1 =
          classWeight built 1) ∧
      ((∀ n ∈ maxN, built.length ≤ n) →
        subsampleStratifiedByRisk g s' built maxN = built) := by
  refine ⟨classWeight_build_one hBuilt, ?_,
    classWeight_subsample_one, ?_⟩
  · rw [classWeight_build_zero hBuilt, candidateLabels,
      List.length_map]
  · intro hRoom
    cases maxN with
    | none => rfl
    | some n =>
        rw [subsampleStratifiedByRisk, if_pos (hRoom n rfl)]

/- A row of one host, with a label. -/
def labelledRow
    (windowTs : ℤ)
    (riskLabel : ℕ) : StateRow where
  hostId := "10.0.0.1"
  windowTs := windowTs
  features := fun _ => 0
  stageLabel := .benign
  riskLabel := riskLabel
  splitGroup := none

/- Two positive origins, a negative one and a last row. -/
def positiveTable : List StateRow :=
  [ labelledRow 0 1, labelledRow 60 1, labelledRow 120 0,
    labelledRow 180 0 ]

theorem exists_build_positives :
    ∃ built,
      buildWindowedArrays positiveTable 1 1 .first ()
        (some 1) = .ok built := by
  have hSome :
      (buildWindowedArrays positiveTable 1 1 .first ()
        (some 1)).toOption.isSome = true := by
    decide +kernel
  generalize buildWindowedArrays positiveTable 1 1 .first ()
    (some 1) = result at hSome
  cases result with
  | error error => cases hSome
  | ok built => exact ⟨built, rfl⟩

/- With room for one sample, no negative is kept. -/
theorem cappedWeights_spec_positives :
    ∃ built,
      buildWindowedArrays positiveTable 1 1 .first () (some 1) =
          .ok built ∧
        classWeight built 1 = 2 ∧
          classWeight built 0 = 0 := by
  rcases exists_build_positives with ⟨built, hBuilt⟩
  have hSpec := cappedWeights_spec .first () ()
    positiveTable 1 1 (some 1) none hBuilt
  refine ⟨built, hBuilt, ?_, ?_⟩
  · rw [hSpec.1]
    decide +kernel
  · rw [hSpec.2.1]
    decide +kernel

/- The weights of the negatives miss the negative origin. -/
theorem not_unbiased_positives :
    ∃ built,
      buildWindowedArrays positiveTable 1 1 .first () (some 1) =
          .ok built ∧
        classWeight built 0 ≠
          (classCount positiveTable 1 1 0 : ℚ) := by
  rcases exists_build_positives with ⟨built, hBuilt⟩
  refine ⟨built, hBuilt, ?_⟩
  rw [classWeight_build_zero hBuilt]
  decide +kernel

end Data

end Nidra
