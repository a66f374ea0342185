import Nidra.Data.Onset
import Nidra.Lib.Survival

/-
  This file defines the discrete-time survival targets of an
  origin, the bucket that its next onset falls in and the
  buckets that it is at risk in, and proves that they say the
  same as the cumulative targets.

  Key definitions include:
    * `hazardBuckets`
    * `discreteHazardTargets`
    * `survivalToCumulative`
    * `HazardsCohere`

  Main declarations:
    * `sum_take_hazardEvents`
    * `hazardTargets_cohere`
-/

namespace Nidra

namespace Data

/- Minutes to an onset lie beyond an edge; none are infinite. -/
def beyond
    (edge : ℚ)
    (minutes : Option ℚ) : Bool :=
  minutes.all (fun x => edge < x)

/- The buckets between zero and the horizons in turn. -/
def hazardBuckets (horizonsMin : List ℚ) : List (ℚ × ℚ) :=
  (0 :: horizonsMin).zip horizonsMin

/- The onset falls in a bucket. -/
def eventIn
    (geo : OriginGeometry)
    (bucket : ℚ × ℚ) : ℕ :=
  if !geo.inside ∧ beyond bucket.1 geo.minutesToOnset ∧
      geo.minutesToOnset.any (fun x => x ≤ bucket.2)
  then 1 else 0

/- No onset has happened before the bucket. -/
def atRiskIn
    (geo : OriginGeometry)
    (bucket : ℚ × ℚ) : Bool :=
  !geo.inside && beyond bucket.1 geo.minutesToOnset

structure HazardTargets where
  event : List ℕ
  atRisk : List Bool
deriving DecidableEq, Repr

/-
  Rows inside an episode are not at risk anywhere, rows whose
  onset lies beyond the last horizon are in every bucket.
-/
def discreteHazardTargets
    (geo : OriginGeometry)
    (horizonsMin : List ℚ) : HazardTargets :=
  let buckets := hazardBuckets horizonsMin
  { event := buckets.map (eventIn geo)
    atRisk := buckets.map (atRiskIn geo) }

section Decoder

variable {𝕜 : Type}
variable [Field 𝕜] [LinearOrder 𝕜]

/- The chance of an onset within each horizon. -/
def survivalToCumulative (hazards : List 𝕜) : List 𝕜 :=
  let h := hazards.map (fun x => min (max x 0) 1)
  ((h.map (fun x => 1 - x)).cumprod).map (fun x => 1 - x)

theorem length_survivalToCumulative
    (hazards : List 𝕜) :
    (survivalToCumulative hazards).length = hazards.length := by
  simp [survivalToCumulative, List.cumprod]

theorem clip_of_unit
    [IsStrictOrderedRing 𝕜]
    {hazards : List 𝕜}
    (hUnit : ∀ x ∈ hazards, UnitInterval x) :
    hazards.map (fun x => min (max x 0) 1) = hazards := by
  conv_rhs => rw [← List.map_id hazards]
  apply List.map_congr_left
  intro x hX
  rcases hUnit x hX with ⟨hLow, hHigh⟩
  rw [max_eq_left hLow, min_eq_left hHigh, id]

end Decoder

/-
  The hazard targets of a row agree with its cumulative ones:
  one event at most, in a bucket at risk; a bucket at risk
  until the event; as many events up to a horizon as onsets
  within it; and the decoder, monotone and bounded on every
  hazards, turns the events into the cumulative targets.
-/
structure HazardsCohere
    (𝕜 : Type)
    [Field 𝕜]
    [LinearOrder 𝕜]
    (horizonsMin : List ℚ)
    (geo : OriginGeometry) : Prop where
  atMostOne :
    (∀ e ∈ (discreteHazardTargets geo horizonsMin).event,
        e = 0 ∨ e = 1) ∧
      (discreteHazardTargets geo horizonsMin).event.sum ≤ 1
  eventAtRisk :
    ∀ j : ℕ,
      (discreteHazardTargets geo horizonsMin).event[j]? =
          some 1 →
        (discreteHazardTargets geo horizonsMin).atRisk[j]? =
          some true
  atRisk_iff :
    ∀ j < horizonsMin.length,
      (discreteHazardTargets geo horizonsMin).atRisk[j]? =
          some true ↔
        geo.inside = false ∧
          ∀ i < j,
            (discreteHazardTargets geo
              horizonsMin).event[i]? = some 0
  firstEvents :
    ∀ m < horizonsMin.length,
      (onsetTargets geo horizonsMin)[m]? =
        some (((discreteHazardTargets geo
          horizonsMin).event.take (m + 1)).sum)
  bounded :
    ∀ hazards : List 𝕜,
      (∀ x ∈ hazards, UnitInterval x) →
        (survivalToCumulative hazards).Pairwise
            (fun a b => a ≤ b) ∧
          ∀ y ∈ survivalToCumulative hazards, UnitInterval y
  decoded :
    survivalToCumulative
        ((discreteHazardTargets geo horizonsMin).event.map
          (fun e : ℕ => (e : 𝕜))) =
      (onsetTargets geo horizonsMin).map
        (fun e : ℕ => (e : 𝕜))

------------------------------------------------------------
-- Events
------------------------------------------------------------

variable {geo : OriginGeometry}

theorem beyond_anti
    {low high : ℚ}
    (hLe : low ≤ high)
    (minutes : Option ℚ)
    (hBeyond : beyond high minutes = true) :
    beyond low minutes = true := by
  cases minutes with
  | none => rfl
  | some x =>
      have hLt : high < x := by simpa [beyond] using hBeyond
      simpa [beyond] using hLe.trans_lt hLt

theorem any_le_iff_not_beyond
    {edge : ℚ}
    {minutes : Option ℚ} :
    minutes.any (fun x => x ≤ edge) = !beyond edge minutes := by
  cases minutes with
  | none => rfl
  | some x =>
      by_cases hLe : x ≤ edge
      · simp [beyond, hLe, not_lt_of_ge hLe]
      · simp [beyond, hLe, lt_of_not_ge hLe]

/- The events of one bucket and of the ones before it. -/
theorem eventIn_add
    {low mid high : ℚ}
    (hLow : low ≤ mid)
    (hHigh : mid ≤ high) :
    eventIn geo (low, mid) + eventIn geo (mid, high) =
      eventIn geo (low, high) := by
  unfold eventIn
  simp only [any_le_iff_not_beyond]
  have hMid := beyond_anti hLow geo.minutesToOnset
  have hEnd := beyond_anti hHigh geo.minutesToOnset
  cases hLowIs : beyond low geo.minutesToOnset <;>
    cases hMidIs : beyond mid geo.minutesToOnset <;>
    cases hHighIs : beyond high geo.minutesToOnset <;>
    cases geo.inside <;>
    simp_all

/-
  Up to a horizon there are as many events as in the one
  bucket that ends there.
-/
theorem sum_take_zip
    {low : ℚ}
    {horizons : List ℚ}
    (hSorted : (low :: horizons).Pairwise (fun a b => a ≤ b))
    {m : ℕ}
    {h : ℚ}
    (hAt : horizons[m]? = some h) :
    ((((low :: horizons).zip horizons).map
        (eventIn geo)).take (m + 1)).sum =
      eventIn geo (low, h) := by
  induction horizons generalizing low m with
  | nil => simp at hAt
  | cons next rest ih =>
      rw [List.zip_cons_cons, List.map_cons,
        List.take_succ_cons, List.sum_cons]
      have hLow : low ≤ next :=
        List.rel_of_pairwise_cons hSorted (by simp)
      cases m with
      | zero =>
          rw [List.getElem?_cons_zero, Option.some.injEq] at hAt
          rw [hAt]
          simp
      | succ m =>
          rw [List.getElem?_cons_succ] at hAt
          have hHigh : next ≤ h :=
            List.rel_of_pairwise_cons hSorted.tail
              (List.mem_of_getElem? hAt)
          rw [ih hSorted.tail hAt]
          exact eventIn_add hLow hHigh

section Targets

variable {horizonsMin : List ℚ}

/- Zero and the horizons rise. -/
theorem edges_pairwise
    (hIncreasing : horizonsMin.Pairwise (fun a b => a < b))
    (hPositive : ∀ h ∈ horizonsMin, 0 < h) :
    (0 :: horizonsMin).Pairwise (fun a b => a ≤ b) := by
  refine List.pairwise_cons.mpr ⟨?_, hIncreasing.imp le_of_lt⟩
  intro h hMem
  exact (hPositive h hMem).le

theorem sum_take_hazardEvents
    (geo : OriginGeometry)
    (hEdges : (0 :: horizonsMin).Pairwise (fun a b => a ≤ b))
    {m : ℕ}
    {h : ℚ}
    (hAt : horizonsMin[m]? = some h) :
    ((discreteHazardTargets geo horizonsMin).event.take
        (m + 1)).sum =
      eventIn geo (0, h) :=
  sum_take_zip hEdges hAt

@[simp] theorem length_event :
    (discreteHazardTargets geo horizonsMin).event.length =
      horizonsMin.length := by
  simp [discreteHazardTargets, hazardBuckets]

theorem eventIn_eq
    (geo : OriginGeometry)
    (bucket : ℚ × ℚ) :
    eventIn geo bucket = 0 ∨ eventIn geo bucket = 1 := by
  unfold eventIn
  split
  · exact Or.inr rfl
  · exact Or.inl rfl

theorem eventIn_le_one
    (geo : OriginGeometry)
    (bucket : ℚ × ℚ) :
    eventIn geo bucket ≤ 1 := by
  rcases eventIn_eq geo bucket with hZero | hOne
  · omega
  · omega

theorem sum_event_le_one
    (geo : OriginGeometry)
    (hEdges : (0 :: horizonsMin).Pairwise (fun a b => a ≤ b)) :
    (discreteHazardTargets geo horizonsMin).event.sum ≤ 1 := by
  rcases Nat.eq_zero_or_pos horizonsMin.length with
    hEmpty | hPos
  · rw [List.length_eq_zero_iff] at hEmpty
    subst hEmpty
    exact Nat.zero_le 1
  · have hIn : horizonsMin.length - 1 < horizonsMin.length := by
      omega
    have hLast := List.getElem?_eq_getElem hIn
    have hSum := sum_take_hazardEvents geo hEdges hLast
    rw [List.take_of_length_le (by
      rw [length_event]
      omega)] at hSum
    rw [hSum]
    exact eventIn_le_one geo _

/- With minutes to come, the bucket from zero is a horizon. -/
theorem eventIn_from_zero
    (hMinutes : ∀ x ∈ geo.minutesToOnset, 0 < x)
    (h : ℚ) :
    eventIn geo (0, h) =
      if !geo.inside ∧ geo.minutesToOnset.any (fun x => x ≤ h)
      then 1 else 0 := by
  have hBeyond : beyond 0 geo.minutesToOnset = true := by
    cases hIs : geo.minutesToOnset with
    | none => rfl
    | some x =>
        rw [hIs] at hMinutes
        simpa [beyond] using hMinutes x rfl
  unfold eventIn
  simp [hBeyond]

theorem onsetTargets_getElem?
    (hEdges : (0 :: horizonsMin).Pairwise (fun a b => a ≤ b))
    (hMinutes : ∀ x ∈ geo.minutesToOnset, 0 < x)
    {m : ℕ}
    (hLt : m < horizonsMin.length) :
    (onsetTargets geo horizonsMin)[m]? =
      some (((discreteHazardTargets geo
        horizonsMin).event.take (m + 1)).sum) := by
  have hAt := List.getElem?_eq_getElem hLt
  rw [sum_take_hazardEvents geo hEdges hAt,
    eventIn_from_zero hMinutes, onsetTargets,
    List.getElem?_map, hAt, Option.map_some]

/- Its onset lies beyond an edge until an event before it. -/
theorem beyond_edge_iff
    (hEdges : (0 :: horizonsMin).Pairwise (fun a b => a ≤ b))
    (hMinutes : ∀ x ∈ geo.minutesToOnset, 0 < x)
    (hOutside : geo.inside = false)
    {j : ℕ}
    {edge : ℚ}
    (hAt : (0 :: horizonsMin)[j]? = some edge) :
    beyond edge geo.minutesToOnset = true ↔
      ((discreteHazardTargets geo horizonsMin).event.take
        j).sum = 0 := by
  have hZero : beyond 0 geo.minutesToOnset = true := by
    cases hIs : geo.minutesToOnset with
    | none => rfl
    | some x =>
        rw [hIs] at hMinutes
        simpa [beyond] using hMinutes x rfl
  cases j with
  | zero =>
      rw [List.getElem?_cons_zero, Option.some.injEq] at hAt
      rw [← hAt]
      simpa using hZero
  | succ j =>
      rw [List.getElem?_cons_succ] at hAt
      rw [sum_take_hazardEvents geo hEdges hAt]
      unfold eventIn
      simp [hOutside, hZero, any_le_iff_not_beyond]

theorem atRisk_getElem?
    (geo : OriginGeometry)
    {j : ℕ}
    (hLt : j < horizonsMin.length) :
    ∃ edge, (0 :: horizonsMin)[j]? = some edge ∧
      (discreteHazardTargets geo horizonsMin).atRisk[j]? =
        some (!geo.inside && beyond edge geo.minutesToOnset) := by
  have hEdge : j < (0 :: horizonsMin).length := by
    rw [List.length_cons]
    omega
  refine ⟨(0 :: horizonsMin)[j], List.getElem?_eq_getElem hEdge,
    ?_⟩
  have hBucket :
      (hazardBuckets horizonsMin)[j]? =
        some ((0 :: horizonsMin)[j], horizonsMin[j]) :=
    List.getElem?_zip_eq_some.mpr
      ⟨List.getElem?_eq_getElem hEdge,
        List.getElem?_eq_getElem hLt⟩
  rw [discreteHazardTargets]
  dsimp only
  rw [List.getElem?_map, hBucket]
  rfl

/- No event before a place means that none adds up there. -/
theorem forall_event_eq_zero_iff
    {j : ℕ}
    (hLe : j ≤ horizonsMin.length) :
    (∀ i < j,
        (discreteHazardTargets geo horizonsMin).event[i]? =
          some 0) ↔
      ((discreteHazardTargets geo horizonsMin).event.take
        j).sum = 0 := by
  rw [List.sum_eq_zero_iff]
  constructor
  · intro hNone e hE
    rcases List.getElem?_of_mem hE with ⟨i, hI⟩
    rw [List.getElem?_take] at hI
    split_ifs at hI with hIJ
    rw [hNone i hIJ, Option.some.injEq] at hI
    exact hI.symm
  · intro hAll i hI
    have hLt :
        i < (discreteHazardTargets geo
          horizonsMin).event.length := by
      rw [length_event]
      omega
    rw [List.getElem?_eq_getElem hLt, Option.some.injEq]
    apply hAll
    apply List.mem_of_getElem? (i := i)
    rw [List.getElem?_take, if_pos hI]
    exact List.getElem?_eq_getElem hLt

end Targets

------------------------------------------------------------
-- Coherence
------------------------------------------------------------

theorem survivalToCumulative_bounded
    {𝕜 : Type}
    [Field 𝕜] [LinearOrder 𝕜] [IsStrictOrderedRing 𝕜]
    {hazards : List 𝕜}
    (hUnit : ∀ x ∈ hazards, UnitInterval x) :
    (survivalToCumulative hazards).Pairwise
        (fun a b => a ≤ b) ∧
      ∀ y ∈ survivalToCumulative hazards, UnitInterval y := by
  unfold survivalToCumulative
  dsimp only
  rw [clip_of_unit hUnit]
  have hShares :
      ∀ x ∈ hazards.map (fun x => 1 - x), UnitInterval x := by
    intro x hX
    rcases List.mem_map.mp hX with ⟨y, hY, rfl⟩
    exact (hUnit y hY).one_sub
  constructor
  · rw [List.pairwise_map]
    refine (List.cumprod_pairwise hShares).imp ?_
    intro a b hLe
    exact sub_le_sub_left hLe 1
  · intro y hY
    rcases List.mem_map.mp hY with ⟨z, hZ, rfl⟩
    exact (List.cumprod_mem_unit hShares z hZ).one_sub

theorem survivalToCumulative_events
    {𝕜 : Type}
    [Field 𝕜] [LinearOrder 𝕜] [IsStrictOrderedRing 𝕜]
    {events : List ℕ}
    (hOne : events.sum ≤ 1)
    {m : ℕ}
    (hLt : m < events.length) :
    (survivalToCumulative
        (events.map (fun e : ℕ => (e : 𝕜))))[m]? =
      some ((events.take (m + 1)).sum : 𝕜) := by
  have hUnit :
      ∀ x ∈ events.map (fun e : ℕ => (e : 𝕜)),
        UnitInterval x := by
    intro x hX
    rcases List.mem_map.mp hX with ⟨e, hE, rfl⟩
    have hLe : e ≤ 1 := (List.le_sum_of_mem hE).trans hOne
    exact ⟨Nat.cast_nonneg e, by exact_mod_cast hLe⟩
  unfold survivalToCumulative
  dsimp only
  rw [clip_of_unit hUnit, List.map_map, List.getElem?_map]
  have hSurvive := List.cumprod_events (𝕜 := 𝕜) hOne hLt
  have hSame :
      events.map ((fun x => 1 - x) ∘ fun e : ℕ => (e : 𝕜)) =
        events.map (fun e : ℕ => 1 - (e : 𝕜)) := rfl
  rw [hSame, hSurvive, Option.map_some, sub_sub_cancel]

/- The two constructions and the decoder cohere. -/
theorem hazardTargets_cohere
    (𝕜 : Type)
    [Field 𝕜] [LinearOrder 𝕜] [IsStrictOrderedRing 𝕜]
    (horizonsMin : List ℚ)
    (hIncreasing : horizonsMin.Pairwise (fun a b => a < b))
    (hPositive : ∀ h ∈ horizonsMin, 0 < h)
    (geo : OriginGeometry)
    (hMinutes : ∀ x ∈ geo.minutesToOnset, 0 < x) :
    HazardsCohere 𝕜 horizonsMin geo := by
  have hEdges := edges_pairwise hIncreasing hPositive
  have hOne := sum_event_le_one geo hEdges
  refine ⟨⟨?_, hOne⟩, ?_, ?_, ?_, ?_, ?_⟩
  · intro e hE
    rcases List.mem_map.mp hE with ⟨bucket, _, rfl⟩
    exact eventIn_eq geo bucket
  · intro j hEvent
    unfold discreteHazardTargets at hEvent ⊢
    dsimp only at hEvent ⊢
    rw [List.getElem?_map] at hEvent ⊢
    rcases Option.map_eq_some_iff.mp hEvent with
      ⟨bucket, hBucket, hIs⟩
    rw [hBucket, Option.map_some]
    unfold eventIn at hIs
    split_ifs at hIs with hIn
    simp only [atRiskIn, hIn.1, hIn.2.1, Bool.and_self]
  · intro j hLt
    rcases atRisk_getElem? geo hLt with
      ⟨edge, hEdge, hRisk⟩
    rw [hRisk, forall_event_eq_zero_iff hLt.le,
      Option.some.injEq, Bool.and_eq_true,
      Bool.not_eq_true']
    constructor
    · rintro ⟨hOutside, hBeyond⟩
      exact ⟨hOutside,
        (beyond_edge_iff hEdges hMinutes hOutside hEdge).mp
          hBeyond⟩
    · rintro ⟨hOutside, hNone⟩
      exact ⟨hOutside,
        (beyond_edge_iff hEdges hMinutes hOutside hEdge).mpr
          hNone⟩
  · intro m hLt
    exact onsetTargets_getElem? hEdges hMinutes hLt
  · intro hazards hUnit
    exact survivalToCumulative_bounded hUnit
  · apply List.ext_getElem?
    intro m
    by_cases hLt : m < horizonsMin.length
    · rw [survivalToCumulative_events hOne (by simpa using hLt),
        List.getElem?_map,
        onsetTargets_getElem? hEdges hMinutes hLt]
      rfl
    · rw [List.getElem?_eq_none, List.getElem?_eq_none]
      · simp [onsetTargets, not_lt.mp hLt]
      · rw [length_survivalToCumulative]
        simp [not_lt.mp hLt]

/- An onset in seven minutes, in the third of four buckets. -/
theorem hazardTargets_cohere_sevenMinutes :
    HazardsCohere ℚ [1, 5, 10, 30]
        { inside := false
          minutesToOnset := some 7
          key := some ⟨"a", 420⟩ } ∧
      (discreteHazardTargets
        { inside := false
          minutesToOnset := some 7
          key := some ⟨"a", 420⟩ } [1, 5, 10, 30]).event =
        [0, 0, 1, 0] :=
  ⟨hazardTargets_cohere ℚ [1, 5, 10, 30] (by decide)
    (by decide) _ (by decide), by decide⟩

end Data

end Nidra
