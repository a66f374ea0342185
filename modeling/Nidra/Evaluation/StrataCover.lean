import Nidra.Evaluation.EvalSet

/-
  This file proves when the evaluation set is complete where
  the episode report needs it. The strata always partition
  the candidate origins and their weights always add up; the
  origins that are lost are those inside an episode that have
  no attack ahead, which fall into the capped strata.

  Key definitions include:
    * `keptCount`
    * `InsideEpisode`, `BeforeOnset`
    * `episodeCaps`
    * `EvalSetComplete`
    * `CapsSpareEpisodes`

  Main declarations:
    * `strata_partition`
    * `stratum_weights_sum`
    * `evalSetComplete_iff`
-/

namespace Nidra

namespace Evaluation

open Data

------------------------------------------------------------
-- Draws
------------------------------------------------------------

/- How many of the rows of a stratum a cap keeps. -/
def keptCount
    (cap : Option ℕ)
    (count : ℕ) : ℕ :=
  match cap with
  | none => count
  | some cap => min count cap

section Draws

variable {ρ : Type}
variable (gen : Generator ρ)
variable {caps : Caps}
variable {indices : Stratum → List ℕ}

theorem drawOne_spec
    (rng : ρ)
    (cap : Option ℕ)
    (idx : List ℕ) :
    (drawOne gen rng cap idx).1.Subperm idx ∧
      (drawOne gen rng cap idx).1.length =
        keptCount cap idx.length := by
  cases cap with
  | none =>
      exact ⟨List.Subperm.refl idx, rfl⟩
  | some cap =>
      by_cases hFits : idx.length ≤ cap
      · rw [drawOne, if_pos hFits, keptCount,
          min_eq_left hFits]
        exact ⟨List.Subperm.refl idx, rfl⟩
      · have hLe : cap ≤ idx.length := Nat.le_of_not_le hFits
        rw [drawOne, if_neg hFits, keptCount,
          min_eq_right hLe]
        exact gen.withoutReplacement rng idx cap hLe

/- What was drawn is part of the stratum, of the kept size. -/
structure Draw.Fair
    (caps : Caps)
    (indices : Stratum → List ℕ)
    (draw : Draw) : Prop where
  full : draw.full = indices draw.name
  subperm : draw.chosen.Subperm draw.full
  length :
    draw.chosen.length =
      keptCount (caps draw.name) draw.full.length

theorem drawStrata_fair
    {rng : ρ}
    {names : List Stratum}
    {draw : Draw}
    (hMem : draw ∈ drawStrata gen caps indices rng names) :
    draw.Fair caps indices := by
  induction names generalizing rng with
  | nil => simp [drawStrata] at hMem
  | cons name rest ih =>
      rw [drawStrata, List.mem_cons] at hMem
      rcases hMem with rfl | hRest
      · rcases drawOne_spec gen rng (caps name)
          (indices name) with ⟨hSub, hLength⟩
        have hPerm :=
          sortByKey_perm id
            (drawOne gen rng (caps name) (indices name)).1
        exact
          { full := rfl
            subperm := hPerm.subperm.trans hSub
            length := hPerm.length_eq.trans hLength }
      · exact ih hRest

@[simp] theorem map_name_drawStrata
    (rng : ρ)
    (names : List Stratum) :
    (drawStrata gen caps indices rng names).map Draw.name =
      names := by
  induction names generalizing rng with
  | nil => rfl
  | cons name rest ih => simp [drawStrata, ih]

end Draws

/- A stratum has one draw, whose weight its rows get. -/
theorem weightByStratum_of_mem
    {draws : List Draw}
    (hNodup : (draws.map Draw.name).Nodup)
    {draw : Draw}
    (hMem : draw ∈ draws) :
    weightByStratum draws draw.name = draw.weight := by
  induction draws with
  | nil => simp at hMem
  | cons first rest ih =>
      rw [List.map_cons, List.nodup_cons] at hNodup
      rcases List.mem_cons.mp hMem with rfl | hRest
      · simp [weightByStratum]
      · have hNe : first.name ≠ draw.name := by
          intro hEq
          rw [hEq] at hNodup
          exact hNodup.1 (List.mem_map_of_mem hRest)
        rw [← ih hNodup.2 hRest]
        simp [weightByStratum, hNe]

/- Only the draw of one name counts. -/
theorem sum_of_name
    {draws : List Draw}
    (hNodup : (draws.map Draw.name).Nodup)
    {draw : Draw}
    (hMem : draw ∈ draws)
    (f : Draw → ℚ) :
    (draws.map
        (fun d => if d.name = draw.name then f d else 0)).sum =
      f draw := by
  induction draws with
  | nil => simp at hMem
  | cons first rest ih =>
      rw [List.map_cons, List.nodup_cons] at hNodup
      rw [List.map_cons, List.sum_cons]
      rcases List.mem_cons.mp hMem with rfl | hRest
      · have hZero :
            rest.map
                (fun d =>
                  if d.name = draw.name then f d else 0) =
              rest.map (fun _ => 0) := by
          apply List.map_congr_left
          intro d hD
          rw [if_neg]
          intro hEq
          rw [← hEq] at hNodup
          exact hNodup.1 (List.mem_map_of_mem hD)
        rw [hZero, if_pos rfl]
        simp
      · have hNe : first.name ≠ draw.name := by
          intro hEq
          rw [hEq] at hNodup
          exact hNodup.1 (List.mem_map_of_mem hRest)
        rw [if_neg hNe, zero_add, ih hNodup.2 hRest]

theorem Draw.length_mul_weight
    {draw : Draw}
    (hKept : draw.full ≠ [] → draw.chosen ≠ []) :
    (draw.chosen.length : ℚ) * draw.weight =
      draw.full.length := by
  unfold Draw.weight
  by_cases hEmpty : draw.chosen = []
  · have hFull : draw.full = [] := by
      by_contra hNe
      exact hKept hNe hEmpty
    simp [hEmpty, hFull]
  · rw [if_neg hEmpty]
    have hNe : (draw.chosen.length : ℚ) ≠ 0 := by
      rw [Nat.cast_ne_zero, Ne, List.length_eq_zero_iff]
      exact hEmpty
    exact mul_div_cancel₀ _ hNe

------------------------------------------------------------
-- The Strata
------------------------------------------------------------

theorem mem_strata
    (name : Stratum) :
    name ∈ strata := by
  cases name <;> decide

theorem strata_nodup : strata.Nodup := by
  decide

theorem mem_stratumIndices
    {preOnsetMinutes : ℕ}
    {os : List Origin}
    {name : Stratum}
    {i : ℕ} :
    i ∈ stratumIndices preOnsetMinutes os name ↔
      ∃ o, os[i]? = some o ∧
        o.stratum preOnsetMinutes = name := by
  unfold stratumIndices
  rw [List.mem_filter, List.mem_range]
  constructor
  · rintro ⟨_, hAny⟩
    cases hAt : os[i]? with
    | none => simp [hAt] at hAny
    | some o =>
        rw [hAt] at hAny
        exact ⟨o, rfl, by simpa using hAny⟩
  · rintro ⟨o, hAt, hName⟩
    rcases List.getElem?_eq_some_iff.mp hAt with ⟨hLt, _⟩
    refine ⟨hLt, ?_⟩
    rw [hAt]
    simpa using hName

theorem stratumIndices_nodup
    (preOnsetMinutes : ℕ)
    (os : List Origin)
    (name : Stratum) :
    (stratumIndices preOnsetMinutes os name).Nodup :=
  List.nodup_range.filter _

/- Every origin is in exactly one stratum. -/
theorem strata_partition
    (preOnsetMinutes : ℕ)
    (os : List Origin) :
    (strata.flatMap
        (stratumIndices preOnsetMinutes os)).Perm
      (List.range os.length) := by
  have hNodup :
      (strata.flatMap
        (stratumIndices preOnsetMinutes os)).Nodup := by
    rw [List.nodup_flatMap]
    refine ⟨?_, ?_⟩
    · intro name _
      exact stratumIndices_nodup preOnsetMinutes os name
    · refine strata_nodup.imp ?_
      intro a b hNe i hA hB
      rcases mem_stratumIndices.mp hA with ⟨o, hAt, hName⟩
      rcases mem_stratumIndices.mp hB with ⟨o', hAt', hName'⟩
      rw [hAt, Option.some.injEq] at hAt'
      subst hAt'
      exact hNe (hName.symm.trans hName')
  rw [List.perm_ext_iff_of_nodup hNodup List.nodup_range]
  intro i
  rw [List.mem_flatMap, List.mem_range]
  constructor
  · rintro ⟨name, _, hIn⟩
    rcases mem_stratumIndices.mp hIn with ⟨o, hAt, _⟩
    exact (List.getElem?_eq_some_iff.mp hAt).1
  · intro hLt
    refine ⟨os[i].stratum preOnsetMinutes, mem_strata _, ?_⟩
    exact mem_stratumIndices.mpr
      ⟨os[i], List.getElem?_eq_getElem hLt, rfl⟩

------------------------------------------------------------
-- Completeness
------------------------------------------------------------

section Completeness

variable {ρ : Type}
variable (gen : Generator ρ)
variable (table : List StateRow)
variable (p : EvalParameters)

/- The merged episodes of the host of an origin. -/
def originEpisodes (o : Origin) : List MergedEpisode :=
  hostEpisodes (sortRows table) p.windowSeconds
    p.mergeGapWindows o.candidate.hostId

def InsideEpisode (o : Origin) : Prop :=
  ∃ ep ∈ originEpisodes table p o,
    ep.Contains o.candidate.originTs

instance InsideEpisode.decidable
    (o : Origin) :
    Decidable (InsideEpisode table p o) :=
  inferInstanceAs (Decidable (∃ ep ∈ _, _))

/-
  The origin is outside all episodes of its host and an onset
  follows within the pre-onset span.
-/
def BeforeOnset (o : Origin) : Prop :=
  ¬ InsideEpisode table p o ∧
    ∃ ep ∈ originEpisodes table p o,
      o.candidate.originTs < ep.startTs ∧
        ep.startTs - o.candidate.originTs ≤
          60 * p.preOnsetMinutes

/- The strata of the episode report are not capped. -/
def episodeCaps
    (activeCap silentCap : ℕ+) : Caps
  | .positive => none
  | .preOnset => none
  | .activeNegative => some activeCap
  | .silentNegative => some silentCap

/-
  The strata partition the origins, the weights of a stratum
  add up to its size, and every origin that the episode
  report needs is selected with weight one.
-/
structure EvalSetComplete : Prop where
  partition :
    (strata.flatMap
        (stratumIndices p.preOnsetMinutes
          (origins table p))).Perm
      (List.range (origins table p).length)
  weights :
    ∀ name,
      (((buildEvalSet gen table p).rows.filter
          (fun row => row.stratum = name)).map
            EvalRow.weight).sum =
        (stratumIndices p.preOnsetMinutes (origins table p)
          name).length
  complete :
    ∀ i o, (origins table p)[i]? = some o →
      InsideEpisode table p o ∨ BeforeOnset table p o →
        i ∈ selectAll (evalDraws gen table p) ∧
          ∃ row ∈ evalRowAt table p
              (evalDraws gen table p) i,
            row.weight = 1

/-
  A capped stratum that an origin inside an episode falls
  into, for it has no attack within K windows, is not larger
  than its cap.
-/
def CapsSpareEpisodes : Prop :=
  ∀ o ∈ origins table p,
    InsideEpisode table p o → o.positive = false →
      ∀ cap ∈ p.caps (o.stratum p.preOnsetMinutes),
        (stratumIndices p.preOnsetMinutes (origins table p)
          (o.stratum p.preOnsetMinutes)).length ≤ cap

variable {table p}

/- Every origin is a row of the table, with its geometry. -/
theorem exists_row_of_origin
    {o : Origin}
    (hMem : o ∈ origins table p) :
    (∃ row ∈ sortRows table,
        row.hostId = o.candidate.hostId ∧
          o.candidate =
            candidateAt o.candidate.hostId
              o.candidate.t row) ∧
      o.geometry =
        episodeGeometry (sortRows table) p.windowSeconds
          p.mergeGapWindows o.candidate.hostId
          o.candidate.originTs := by
  rcases List.mem_map.mp hMem with ⟨c, hC, rfl⟩
  exact ⟨exists_row_of_candidate hC, rfl⟩

/- The geometry knows which origins are inside. -/
theorem inside_iff
    {o : Origin}
    (hMem : o ∈ origins table p) :
    o.geometry.inside = true ↔ InsideEpisode table p o := by
  rw [(exists_row_of_origin hMem).2]
  exact episodeGeometry_inside _

theorem within_iff
    {o : Origin}
    (hMem : o ∈ origins table p) :
    o.geometry.minutesToOnset.any
        (fun m : ℚ => m ≤ p.preOnsetMinutes) = true ↔
      ∃ ep ∈ originEpisodes table p o,
        o.candidate.originTs < ep.startTs ∧
          ep.startTs - o.candidate.originTs ≤
            60 * p.preOnsetMinutes := by
  have hAny :
      o.geometry.minutesToOnset.any
          (fun m : ℚ => m ≤ p.preOnsetMinutes) = true ↔
        ∃ m ∈ o.geometry.minutesToOnset,
          m ≤ (p.preOnsetMinutes : ℚ) := by
    cases o.geometry.minutesToOnset with
    | none => simp
    | some m => simp
  have hMinutes :
      ∀ ep : MergedEpisode,
        OriginGeometry.Within o.candidate.originTs
            p.preOnsetMinutes ep ↔
          o.candidate.originTs < ep.startTs ∧
            ep.startTs - o.candidate.originTs ≤
              60 * p.preOnsetMinutes := by
    intro ep
    unfold OriginGeometry.Within
    refine and_congr_right ?_
    intro _
    rw [div_le_iff₀ (by norm_num), mul_comm]
    exact_mod_cast Iff.rfl
  rw [hAny, (exists_row_of_origin hMem).2,
    episodeGeometry_within]
  simp only [hMinutes]
  rfl

/- An attack origin lies inside an episode. -/
theorem inside_of_attack
    {o : Origin}
    (hMem : o ∈ origins table p)
    (hAttack : o.candidate.originAttack = true) :
    InsideEpisode table p o := by
  rcases (exists_row_of_origin hMem).1 with
    ⟨row, hRow, hHost, hEq⟩
  have hIs : row.isAttack = true := by
    rw [hEq] at hAttack
    exact hAttack
  have hTs : row.windowTs = o.candidate.originTs := by
    rw [hEq]
    rfl
  exact mergeEpisodes_cover p.windowSeconds
    p.mergeGapWindows ⟨row, hRow, hHost, hIs, hTs⟩

/-
  What the episode report needs is in an uncapped stratum,
  but for the origins inside an episode that are not
  positive.
-/
theorem stratum_of_beforeOnset
    {o : Origin}
    (hMem : o ∈ origins table p)
    (hBefore : BeforeOnset table p o)
    (hNegative : o.positive = false) :
    o.stratum p.preOnsetMinutes = .preOnset := by
  rcases hBefore with ⟨hOutside, hOnset⟩
  have hInside : o.geometry.inside = false := by
    rw [Bool.eq_false_iff]
    exact mt (inside_iff hMem).mp hOutside
  have hAttack : o.candidate.originAttack = false := by
    rw [Bool.eq_false_iff]
    exact mt (inside_of_attack hMem) hOutside
  have hPre : o.preOnset p.preOnsetMinutes = true := by
    simp only [Origin.preOnset, hNegative, hInside, hAttack,
      Bool.not_false, Bool.true_and]
    exact (within_iff hMem).mpr hOnset
  simp [Origin.stratum, Origin.active, hPre]

theorem stratum_of_positive
    {o : Origin}
    (hPositive : o.positive = true)
    (preOnsetMinutes : ℕ) :
    o.stratum preOnsetMinutes = .positive := by
  simp [Origin.stratum, Origin.active, Origin.preOnset,
    hPositive]

------------------------------------------------------------
-- Weights
------------------------------------------------------------

/- Every origin can be cut out of the table. -/
theorem evalRowAt_eq
    {i : ℕ}
    {o : Origin}
    (hAt : (origins table p)[i]? = some o)
    (draws : List Draw) :
    ∃ sample,
      evalRowAt table p draws i =
        some (evalRow (sortRows table) p draws o sample) := by
  have hMem : o ∈ origins table p := List.mem_of_getElem? hAt
  rcases List.mem_map.mp hMem with ⟨c, hC, rfl⟩
  rcases Option.isSome_iff_exists.mp
    (materializeOne_isSome hC (fun _ => [])) with
    ⟨sample, hSample⟩
  refine ⟨sample, ?_⟩
  simp [evalRowAt, hAt, hSample]

theorem evalDraws_fair
    {draw : Draw}
    (hMem : draw ∈ evalDraws gen table p) :
    draw.Fair p.caps
      (stratumIndices p.preOnsetMinutes (origins table p)) :=
  drawStrata_fair gen hMem

variable (table p) in
theorem evalDraws_nodup :
    ((evalDraws gen table p).map Draw.name).Nodup := by
  rw [evalDraws, map_name_drawStrata]
  exact strata_nodup

variable (table p) in
theorem exists_draw
    (name : Stratum) :
    ∃ draw ∈ evalDraws gen table p, draw.name = name := by
  have hMem :
      name ∈ (evalDraws gen table p).map Draw.name := by
    rw [evalDraws, map_name_drawStrata]
    exact mem_strata name
  exact List.mem_map.mp hMem

/-
  What the row at a place adds to the weight of a stratum.
-/
def rowWeight
    (table : List StateRow)
    (p : EvalParameters)
    (draws : List Draw)
    (name : Stratum)
    (i : ℕ) : ℚ :=
  ((evalRowAt table p draws i).filter
    (fun row => row.stratum = name)).elim 0 EvalRow.weight

theorem rowWeight_eq
    {draws : List Draw}
    {s name : Stratum}
    {i : ℕ}
    (hMem :
      i ∈ stratumIndices p.preOnsetMinutes (origins table p)
        s) :
    rowWeight table p draws name i =
      if s = name then weightByStratum draws name else 0 := by
  rcases mem_stratumIndices.mp hMem with ⟨o, hAt, hName⟩
  rcases evalRowAt_eq hAt draws with ⟨sample, hRow⟩
  have hStratum :
      (evalRow (sortRows table) p draws o sample).stratum = s :=
    hName
  have hWeight :
      (evalRow (sortRows table) p draws o sample).weight =
        weightByStratum draws s := by
    rw [← hName]
    rfl
  unfold rowWeight
  rw [hRow]
  by_cases hSame : s = name
  · subst hSame
    simp [Option.filter, hStratum, hWeight]
  · simp [Option.filter, hStratum, hSame]

/- The weights of a stratum's rows, summed over all places. -/
theorem sum_filterMap_weight
    (draws : List Draw)
    (name : Stratum)
    (select : List ℕ) :
    (((select.filterMap (evalRowAt table p draws)).filter
        (fun row => row.stratum = name)).map
          EvalRow.weight).sum =
      (select.map (rowWeight table p draws name)).sum := by
  induction select with
  | nil => rfl
  | cons i rest ih =>
      rw [List.map_cons, List.sum_cons, ← ih, rowWeight]
      cases hRow : evalRowAt table p draws i with
      | none => simp [hRow]
      | some row =>
          by_cases hName : row.stratum = name
          · simp [hRow, hName, Option.filter]
          · simp [hRow, hName, Option.filter]

/- The weights of a stratum's rows add up to its size. -/
theorem stratum_weights_sum
    (hCaps : ∀ s, ∀ cap ∈ p.caps s, 0 < cap)
    (name : Stratum) :
    (((buildEvalSet gen table p).rows.filter
        (fun row => row.stratum = name)).map
          EvalRow.weight).sum =
      (stratumIndices p.preOnsetMinutes (origins table p)
        name).length := by
  rcases exists_draw gen table p name with
    ⟨draw, hDraw, hName⟩
  have hFair := evalDraws_fair gen hDraw
  have hNodup := evalDraws_nodup gen table p
  have hWeight := weightByStratum_of_mem hNodup hDraw
  have hEach :
      ∀ d ∈ evalDraws gen table p,
        (d.chosen.map
            (rowWeight table p (evalDraws gen table p)
              name)).sum =
          if d.name = draw.name then
            (d.chosen.length : ℚ) * draw.weight
          else 0 := by
    intro d hD
    have hD' := evalDraws_fair gen hD
    have hConst :
        d.chosen.map
            (rowWeight table p (evalDraws gen table p)
              name) =
          d.chosen.map
            (fun _ =>
              if d.name = draw.name then draw.weight
              else 0) := by
      apply List.map_congr_left
      intro i hI
      have hIn := hD'.subperm.subset hI
      rw [hD'.full] at hIn
      rw [rowWeight_eq hIn, ← hName, hWeight]
    rw [hConst, List.map_const', List.sum_replicate,
      nsmul_eq_mul]
    split
    · rfl
    · exact mul_zero _
  have hKept : draw.full ≠ [] → draw.chosen ≠ [] := by
    intro hFull hEmpty
    have hLength := hFair.length
    rw [hEmpty, List.length_nil] at hLength
    have hPos : 0 < draw.full.length :=
      List.length_pos_iff.mpr hFull
    cases hCap : p.caps draw.name with
    | none =>
        rw [hCap, keptCount] at hLength
        omega
    | some cap =>
        have hCapPos := hCaps draw.name cap hCap
        rw [hCap, keptCount] at hLength
        omega
  have hRows :
      (buildEvalSet gen table p).rows =
        (selectAll (evalDraws gen table p)).filterMap
          (evalRowAt table p (evalDraws gen table p)) := rfl
  calc
    _ = ((selectAll (evalDraws gen table p)).map
          (rowWeight table p (evalDraws gen table p)
            name)).sum := by
        rw [hRows, sum_filterMap_weight]
    _ = (((evalDraws gen table p).flatMap Draw.chosen).map
          (rowWeight table p (evalDraws gen table p)
            name)).sum :=
        ((sortByKey_perm id _).map _).sum_eq
    _ = ((evalDraws gen table p).map
          (fun d =>
            if d.name = draw.name then
              (d.chosen.length : ℚ) * draw.weight
            else 0)).sum := by
        rw [List.map_flatMap, List.flatMap_def,
          List.sum_flatten, List.map_map]
        congr 1
        exact List.map_congr_left hEach
    _ = (draw.chosen.length : ℚ) * draw.weight :=
        sum_of_name hNodup hDraw
          (fun d => (d.chosen.length : ℚ) * draw.weight)
    _ = draw.full.length := Draw.length_mul_weight hKept
    _ = _ := by rw [hFair.full, hName]

------------------------------------------------------------
-- Selection
------------------------------------------------------------

theorem keptCount_eq_iff
    {cap : Option ℕ}
    {count : ℕ} :
    keptCount cap count = count ↔
      ∀ c ∈ cap, count ≤ c := by
  cases cap with
  | none => simp [keptCount]
  | some c => simp [keptCount]

/- A stratum that is kept whole is drawn whole. -/
theorem Draw.Fair.mem_chosen
    {caps : Caps}
    {indices : Stratum → List ℕ}
    {draw : Draw}
    (hFair : draw.Fair caps indices)
    (hWhole : draw.chosen.length = draw.full.length)
    {i : ℕ}
    (hMem : i ∈ draw.full) :
    i ∈ draw.chosen := by
  have hPerm : draw.chosen.Perm draw.full :=
    hFair.subperm.perm_of_length_le hWhole.ge
  exact hPerm.mem_iff.mpr hMem

theorem Draw.weight_eq_one_iff
    {draw : Draw}
    (hNonempty : draw.full ≠ []) :
    draw.weight = 1 ↔
      draw.chosen.length = draw.full.length := by
  have hPos : 0 < draw.full.length :=
    List.length_pos_iff.mpr hNonempty
  unfold Draw.weight
  by_cases hEmpty : draw.chosen = []
  · rw [if_pos hEmpty, hEmpty, List.length_nil]
    constructor
    · intro hZero
      exact absurd hZero (by norm_num)
    · intro hZero
      omega
  · rw [if_neg hEmpty]
    have hNe : (draw.chosen.length : ℚ) ≠ 0 := by
      rw [Nat.cast_ne_zero, Ne, List.length_eq_zero_iff]
      exact hEmpty
    rw [div_eq_one_iff_eq hNe, Nat.cast_inj]
    exact eq_comm

/-
  An origin is selected with weight one exactly when its
  stratum fits into its cap.
-/
theorem selected_iff
    {i : ℕ}
    {o : Origin}
    (hAt : (origins table p)[i]? = some o) :
    (i ∈ selectAll (evalDraws gen table p) ∧
        ∃ row ∈ evalRowAt table p
            (evalDraws gen table p) i,
          row.weight = 1) ↔
      ∀ cap ∈ p.caps (o.stratum p.preOnsetMinutes),
        (stratumIndices p.preOnsetMinutes (origins table p)
          (o.stratum p.preOnsetMinutes)).length ≤ cap := by
  rcases exists_draw gen table p
    (o.stratum p.preOnsetMinutes) with ⟨draw, hDraw, hName⟩
  have hFair := evalDraws_fair gen hDraw
  have hIn :
      i ∈ stratumIndices p.preOnsetMinutes (origins table p)
        draw.name :=
    mem_stratumIndices.mpr ⟨o, hAt, hName.symm⟩
  rw [← hName, ← keptCount_eq_iff, ← hFair.full,
    ← hFair.length]
  rw [← hFair.full] at hIn
  have hWeight :=
    weightByStratum_of_mem (evalDraws_nodup gen table p) hDraw
  rcases evalRowAt_eq hAt (evalDraws gen table p) with
    ⟨sample, hRow⟩
  have hRowWeight :
      (evalRow (sortRows table) p (evalDraws gen table p) o
        sample).weight = draw.weight := by
    rw [← hWeight, hName]
    rfl
  rw [hRow]
  simp only [Option.mem_some_iff, exists_eq_left',
    hRowWeight,
    Draw.weight_eq_one_iff (List.ne_nil_of_mem hIn)]
  constructor
  · exact And.right
  · intro hWhole
    refine ⟨?_, hWhole⟩
    rw [selectAll, mem_sortByKey, List.mem_flatMap]
    exact ⟨draw, hDraw, hFair.mem_chosen hWhole hIn⟩

/-
  With the positive and pre-onset strata uncapped, the set is
  complete for the episode report exactly when the caps spare
  the origins inside an episode that are not positive.
-/
theorem evalSetComplete_iff
    (activeCap silentCap : ℕ+)
    (table : List StateRow)
    (p : EvalParameters) :
    EvalSetComplete gen table
        { p with caps := episodeCaps activeCap silentCap } ↔
      CapsSpareEpisodes table
        { p with caps := episodeCaps activeCap silentCap } := by
  generalize hP :
    { p with caps := episodeCaps activeCap silentCap } = q
  have hCaps : q.caps = episodeCaps activeCap silentCap := by
    rw [← hP]
  constructor
  · intro hComplete o hMem hInside _
    rcases List.getElem?_of_mem hMem with ⟨i, hAt⟩
    exact (selected_iff gen hAt).mp
      (hComplete.complete i o hAt (Or.inl hInside))
  · intro hSpare
    refine ⟨strata_partition _ _, ?_, ?_⟩
    · refine stratum_weights_sum gen ?_
      intro s cap hCap
      rw [hCaps] at hCap
      cases s with
      | positive => simp [episodeCaps] at hCap
      | preOnset => simp [episodeCaps] at hCap
      | activeNegative =>
          simp only [episodeCaps, Option.mem_some_iff] at hCap
          exact hCap ▸ activeCap.pos
      | silentNegative =>
          simp only [episodeCaps, Option.mem_some_iff] at hCap
          exact hCap ▸ silentCap.pos
    · intro i o hAt hNeeded
      rw [selected_iff gen hAt]
      have hMem : o ∈ origins table q :=
        List.mem_of_getElem? hAt
      cases hPositive : o.positive with
      | true =>
          rw [stratum_of_positive hPositive, hCaps]
          simp [episodeCaps]
      | false =>
          rcases hNeeded with hInside | hBefore
          · exact hSpare o hMem hInside hPositive
          · rw [stratum_of_beforeOnset hMem hBefore
              hPositive, hCaps]
            simp [episodeCaps]

end Completeness

------------------------------------------------------------
-- The Last Window of an Episode
------------------------------------------------------------

/- A generator that draws the first entries. -/
def drawFirst : Generator Unit :=
  { ofSeed := fun _ => ()
    choice := fun _ idx size => (idx.take size, ())
    withoutReplacement := by
      intro _ idx size hLe
      exact ⟨(List.take_sublist size idx).subperm,
        List.length_take_of_le hLe⟩ }

/-
  Ten silent windows of a host that is attacked in windows 4
  and 5, labelled for two windows ahead.
-/
def attackedHost : List StateRow :=
  (List.range 10).map
    (fun i =>
      { silentRow "10.0.0.1" (60 * i)
          (if i = 4 ∨ i = 5 then .c2 else .benign) with
        riskLabel := if 2 ≤ i ∧ i ≤ 4 then 1 else 0 })

def twoAhead : EvalParameters :=
  { L := 1
    K := 2
    windowSeconds := 60
    split := "test"
    caps := episodeCaps 1 1
    seed := 0
    mergeGapWindows := defaultMergeGapWindows
    preOnsetMinutes := 30
    onsetHorizonsMin := defaultOnsetHorizonsMin }

/-
  The last window of the attack has no attack ahead, so it is
  one of the silent origins, of which only one is kept.
-/
theorem not_evalSetComplete_attackedHost :
    ¬ EvalSetComplete drawFirst attackedHost twoAhead := by
  intro hComplete
  have hSome :
      ((origins attackedHost twoAhead)[5]?).isSome := by
    decide +kernel
  have hInside :
      ∀ o ∈ (origins attackedHost twoAhead)[5]?,
        InsideEpisode attackedHost twoAhead o := by
    decide +kernel
  have hCapped :
      ∀ o ∈ (origins attackedHost twoAhead)[5]?,
        o.stratum 30 = .silentNegative := by
    decide +kernel
  have hMany :
      1 < (stratumIndices 30 (origins attackedHost twoAhead)
        .silentNegative).length := by
    decide +kernel
  rcases Option.isSome_iff_exists.mp hSome with ⟨o, hAt⟩
  have hFits :=
    (selected_iff drawFirst hAt).mp
      (hComplete.complete 5 o hAt (Or.inl (hInside o hAt)))
  have hStratum :
      o.stratum twoAhead.preOnsetMinutes = .silentNegative :=
    hCapped o hAt
  rw [hStratum] at hFits
  exact absurd (hFits 1 rfl) (not_le_of_gt hMany)

end Evaluation

end Nidra
