import Nidra.Data.Episodes

/-
  This file proves when the validation cutoff of a block
  separates the block's episodes: the cutoff is moved only
  once, so what matters is whether the place it is moved to
  is clear.

  Key definitions include:
    * `Episode.Hits`
    * `CutoffSeparates`
    * `NudgeLandsClear`

  Main declarations:
    * `cutoffSeparates_iff`
-/

namespace Nidra

namespace Data

/-
  An episode straddles a cutoff, or begins within the margin
  after it.
-/
def Episode.Hits
    (preOnsetMarginS : ℕ)
    (cutoff : ℤ)
    (ep : Episode) : Prop :=
  (ep.startTs < cutoff ∧ cutoff ≤ ep.endTs) ∨
    (cutoff ≤ ep.startTs ∧
      ep.startTs < cutoff + preOnsetMarginS)

instance Episode.Hits.decidable
    (preOnsetMarginS : ℕ)
    (cutoff : ℤ)
    (ep : Episode) :
    Decidable (ep.Hits preOnsetMarginS cutoff) :=
  inferInstanceAs (Decidable (_ ∨ _))

/-
  The cutoff of a block is hit by no episode of any host,
  unless it is the first timestamp of the block.
-/
def CutoffSeparates
    (block : List StateRow)
    (valFraction : ℚ)
    (preOnsetMarginS : ℕ) : Prop :=
  ∀ cutoff ∈
      trailingBlockCutoff block valFraction preOnsetMarginS,
    cutoff ∈ (uniqueTs block).head? ∨
      ∀ ep ∈ findEpisodes block,
        ¬ ep.Hits preOnsetMarginS cutoff

instance CutoffSeparates.decidable
    (block : List StateRow)
    (valFraction : ℚ)
    (preOnsetMarginS : ℕ) :
    Decidable
      (CutoffSeparates block valFraction preOnsetMarginS) :=
  inferInstanceAs
    (Decidable
      (∀ cutoff ∈ trailingBlockCutoff block valFraction
        preOnsetMarginS, _))

/-
  If the fraction's cutoff is near an episode, then one
  margin before the earliest of these lies the block's first
  timestamp, or no earlier episode reaches that far.
-/
def NudgeLandsClear
    (block : List StateRow)
    (valFraction : ℚ)
    (preOnsetMarginS : ℕ) : Prop :=
  ∀ cutoff ∈ fractionCutoff block valFraction,
    ∀ onset ∈ earliestNear block preOnsetMarginS cutoff,
      ∀ first ∈ (uniqueTs block).head?,
        onset - preOnsetMarginS ≤ first ∨
          ∀ ep ∈ findEpisodes block,
            ep.startTs < onset →
              ep.endTs < onset - preOnsetMarginS

instance NudgeLandsClear.decidable
    (block : List StateRow)
    (valFraction : ℚ)
    (preOnsetMarginS : ℕ) :
    Decidable
      (NudgeLandsClear block valFraction preOnsetMarginS) :=
  inferInstanceAs
    (Decidable (∀ cutoff ∈ fractionCutoff block valFraction, _))

------------------------------------------------------------
-- The Cutoff
------------------------------------------------------------

/- The episodes near a cutoff are those that hit it. -/
theorem mem_nearCutoff_iff
    {block : List StateRow}
    {preOnsetMarginS : ℕ}
    {cutoff : ℤ}
    {ep : Episode} :
    ep ∈ nearCutoff block preOnsetMarginS cutoff ↔
      ep ∈ findEpisodes block ∧
        ep.Hits preOnsetMarginS cutoff := by
  rw [nearCutoff, List.mem_filter]
  refine and_congr_right ?_
  intro hMem
  have hOrder := Episode.start_le_end_of_mem hMem
  rw [decide_eq_true_iff]
  unfold Episode.Hits
  constructor
  · rintro ⟨hStart, hEnd⟩
    by_cases hBefore : ep.startTs < cutoff
    · exact Or.inl ⟨hBefore, hEnd⟩
    · exact Or.inr ⟨by omega, by omega⟩
  · rintro (⟨hStart, hEnd⟩ | ⟨hStart, hMargin⟩)
    · exact ⟨by omega, hEnd⟩
    · exact ⟨by omega, by omega⟩

/-
  One margin before the start of an episode, what hits the
  cutoff is what starts earlier and reaches that far.
-/
theorem hits_before_onset_iff
    {preOnsetMarginS : ℕ}
    {onset : ℤ}
    {ep : Episode}
    (hOrder : ep.startTs ≤ ep.endTs) :
    ep.Hits preOnsetMarginS (onset - preOnsetMarginS) ↔
      ep.startTs < onset ∧
        onset - preOnsetMarginS ≤ ep.endTs := by
  unfold Episode.Hits
  constructor
  · rintro (⟨hStart, hEnd⟩ | ⟨hStart, hMargin⟩)
    · exact ⟨by omega, hEnd⟩
    · exact ⟨by omega, by omega⟩
  · rintro ⟨hStart, hEnd⟩
    by_cases hBefore :
        ep.startTs < onset - preOnsetMarginS
    · exact Or.inl ⟨hBefore, hEnd⟩
    · exact Or.inr ⟨by omega, by omega⟩

------------------------------------------------------------
-- Separation
------------------------------------------------------------

/-
  A cutoff inside a block is separating after the move it may
  make exactly when no earlier episode reaches where it lands.
-/
theorem nudge_separates_iff
    (block : List StateRow)
    (preOnsetMarginS : ℕ)
    (start first : ℤ) :
    (first =
        nudgeCutoff start first preOnsetMarginS
          (earliestNear block preOnsetMarginS start) ∨
      ∀ ep ∈ findEpisodes block,
        ¬ ep.Hits preOnsetMarginS
          (nudgeCutoff start first preOnsetMarginS
            (earliestNear block preOnsetMarginS start))) ↔
      ∀ onset ∈ earliestNear block preOnsetMarginS start,
        onset - preOnsetMarginS ≤ first ∨
          ∀ ep ∈ findEpisodes block,
            ep.startTs < onset →
              ep.endTs < onset - preOnsetMarginS := by
  cases hNear : earliestNear block preOnsetMarginS start with
  | none =>
      -- No episode is near, so none hits the cutoff.
      simp only [nudgeCutoff, Option.not_mem_none,
        false_imp_iff, implies_true, iff_true]
      refine Or.inr ?_
      intro ep hMem hHits
      have hIn := mem_nearCutoff_iff.mpr ⟨hMem, hHits⟩
      rw [earliestNear, List.min?_eq_none_iff,
        List.map_eq_nil_iff] at hNear
      rw [hNear] at hIn
      exact List.not_mem_nil hIn
  | some onset =>
      simp only [nudgeCutoff, Option.mem_some_iff,
        forall_eq']
      by_cases hEarly : onset - preOnsetMarginS ≤ first
      · simp [hEarly]
      · have hLater : first < onset - preOnsetMarginS :=
          lt_of_not_ge hEarly
        rw [max_eq_left hLater.le]
        simp only [ne_of_lt hLater, hEarly, false_or]
        refine forall₂_congr ?_
        intro ep hMem
        rw [hits_before_onset_iff
          (Episode.start_le_end_of_mem hMem)]
        simp only [not_and, not_le]

/-
  The cutoff separates the episodes exactly when the one move
  it may make lands clear of the earlier episodes.
-/
theorem cutoffSeparates_iff
    (block : List StateRow)
    (valFraction : ℚ)
    (preOnsetMarginS : ℕ) :
    CutoffSeparates block valFraction preOnsetMarginS ↔
      NudgeLandsClear block valFraction preOnsetMarginS := by
  unfold CutoffSeparates NudgeLandsClear trailingBlockCutoff
  cases hStart : fractionCutoff block valFraction with
  | none => simp
  | some start =>
      cases hFirst : (uniqueTs block).head? with
      | none => simp
      | some first =>
          simp only [Option.bind_eq_bind, Option.bind_some,
            Option.pure_def, Option.mem_some_iff, forall_eq']
          exact nudge_separates_iff block preOnsetMarginS
            start first

/-
  Ten minutes of two hosts. The first is attacked in minute
  6, the second in minutes 3 and 4.
-/
def twoHostBlock : List StateRow :=
  (List.range 11).flatMap
    (fun i =>
      [ silentRow "10.0.0.1" (60 * i)
          (if i = 6 then .c2 else .benign),
        silentRow "10.0.0.2" (60 * i)
          (if i = 3 ∨ i = 4 then .c2 else .benign) ])

/-
  The fraction's cutoff 300 lies in the two minutes before
  the first host's attack, and the move to 240 puts it into
  the second host's.
-/
theorem not_cutoffSeparates_twoHostBlock :
    ¬ CutoffSeparates twoHostBlock (1 / 2) 120 := by
  decide +kernel

end Data

end Nidra
