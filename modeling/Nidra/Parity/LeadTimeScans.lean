import Nidra.Evaluation.LeadTime
import Nidra.Serving.StubPredictor

/-
  This file proves that the three scans for a lead time select
  the same point of a risk curve: the placeholder predictor's
  slices, the served predictor's counter, and the evaluator's
  counter that looks back for the time of the crossing.

  Key definitions include:
    * `SustainedFrom`, `FirstSustained`
    * `ScansAgree`

  Main declarations:
    * `leadTimeS_eq`
    * `leadTimeFromCurve_eq`
    * `leadTimeForEpisode_eq`
    * `leadTimeScans_agree`
-/

namespace Nidra

namespace Parity

open Evaluation Serving

variable {𝕜 : Type}
variable [LinearOrder 𝕜]

------------------------------------------------------------
-- Sustained Warnings
------------------------------------------------------------

/- From the index on, `m` points are at the threshold. -/
def SustainedFrom
    (threshold : 𝕜)
    (m : ℕ)
    (curve : List 𝕜)
    (i : ℕ) : Prop :=
  ∀ k < m, ∃ p, curve[i + k]? = some p ∧ threshold ≤ p

/- The least such index. -/
def FirstSustained
    (threshold : 𝕜)
    (m : ℕ)
    (curve : List 𝕜)
    (i : ℕ) : Prop :=
  SustainedFrom threshold m curve i ∧
    ∀ j < i, ¬ SustainedFrom threshold m curve j

/- The scan that all three are compared with. -/
def sustainedScan
    (threshold : 𝕜)
    (m : ℕ)
    (curve : List 𝕜) : Option ℕ :=
  firstRun m (fun p => threshold ≤ p) (fun _ => true) curve

theorem isRun_iff_sustained
    {threshold : 𝕜}
    {m : ℕ}
    (hM : 0 < m)
    {curve : List 𝕜}
    {i : ℕ} :
    IsRun m (fun p => decide (threshold ≤ p)) (fun _ => true)
        curve i ↔
      SustainedFrom threshold m curve i := by
  rw [isRun_iff hM]
  simp only [HitAt, SustainedFrom, decide_eq_true_iff]

theorem sustainedScan_eq_some_iff
    {threshold : 𝕜}
    {m : ℕ}
    (hM : 0 < m)
    {curve : List 𝕜}
    {i : ℕ} :
    sustainedScan threshold m curve = some i ↔
      FirstSustained threshold m curve i := by
  unfold sustainedScan
  rw [firstRun_eq_some_iff hM]
  simp only [IsFirstRun, FirstSustained, isRun_iff_sustained hM]

theorem sustainedScan_eq_none_iff
    {threshold : 𝕜}
    {m : ℕ}
    (hM : 0 < m)
    {curve : List 𝕜} :
    sustainedScan threshold m curve = none ↔
      ∀ i, ¬ SustainedFrom threshold m curve i := by
  unfold sustainedScan
  rw [firstRun_eq_none_iff hM]
  simp only [isRun_iff_sustained hM]

/- The first of the points is there. -/
theorem FirstSustained.exists_getElem?
    {threshold : 𝕜}
    {m : ℕ}
    (hM : 0 < m)
    {curve : List 𝕜}
    {i : ℕ}
    (hFirst : FirstSustained threshold m curve i) :
    ∃ p, curve[i]? = some p := by
  rcases hFirst.1 0 hM with ⟨p, hAt, _⟩
  exact ⟨p, hAt⟩

------------------------------------------------------------
-- The Two Predictors
------------------------------------------------------------

/- The slices of the placeholder find the scan's index. -/
theorem leadTimeS_eq
    (cfg : Stub.StubConfig 𝕜)
    (hM : 0 < cfg.leadTimeM)
    (trajectory : Stub.Trajectory 𝕜) :
    Stub.leadTimeS cfg trajectory =
      (sustainedScan cfg.riskThreshold cfg.leadTimeM
        trajectory.curve).map
        (fun i => (((i + 1 : ℕ) * cfg.windowDelta : ℤ) : ℚ)) := by
  have hScan :
      sustainedScan cfg.riskThreshold cfg.leadTimeM
          trajectory.curve =
        firstRun cfg.leadTimeM
          (fun point : Stub.TrajectoryPoint 𝕜 =>
            cfg.riskThreshold ≤ point.pCompromise)
          (fun _ => true) trajectory.points :=
    firstRunFrom_map _ _ _ _ 0 0 _
  unfold Stub.leadTimeS
  dsimp only
  rw [find?_slice hM, hScan]
  cases hFirst :
      firstRun cfg.leadTimeM
        (fun point : Stub.TrajectoryPoint 𝕜 =>
          decide (cfg.riskThreshold ≤ point.pCompromise))
        (fun _ => true) trajectory.points with
  | none => rfl
  | some i =>
      have hRun := ((firstRun_eq_some_iff hM).mp hFirst).1.1
      rcases hRun 0 hM with ⟨point, hAt, _⟩
      rw [Nat.add_zero] at hAt
      have hHead :
          ((trajectory.points.drop i).take
            cfg.leadTimeM).head? = some point := by
        rw [List.head?_take, if_neg (by omega), List.head?_drop]
        exact hAt
      have hK := Stub.Trajectory.getElem?_k hAt
      simp only [Option.bind_eq_bind, Option.bind_some, hHead,
        Option.map_some, hK]
      rfl

/- The counter of the served predictor finds it as well. -/
theorem leadTimeFromCurve_eq
    (windowSeconds : ℚ)
    (threshold : 𝕜)
    (m : ℕ)
    {i run : ℕ}
    (hLe : run ≤ i)
    (curve : List 𝕜) :
    leadTimeFromCurve windowSeconds threshold m i run curve =
      (firstRunFrom m (fun p => threshold ≤ p) (fun _ => true)
        run i curve).map
        (fun s : ℕ => windowSeconds * ((s : ℚ) + 1)) := by
  induction curve generalizing i run with
  | nil => rfl
  | cons p rest ih =>
      simp only [leadTimeFromCurve, firstRunFrom, and_true,
        decide_eq_true_eq]
      have hNext :
          (if threshold ≤ p then run + 1 else 0) ≤ i + 1 := by
        split
        · omega
        · omega
      generalize
        (if threshold ≤ p then run + 1 else 0) = run' at *
      by_cases hLong : m ≤ run'
      · have hCast :
            (((i + 1 - m : ℕ) : ℕ) : ℚ) = (i : ℚ) + 1 - m := by
          rw [Nat.cast_sub (by omega)]
          push_cast
          ring
        rw [if_pos hLong, if_pos hLong, Option.map_some, hCast]
        ring_nf
      · rw [if_neg hLong, if_neg hLong]
        exact ih hNext

------------------------------------------------------------
-- The Evaluator
------------------------------------------------------------

/- So does the evaluator's, on a curve before the onset. -/
theorem leadTimeFrom_eq
    (riskCurve : List (ℤ × 𝕜))
    (onsetTs : ℤ)
    (threshold : 𝕜)
    (m i run : ℕ)
    {rest : List (ℤ × 𝕜)}
    (hBefore : ∀ point ∈ rest, point.1 < onsetTs) :
    leadTimeFrom riskCurve onsetTs threshold m i run rest =
      (firstRunFrom m (fun p => threshold ≤ p) (fun _ => true)
        run i (rest.map Prod.snd)).bind
        (fun s =>
          (riskCurve[s]?).map
            (fun crossing => onsetTs - crossing.1)) := by
  induction rest generalizing i run with
  | nil => rfl
  | cons point rest ih =>
      rcases point with ⟨ts, p⟩
      have hTs : ¬ onsetTs ≤ ts := by
        have hLt := hBefore (ts, p) (by simp)
        exact not_le_of_gt hLt
      simp only [leadTimeFrom, if_neg hTs, List.map_cons,
        firstRunFrom, and_true, decide_eq_true_eq]
      generalize
        (if threshold ≤ p then run + 1 else 0) = run'
      by_cases hLong : m ≤ run'
      · rw [if_pos hLong, if_pos hLong]
        rfl
      · rw [if_neg hLong, if_neg hLong]
        exact ih (i + 1) run'
          (fun point hMem => hBefore point (by simp [hMem]))

theorem leadTimeForEpisode_eq
    {riskCurve : List (ℤ × 𝕜)}
    {onsetTs : ℤ}
    (hBefore : ∀ point ∈ riskCurve, point.1 < onsetTs)
    (threshold : 𝕜)
    (m : ℕ) :
    leadTimeForEpisode riskCurve onsetTs threshold m =
      (sustainedScan threshold m (riskCurve.map Prod.snd)).bind
        (fun s =>
          (riskCurve[s]?).map
            (fun crossing => onsetTs - crossing.1)) :=
  leadTimeFrom_eq riskCurve onsetTs threshold m 0 0 hBefore

------------------------------------------------------------
-- Agreement
------------------------------------------------------------

/-
  The three scans select the least index that starts a
  sustained warning, or all find none. The predictors then
  give the same seconds for it.
-/
def ScansAgree
    (cfg : Stub.StubConfig 𝕜)
    (trajectory : Stub.Trajectory 𝕜)
    (riskCurve : List (ℤ × 𝕜))
    (onsetTs : ℤ) : Prop :=
  (∃ i crossing,
    FirstSustained cfg.riskThreshold cfg.leadTimeM
        trajectory.curve i ∧
      riskCurve[i]? = some crossing ∧
      Stub.leadTimeS cfg trajectory =
        some (((i + 1 : ℕ) * cfg.windowDelta : ℤ) : ℚ) ∧
      leadTimeFromCurve cfg.windowDelta cfg.riskThreshold
          cfg.leadTimeM 0 0 trajectory.curve =
        some (((i + 1 : ℕ) * cfg.windowDelta : ℤ) : ℚ) ∧
      leadTimeForEpisode riskCurve onsetTs
          cfg.riskThreshold cfg.leadTimeM =
        some (onsetTs - crossing.1)) ∨
    ((∀ i, ¬ SustainedFrom cfg.riskThreshold cfg.leadTimeM
        trajectory.curve i) ∧
      Stub.leadTimeS cfg trajectory = none ∧
      leadTimeFromCurve cfg.windowDelta cfg.riskThreshold
          cfg.leadTimeM 0 0 trajectory.curve = none ∧
      leadTimeForEpisode riskCurve onsetTs
          cfg.riskThreshold cfg.leadTimeM = none)

/- The scans agree on every curve that ends by the onset. -/
theorem leadTimeScans_agree
    (cfg : Stub.StubConfig 𝕜)
    (hM : 0 < cfg.leadTimeM)
    (trajectory : Stub.Trajectory 𝕜)
    (riskCurve : List (ℤ × 𝕜))
    (hCurve : riskCurve.map Prod.snd = trajectory.curve)
    (onsetTs : ℤ)
    (hBefore : ∀ point ∈ riskCurve, point.1 < onsetTs) :
    ScansAgree cfg trajectory riskCurve onsetTs := by
  unfold ScansAgree
  rw [leadTimeS_eq cfg hM, leadTimeFromCurve_eq _ _ _ le_rfl,
    leadTimeForEpisode_eq hBefore, hCurve]
  have hScan :
      firstRunFrom cfg.leadTimeM
          (fun p => decide (cfg.riskThreshold ≤ p))
          (fun _ => true) 0 0 trajectory.curve =
        sustainedScan cfg.riskThreshold cfg.leadTimeM
          trajectory.curve := rfl
  rw [hScan]
  cases hFound :
      sustainedScan cfg.riskThreshold cfg.leadTimeM
        trajectory.curve with
  | none =>
      right
      exact ⟨(sustainedScan_eq_none_iff hM).mp hFound, rfl, rfl,
        rfl⟩
  | some i =>
      left
      have hFirst := (sustainedScan_eq_some_iff hM).mp hFound
      rcases hFirst.exists_getElem? hM with ⟨p, hP⟩
      rw [← hCurve, List.getElem?_map,
        Option.map_eq_some_iff] at hP
      rcases hP with ⟨crossing, hAt, _⟩
      refine ⟨i, crossing, hFirst, hAt, rfl, ?_, ?_⟩
      · rw [Option.map_some]
        push_cast
        ring_nf
      · rw [Option.bind_some, hAt, Option.map_some]

/- A warning that lasts to the last point of the curve. -/
def lateWarning : Stub.Trajectory ℚ :=
  { points :=
      [⟨1, 1 / 2, 1 / 4, 3 / 4, []⟩,
        ⟨2, 4 / 5, 1 / 2, 1, []⟩,
        ⟨3, 3 / 4, 1 / 2, 1, []⟩]
    steps := rfl }

def lateConfig : Stub.StubConfig ℚ :=
  { windowDelta := 60
    riskThreshold := 3 / 4
    leadTimeM := 2 }

theorem leadTimeScans_agree_lateWarning :
    ScansAgree lateConfig lateWarning
        [(600, 1 / 2), (660, 4 / 5), (720, 3 / 4)] 780 ∧
      Stub.leadTimeS lateConfig lateWarning = some 120 :=
  ⟨leadTimeScans_agree lateConfig (by decide) lateWarning
    [(600, 1 / 2), (660, 4 / 5), (720, 3 / 4)] rfl 780
    (by decide), by decide +kernel⟩

end Parity

end Nidra
