import Nidra.Model.WorldModel

/-
  This file defines the free-running metrics that checkpoints
  are selected by, which write their own feedback loop, and
  proves when the states they score are those of the rollout
  that is deployed.

  Key definitions include:
    * `freeStep`, `freeState`
    * `freeRunningMetrics`
    * `KeepsDropped`
    * `ScoresRollout`

  Main declarations:
    * `keepsDropped_iff`
    * `scoresRollout_iff`
-/

namespace Nidra

namespace Model

section Definitions

variable {ι κ M 𝕜 : Type}
variable [Field 𝕜] [LinearOrder 𝕜]

------------------------------------------------------------
-- The loop
------------------------------------------------------------

/-
  One step of the loop: the clamped mean and its predicted
  log-variance are scored, and the mean is fed back.
-/
def freeStep
    (model : WorldModel ι κ M 𝕜)
    (_k : ℕ)
    (s : Sim ι κ M 𝕜) :
    (Vec ι 𝕜 × Vec ι 𝕜) × Sim ι κ M 𝕜 :=
  let predicted := model.transition.forward s.hidden s.cur s.prev
  let pred := model.clampState (s.cur + predicted.1)
  let encoded := model.encoder.ingest pred s.memory
  ((pred, predicted.2),
    { hidden := encoded.1
      memory := encoded.2
      cur := pred
      prev := s.cur
      drawn := s.drawn })

/- The state that is scored and fed back at a step. -/
def freeState
    (model : WorldModel ι κ M 𝕜)
    (x : Window ι 𝕜)
    (k : ℕ) : Vec ι 𝕜 :=
  (loopOutput (freeStep model) (model.begin x) k).1

/- The log-variance that is scored with it. -/
def freeLogvar
    (model : WorldModel ι κ M 𝕜)
    (x : Window ι 𝕜)
    (k : ℕ) : Vec ι 𝕜 :=
  (loopOutput (freeStep model) (model.begin x) k).2

------------------------------------------------------------
-- The metrics
------------------------------------------------------------

section Metrics

variable [Fintype ι] [ExpLog 𝕜]

/- The negative log-likelihood of one element. -/
def gaussianNllElement (pred logvar target : 𝕜) : 𝕜 :=
  1 / 2 *
    (logvar + (pred - target) ^ 2 / ExpLog.exp logvar)

/- Whether a target is in the band of ninety percent. -/
def insideBand (pred logvar target : 𝕜) : 𝕜 :=
  if |pred - target| ≤
      1645 / 1000 * ExpLog.exp (1 / 2 * logvar) then 1
  else 0

/- The mean over the kept features, then over the batch. -/
def keptMean
    {B : ℕ}
    (mask : Vec ι 𝕜)
    (elements : Fin B → Vec ι 𝕜) : 𝕜 :=
  let denom := max (∑ i, mask i) 1
  average
    (List.ofFn (fun b => (∑ i, elements b i * mask i) / denom))

/- The metrics of every horizon. -/
structure FreeMetrics (𝕜 : Type) (K : ℕ) where
  nll : Fin K → 𝕜
  mse : Fin K → 𝕜
  msePersistence : Fin K → 𝕜
  coverage90 : Fin K → 𝕜

/- Score the free-running loop against the true future. -/
def freeRunningMetrics
    {B K : ℕ}
    (model : WorldModel ι κ M 𝕜)
    (x : Fin B → Window ι 𝕜)
    (yFuture : Fin B → Fin K → Vec ι 𝕜)
    (featureMask : Option (ι → Bool)) :
    Except RolloutError (FreeMetrics 𝕜 K) := do
  WorldModel.checkSteps K
  let mask : Vec ι 𝕜 := fun i =>
    match featureMask with
    | none => 1
    | some kept => maskValue (kept i)
  return {
    nll := fun k => keptMean mask (fun b i =>
      gaussianNllElement (freeState model (x b) k i)
        (freeLogvar model (x b) k i) (yFuture b k i))
    mse := fun k => keptMean mask (fun b i =>
      (freeState model (x b) k i - yFuture b k i) ^ 2)
    msePersistence := fun k => keptMean mask (fun b i =>
      ((x b).current i - yFuture b k i) ^ 2)
    coverage90 := fun k => keptMean mask (fun b i =>
      insideBand (freeState model (x b) k i)
        (freeLogvar model (x b) k i) (yFuture b k i)) }

end Metrics

------------------------------------------------------------
-- Against the rollout
------------------------------------------------------------

variable [ExpLog 𝕜]

/-
  From some variables of the loop, the transition carries
  every dropped slot to zero.
-/
def KeepsDropped
    (model : WorldModel ι κ M 𝕜)
    (s : Sim ι κ M 𝕜) : Prop :=
  ∀ i, model.drops i →
    model.clampState
      (s.cur +
        (model.transition.forward s.hidden s.cur s.prev).1) i =
      0

/- The variables of the rollout of a row before a step. -/
def rolloutSim
    (model : WorldModel ι κ M 𝕜)
    {B : ℕ}
    (x : Fin B → Window ι 𝕜)
    (b : Fin B)
    (noise : ℕ → Vec ι 𝕜)
    (k : ℕ) : Sim ι κ M 𝕜 :=
  loopState
    (model.rolloutStep (StateSource.model : StateSource ι 𝕜 B)
      false b (x b).current noise)
    (model.begin (x b)) k

/-
  The states that are scored are those that the rollout of
  the mean puts out, for every row, sample and step.
-/
def ScoresRollout
    (model : WorldModel ι κ M 𝕜)
    {B : ℕ}
    (x : Fin B → Window ι 𝕜)
    (K nSamples : ℕ)
    (noise : Noise ι 𝕜 B (samples nSamples)) : Prop :=
  ∀ out,
    model.rollout x K nSamples false .model noise = .ok out →
      ∀ b sample (k : Fin K),
        freeState model (x b) k = ((out b sample).steps k).state

variable (model : WorldModel ι κ M 𝕜)

/- A step of the rollout masks what the free loop feeds back. -/
theorem rolloutStep_mean
    {B : ℕ}
    (b : Fin B)
    (anchor : Vec ι 𝕜)
    (noise : ℕ → Vec ι 𝕜)
    (k : ℕ)
    (s : Sim ι κ M 𝕜) :
    (model.rolloutStep (StateSource.model : StateSource ι 𝕜 B)
        false b anchor noise k s).1.state =
      model.maskState (freeStep model k s).1.1 := rfl

/- And otherwise goes on in the same way. -/
theorem rolloutStep_sim
    {B : ℕ}
    {b : Fin B}
    {anchor : Vec ι 𝕜}
    {noise : ℕ → Vec ι 𝕜}
    {k : ℕ}
    {s : Sim ι κ M 𝕜}
    (hMasked :
      model.maskState (freeStep model k s).1.1 =
        (freeStep model k s).1.1) :
    (model.rolloutStep (StateSource.model : StateSource ι 𝕜 B)
        false b anchor noise k s).2 =
      (freeStep model k s).2 := by
  unfold freeStep at hMasked ⊢
  unfold WorldModel.rolloutStep WorldModel.nextState
    WorldModel.sampled WorldModel.ingestStep
  dsimp only at hMasked ⊢
  simp only [Bool.false_eq_true, if_false, hMasked]

/-
  As long as masking has changed nothing, both loops have the
  same variables.
-/
theorem sims_agree
    {B : ℕ}
    (x : Fin B → Window ι 𝕜)
    (b : Fin B)
    (noise : ℕ → Vec ι 𝕜)
    {k : ℕ}
    (hMasked :
      ∀ j < k,
        model.maskState (freeState model (x b) j) =
          freeState model (x b) j) :
    rolloutSim model x b noise k =
      loopState (freeStep model) (model.begin (x b)) k := by
  induction k with
  | zero => rfl
  | succ k ih =>
      have hBefore := ih (fun j hJ => hMasked j (by omega))
      have hHere := hMasked k (Nat.lt_succ_self k)
      unfold rolloutSim at hBefore ⊢
      rw [loopState_succ, loopState_succ, hBefore]
      exact rolloutStep_sim model hHere

/- What the rollout puts out, while the loops agree. -/
theorem rollout_state
    {B : ℕ}
    (x : Fin B → Window ι 𝕜)
    (b : Fin B)
    (noise : ℕ → Vec ι 𝕜)
    {k : ℕ}
    (hMasked :
      ∀ j < k,
        model.maskState (freeState model (x b) j) =
          freeState model (x b) j) :
    (loopOutput
        (model.rolloutStep
          (StateSource.model : StateSource ι 𝕜 B) false b
          (x b).current noise)
        (model.begin (x b)) k).state =
      model.maskState (freeState model (x b) k) := by
  have hSims := sims_agree model x b noise hMasked
  unfold rolloutSim at hSims
  unfold loopOutput freeState loopOutput
  rw [hSims, rolloutStep_mean]

/-
  Masking changes nothing up to a step if and only if every
  step of the rollout before it keeps the dropped slots.
-/
theorem keepsDropped_iff
    {B : ℕ}
    (x : Fin B → Window ι 𝕜)
    (b : Fin B)
    (noise : ℕ → Vec ι 𝕜)
    (K : ℕ) :
    (∀ k < K,
        model.maskState (freeState model (x b) k) =
          freeState model (x b) k) ↔
      ∀ k < K, KeepsDropped model (rolloutSim model x b noise k)
      := by
  constructor
  · intro hMasked k hK
    rw [sims_agree model x b noise
      (fun j hJ => hMasked j (by omega))]
    exact (WorldModel.maskState_eq_iff _).mp (hMasked k hK)
  · intro hKeeps k hK
    induction k using Nat.strong_induction_on with
    | _ k ih =>
        have hHere := hKeeps k hK
        rw [sims_agree model x b noise
          (fun j hJ => ih j hJ (by omega))] at hHere
        exact (WorldModel.maskState_eq_iff _).mpr hHere

theorem rollout_eq_ok
    {B K nSamples : ℕ}
    {x : Fin B → Window ι 𝕜}
    {stochastic : Bool}
    {noise : Noise ι 𝕜 B (samples nSamples)}
    (hSteps : K ≠ 0) :
    model.rollout x K nSamples stochastic .model noise =
      .ok (fun b sample => {
        anchor := (x b).current
        steps := fun k =>
          loopOutput
            (model.rolloutStep StateSource.model stochastic b
              (x b).current (fun draw => noise draw b sample))
            (model.begin (x b)) k }) := by
  unfold WorldModel.rollout WorldModel.checkSource
    WorldModel.checkSteps
  rw [if_neg hSteps]
  rfl

/-
  The metrics score the deployed rollout if and only if, from
  the variables before each of its steps, the transition
  carries every dropped slot to zero.
-/
theorem scoresRollout_iff
    {B : ℕ}
    (x : Fin B → Window ι 𝕜)
    (K nSamples : ℕ)
    (noise : Noise ι 𝕜 B (samples nSamples)) :
    ScoresRollout model x K nSamples noise ↔
      ∀ b sample, ∀ k < K,
        KeepsDropped model
          (rolloutSim model x b
            (fun draw => noise draw b sample) k) := by
  rcases Nat.eq_zero_or_pos K with rfl | hPos
  · constructor
    · intro _ b sample k hK
      exact absurd hK (Nat.not_lt_zero k)
    · intro _ out _ b sample k
      exact k.elim0
  · unfold ScoresRollout
    rw [rollout_eq_ok model hPos.ne']
    simp only [Except.ok.injEq, forall_eq']
    apply forall_congr'
    intro b
    apply forall_congr'
    intro sample
    rw [← keepsDropped_iff model x b
      (fun draw => noise draw b sample) K]
    constructor
    · intro hAgree k hK
      induction k using Nat.strong_induction_on with
      | _ k ih =>
          have hHere := hAgree ⟨k, hK⟩
          rw [rollout_state model x b _
            (fun j hJ => ih j hJ (by omega))] at hHere
          exact hHere.symm
    · intro hMasked k
      rw [rollout_state model x b _
        (fun j hJ => hMasked j (by omega))]
      exact (hMasked k k.isLt).symm

end Definitions

------------------------------------------------------------
-- A dropped slot that drifts
------------------------------------------------------------

/- The exponential of the examples. -/
@[reducible]
def rolloutExpLog : ExpLog ℚ := ExpLog.tangent

/- One feature, dropped, and a transition that adds one. -/
def drifting : WorldModel Unit Unit Unit ℚ :=
  { encoder :=
      { cell := fun _ _ => ()
        output := fun _ _ => 0
        blank := () }
    transition :=
      { logvarMin := -6
        forward := fun _ _ _ => (1, 0) }
    riskHead := .perState (fun _ => 0)
    stageHead :=
      { stages := 6
        net := fun _ _ => 0 }
    stateClamp := 10
    featureMask := some (fun _ => false) }

/- A host that has been silent. -/
def silentWindow : Window Unit ℚ :=
  { earlier := []
    current := 0 }

attribute [local instance] rolloutExpLog in
/- The metrics score one where the rollout has zero. -/
theorem not_scoresRollout_drifting :
    ¬ ScoresRollout drifting (fun _ : Fin 1 => silentWindow)
      1 1 (fun _ _ _ => 0) := by
  intro hScores
  have hZero :=
    hScores _ (rollout_eq_ok drifting one_ne_zero) 0
      ⟨0, Nat.zero_lt_one⟩ 0
  have hSlot := congrFun hZero ()
  revert hSlot
  decide +kernel

end Model

end Nidra
