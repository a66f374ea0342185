import Nidra.Model.Counterfactual

/-
  This file proves when a what-if on a feature that the mask
  drops is inert. The value is masked out of every predicted
  state, but not out of the states that the simulation starts
  from, which a transition with a linear skip reads.

  Key definitions include:
    * `Skip`, `TransitionLayers`
    * `WorldModel.withLayers`
    * `Inert`
    * `Unread`

  Main declarations:
    * `counterfactualStep_hold`
    * `inert_of_unread`
    * `inert_iff`
-/

namespace Nidra

namespace Model

set_option linter.unusedSectionVars false

------------------------------------------------------------
-- The layers of the transition
------------------------------------------------------------

/-
  A linear map of the last two states: a weight for every
  output and every slot of either state, and a bias.
-/
structure Skip (ι 𝕜 : Type) where
  current : ι → ι → 𝕜
  previous : ι → ι → 𝕜
  bias : ι → 𝕜

/-
  The layers of a transition: a network over the hidden
  state, its two heads, the bounds on log-variances, and the
  linear skip, if it is on.
-/
structure TransitionLayers (ι κ Z 𝕜 : Type) where
  net : Vec κ 𝕜 → Z
  muHead : Z → Vec ι 𝕜
  logvarHead : Z → Vec ι 𝕜
  logvarMin : 𝕜
  logvarMax : 𝕜
  skip : Option (Skip ι 𝕜)

section Layers

variable {ι κ M Z 𝕜 : Type}
variable [Fintype ι]
variable [Field 𝕜] [LinearOrder 𝕜]

def Skip.apply
    (skip : Skip ι 𝕜)
    (cur prev : Vec ι 𝕜) : Vec ι 𝕜 :=
  fun i =>
    ∑ j, skip.current i j * cur j +
      ∑ j, skip.previous i j * prev j + skip.bias i

namespace TransitionLayers

/- The mean change, with the skip if it is on. -/
def mu
    (layers : TransitionLayers ι κ Z 𝕜)
    (h : Vec κ 𝕜)
    (cur prev : Vec ι 𝕜) : Vec ι 𝕜 :=
  match layers.skip with
  | none => layers.muHead (layers.net h)
  | some skip =>
      layers.muHead (layers.net h) + skip.apply cur prev

/- The log-variance, which no state goes into. -/
def logvar
    (layers : TransitionLayers ι κ Z 𝕜)
    (h : Vec κ 𝕜) : Vec ι 𝕜 :=
  fun i =>
    min (max (layers.logvarHead (layers.net h) i)
      layers.logvarMin) layers.logvarMax

/- The weight of a slot of the current state, if any. -/
def currentWeight
    (layers : TransitionLayers ι κ Z 𝕜)
    (i j : ι) : 𝕜 :=
  match layers.skip with
  | none => 0
  | some skip => skip.current i j

/- And of the previous one. -/
def previousWeight
    (layers : TransitionLayers ι κ Z 𝕜)
    (i j : ι) : 𝕜 :=
  match layers.skip with
  | none => 0
  | some skip => skip.previous i j

def transition
    (layers : TransitionLayers ι κ Z 𝕜) :
    Transition ι κ 𝕜 :=
  { logvarMin := layers.logvarMin
    forward := fun h cur prev =>
      (layers.mu h cur prev, layers.logvar h) }

end TransitionLayers

/- A world model with these layers as its transition. -/
def WorldModel.withLayers
    (model : WorldModel ι κ M 𝕜)
    (layers : TransitionLayers ι κ Z 𝕜) :
    WorldModel ι κ M 𝕜 :=
  { model with transition := layers.transition }

/-
  The skip reads a feature for no kept one, neither in the
  current nor in the previous state.
-/
def Unread
    (model : WorldModel ι κ M 𝕜)
    (layers : TransitionLayers ι κ Z 𝕜)
    (j : ι) : Prop :=
  ∀ i, ¬ model.drops i →
    layers.currentWeight i j = 0 ∧ layers.previousWeight i j = 0

/- Two states that agree everywhere but in one slot. -/
def AgreeOff (j : ι) (a b : Vec ι 𝕜) : Prop :=
  ∀ i, i ≠ j → a i = b i

/- A sum over such states differs in that slot alone. -/
theorem AgreeOff.sum_sub
    {j : ι}
    {a b : Vec ι 𝕜}
    (hAgree : AgreeOff j a b)
    (weight : Vec ι 𝕜) :
    ∑ i, weight i * a i - ∑ i, weight i * b i =
      weight j * (a j - b j) := by
  rw [← Finset.sum_sub_distrib, Finset.sum_eq_single j]
  · exact (mul_sub _ _ _).symm
  · intro i _ hNe
    rw [hAgree i hNe, sub_self]
  · intro hNotMem
    exact absurd (Finset.mem_univ j) hNotMem

/- And so does the mean change. -/
theorem TransitionLayers.mu_sub
    {j : ι}
    (layers : TransitionLayers ι κ Z 𝕜)
    (h : Vec κ 𝕜)
    {cur cur' prev prev' : Vec ι 𝕜}
    (hCur : AgreeOff j cur cur')
    (hPrev : AgreeOff j prev prev')
    (i : ι) :
    layers.mu h cur prev i - layers.mu h cur' prev' i =
      layers.currentWeight i j * (cur j - cur' j) +
        layers.previousWeight i j * (prev j - prev' j) := by
  unfold mu currentWeight previousWeight
  cases layers.skip with
  | none => simp
  | some skip =>
      have hCurrent := hCur.sum_sub (skip.current i)
      have hPrevious := hPrev.sum_sub (skip.previous i)
      simp only [Pi.add_apply, Skip.apply]
      linear_combination hCurrent + hPrevious

end Layers

------------------------------------------------------------
-- What is to be inert
------------------------------------------------------------

section Statement

variable {κ M 𝕜 : Type}
variable [Field 𝕜] [LinearOrder 𝕜] [FloorSemiring 𝕜]
variable [ExpLog 𝕜]

/- Every state of a history is zero in the dropped slots. -/
def SilentWhereDropped
    (model : WorldModel Feature κ M 𝕜)
    (x : Window Feature 𝕜) : Prop :=
  ∀ state ∈ x.states, ∀ i, model.drops i → state i = 0

/-
  Holding a feature at a value returns the curves that
  holding nothing returns, for every horizon, number of
  samples and noise that both share.
-/
def Inert
    {B : ℕ}
    (model : WorldModel Feature κ M 𝕜)
    (x : Fin B → Window Feature 𝕜)
    (feature : Feature)
    (clampValue : 𝕜) : Prop :=
  ∀ (K nSamples : ℕ) (stochastic : Bool)
    (noise : Noise Feature 𝕜 B (samples nSamples)),
    (counterfactualRollout model x (some feature.label)
        clampValue K nSamples stochastic noise).map
          WhatIf.curves =
      (counterfactualRollout model x none 0 K nSamples
        stochastic noise).map WhatIf.curves

/- Every feature is found by its name. -/
theorem featureOf_label (feature : Feature) :
    featureOf (some feature.label) = .ok (some feature) := by
  have hAll :
      ∀ feature ∈ featureOrder,
        featureOrder.find? (fun f => f.label = feature.label) =
          some feature := by
    decide +kernel
  simp only [featureOf, hAll feature (mem_featureOrder feature)]

end Statement

------------------------------------------------------------
-- The held feature in the loop
------------------------------------------------------------

section Held

variable {ι κ M Z 𝕜 : Type}
variable [DecidableEq ι]
variable [Field 𝕜] [LinearOrder 𝕜] [ExpLog 𝕜]

/- Holding a dropped feature is masked out. -/
theorem maskState_hold
    {model : WorldModel ι κ M 𝕜}
    {j : ι}
    (hDropped : model.drops j)
    (clampValue : 𝕜)
    (state : Vec ι 𝕜) :
    model.maskState (hold (some j) clampValue state) =
      model.maskState state := by
  funext i
  by_cases hDrops : model.drops i
  · rw [WorldModel.maskState_of_drops hDrops,
      WorldModel.maskState_of_drops hDrops]
  · rw [WorldModel.maskState_of_not_drops hDrops,
      WorldModel.maskState_of_not_drops hDrops]
    apply Function.update_of_ne
    rintro rfl
    exact hDrops hDropped

/- So a step is the same as when nothing is held. -/
theorem counterfactualStep_hold
    {model : WorldModel ι κ M 𝕜}
    {j : ι}
    (hDropped : model.drops j)
    (clampValue : 𝕜)
    (stochastic : Bool)
    (noise : ℕ → Vec ι 𝕜) :
    counterfactualStep model (some j) clampValue stochastic
        noise =
      counterfactualStep model none 0 stochastic noise := by
  funext k s
  unfold counterfactualStep
  dsimp only
  rw [maskState_hold hDropped]
  rfl

/- Variables that differ in one slot of the states alone. -/
structure Sim.AlikeOff
    (j : ι)
    (s s' : Sim ι κ M 𝕜) : Prop where
  hidden : s.hidden = s'.hidden
  memory : s.memory = s'.memory
  cur : AgreeOff j s.cur s'.cur
  prev : AgreeOff j s.prev s'.prev
  drawn : s.drawn = s'.drawn

/- What a head reads of two steps is the same. -/
structure RolloutStep.Alike
    (a b : RolloutStep ι κ 𝕜) : Prop where
  state : a.state = b.state
  logvar : a.logvar = b.logvar
  hidden : a.hidden = b.hidden

/- The simulations start alike. -/
theorem counterfactualBegin_alike
    (model : WorldModel ι κ M 𝕜)
    (j : ι)
    (clampValue : 𝕜)
    (x : Window ι 𝕜) :
    Sim.AlikeOff j
      (counterfactualBegin model (some j) clampValue x)
      (counterfactualBegin model none 0 x) :=
  { hidden := rfl
    memory := rfl
    cur := fun _ hNe => Function.update_of_ne hNe _ _
    prev := fun _ hNe => Function.update_of_ne hNe _ _
    drawn := rfl }

end Held

------------------------------------------------------------
-- Steps that hide the difference
------------------------------------------------------------

section Hidden

variable {ι κ M Z 𝕜 : Type}
variable [Fintype ι] [DecidableEq ι]
variable [Field 𝕜] [LinearOrder 𝕜] [IsStrictOrderedRing 𝕜]
variable [ExpLog 𝕜]

/- A clamp that is not positive leaves one value. -/
theorem clampState_of_nonpos
    {model : WorldModel ι κ M 𝕜}
    (hClamp : model.stateClamp ≤ 0)
    (state : Vec ι 𝕜)
    (i : ι) :
    model.clampState state i = model.stateClamp := by
  unfold WorldModel.clampState
  apply min_eq_right
  have hLow : model.stateClamp ≤ -model.stateClamp := by
    linarith
  exact hLow.trans (le_max_right _ _)

/- Only kept slots matter to the mask. -/
theorem maskState_congr
    {model : WorldModel ι κ M 𝕜}
    {a b : Vec ι 𝕜}
    (hKept : ∀ i, ¬ model.drops i → a i = b i) :
    model.maskState a = model.maskState b := by
  funext i
  by_cases hDrops : model.drops i
  · rw [WorldModel.maskState_of_drops hDrops,
      WorldModel.maskState_of_drops hDrops]
  · rw [WorldModel.maskState_of_not_drops hDrops,
      WorldModel.maskState_of_not_drops hDrops]
    exact hKept i hDrops

variable {model : WorldModel ι κ M 𝕜}
variable {layers : TransitionLayers ι κ Z 𝕜}
variable {j : ι}

/- The sampled mean before it is clamped and masked. -/
def sampledNext
    (layers : TransitionLayers ι κ Z 𝕜)
    (stochastic : Bool)
    (noise : ℕ → Vec ι 𝕜)
    (s : Sim ι κ M 𝕜) : Vec ι 𝕜 :=
  (WorldModel.sampled stochastic noise s.drawn
    (s.cur + layers.mu s.hidden s.cur s.prev)
    (layers.logvar s.hidden)).1

/- The difference in one slot is that of the mean change. -/
theorem sampledNext_sub
    (layers : TransitionLayers ι κ Z 𝕜)
    {s s' : Sim ι κ M 𝕜}
    (hAlike : Sim.AlikeOff j s s')
    (stochastic : Bool)
    (noise : ℕ → Vec ι 𝕜)
    {i : ι}
    (hNe : i ≠ j) :
    sampledNext layers stochastic noise s i -
        sampledNext layers stochastic noise s' i =
      layers.currentWeight i j * (s.cur j - s'.cur j) +
        layers.previousWeight i j * (s.prev j - s'.prev j) := by
  rw [← layers.mu_sub s.hidden hAlike.cur hAlike.prev i]
  have hCur := hAlike.cur i hNe
  unfold sampledNext WorldModel.sampled
  rw [← hAlike.hidden, ← hAlike.drawn]
  cases stochastic <;>
    simp only [Bool.false_eq_true, if_false, if_true,
      Pi.add_apply, hCur] <;>
    ring

theorem sampled_drawn
    (stochastic : Bool)
    (noise : ℕ → Vec ι 𝕜)
    (drawn : ℕ)
    (nxt nxt' logvar : Vec ι 𝕜) :
    (WorldModel.sampled stochastic noise drawn nxt logvar).2 =
      (WorldModel.sampled stochastic noise drawn nxt'
        logvar).2 := by
  cases stochastic <;> rfl

/-
  A step whose masked next states are the same keeps all that
  a head reads the same, and hides the difference.
-/
theorem counterfactualStep_alike
    {s s' : Sim ι κ M 𝕜}
    (hAlike : Sim.AlikeOff j s s')
    {stochastic : Bool}
    {noise : ℕ → Vec ι 𝕜}
    (hNext :
      let model := model.withLayers layers
      model.maskState
          (model.clampState
            (sampledNext layers stochastic noise s)) =
        model.maskState
          (model.clampState
            (sampledNext layers stochastic noise s')))
    (k : ℕ) :
    let step :=
      counterfactualStep (model.withLayers layers) none 0
        stochastic noise k
    (step s).1.Alike (step s').1 ∧
      Sim.AlikeOff j (step s).2 (step s').2 := by
  have hEncoded :
      (model.withLayers layers).encoder.ingest
          ((model.withLayers layers).maskState
            ((model.withLayers layers).clampState
              (sampledNext layers stochastic noise s)))
          s.memory =
        (model.withLayers layers).encoder.ingest
          ((model.withLayers layers).maskState
            ((model.withLayers layers).clampState
              (sampledNext layers stochastic noise s')))
          s'.memory := by
    rw [hNext, hAlike.memory]
  have hLogvar :
      layers.logvar s.hidden = layers.logvar s'.hidden := by
    rw [hAlike.hidden]
  constructor
  · exact
      { state := hNext
        logvar := congrArg (model.withLayers layers).maskLogvar
          hLogvar
        hidden := congrArg Prod.fst hEncoded }
  · exact
      { hidden := congrArg Prod.fst hEncoded
        memory := congrArg Prod.snd hEncoded
        cur := fun i _ => congrFun hNext i
        prev := hAlike.cur
        drawn := by
          change
            (WorldModel.sampled stochastic noise s.drawn _
              (layers.logvar s.hidden)).2 = _
          rw [hAlike.drawn, hAlike.hidden]
          exact sampled_drawn _ _ _ _ _ _ }

/- It is hidden by a clamp to one value, -/
theorem maskedNext_of_nonpos
    (hClamp : model.stateClamp ≤ 0)
    (a b : Vec ι 𝕜) :
    (model.withLayers layers).maskState
        ((model.withLayers layers).clampState a) =
      (model.withLayers layers).maskState
        ((model.withLayers layers).clampState b) := by
  apply maskState_congr
  intro i _
  have hClampToo :
      (model.withLayers layers).stateClamp ≤ 0 := hClamp
  have hClamped :
      ∀ state, (model.withLayers layers).clampState state i =
        model.stateClamp :=
    fun state => clampState_of_nonpos hClampToo state i
  rw [hClamped, hClamped]

/- and where the skip does not read the slot. -/
theorem maskedNext_of_unread
    (hDropped : model.drops j)
    (hUnread : Unread model layers j)
    {s s' : Sim ι κ M 𝕜}
    (hAlike : Sim.AlikeOff j s s')
    (stochastic : Bool)
    (noise : ℕ → Vec ι 𝕜) :
    (model.withLayers layers).maskState
        ((model.withLayers layers).clampState
          (sampledNext layers stochastic noise s)) =
      (model.withLayers layers).maskState
        ((model.withLayers layers).clampState
          (sampledNext layers stochastic noise s')) := by
  apply maskState_congr
  intro i hKept
  have hNe : i ≠ j := by
    rintro rfl
    exact hKept hDropped
  have hSub :=
    sampledNext_sub layers hAlike stochastic noise hNe
  rw [(hUnread i hKept).1, (hUnread i hKept).2, zero_mul,
    zero_mul, add_zero, sub_eq_zero] at hSub
  unfold WorldModel.clampState
  rw [hSub]

end Hidden

section Curves

variable {κ M 𝕜 : Type}
variable [Field 𝕜] [LinearOrder 𝕜] [FloorSemiring 𝕜]
variable [ExpLog 𝕜]

/- Trajectories that look alike to the heads score alike. -/
theorem curves_congr
    {B S K : ℕ}
    (model : WorldModel Feature κ M 𝕜)
    {out out' : RolloutOutput Feature κ 𝕜 B S K}
    (hAnchor :
      ∀ b sample, (out b sample).anchor = (out' b sample).anchor)
    (hSteps :
      ∀ b sample k,
        ((out b sample).steps k).Alike
          ((out' b sample).steps k)) :
    curves model out = curves model out' := by
  have hRisk :
      ∀ b sample k,
        model.stepRisk (out b sample) k =
          model.stepRisk (out' b sample) k := by
    intro b sample k
    unfold WorldModel.stepRisk WorldModel.realizedDelta
    rw [(hSteps b sample k).state, (hSteps b sample k).logvar,
      (hSteps b sample k).hidden, hAnchor b sample]
    split_ifs with hFirst
    · rfl
    · rw [(hSteps b sample ⟨k.val - 1, by omega⟩).state]
  have hState :
      ∀ b sample k,
        ((out b sample).steps k).state =
          ((out' b sample).steps k).state :=
    fun b sample k => (hSteps b sample k).state
  unfold curves WorldModel.scoreTrajectory
  simp only [hRisk, hState]

/-
  A what-if on a dropped feature and one that holds nothing
  differ in the states they start from alone.
-/
theorem counterfactualRollout_dropped
    {B : ℕ}
    {model : WorldModel Feature κ M 𝕜}
    {j : Feature}
    (hDropped : model.drops j)
    (x : Fin B → Window Feature 𝕜)
    (clampValue : 𝕜)
    {K : ℕ}
    (hSteps : K ≠ 0)
    (nSamples : ℕ)
    (stochastic : Bool)
    (noise : Noise Feature 𝕜 B (samples nSamples)) :
    (counterfactualRollout model x (some j.label) clampValue K
        nSamples stochastic noise).map WhatIf.curves =
      .ok (curves model (fun b sample => {
        anchor := (x b).current
        steps := fun k : Fin K =>
          loopOutput
            (counterfactualStep model none 0 stochastic
              (fun draw => noise draw b sample))
            (counterfactualBegin model (some j) clampValue
              (x b)) k })) := by
  unfold counterfactualRollout counterfactualTrajectories
    WorldModel.checkSteps
  rw [featureOf_label, if_neg hSteps]
  change
    Except.ok (curves model fun b sample => {
      anchor := (x b).current
      steps := fun k : Fin K =>
        loopOutput
          (counterfactualStep model (some j) clampValue
            stochastic (fun draw => noise draw b sample))
          (counterfactualBegin model (some j) clampValue (x b))
          k }) = _
  simp only [counterfactualStep_hold hDropped]

theorem counterfactualRollout_none
    {B : ℕ}
    (model : WorldModel Feature κ M 𝕜)
    (x : Fin B → Window Feature 𝕜)
    {K : ℕ}
    (hSteps : K ≠ 0)
    (nSamples : ℕ)
    (stochastic : Bool)
    (noise : Noise Feature 𝕜 B (samples nSamples)) :
    (counterfactualRollout model x none 0 K nSamples stochastic
        noise).map WhatIf.curves =
      .ok (curves model (fun b sample => {
        anchor := (x b).current
        steps := fun k : Fin K =>
          loopOutput
            (counterfactualStep model none 0 stochastic
              (fun draw => noise draw b sample))
            (counterfactualBegin model none 0 (x b)) k })) := by
  unfold counterfactualRollout counterfactualTrajectories
    WorldModel.checkSteps
  rw [if_neg hSteps]
  rfl

theorem counterfactualRollout_zero
    {B : ℕ}
    (model : WorldModel Feature κ M 𝕜)
    (x : Fin B → Window Feature 𝕜)
    (j : Feature)
    (clampValue : 𝕜)
    (nSamples : ℕ)
    (stochastic : Bool)
    (noise : Noise Feature 𝕜 B (samples nSamples)) :
    (counterfactualRollout model x (some j.label) clampValue 0
        nSamples stochastic noise).map WhatIf.curves =
      (counterfactualRollout model x none 0 0 nSamples
        stochastic noise).map WhatIf.curves := by
  unfold counterfactualRollout counterfactualTrajectories
    WorldModel.checkSteps
  rw [featureOf_label]
  rfl

end Curves

instance : Fintype Feature :=
  { elems := ⟨featureOrder, featureOrder_nodup⟩
    complete := mem_featureOrder }

section Forward

variable {κ M Z 𝕜 : Type}
variable [Field 𝕜] [LinearOrder 𝕜] [IsStrictOrderedRing 𝕜]
variable [FloorSemiring 𝕜] [ExpLog 𝕜]
variable {model : WorldModel Feature κ M 𝕜}
variable {layers : TransitionLayers Feature κ Z 𝕜}
variable {j : Feature}
variable {B : ℕ}
variable {x : Fin B → Window Feature 𝕜}

/- A silent slot that is held at zero is as it was. -/
theorem counterfactualBegin_zero
    (hDropped : model.drops j)
    {x : Window Feature 𝕜}
    (hSilent : SilentWhereDropped model x) :
    counterfactualBegin model (some j) 0 x =
      counterfactualBegin model none 0 x := by
  have hHold :
      ∀ state ∈ x.states, hold (some j) 0 state = state := by
    intro state hMem
    apply Function.update_eq_iff.mpr
    exact ⟨(hSilent state hMem j hDropped).symm, fun _ _ => rfl⟩
  have hCurrent : x.current ∈ x.states :=
    List.mem_append_right _ (List.mem_singleton_self _)
  have hPrevious : x.previous.getD x.current ∈ x.states := by
    cases hPrev : x.previous with
    | none => exact hCurrent
    | some prev =>
        apply List.mem_append_left
        exact List.mem_of_getLast? hPrev
  unfold counterfactualBegin
  dsimp only
  rw [hHold _ hCurrent, hHold _ hPrevious]
  rfl

/-
  If every step hides the difference, the what-if is inert.
-/
theorem inert_of_hidden
    (hDropped : model.drops j)
    {clampValue : 𝕜}
    (hHidden :
      ∀ s s' : Sim Feature κ M 𝕜,
        Sim.AlikeOff j s s' →
          ∀ stochastic noise,
            (model.withLayers layers).maskState
                ((model.withLayers layers).clampState
                  (sampledNext layers stochastic noise s)) =
              (model.withLayers layers).maskState
                ((model.withLayers layers).clampState
                  (sampledNext layers stochastic noise s'))) :
    Inert (model.withLayers layers) x j clampValue := by
  intro K nSamples stochastic noise
  rcases Nat.eq_zero_or_pos K with rfl | hPos
  · exact counterfactualRollout_zero _ x j clampValue nSamples
      stochastic noise
  · have hDroppedToo : (model.withLayers layers).drops j :=
      hDropped
    rw [counterfactualRollout_dropped hDroppedToo x clampValue
        hPos.ne',
      counterfactualRollout_none _ x hPos.ne']
    congr 1
    apply curves_congr
    · exact fun _ _ => rfl
    · intro b sample k
      apply
        loop_simulation
          (fun _ => Sim.AlikeOff j)
          (fun _ => RolloutStep.Alike)
      · exact counterfactualBegin_alike _ j clampValue (x b)
      · intro k s s' hAlike
        exact
          counterfactualStep_alike hAlike
            (hHidden s s' hAlike stochastic _) k

theorem inert_of_nonpos
    (hDropped : model.drops j)
    (hClamp : model.stateClamp ≤ 0)
    (clampValue : 𝕜) :
    Inert (model.withLayers layers) x j clampValue :=
  inert_of_hidden hDropped
    (fun _ _ _ _ _ => maskedNext_of_nonpos hClamp _ _)

theorem inert_of_unread
    (hDropped : model.drops j)
    (hUnread : Unread model layers j)
    (clampValue : 𝕜) :
    Inert (model.withLayers layers) x j clampValue :=
  inert_of_hidden hDropped
    (fun _ _ hAlike stochastic noise =>
      maskedNext_of_unread hDropped hUnread hAlike stochastic
        noise)

theorem inert_of_zero
    (hDropped : model.drops j)
    (hSilent : ∀ b, SilentWhereDropped model (x b)) :
    Inert (model.withLayers layers) x j 0 := by
  intro K nSamples stochastic noise
  rcases Nat.eq_zero_or_pos K with rfl | hPos
  · exact counterfactualRollout_zero _ x j 0 nSamples
      stochastic noise
  · have hDroppedToo : (model.withLayers layers).drops j :=
      hDropped
    rw [counterfactualRollout_dropped hDroppedToo x 0 hPos.ne',
      counterfactualRollout_none _ x hPos.ne']
    simp only [counterfactualBegin_zero hDroppedToo (hSilent _)]

end Forward

------------------------------------------------------------
-- Noise that uncovers the difference
------------------------------------------------------------

section Uncovered

variable {ι κ M Z : Type}
variable [Fintype ι] [DecidableEq ι]
variable {model : WorldModel ι κ M ℝ}
variable {layers : TransitionLayers ι κ Z ℝ}
variable {j : ι}

/- The noise that takes the next mean to zero. -/
noncomputable def cancelling
    (layers : TransitionLayers ι κ Z ℝ)
    (s : Sim ι κ M ℝ) : Vec ι ℝ :=
  fun i =>
    -(s.cur i + layers.mu s.hidden s.cur s.prev i) /
      ExpLog.exp (1 / 2 * layers.logvar s.hidden i)

theorem sampledNext_cancelled
    {s : Sim ι κ M ℝ}
    {noise : ℕ → Vec ι ℝ}
    (hNoise : noise s.drawn = cancelling layers s)
    (i : ι) :
    sampledNext layers true noise s i = 0 := by
  have hExp :
      (ExpLog.exp (1 / 2 * layers.logvar s.hidden i) : ℝ) ≠ 0 :=
    Real.exp_ne_zero _
  unfold sampledNext WorldModel.sampled
  simp only [if_true, hNoise, cancelling, Pi.add_apply]
  rw [div_mul_cancel₀ _ hExp]
  ring

/- A positive clamp takes no other value to zero. -/
theorem clampState_eq_zero
    (hClamp : 0 < model.stateClamp)
    (state : Vec ι ℝ)
    (i : ι) :
    model.clampState state i = 0 ↔ state i = 0 := by
  unfold WorldModel.clampState
  rcases lt_trichotomy (state i) 0 with hNeg | hZero | hPos
  · constructor
    · intro hMin
      have hLt :
          max (state i) (-model.stateClamp) < 0 :=
        max_lt hNeg (by linarith)
      have hLe := min_le_left
        (max (state i) (-model.stateClamp)) model.stateClamp
      linarith
    · intro hSame
      linarith
  · rw [hZero, max_eq_left (by linarith),
      min_eq_left hClamp.le]
  · constructor
    · intro hMin
      have hLt :
          0 < min (max (state i) (-model.stateClamp))
            model.stateClamp :=
        lt_min (lt_max_of_lt_left hPos) hClamp
      linarith
    · intro hSame
      linarith

/- A step reads its own draw alone. -/
theorem counterfactualStep_noise
    {s : Sim ι κ M ℝ}
    {noise noise' : ℕ → Vec ι ℝ}
    (hNoise : noise s.drawn = noise' s.drawn)
    (k : ℕ) :
    counterfactualStep model none 0 true noise k s =
      counterfactualStep model none 0 true noise' k s := by
  unfold counterfactualStep WorldModel.sampled
  rw [hNoise]

/-
  What a kept slot of the state is, off by what the skip reads
  of the difference, when the noise cancels the other mean.
-/
theorem uncovered_state
    (hDropped : model.drops j)
    (hClamp : 0 < model.stateClamp)
    {s s' : Sim ι κ M ℝ}
    (hAlike : Sim.AlikeOff j s s')
    {noise : ℕ → Vec ι ℝ}
    (hNoise : noise s'.drawn = cancelling layers s')
    (k : ℕ)
    {i : ι}
    (hKept : ¬ model.drops i) :
    let step :=
      counterfactualStep (model.withLayers layers) none 0 true
        noise k
    ((step s).1.state i = (step s').1.state i ↔
      layers.currentWeight i j * (s.cur j - s'.cur j) +
        layers.previousWeight i j * (s.prev j - s'.prev j) =
          0) := by
  have hNe : i ≠ j := by
    rintro rfl
    exact hKept hDropped
  have hKeptToo : ¬ (model.withLayers layers).drops i := hKept
  have hClampToo : 0 < (model.withLayers layers).stateClamp :=
    hClamp
  have hSub :=
    sampledNext_sub layers hAlike true noise hNe
  have hOther := sampledNext_cancelled hNoise i
  rw [hOther, sub_zero] at hSub
  change
    (model.withLayers layers).maskState
        ((model.withLayers layers).clampState
          (sampledNext layers true noise s)) i =
      (model.withLayers layers).maskState
        ((model.withLayers layers).clampState
          (sampledNext layers true noise s')) i ↔ _
  rw [WorldModel.maskState_of_not_drops hKeptToo,
    WorldModel.maskState_of_not_drops hKeptToo,
    (clampState_eq_zero hClampToo _ i).mpr hOther,
    clampState_eq_zero hClampToo, hSub]

end Uncovered

section Converse

variable {κ M Z : Type}
variable {model : WorldModel Feature κ M ℝ}
variable {layers : TransitionLayers Feature κ Z ℝ}
variable {j : Feature}
variable {B : ℕ}
variable {x : Fin B → Window Feature ℝ}
variable {clampValue : ℝ}

theorem average_const
    {n : ℕ}
    (hPos : n ≠ 0)
    (a : ℝ) :
    average (List.ofFn (fun _ : Fin n => a)) = a := by
  have hCast : (n : ℝ) ≠ 0 := Nat.cast_ne_zero.mpr hPos
  unfold average
  rw [List.ofFn_const, List.sum_replicate, nsmul_eq_mul,
    List.length_replicate]
  exact mul_div_cancel_left₀ a hCast

/-
  Where a what-if is inert, both simulations put out the same
  state at every step, whatever the noise of a row.
-/
theorem states_of_inert
    (hDropped : model.drops j)
    (hInert : Inert (model.withLayers layers) x j clampValue)
    (noise : ℕ → Vec Feature ℝ)
    (b : Fin B)
    (k : ℕ) :
    let step :=
      counterfactualStep (model.withLayers layers) none 0 true
        noise
    (loopOutput step
        (counterfactualBegin (model.withLayers layers) (some j)
          clampValue (x b)) k).state =
      (loopOutput step
        (counterfactualBegin (model.withLayers layers) none 0
          (x b)) k).state := by
  have hDroppedToo : (model.withLayers layers).drops j :=
    hDropped
  have hSame :=
    hInert (k + 1) 1 true (fun draw _ _ => noise draw)
  rw [counterfactualRollout_dropped hDroppedToo x clampValue
      (Nat.succ_ne_zero k),
    counterfactualRollout_none _ x (Nat.succ_ne_zero k)]
    at hSame
  have hCurves := Except.ok.inj hSame
  have hStates :=
    congrArg Curves.predictedStatesMean hCurves
  funext i
  have hSlot :=
    congrFun (congrFun (congrFun hStates b) (Fin.last k)) i
  unfold curves at hSlot
  dsimp only at hSlot
  rwa [average_const (by decide), average_const (by decide)]
    at hSlot

/- Where the two simulations of a silent row start. -/
theorem begin_slots
    (hDropped : model.drops j)
    {x : Window Feature ℝ}
    (hSilent : SilentWhereDropped model x) :
    (counterfactualBegin model none 0 x).cur j = 0 ∧
      (counterfactualBegin model none 0 x).prev j = 0 ∧
      (counterfactualBegin model (some j) clampValue x).cur j =
        clampValue ∧
      (counterfactualBegin model (some j) clampValue x).prev j =
        clampValue := by
  have hSame := counterfactualBegin_zero hDropped hSilent
  refine ⟨?_, ?_, Function.update_self _ _ _,
    Function.update_self _ _ _⟩
  · rw [← hSame]
    exact Function.update_self _ _ _
  · rw [← hSame]
    exact Function.update_self _ _ _

variable [NeZero B]

/-
  The first two draws: each cancels the mean of the step that
  it is drawn for, in the simulation that holds nothing.
-/
theorem weights_of_inert
    (hDropped : model.drops j)
    (hSilent : ∀ b, SilentWhereDropped model (x b))
    (hClamp : 0 < model.stateClamp)
    (hInert : Inert (model.withLayers layers) x j clampValue)
    {i : Feature}
    (hKept : ¬ model.drops i) :
    layers.currentWeight i j * clampValue = 0 ∧
      layers.previousWeight i j * clampValue = 0 := by
  let start :=
    counterfactualBegin (model.withLayers layers) none 0 (x 0)
  let held :=
    counterfactualBegin (model.withLayers layers) (some j)
      clampValue (x 0)
  let first : ℕ → Vec Feature ℝ := fun _ =>
    cancelling layers start
  let after :=
    (counterfactualStep (model.withLayers layers) none 0 true
      first 0 start).2
  let noise : ℕ → Vec Feature ℝ := fun draw =>
    if draw = 0 then cancelling layers start
    else cancelling layers after
  let step :=
    counterfactualStep (model.withLayers layers) none 0 true
      noise
  have hDroppedToo : (model.withLayers layers).drops j :=
    hDropped
  have hStarts :
      start.cur j = 0 ∧ start.prev j = 0 ∧
        held.cur j = clampValue ∧ held.prev j = clampValue :=
    begin_slots hDroppedToo (hSilent 0)
  have hAlike : Sim.AlikeOff j held start :=
    counterfactualBegin_alike _ j clampValue (x 0)
  have hFirstNoise : noise start.drawn = cancelling layers start
      := rfl
  have hAfter : (step 0 start).2 = after := by
    have hDraw : noise start.drawn = first start.drawn := rfl
    exact congrArg Prod.snd (counterfactualStep_noise hDraw 0)
  -- The first step compares the sum of both weights,
  have hFirst :=
    states_of_inert hDropped hInert noise 0 0
  have hBoth :=
    (uncovered_state hDropped hClamp hAlike hFirstNoise 0
      hKept).mp (congrFun hFirst i)
  rw [hStarts.1, hStarts.2.1, hStarts.2.2.1, hStarts.2.2.2,
    sub_zero] at hBoth
  -- and the second one, from equal states, the older alone.
  have hAlikeAfter :
      Sim.AlikeOff j (step 0 held).2 (step 0 start).2 :=
    (counterfactualStep_alike hAlike hFirst 0).2
  have hCur : (step 0 held).2.cur j = (step 0 start).2.cur j :=
    congrFun hFirst j
  have hPrev : (step 0 held).2.prev j = clampValue :=
    hStarts.2.2.1
  have hPrevStart : (step 0 start).2.prev j = 0 := hStarts.1
  have hSecondNoise :
      noise (step 0 start).2.drawn =
        cancelling layers (step 0 start).2 := by
    rw [hAfter]
    rfl
  have hSecond :=
    states_of_inert hDropped hInert noise 0 1
  have hOlder :=
    (uncovered_state hDropped hClamp hAlikeAfter hSecondNoise 1
      hKept).mp (congrFun hSecond i)
  rw [hCur, sub_self, mul_zero, zero_add, hPrev, hPrevStart,
    sub_zero] at hOlder
  refine ⟨?_, hOlder⟩
  rwa [hOlder, add_zero] at hBoth

/-
  A what-if on a dropped feature of silent histories is inert
  if and only if the clamp on states leaves one value, the
  feature is held at zero, or no skip reads it.
-/
theorem inert_iff
    (hDropped : model.drops j)
    (hSilent : ∀ b, SilentWhereDropped model (x b)) :
    Inert (model.withLayers layers) x j clampValue ↔
      model.stateClamp ≤ 0 ∨ clampValue = 0 ∨
        Unread model layers j := by
  constructor
  · intro hInert
    rcases le_or_gt model.stateClamp 0 with hClamp | hClamp
    · exact Or.inl hClamp
    · by_cases hZero : clampValue = 0
      · exact Or.inr (Or.inl hZero)
      · refine Or.inr (Or.inr ?_)
        intro i hKept
        have hWeights :=
          weights_of_inert hDropped hSilent hClamp hInert hKept
        exact
          ⟨(mul_eq_zero.mp hWeights.1).resolve_right hZero,
            (mul_eq_zero.mp hWeights.2).resolve_right hZero⟩
  · rintro (hClamp | rfl | hUnread)
    · exact inert_of_nonpos hDropped hClamp clampValue
    · exact inert_of_zero hDropped hSilent
    · exact inert_of_unread hDropped hUnread clampValue

end Converse

------------------------------------------------------------
-- A skip that reads a dropped feature
------------------------------------------------------------

/- A model that drops the in-degree. -/
noncomputable def withoutInDegree :
    WorldModel Feature Unit Unit ℝ :=
  { encoder :=
      { cell := fun _ _ => ()
        output := fun _ _ => 0
        blank := () }
    transition :=
      { logvarMin := -6
        forward := fun _ _ _ => (0, 0) }
    riskHead := .perState (fun _ => 0)
    stageHead :=
      { stages := 6
        net := fun _ _ => 0 }
    stateClamp := 10
    featureMask := some (fun f => f ≠ .graph .inDegree) }

/- A transition whose skip has these weights for now. -/
noncomputable def skipping
    (weight : Feature → Feature → ℝ) :
    TransitionLayers Feature Unit Unit ℝ :=
  { net := fun _ => ()
    muHead := fun _ => 0
    logvarHead := fun _ => 0
    logvarMin := -6
    logvarMax := 2
    skip :=
      some
        { current := weight
          previous := 0
          bias := 0 } }

def silentRows : Fin 1 → Window Feature ℝ :=
  fun _ =>
    { earlier := []
      current := 0 }

theorem drops_inDegree :
    withoutInDegree.drops (.graph .inDegree) :=
  ⟨fun f => f ≠ .graph .inDegree, rfl, by decide⟩

theorem keeps_outDegree :
    ¬ withoutInDegree.drops (.graph .outDegree) := by
  rintro ⟨kept, hMask, hDropped⟩
  cases Option.some.inj hMask
  revert hDropped
  decide

theorem silentRows_silent (b : Fin 1) :
    SilentWhereDropped withoutInDegree (silentRows b) := by
  intro state hMem i _
  cases List.mem_singleton.mp hMem
  rfl

/- The out-degree is not read from the in-degree. -/
theorem inert_outDegreeAlone :
    Inert
      (withoutInDegree.withLayers
        (skipping (fun _ j =>
          if j = .graph .outDegree then 1 else 0)))
      silentRows (.graph .inDegree) 3 := by
  apply (inert_iff drops_inDegree silentRows_silent).mpr
  refine Or.inr (Or.inr (fun _ _ => ⟨?_, rfl⟩))
  simp [TransitionLayers.currentWeight, skipping]

/-
  Here it is: a simulation that holds the in-degree at three
  predicts another out-degree.
-/
theorem not_inert_inDegreeRead :
    withoutInDegree.drops (.graph .inDegree) ∧
      (∀ b, SilentWhereDropped withoutInDegree
        (silentRows b)) ∧
      ¬ Inert
        (withoutInDegree.withLayers
          (skipping (fun _ j =>
            if j = .graph .inDegree then 1 else 0)))
        silentRows (.graph .inDegree) 3 := by
  refine ⟨drops_inDegree, silentRows_silent, ?_⟩
  intro hInert
  have hClamp : 0 < withoutInDegree.stateClamp := by
    norm_num [withoutInDegree]
  have hWeights :=
    weights_of_inert drops_inDegree silentRows_silent hClamp
      hInert keeps_outDegree
  norm_num [TransitionLayers.currentWeight, skipping] at hWeights

end Model

end Nidra
