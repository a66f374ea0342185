import Nidra.Evaluation.Calibrate
import Nidra.Lib.Loops
import Nidra.Lib.Quantiles

/-
  This file defines the world model: an encoder that keeps a
  memory, a transition that predicts the change of a state,
  the rollout that feeds predicted states back, and the heads
  that score states and rollouts.

  Key definitions include:
    * `Encoder`, `Transition`, `RiskHead`, `WorldModel`
    * `Window`
    * `WorldModel.maskState`, `WorldModel.maskLogvar`
    * `StateSource`, `rolloutStep`, `WorldModel.rollout`
    * `WorldModel.scoreTrajectory`
    * `WorldModel.observedContext`
-/

namespace Nidra

namespace Model

------------------------------------------------------------
-- Networks
------------------------------------------------------------

/- A value for every feature, or for every hidden cell. -/
abbrev Vec (ι 𝕜 : Type) :=
  ι → 𝕜

/- The history of a host, oldest first, before and at now. -/
structure Window (ι 𝕜 : Type) where
  earlier : List (Vec ι 𝕜)
  current : Vec ι 𝕜

section Networks

variable {ι κ M 𝕜 : Type}

/- The state before the current one. -/
def Window.previous
    (x : Window ι 𝕜) : Option (Vec ι 𝕜) :=
  x.earlier.getLast?

/- The state before that. -/
def Window.beforePrevious
    (x : Window ι 𝕜) : Option (Vec ι 𝕜) :=
  x.earlier.dropLast.getLast?

def Window.states (x : Window ι 𝕜) : List (Vec ι 𝕜) :=
  x.earlier ++ [x.current]

/-
  A recurrent network: what its memory becomes with a state,
  the output of its last layer, and the memory it starts from
  when it is given none.
-/
structure Encoder (ι κ M 𝕜 : Type) where
  cell : Vec ι 𝕜 → M → M
  output : M → Vec κ 𝕜
  blank : M

namespace Encoder

/- The outputs after each state, and the last memory. -/
def gru
    (encoder : Encoder ι κ M 𝕜) :
    List (Vec ι 𝕜) → M → List (Vec κ 𝕜) × M
  | [], h => ([], h)
  | x :: rest, h =>
      let next := encoder.cell x h
      let others := gru encoder rest next
      (encoder.output next :: others.1, others.2)

/- The output after a whole window, and the memory. -/
def forward
    (encoder : Encoder ι κ M 𝕜)
    (x : Window ι 𝕜)
    (h : Option M) : Vec κ 𝕜 × M :=
  let out := encoder.gru x.states (h.getD encoder.blank)
  (out.1.getLastD (encoder.output out.2), out.2)

/- The output after one more state. -/
def ingest
    (encoder : Encoder ι κ M 𝕜)
    (state : Vec ι 𝕜)
    (h : M) : Vec κ 𝕜 × M :=
  encoder.forward
    { earlier := []
      current := state }
    (some h)

end Encoder

/-
  What the transition predicts from a hidden state and the
  last two states: the mean change and its log-variance.
-/
structure Transition (ι κ 𝕜 : Type) where
  logvarMin : 𝕜
  forward : Vec κ 𝕜 → Vec ι 𝕜 → Vec ι 𝕜 → Vec ι 𝕜 × Vec ι 𝕜

/- What a step offers to a head. -/
inductive Component where
  | state
  | hidden
  | delta
  | logvar
deriving DecidableEq

/- The order in which components are concatenated. -/
def trajectoryComponents : List Component :=
  [.state, .hidden, .delta, .logvar]

/- The components of one step. -/
structure Parts (ι κ 𝕜 : Type) where
  state : Vec ι 𝕜
  hidden : Vec κ 𝕜
  delta : Vec ι 𝕜
  logvar : Vec ι 𝕜

/- One piece of the input of a head. -/
def Parts.piece
    (parts : Parts ι κ 𝕜) :
    Component → Vec ι 𝕜 ⊕ Vec κ 𝕜
  | .state => .inl parts.state
  | .hidden => .inr parts.hidden
  | .delta => .inl parts.delta
  | .logvar => .inl parts.logvar

/-
  A risk head: a network over one state, or one over the
  components that it declares.
-/
inductive RiskHead (ι κ 𝕜 : Type) where
  | perState (net : Vec ι 𝕜 → 𝕜)
  | trajectory
      (components : List Component)
      (net : List (Vec ι 𝕜 ⊕ Vec κ 𝕜) → 𝕜)

/- The declared components, in their fixed order. -/
def concatComponents
    (components : List Component)
    (parts : Parts ι κ 𝕜) :
    List (Vec ι 𝕜 ⊕ Vec κ 𝕜) :=
  (trajectoryComponents.filter
    (fun c => c ∈ components)).map parts.piece

/- The logit of a step, from what the head reads of it. -/
def RiskHead.logit
    (head : RiskHead ι κ 𝕜)
    (parts : Parts ι κ 𝕜) : 𝕜 :=
  match head with
  | .perState net => net parts.state
  | .trajectory components net =>
      net (concatComponents components parts)

/- The logits of the stages of a state. -/
structure StageHead (ι 𝕜 : Type) where
  stages : ℕ
  net : Vec ι 𝕜 → Fin stages → 𝕜

/-
  The networks, the bound on predicted states, and which
  features the scaler has kept, if that was declared.
-/
structure WorldModel (ι κ M 𝕜 : Type) where
  encoder : Encoder ι κ M 𝕜
  transition : Transition ι κ 𝕜
  riskHead : RiskHead ι κ 𝕜
  stageHead : StageHead ι 𝕜
  stateClamp : 𝕜
  featureMask : Option (ι → Bool)

end Networks

------------------------------------------------------------
-- Clamp and mask
------------------------------------------------------------

section Definitions

variable {ι κ M 𝕜 : Type}
variable [Field 𝕜] [LinearOrder 𝕜]

/- A mask as the numbers one and zero. -/
def maskValue (kept : Bool) : 𝕜 :=
  if kept then 1 else 0

namespace WorldModel

set_option linter.unusedSectionVars false

variable (model : WorldModel ι κ M 𝕜)

/- Keep every value of a state within the clamp. -/
def clampState (state : Vec ι 𝕜) : Vec ι 𝕜 :=
  fun i =>
    min (max (state i) (-model.stateClamp)) model.stateClamp

/- Zero in the slots that the scaler has dropped. -/
def maskState (state : Vec ι 𝕜) : Vec ι 𝕜 :=
  match model.featureMask with
  | none => state
  | some kept => fun i => state i * maskValue (kept i)

/- Pin a log-variance to its floor in the dropped slots. -/
def maskLogvar (logvar : Vec ι 𝕜) : Vec ι 𝕜 :=
  match model.featureMask with
  | none => logvar
  | some kept =>
      fun i =>
        logvar i * maskValue (kept i) +
          (1 - maskValue (kept i)) *
            model.transition.logvarMin

/- Whether a feature was dropped. -/
def drops (i : ι) : Prop :=
  ∃ kept, model.featureMask = some kept ∧ kept i = false

variable {model}

theorem maskState_of_drops
    {i : ι}
    (hDrops : model.drops i)
    (state : Vec ι 𝕜) :
    model.maskState state i = 0 := by
  rcases hDrops with ⟨kept, hMask, hDropped⟩
  simp [maskState, hMask, hDropped, maskValue]

theorem maskState_of_not_drops
    {i : ι}
    (hKeeps : ¬ model.drops i)
    (state : Vec ι 𝕜) :
    model.maskState state i = state i := by
  unfold maskState
  cases hMask : model.featureMask with
  | none => rfl
  | some kept =>
      have hKept : kept i = true := by
        by_contra hNot
        exact
          hKeeps ⟨kept, hMask, Bool.eq_false_iff.mpr hNot⟩
      simp [hKept, maskValue]

/- Masking changes nothing where the dropped slots are zero. -/
theorem maskState_eq_iff (state : Vec ι 𝕜) :
    model.maskState state = state ↔
      ∀ i, model.drops i → state i = 0 := by
  constructor
  · intro hSame i hDrops
    rw [← hSame]
    exact maskState_of_drops hDrops state
  · intro hZero
    funext i
    by_cases hDrops : model.drops i
    · rw [maskState_of_drops hDrops, hZero i hDrops]
    · exact maskState_of_not_drops hDrops state

end WorldModel

------------------------------------------------------------
-- The rollout
------------------------------------------------------------

/-
  Where the next state of a rollout comes from: the model,
  the anchor, or the observed future of every row.
-/
inductive StateSource (ι 𝕜 : Type) (B : ℕ) where
  | model
  | persist
  | truth
      (steps : ℕ)
      (future : Fin B → Fin steps → Vec ι 𝕜)

/-
  The variables of a rollout for one row: the hidden state,
  the memory, the last two states, and the noise drawn.
-/
structure Sim (ι κ M 𝕜 : Type) where
  hidden : Vec κ 𝕜
  memory : M
  cur : Vec ι 𝕜
  prev : Vec ι 𝕜
  drawn : ℕ

/- What a rollout puts out at a step. -/
structure RolloutStep (ι κ 𝕜 : Type) where
  state : Vec ι 𝕜
  mu : Vec ι 𝕜
  logvar : Vec ι 𝕜
  hidden : Vec κ 𝕜

/- One sampled trajectory and the state it started from. -/
structure Trajectory (ι κ 𝕜 : Type) (K : ℕ) where
  anchor : Vec ι 𝕜
  steps : Fin K → RolloutStep ι κ 𝕜

/- The trajectories of every row of a batch. -/
abbrev RolloutOutput (ι κ 𝕜 : Type) (B S K : ℕ) :=
  Fin B → Fin S → Trajectory ι κ 𝕜 K

/-
  The tensors of standard normal numbers that the sampler
  gives, call after call, for every row of the tiled batch.
-/
abbrev Noise (ι 𝕜 : Type) (B S : ℕ) :=
  ℕ → Fin B → Fin S → Vec ι 𝕜

/- Why a rollout raises. -/
inductive RolloutError where
  | truthTooShort (steps needed : ℕ)
  | emptyTensor
  | unknownFeature (name : String)
deriving DecidableEq

/- Trajectories to a row: one at least. -/
def samples (nSamples : ℕ) : ℕ :=
  max nSamples 1

variable [ExpLog 𝕜]

namespace WorldModel

variable (model : WorldModel ι κ M 𝕜)

/- The variables before the first step. -/
def begin (x : Window ι 𝕜) : Sim ι κ M 𝕜 :=
  let encoded := model.encoder.forward x none
  { hidden := encoded.1
    memory := encoded.2
    cur := x.current
    prev := x.previous.getD x.current
    drawn := 0 }

/- A mean change with sampled noise, if there is to be any. -/
def sampled
    (stochastic : Bool)
    (noise : ℕ → Vec ι 𝕜)
    (drawn : ℕ)
    (nxt logvar : Vec ι 𝕜) : Vec ι 𝕜 × ℕ :=
  if stochastic then
    (fun i =>
      nxt i + noise drawn i * ExpLog.exp (1 / 2 * logvar i),
      drawn + 1)
  else (nxt, drawn)

/-
  The next state as its source gives it, the change that is
  reported, and the noise drawn.
-/
def nextState
    {B : ℕ}
    (source : StateSource ι 𝕜 B)
    (stochastic : Bool)
    (b : Fin B)
    (anchor : Vec ι 𝕜)
    (noise : ℕ → Vec ι 𝕜)
    (k : ℕ)
    (s : Sim ι κ M 𝕜)
    (mu logvar : Vec ι 𝕜) : Vec ι 𝕜 × Vec ι 𝕜 × ℕ :=
  match source with
  | .model =>
      let nxt :=
        sampled stochastic noise s.drawn (s.cur + mu) logvar
      (nxt.1, mu, nxt.2)
  | .persist => (anchor, 0, s.drawn)
  | .truth steps future =>
      (if hStep : k < steps then future b ⟨k, hStep⟩ else 0,
        mu, s.drawn)

/- Ingest a state that a step has put out. -/
def ingestStep
    (s : Sim ι κ M 𝕜)
    (state mu logvar : Vec ι 𝕜)
    (drawn : ℕ) : RolloutStep ι κ 𝕜 × Sim ι κ M 𝕜 :=
  let encoded := model.encoder.ingest state s.memory
  ({ state := state
     mu := mu
     logvar := logvar
     hidden := encoded.1 },
    { hidden := encoded.1
      memory := encoded.2
      cur := state
      prev := s.cur
      drawn := drawn })

/- One step of the rollout of a row. -/
def rolloutStep
    {B : ℕ}
    (source : StateSource ι 𝕜 B)
    (stochastic : Bool)
    (b : Fin B)
    (anchor : Vec ι 𝕜)
    (noise : ℕ → Vec ι 𝕜)
    (k : ℕ)
    (s : Sim ι κ M 𝕜) :
    RolloutStep ι κ 𝕜 × Sim ι κ M 𝕜 :=
  let predicted := model.transition.forward s.hidden s.cur s.prev
  let next :=
    nextState source stochastic b anchor noise k s
      predicted.1 predicted.2
  let nxt := model.clampState next.1
  -- Masked after the noise, so that none reaches the state.
  model.ingestStep s (model.maskState nxt)
    (model.maskState next.2.1) (model.maskLogvar predicted.2)
    next.2.2

/- The observed future has to be long enough. -/
def checkSource
    {B : ℕ}
    (K : ℕ) :
    StateSource ι 𝕜 B → Except RolloutError Unit
  | .truth steps _ =>
      if steps < K then .error (.truthTooShort steps K)
      else .ok ()
  | .model => .ok ()
  | .persist => .ok ()

/- Stacking no steps raises. -/
def checkSteps (K : ℕ) : Except RolloutError Unit :=
  if K = 0 then .error .emptyTensor else .ok ()

/- Simulate every row of a batch forward. -/
def rollout
    {B : ℕ}
    (x : Fin B → Window ι 𝕜)
    (K nSamples : ℕ)
    (stochastic : Bool)
    (source : StateSource ι 𝕜 B)
    (noise : Noise ι 𝕜 B (samples nSamples)) :
    Except RolloutError
      (RolloutOutput ι κ 𝕜 B (samples nSamples) K) := do
  checkSource K source
  checkSteps K
  return fun b sample => {
    anchor := (x b).current
    steps := fun k =>
      loopOutput
        (model.rolloutStep source stochastic b (x b).current
          (fun draw => noise draw b sample))
        (model.begin (x b)) k }

------------------------------------------------------------
-- Scores
------------------------------------------------------------

/- The change of a trajectory at a step, as it happened. -/
def realizedDelta
    {K : ℕ}
    (out : Trajectory ι κ 𝕜 K)
    (k : Fin K) : Vec ι 𝕜 :=
  (out.steps k).state -
    (if hFirst : k.val = 0 then out.anchor
      else
        (out.steps
          ⟨k.val - 1, by omega⟩).state)

/- Numbers in proportion to the exponentials. -/
def softmax
    {n : ℕ}
    (logits : Fin n → 𝕜) : Fin n → 𝕜 :=
  fun i =>
    ExpLog.exp (logits i) /
      (List.ofFn (fun j => ExpLog.exp (logits j))).sum

/- The stage probabilities of a state. -/
def scoreStage
    (state : Vec ι 𝕜) : Fin model.stageHead.stages → 𝕜 :=
  softmax (model.stageHead.net state)

/- The risk of a step of a trajectory. -/
def stepRisk
    {K : ℕ}
    (out : Trajectory ι κ 𝕜 K)
    (k : Fin K) : 𝕜 :=
  Evaluation.sigmoid
    (model.riskHead.logit
      { state := (out.steps k).state
        hidden := (out.steps k).hidden
        delta := realizedDelta out k
        logvar := (out.steps k).logvar })

/- The risk and the stages of every step of a rollout. -/
structure Scores (B S K stages : ℕ) (𝕜 : Type) where
  risk : Fin B → Fin S → Fin K → 𝕜
  stage : Fin B → Fin S → Fin K → Fin stages → 𝕜

/- The heads applied to a rollout. -/
def scoreTrajectory
    {B S K : ℕ}
    (out : RolloutOutput ι κ 𝕜 B S K) :
    Scores B S K model.stageHead.stages 𝕜 :=
  { risk := fun b sample => model.stepRisk (out b sample)
    stage := fun b sample k =>
      model.scoreStage ((out b sample).steps k).state }

/-
  What a head reads of the observed state that ends a window:
  the output after it, its change, and the log-variance that
  was predicted for it from what came before.
-/
def observedContext (x : Window ι 𝕜) : Parts ι κ 𝕜 :=
  let out :=
    (model.encoder.gru x.states model.encoder.blank).1
  let hPrev := (out.dropLast.getLast?).getD 0
  let prev1 := x.previous.getD 0
  let prev2 := x.beforePrevious.getD 0
  let logvar := (model.transition.forward hPrev prev1 prev2).2
  { state := x.current
    hidden := out.getLastD 0
    delta := x.current - prev1
    logvar := model.maskLogvar logvar }

end WorldModel

end Definitions

end Model

end Nidra
