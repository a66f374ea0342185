import Nidra.Common.Bus
import Nidra.Inference.Redelivery

/-
  This file defines the replicas of the inference worker that
  share the stream of state vectors: each handles its message
  effect by effect, so that the duplicate test of one may
  come between the test and the push of another.

  Key definitions include:
    * `Stage`, `Stage.effect`
    * `Stage.program`, `Stage.Leaves`
    * `Replicas`, `Replicas.step`, `Replicas.runMoves`
    * `Replicas.handed`

  Main declarations:
    * `Stage.resume_program`
-/

namespace Nidra

namespace Inference

open Bus

set_option linter.unusedSectionVars false

variable {𝕜 : Type}

------------------------------------------------------------
-- Stages
------------------------------------------------------------

/-
  How far the handler of a vector is: nothing was done; the
  vector was found to be no duplicate; it was pushed, and the
  buffer that was read back is full; or its forecast is made.
-/
inductive Stage (𝕜 : Type) where
  | received (vector : StateVector 𝕜)
  | tested (vector : StateVector 𝕜)
  | buffered
      (vector : StateVector 𝕜)
      (rows : List (StateVector 𝕜))
  | predicted
      (vector : StateVector 𝕜)
      (forecast : Forecast 𝕜)

/- The array that is handed to the predictor next. -/
def Stage.handed :
    Stage 𝕜 → Option (List (StateVector 𝕜))
  | .received _ => none
  | .tested _ => none
  | .buffered _ rows => some rows
  | .predicted _ _ => none

section Handler

variable [Zero 𝕜] [One 𝕜] [LinearOrder 𝕜]
variable (cfg : InferenceConfig)
variable (predictor : Predictor 𝕜)

/- How a handler goes on after its push. -/
def Stage.afterPush
    (vector : StateVector 𝕜)
    (rows : List (StateVector 𝕜)) : Progress (Stage 𝕜) :=
  if rows.length < cfg.contextL then .returned
  else .going (.buffered vector rows)

/- How a handler goes on after the predictor was called. -/
def Stage.afterForecast
    (vector : StateVector 𝕜) :
    Except (SchemaError 𝕜) (Forecast 𝕜) → Progress (Stage 𝕜)
  | .error _ => .raised
  | .ok forecast => .going (.predicted vector forecast)

/- The next effect of a handler. -/
def Stage.effect :
    Stage 𝕜 → World 𝕜 → Progress (Stage 𝕜) × World 𝕜
  | .received vector, w =>
      (if isTail (w.buffer vector) vector then .returned
        else .going (.tested vector), w)
  | .tested vector, w =>
      (Stage.afterPush cfg vector (w.pushed cfg vector),
        w.afterPush cfg vector)
  | .buffered vector rows, w =>
      (Stage.afterForecast vector
        (forecastOf cfg predictor vector rows), w)
  | .predicted vector forecast, w =>
      (.returned,
        { w with log := w.log ++ [.published vector forecast] })

/- The handlers of the vectors. -/
def inferenceService :
    Service (World 𝕜) (StateVector 𝕜) (Stage 𝕜) :=
  { start := .received
    effect := Stage.effect cfg predictor }

------------------------------------------------------------
-- Stages and the program of the handler
------------------------------------------------------------

/- What is left of the handler at a stage. -/
def Stage.program :
    Stage 𝕜 →
      Program (World 𝕜)
        (Except (SchemaError 𝕜) (Option (Forecast 𝕜)))
  | .received vector => process cfg predictor vector
  | .tested vector => do
      let buffered ← push cfg.contextL vector
      if buffered.length < cfg.contextL then return .ok none
      else forecastAndPublish cfg predictor vector buffered
  | .buffered vector rows =>
      forecastAndPublish cfg predictor vector rows
  | .predicted vector forecast => do
      publish vector forecast
      return .ok (some forecast)

/- A program is what a handler leaves after an effect. -/
def Stage.Leaves :
    Progress (Stage 𝕜) →
      Program (World 𝕜)
          (Except (SchemaError 𝕜) (Option (Forecast 𝕜))) →
        Prop
  | .going stage, rest => rest = stage.program cfg predictor
  | .returned, rest => ∃ answer, rest = .done (.ok answer)
  | .raised, rest => ∃ error, rest = .done (.error error)

/-
  The stages are those of the handler: the first is the whole
  of it, and an effect at a stage is the next effect of what
  is left.
-/
theorem Stage.resume_program
    (stage : Stage 𝕜)
    (w : World 𝕜) :
    ((stage.program cfg predictor).resume w).2 =
        (stage.effect cfg predictor w).2 ∧
      Stage.Leaves cfg predictor
        (stage.effect cfg predictor w).1
        ((stage.program cfg predictor).resume w).1 := by
  cases stage with
  | received vector =>
      refine ⟨rfl, ?_⟩
      simp only [Stage.program, Stage.effect, process,
        isDuplicate, Program.resume_read_bind]
      cases isTail (w.buffer vector) vector with
      | true => exact ⟨none, rfl⟩
      | false => rfl
  | tested vector =>
      refine ⟨rfl, ?_⟩
      by_cases hShort :
          (w.pushed cfg vector).length < cfg.contextL
      · have hAfter :
            Stage.afterPush cfg vector (w.pushed cfg vector) =
              .returned :=
          if_pos hShort
        have hRest :
            (((Stage.tested vector).program cfg
              predictor).resume w).1 = .done (.ok none) :=
          if_pos hShort
        rw [hRest, Stage.effect, hAfter]
        exact ⟨none, rfl⟩
      · have hAfter :
            Stage.afterPush cfg vector (w.pushed cfg vector) =
              .going
                (.buffered vector (w.pushed cfg vector)) :=
          if_neg hShort
        have hRest :
            (((Stage.tested vector).program cfg
              predictor).resume w).1 =
              forecastAndPublish cfg predictor vector
                (w.pushed cfg vector) :=
          if_neg hShort
        rw [hRest, Stage.effect, hAfter]
        rfl
  | buffered vector rows =>
      refine ⟨rfl, ?_⟩
      simp only [Stage.program, Stage.effect,
        forecastAndPublish, Program.resume_read_bind]
      cases forecastOf cfg predictor vector rows with
      | error error => exact ⟨error, rfl⟩
      | ok forecast => rfl
  | predicted vector forecast =>
      exact ⟨rfl, some forecast, rfl⟩

------------------------------------------------------------
-- Runs
------------------------------------------------------------

/- The replicas, the stream and Redis. -/
abbrev Replicas (𝕜 : Type) :=
  Group (World 𝕜) (StateVector 𝕜) (Stage 𝕜)

variable (bus : BusConfig)

def Replicas.start (now : ℚ) : Replicas 𝕜 :=
  Group.start now (World.start (now / 1000))

/- The clock of Redis, in seconds, is that of the bus. -/
def Replicas.clocked (g : Replicas 𝕜) : Replicas 𝕜 :=
  { g with shared := g.shared.wait (g.now / 1000) }

def Replicas.step
    (g : Replicas 𝕜)
    (move : Move (StateVector 𝕜)) : Replicas 𝕜 :=
  Replicas.clocked
    (Group.step bus (inferenceService cfg predictor) g move)

def Replicas.runMoves
    (g : Replicas 𝕜)
    (moves : List (Move (StateVector 𝕜))) : Replicas 𝕜 :=
  moves.foldl (Replicas.step cfg predictor bus) g

end Handler

/- What a replica hands to the predictor next, if it does. -/
def Replicas.handed
    (g : Replicas 𝕜)
    (name : String) : Option (List (StateVector 𝕜)) :=
  match (g.consumers name).task with
  | some (_, .running stage) => stage.handed
  | some (_, .returned) => none
  | none => none

end Inference

end Nidra
