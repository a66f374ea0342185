import Nidra.Common.Dispatch
import Nidra.Common.Events
import Nidra.Common.Schemas
import Nidra.Lib.TtlStore

/-
  This file defines the inference worker: it buffers the last
  windows of every host in Redis, drops a window that is the
  tail of its buffer, and publishes a forecast when the
  buffer is full.

  Key definitions include:
    * `InferenceConfig`, `Predictor`
    * `Entry`, `World`
    * `isDuplicate`, `push`, `process`, `handleMessage`
    * `Event`, `World.step`, `World.runEvents`
-/

namespace Nidra

namespace Inference

variable {𝕜 : Type}

/- Long enough that a pause does not drop a context. -/
def seqTtlS : ℚ := 3600

/- The settings of the inference service. -/
structure InferenceConfig where
  contextL : ℕ
  contextL_pos : 0 < contextL
  horizonK : ℕ

/-
  A loaded predictor: its answer for the states of a context,
  a host and an origin.
-/
abbrev Predictor (𝕜 : Type) :=
  List (FeatureVector 𝕜) → String → ℤ → PredictorResult 𝕜

------------------------------------------------------------
-- The state
------------------------------------------------------------

/- What the workers did, in the order they did it. -/
inductive Entry (𝕜 : Type) where
  | pushed (vector : StateVector 𝕜) (buffered : ℕ)
  | published
      (vector : StateVector 𝕜)
      (forecast : Forecast 𝕜)
  | acked (vector : StateVector 𝕜)

/- The time, the buffers in Redis, and what was done. -/
structure World (𝕜 : Type) where
  now : ℚ
  seq : TtlStore ℚ (String × String) (List (StateVector 𝕜))
  log : List (Entry 𝕜)

def World.start (now : ℚ) : World 𝕜 :=
  { now := now
    seq := .empty
    log := [] }

/- Let the time pass; the clock never goes back. -/
def World.wait
    (w : World 𝕜)
    (time : ℚ) : World 𝕜 :=
  { w with now := max w.now time }

def seqKey (vector : StateVector 𝕜) : String × String :=
  (vector.tenantId, vector.hostId)

/- The buffer that a vector belongs to. -/
def World.buffer
    (w : World 𝕜)
    (vector : StateVector 𝕜) : List (StateVector 𝕜) :=
  (w.seq.get w.now (seqKey vector)).getD []

------------------------------------------------------------
-- The handler
------------------------------------------------------------

/- Whether this window is already the tail of a buffer. -/
def isTail
    (buffer : List (StateVector 𝕜))
    (vector : StateVector 𝕜) : Bool :=
  match buffer.getLast? with
  | none => false
  | some tail => decide (tail.windowTs = vector.windowTs)

def isDuplicate
    (vector : StateVector 𝕜) : Program (World 𝕜) Bool :=
  .read (fun w => isTail (w.buffer vector) vector)

/- Append to a buffer and keep its last windows. -/
def appendTrimmed
    (contextL : ℕ)
    (buffer : List (StateVector 𝕜))
    (vector : StateVector 𝕜) : List (StateVector 𝕜) :=
  let longer := buffer ++ [vector]
  longer.drop (longer.length - contextL)

/-
  Append, trim, refresh the deadline and read the buffer
  back, in one transaction.
-/
def push
    (contextL : ℕ)
    (vector : StateVector 𝕜) :
    Program (World 𝕜) (List (StateVector 𝕜)) :=
  .step (fun w =>
    let buffered :=
      appendTrimmed contextL (w.buffer vector) vector
    (buffered,
      { w with
        seq :=
          w.seq.renew w.now seqTtlS (seqKey vector) buffered
        log := w.log ++ [.pushed vector buffered.length] }))

/- Put a forecast on the bus. -/
def publish
    (vector : StateVector 𝕜)
    (forecast : Forecast 𝕜) : Program (World 𝕜) Unit :=
  .write (fun w =>
    { w with log := w.log ++ [.published vector forecast] })

def ack
    (vector : StateVector 𝕜) : Program (World 𝕜) Unit :=
  .write (fun w => { w with log := w.log ++ [.acked vector] })

section Handler

variable [Zero 𝕜] [One 𝕜] [LinearOrder 𝕜]
variable (cfg : InferenceConfig)
variable (predictor : Predictor 𝕜)

/- The forecast of a vector in a full buffer. -/
def forecastOf
    (vector : StateVector 𝕜)
    (buffered : List (StateVector 𝕜)) :
    Except (SchemaError 𝕜) (Forecast 𝕜) :=
  Forecast.build cfg.horizonK vector.tenantId
    (predictor (buffered.map StateVector.features)
      vector.hostId vector.windowTs)

/- Forecast from a full buffer and publish. -/
def forecastAndPublish
    (vector : StateVector 𝕜)
    (buffered : List (StateVector 𝕜)) :
    Program (World 𝕜)
      (Except (SchemaError 𝕜) (Option (Forecast 𝕜))) := do
  -- The predictor reads no state, but it may raise.
  let result ←
    .read (fun _ => forecastOf cfg predictor vector buffered)
  match result with
  | .error error => return .error error
  | .ok forecast =>
      publish vector forecast
      return .ok (some forecast)

/-
  Buffer one window and forecast if the context is now full.
  A duplicate of the tail is dropped before it is pushed.
-/
def process
    (vector : StateVector 𝕜) :
    Program (World 𝕜)
      (Except (SchemaError 𝕜) (Option (Forecast 𝕜))) := do
  let duplicate ← isDuplicate vector
  if duplicate then return .ok none
  else
    let buffered ← push cfg.contextL vector
    if buffered.length < cfg.contextL then return .ok none
    else forecastAndPublish cfg predictor vector buffered

/- Handle one message and acknowledge it. -/
def handleMessage
    (vector : StateVector 𝕜) : Program (World 𝕜) Unit :=
  dispatch (process cfg predictor vector) (ack vector)

------------------------------------------------------------
-- Runs
------------------------------------------------------------

/-
  What can happen: time passes, or a worker handles a message
  and gets as far as `budget` of its effects before it fails,
  if it fails.
-/
inductive Event (𝕜 : Type) where
  | wait (time : ℚ)
  | attempt (vector : StateVector 𝕜) (budget : ℕ)

def World.step
    (w : World 𝕜) : Event 𝕜 → World 𝕜
  | .wait time => w.wait time
  | .attempt vector budget =>
      ((handleMessage cfg predictor vector).attempt
        budget w).2

def World.runEvents
    (w : World 𝕜)
    (events : List (Event 𝕜)) : World 𝕜 :=
  events.foldl (World.step cfg predictor) w

end Handler

end Inference

end Nidra
