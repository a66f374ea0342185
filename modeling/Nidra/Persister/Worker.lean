import Nidra.Common.Dispatch
import Nidra.Common.Schemas
import Nidra.Lib.PyUuid
import Nidra.Lib.TtlStore
import Nidra.Persister.Episodes

/-
  This file defines the persister worker: it writes every
  forecast and what it does to its host's episode in one
  database transaction, then remembers the episode state in
  Redis, then acknowledges the message.

  Key definitions include:
    * `tenantUuid`, `assertCausal`, `maxPCompromise`
    * `ForecastRow`, `EpisodeRow`, `World`
    * `readState`, `commit`, `writeState`
    * `process`, `handle`, `handleMessage`
    * `Event`, `World.step`, `World.runEvents`, `crashFree`
-/

namespace Nidra

namespace Persister

variable {𝕜 : Type}

/- A paused replay keeps its episode for a day. -/
def episodeTtlS : ℚ := 24 * 3600

/- The settings of the persister service. -/
structure PersisterConfig (𝕜 : Type) where
  rules : EpisodeRules 𝕜
  horizonK : ℕ

/- Why a message is refused and stays pending. -/
inductive PersistError (𝕜 : Type) where
  | schema (error : SchemaError 𝕜)
  | notCausal (hostId : String) (k : ℤ) (ts originTs : ℚ)
  | nonUuidTenant (tenantId : String)
  | emptyTrajectory
  | unreadableState

------------------------------------------------------------
-- Tenants
------------------------------------------------------------

/- The tenant of a forecast, when it is a UUID. -/
def tenantUuid (tenantId : String) : Option Uuid :=
  Uuid.ofText tenantId

------------------------------------------------------------
-- What a forecast is asked
------------------------------------------------------------

/- Every horizon is later than the origin. -/
def assertCausal
    (forecast : Forecast 𝕜) : Except (PersistError 𝕜) Unit :=
  match forecast.horizons.find?
      (fun point => decide (point.ts ≤ forecast.originTs)) with
  | some point =>
      .error
        (.notCausal forecast.hostId point.k point.ts
          forecast.originTs)
  | none => .ok ()

/- The peak of the trajectory; an empty one has none. -/
def maxPCompromise
    [LinearOrder 𝕜]
    (forecast : Forecast 𝕜) : Except (PersistError 𝕜) 𝕜 :=
  match forecast.horizons with
  | [] => .error .emptyTrajectory
  | point :: rest =>
      .ok
        ((rest.map HorizonPoint.pCompromise).foldl max
          point.pCompromise)

------------------------------------------------------------
-- The state
------------------------------------------------------------

/- A row of the table of forecasts. -/
structure ForecastRow (𝕜 : Type) where
  tenantId : Uuid
  hostId : String
  originTs : ℚ
  observedRisk : 𝕜
  observedStage : String
  maxPCompromise : 𝕜
  leadTimeS : Option 𝕜
  payload : Forecast 𝕜
  modelVersion : String

/- A row of the table of episodes. -/
structure EpisodeRow (𝕜 : Type) where
  id : ℕ
  tenantId : Uuid
  hostId : String
  startedAt : ℚ
  endedAt : Option ℚ
  peakRisk : 𝕜
  stages : List String
  firstAlertAt : Option ℚ

/-
  The time, the hashes in Redis, the ids drawn so far, the
  tables, and the messages that are acknowledged.
-/
structure World (𝕜 : Type) where
  now : ℚ
  ep : TtlStore ℚ (String × String) (EpisodeHash 𝕜)
  drawn : ℕ
  forecasts : List (ForecastRow 𝕜)
  episodes : List (EpisodeRow 𝕜)
  acked : List ℕ

def World.start (now : ℚ) : World 𝕜 :=
  { now := now
    ep := .empty
    drawn := 0
    forecasts := []
    episodes := []
    acked := [] }

/- Let the time pass; the clock never goes back. -/
def World.wait
    (w : World 𝕜)
    (time : ℚ) : World 𝕜 :=
  { w with now := max w.now time }

def episodeKey (forecast : Forecast 𝕜) : String × String :=
  (forecast.tenantId, forecast.hostId)

------------------------------------------------------------
-- Redis
------------------------------------------------------------

/- The state of a host; an absent key is a new host. -/
def World.stateOf
    (w : World 𝕜)
    (key : String × String) :
    Option (HostEpisodeState 𝕜) :=
  match w.ep.get w.now key with
  | none => some {}
  | some hash => hash.read

def readState
    (forecast : Forecast 𝕜) :
    Program (World 𝕜) (Option (HostEpisodeState 𝕜)) :=
  .read (fun w => w.stateOf (episodeKey forecast))

/- Write a state and its deadline in one transaction. -/
def World.withState
    (w : World 𝕜)
    (key : String × String)
    (state : HostEpisodeState 𝕜) : World 𝕜 :=
  let hash := ((w.ep.get w.now key).getD {}).write state
  { w with
    ep :=
      if hash.isEmpty then w.ep.delete key
      else w.ep.renew w.now episodeTtlS key hash }

def writeState
    (forecast : Forecast 𝕜)
    (state : HostEpisodeState 𝕜) : Program (World 𝕜) Unit :=
  .write (fun w => w.withState (episodeKey forecast) state)

------------------------------------------------------------
-- The database
------------------------------------------------------------

/-
  Insert the row, or do nothing because it is already there.
  The answer is whether it is new.
-/
def insertForecast
    (rows : List (ForecastRow 𝕜))
    (forecast : Forecast 𝕜)
    (tenant : Uuid)
    (peak : 𝕜) : Bool × List (ForecastRow 𝕜) :=
  if rows.any (fun row =>
      row.tenantId == tenant &&
        row.hostId == forecast.hostId &&
        decide (row.originTs = forecast.originTs)) then
    (false, rows)
  else
    (true,
      rows ++
        [{ tenantId := tenant
           hostId := forecast.hostId
           originTs := forecast.originTs
           observedRisk := forecast.observedRisk
           observedStage := forecast.observedStage
           maxPCompromise := peak
           leadTimeS := forecast.leadTimeS
           payload := forecast
           modelVersion := forecast.modelVersion }])

/- The row of an episode. -/
def episodeRow
    (tenant : Uuid)
    (hostId : String)
    (episode : OpenEpisode 𝕜)
    (endedAt : Option ℚ) : EpisodeRow 𝕜 :=
  { id := episode.id
    tenantId := tenant
    hostId := hostId
    startedAt := episode.startedAt
    endedAt := endedAt
    peakRisk := episode.peakRisk
    stages := episode.stages
    firstAlertAt := episode.firstAlertAt }

/- Refresh a row with what its episode has become. -/
def EpisodeRow.refresh
    (row : EpisodeRow 𝕜)
    (tenant : Uuid)
    (episode : OpenEpisode 𝕜)
    (endedAt : Option ℚ) : EpisodeRow 𝕜 :=
  if row.id = episode.id ∧ row.tenantId = tenant then
    { row with
      endedAt := endedAt
      peakRisk := episode.peakRisk
      stages := episode.stages
      firstAlertAt := episode.firstAlertAt }
  else row

/- Open a new row, or refresh the open one. -/
def writeEpisode
    (rows : List (EpisodeRow 𝕜))
    (forecast : Forecast 𝕜)
    (tenant : Uuid)
    (transition : Transition 𝕜) : List (EpisodeRow 𝕜) :=
  match transition.episode with
  | none => rows
  | some episode =>
      if transition.opened then
        rows ++
          [episodeRow tenant forecast.hostId episode
            transition.endedAt]
      else
        rows.map (fun row =>
          row.refresh tenant episode transition.endedAt)

/- Both tables after the transaction of one forecast. -/
def World.withRows
    (w : World 𝕜)
    (forecast : Forecast 𝕜)
    (tenant : Uuid)
    (peak : 𝕜)
    (transition : Option (Transition 𝕜)) : World 𝕜 :=
  { w with
    forecasts :=
      (insertForecast w.forecasts forecast tenant peak).2
    episodes :=
      match transition with
      | none => w.episodes
      | some transition =>
          writeEpisode w.episodes forecast tenant
            transition }

def commit
    (forecast : Forecast 𝕜)
    (tenant : Uuid)
    (peak : 𝕜)
    (transition : Option (Transition 𝕜)) :
    Program (World 𝕜) Bool :=
  .step (fun w =>
    ((insertForecast w.forecasts forecast tenant peak).1,
      w.withRows forecast tenant peak transition))

------------------------------------------------------------
-- The handler
------------------------------------------------------------

/- An id that was never drawn before. -/
def uuid4 : Program (World 𝕜) ℕ :=
  .step (fun w => (w.drawn, { w with drawn := w.drawn + 1 }))

def ack (message : ℕ) : Program (World 𝕜) Unit :=
  .write (fun w => { w with acked := w.acked ++ [message] })

/- What one forecast did. -/
structure PersistOutcome (𝕜 : Type) where
  inserted : Bool
  transition : Option (Transition 𝕜)

/- Remember where a transition led to, if there is one. -/
def saveState
    (forecast : Forecast 𝕜) :
    Option (Transition 𝕜) → Program (World 𝕜) Unit
  | none => return ()
  | some transition => writeState forecast transition.state

/- The values of a forecast that the lifecycle reads. -/
def summaryOf
    (forecast : Forecast 𝕜)
    (peak : 𝕜) : ForecastSummary 𝕜 :=
  { originTs := forecast.originTs
    maxPCompromise := peak
    observedStage := forecast.observedStage }

@[simp] theorem summaryOf_originTs
    (forecast : Forecast 𝕜)
    (peak : 𝕜) :
    (summaryOf forecast peak).originTs =
      forecast.originTs := rfl

section Handler

variable [LinearOrder 𝕜]

/- The tenant and the peak of a forecast in order. -/
def vet
    (forecast : Forecast 𝕜) :
    Except (PersistError 𝕜) (Uuid × 𝕜) := do
  assertCausal forecast
  let tenant ←
    match tenantUuid forecast.tenantId with
    | none => .error (.nonUuidTenant forecast.tenantId)
    | some tenant => .ok tenant
  let peak ← maxPCompromise forecast
  return (tenant, peak)

variable (cfg : PersisterConfig 𝕜)

/- Advance a host's episode from the state that was read. -/
def advanceHost
    (forecast : Forecast 𝕜)
    (tenant : Uuid)
    (peak : 𝕜)
    (state : HostEpisodeState 𝕜) :
    Program (World 𝕜)
      (Except (PersistError 𝕜) (PersistOutcome 𝕜)) := do
  -- An id that opens no episode is dropped unseen.
  let freshId ← uuid4
  let transition :=
    advance state (summaryOf forecast peak) cfg.rules freshId
  let inserted ← commit forecast tenant peak transition
  -- Only after the commit.
  saveState forecast transition
  return .ok
    { inserted := inserted
      transition := transition }

/- Advance a host's episode, unless its state is broken. -/
def advanceRead
    (forecast : Forecast 𝕜)
    (tenant : Uuid)
    (peak : 𝕜) :
    Option (HostEpisodeState 𝕜) →
    Program (World 𝕜)
      (Except (PersistError 𝕜) (PersistOutcome 𝕜))
  | none => return .error .unreadableState
  | some state => advanceHost cfg forecast tenant peak state

/- Write one forecast and advance its host's episode. -/
def process
    (forecast : Forecast 𝕜) :
    Program (World 𝕜)
      (Except (PersistError 𝕜) (PersistOutcome 𝕜)) :=
  match vet forecast with
  | .error error => return .error error
  | .ok (tenant, peak) => do
      let state ← readState forecast
      advanceRead cfg forecast tenant peak state

variable [Zero 𝕜] [One 𝕜]

/- Validate one message of the bus and process it. -/
def handle
    (payload : Forecast 𝕜) :
    Program (World 𝕜)
      (Except (PersistError 𝕜) (PersistOutcome 𝕜)) :=
  match payload.check cfg.horizonK with
  | some error => return .error (.schema error)
  | none => process cfg payload

/- Handle one message and acknowledge it. -/
def handleMessage
    (message : ℕ)
    (payload : Forecast 𝕜) : Program (World 𝕜) Unit :=
  dispatch (handle cfg payload) (ack message)

------------------------------------------------------------
-- Runs
------------------------------------------------------------

/-
  What can happen: time passes, or the worker handles the
  message at a position of the stream and gets as far as
  `budget` of its effects before it crashes, if it does.
-/
inductive Event where
  | wait (time : ℚ)
  | attempt (message budget : ℕ)

variable (messages : List (Forecast 𝕜))

def World.step
    (w : World 𝕜) : Event → World 𝕜
  | .wait time => w.wait time
  | .attempt message budget =>
      match messages[message]? with
      | none => w
      | some payload =>
          ((handleMessage cfg message payload).attempt
            budget w).2

def World.runEvents
    (w : World 𝕜)
    (events : List Event) : World 𝕜 :=
  events.foldl (World.step cfg messages) w

/- Every message is handled once, in order, to the end. -/
def crashFree (now : ℚ) : World 𝕜 :=
  messages.zipIdx.foldl
    (fun w entry =>
      (handleMessage cfg entry.2 entry.1).exec w)
    (World.start now)

end Handler

end Persister

end Nidra
