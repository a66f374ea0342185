import Mathlib
import Nidra.Lib.Numerals

/-
  This file defines the episode lifecycle of one host: how a
  forecast opens, extends or closes an episode, and how the
  state is kept in the fields of a Redis hash.

  Key definitions include:
    * `OpenEpisode`, `HostEpisodeState`, `Transition`
    * `EpisodeRules`, `ForecastSummary`
    * `withStage`, `isStale`, `advance`, `endOf`
    * `EpisodeHash`, `EpisodeHash.read`, `EpisodeHash.write`

  Main declarations:
    * `advance_of_stale`, `advance_of_quiet`
    * `advance_of_opening`, `advance_of_open`
    * `EpisodeHash.read_write`
-/

namespace Nidra

namespace Persister

------------------------------------------------------------
-- State
------------------------------------------------------------

/- The running aggregate of an episode that is open. -/
structure OpenEpisode (𝕜 : Type) where
  id : ℕ
  startedAt : ℚ
  peakRisk : 𝕜
  stages : List String
  firstAlertAt : Option ℚ
  above : ℤ
  below : ℤ

/- Everything that is remembered about one host. -/
structure HostEpisodeState (𝕜 : Type) where
  lastTs : Option ℚ := none
  episode : Option (OpenEpisode 𝕜) := none

/- What one forecast did to a host's episode state. -/
structure Transition (𝕜 : Type) where
  state : HostEpisodeState 𝕜
  episode : Option (OpenEpisode 𝕜) := none
  opened : Bool := false
  closed : Bool := false
  endedAt : Option ℚ := none

/- The config knobs that the lifecycle reads. -/
structure EpisodeRules (𝕜 : Type) where
  riskThreshold : 𝕜
  closeAfter : ℤ
  leadTimeM : ℤ

/- The values of a forecast the lifecycle depends on. -/
structure ForecastSummary (𝕜 : Type) where
  originTs : ℚ
  maxPCompromise : 𝕜
  observedStage : String

variable {𝕜 : Type}

------------------------------------------------------------
-- The lifecycle
------------------------------------------------------------

/- Append a stage the first time it appears. -/
def withStage
    (stages : List String)
    (stage : String) : List String :=
  if stage = "" ∨ stage ∈ stages then stages
  else stages ++ [stage]

/- Whether a forecast was processed, or comes too late. -/
def isStale
    (state : HostEpisodeState 𝕜)
    (originTs : ℚ) : Bool :=
  match state.lastTs with
  | none => false
  | some lastTs => decide (originTs ≤ lastTs)

variable [LinearOrder 𝕜]

/- The episode that a forecast above the threshold opens. -/
def openedBy
    (forecast : ForecastSummary 𝕜)
    (rules : EpisodeRules 𝕜)
    (freshId : ℕ) : OpenEpisode 𝕜 :=
  { id := freshId
    startedAt := forecast.originTs
    peakRisk := forecast.maxPCompromise
    stages := withStage [] forecast.observedStage
    -- One window over the line is a spike, not an alert.
    firstAlertAt :=
      if rules.leadTimeM ≤ 1 then some forecast.originTs
      else none
    above := 1
    below := 0 }

/- The open episode after one more forecast. -/
def updatedBy
    (episode : OpenEpisode 𝕜)
    (forecast : ForecastSummary 𝕜)
    (rules : EpisodeRules 𝕜) : OpenEpisode 𝕜 :=
  let above := rules.riskThreshold ≤ forecast.maxPCompromise
  let aboveRun := if above then episode.above + 1 else 0
  { episode with
    peakRisk := max episode.peakRisk forecast.maxPCompromise
    stages := withStage episode.stages forecast.observedStage
    above := aboveRun
    below := if above then 0 else episode.below + 1
    firstAlertAt :=
      match episode.firstAlertAt with
      | some alertAt => some alertAt
      | none =>
          if rules.leadTimeM ≤ aboveRun then
            some forecast.originTs
          else none }

/-
  Fold one forecast into a host's episode state. The answer
  is `none` when the forecast was processed before or comes
  out of order.
-/
def advance
    (state : HostEpisodeState 𝕜)
    (forecast : ForecastSummary 𝕜)
    (rules : EpisodeRules 𝕜)
    (freshId : ℕ) : Option (Transition 𝕜) :=
  if isStale state forecast.originTs then none
  else
    let seen : HostEpisodeState 𝕜 :=
      { state with lastTs := some forecast.originTs }
    match state.episode with
    | none =>
        if forecast.maxPCompromise < rules.riskThreshold then
          some { state := seen }
        else
          let opened := openedBy forecast rules freshId
          some
            { state := { seen with episode := some opened }
              episode := some opened
              opened := true }
    | some episode =>
        let updated := updatedBy episode forecast rules
        if forecast.maxPCompromise < rules.riskThreshold ∧
            rules.closeAfter ≤ updated.below then
          some
            { state := { seen with episode := none }
              episode := some updated
              closed := true
              endedAt := some forecast.originTs }
        else
          some
            { state := { seen with episode := some updated }
              episode := some updated }

/-
  When the forecast ends its episode, which is when it comes
  after enough forecasts below the threshold.
-/
def endOf
    (episode : OpenEpisode 𝕜)
    (forecast : ForecastSummary 𝕜)
    (rules : EpisodeRules 𝕜) : Option ℚ :=
  if forecast.maxPCompromise < rules.riskThreshold ∧
      rules.closeAfter ≤
        (updatedBy episode forecast rules).below then
    some forecast.originTs
  else none

theorem advance_of_stale
    {state : HostEpisodeState 𝕜}
    {forecast : ForecastSummary 𝕜}
    (hStale : isStale state forecast.originTs = true)
    (rules : EpisodeRules 𝕜)
    (freshId : ℕ) :
    advance state forecast rules freshId = none := by
  simp [advance, hStale]

/- Below the threshold no episode opens. -/
theorem advance_of_quiet
    {state : HostEpisodeState 𝕜}
    {forecast : ForecastSummary 𝕜}
    {rules : EpisodeRules 𝕜}
    (hFresh : isStale state forecast.originTs = false)
    (hNone : state.episode = none)
    (hBelow : forecast.maxPCompromise < rules.riskThreshold)
    (freshId : ℕ) :
    advance state forecast rules freshId =
      some
        { state := { lastTs := some forecast.originTs } } := by
  simp [advance, hFresh, hNone, hBelow]

/- At the threshold an episode opens. -/
theorem advance_of_opening
    {state : HostEpisodeState 𝕜}
    {forecast : ForecastSummary 𝕜}
    {rules : EpisodeRules 𝕜}
    (hFresh : isStale state forecast.originTs = false)
    (hNone : state.episode = none)
    (hAbove : rules.riskThreshold ≤ forecast.maxPCompromise)
    (freshId : ℕ) :
    advance state forecast rules freshId =
      some
        { state :=
            { lastTs := some forecast.originTs
              episode :=
                some (openedBy forecast rules freshId) }
          episode := some (openedBy forecast rules freshId)
          opened := true } := by
  simp [advance, hFresh, hNone, not_lt.mpr hAbove]

/- An open episode is extended, and closed if it ends. -/
theorem advance_of_open
    {state : HostEpisodeState 𝕜}
    {forecast : ForecastSummary 𝕜}
    {episode : OpenEpisode 𝕜}
    (hFresh : isStale state forecast.originTs = false)
    (hOpen : state.episode = some episode)
    (rules : EpisodeRules 𝕜)
    (freshId : ℕ) :
    advance state forecast rules freshId =
      some
        { state :=
            { lastTs := some forecast.originTs
              episode :=
                if (endOf episode forecast rules).isSome then
                  none
                else
                  some (updatedBy episode forecast rules) }
          episode :=
            some (updatedBy episode forecast rules)
          closed := (endOf episode forecast rules).isSome
          endedAt := endOf episode forecast rules } := by
  by_cases hEnds :
      forecast.maxPCompromise < rules.riskThreshold ∧
        rules.closeAfter ≤
          (updatedBy episode forecast rules).below
  · simp [advance, hFresh, hOpen, endOf, if_pos hEnds]
  · simp [advance, hFresh, hOpen, endOf, if_neg hEnds]

------------------------------------------------------------
-- The hash
------------------------------------------------------------

omit [LinearOrder 𝕜]

/- The fields of a host's hash, each there or not. -/
structure EpisodeHash (𝕜 : Type) where
  lastTs : Option ℚ := none
  id : Option ℕ := none
  startedAt : Option ℚ := none
  peakRisk : Option 𝕜 := none
  stages : Option (List String) := none
  firstAlertAt : Option ℚ := none
  above : Option ℤ := none
  below : Option ℤ := none

namespace EpisodeHash

/- A key without fields does not exist. -/
def isEmpty (hash : EpisodeHash 𝕜) : Bool :=
  hash.lastTs.isNone && hash.id.isNone &&
    hash.startedAt.isNone && hash.peakRisk.isNone &&
    hash.stages.isNone && hash.firstAlertAt.isNone &&
    hash.above.isNone && hash.below.isNone

/- Remove the fields of the open aggregate. -/
def hdelOpen (hash : EpisodeHash 𝕜) : EpisodeHash 𝕜 :=
  { lastTs := hash.lastTs }

/- Set the fields of a state that are there. -/
def hset
    (hash : EpisodeHash 𝕜)
    (state : HostEpisodeState 𝕜) : EpisodeHash 𝕜 :=
  let hash :=
    { hash with lastTs := state.lastTs.or hash.lastTs }
  match state.episode with
  | none => hash
  | some episode =>
      { hash with
        id := some episode.id
        startedAt := some episode.startedAt
        peakRisk := some episode.peakRisk
        stages := some episode.stages
        firstAlertAt :=
          episode.firstAlertAt.or hash.firstAlertAt
        above := some episode.above
        below := some episode.below }

/- Write a state over what earlier writes left. -/
def write
    (hash : EpisodeHash 𝕜)
    (state : HostEpisodeState 𝕜) : EpisodeHash 𝕜 :=
  match state.episode with
  | none => hash.hdelOpen.hset state
  | some episode =>
      match episode.firstAlertAt with
      | none =>
          { hash with firstAlertAt := none }.hset state
      | some _ => hash.hset state

/-
  Read a state back. The answer is `none` when a field of an
  open aggregate is missing.
-/
def read
    (hash : EpisodeHash 𝕜) : Option (HostEpisodeState 𝕜) :=
  match hash.id with
  | none => some { lastTs := hash.lastTs }
  | some id => do
      let startedAt ← hash.startedAt
      let peakRisk ← hash.peakRisk
      let stages ← hash.stages
      let above ← hash.above
      let below ← hash.below
      return {
        lastTs := hash.lastTs
        episode :=
          some
            { id := id
              startedAt := startedAt
              peakRisk := peakRisk
              stages := stages
              firstAlertAt := hash.firstAlertAt
              above := above
              below := below } }

/- What was written is read back, whatever was there. -/
theorem read_write
    (hash : EpisodeHash 𝕜)
    {state : HostEpisodeState 𝕜}
    {lastTs : ℚ}
    (hLast : state.lastTs = some lastTs) :
    (hash.write state).read = some state := by
  rcases state with ⟨last, episode⟩
  cases hLast
  cases episode with
  | none => rfl
  | some episode =>
      rcases episode with
        ⟨id, startedAt, peak, stages, alert, above, below⟩
      cases alert with
      | none => rfl
      | some alertAt => rfl

/- A hash that a state was written to has a field. -/
theorem isEmpty_write
    (hash : EpisodeHash 𝕜)
    {state : HostEpisodeState 𝕜}
    {lastTs : ℚ}
    (hLast : state.lastTs = some lastTs) :
    (hash.write state).isEmpty = false := by
  rcases state with ⟨last, episode⟩
  cases hLast
  cases episode with
  | none => rfl
  | some episode =>
      cases hAlert : episode.firstAlertAt with
      | none => simp [write, hset, isEmpty, hAlert]
      | some alertAt => simp [write, hset, isEmpty, hAlert]

end EpisodeHash

end Persister

end Nidra
