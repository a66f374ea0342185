import Nidra.Persister.Worker

/-
  This file defines the ledger of a host's episodes: what the
  forecasts of one host mean when each is counted once, in
  order, without ids, without a database and without Redis.

  Key definitions include:
    * `accepted`
    * `Ledger`, `Ledger.record`, `ledgerAfter`
    * `Ledger.rows`

  Main declarations:
    * `Ledger.record_of_stale`, `Ledger.record_of_quiet`
    * `Ledger.record_of_opening`, `Ledger.record_of_open`
    * `ledgerAfter_seen`
-/

namespace Nidra

namespace Persister

set_option linter.unusedSectionVars false

variable {𝕜 : Type}

------------------------------------------------------------
-- Without ids
------------------------------------------------------------

/- An episode up to the choice of its id. -/
def OpenEpisode.unnamed
    (episode : OpenEpisode 𝕜) : OpenEpisode 𝕜 :=
  { episode with id := 0 }

/- A state up to the choice of the open episode's id. -/
def HostEpisodeState.unnamed
    (state : HostEpisodeState 𝕜) : HostEpisodeState 𝕜 :=
  { state with
    episode := state.episode.map OpenEpisode.unnamed }

/- A row up to the choice of its id. -/
def EpisodeRow.unnamed
    (row : EpisodeRow 𝕜) : EpisodeRow 𝕜 :=
  { row with id := 0 }

@[simp] theorem unnamed_episode
    (state : HostEpisodeState 𝕜) :
    state.unnamed.episode =
      state.episode.map OpenEpisode.unnamed := rfl

@[simp] theorem episodeRow_unnamed
    (tenant : Uuid)
    (hostId : String)
    (episode : OpenEpisode 𝕜)
    (endedAt : Option ℚ) :
    (episodeRow tenant hostId episode endedAt).unnamed =
      episodeRow tenant hostId episode.unnamed endedAt := rfl

@[simp] theorem isStale_unnamed
    (state : HostEpisodeState 𝕜)
    (originTs : ℚ) :
    isStale state.unnamed originTs =
      isStale state originTs := rfl

section Lifecycle

variable [LinearOrder 𝕜]

@[simp] theorem updatedBy_unnamed
    (episode : OpenEpisode 𝕜)
    (forecast : ForecastSummary 𝕜)
    (rules : EpisodeRules 𝕜) :
    updatedBy episode.unnamed forecast rules =
      (updatedBy episode forecast rules).unnamed := rfl

@[simp] theorem endOf_unnamed
    (episode : OpenEpisode 𝕜)
    (forecast : ForecastSummary 𝕜)
    (rules : EpisodeRules 𝕜) :
    endOf episode.unnamed forecast rules =
      endOf episode forecast rules := rfl

------------------------------------------------------------
-- The ledger
------------------------------------------------------------

variable [Zero 𝕜] [One 𝕜]
variable (cfg : PersisterConfig 𝕜)

/- The tenant and the peak of a message that is in order. -/
def accepted
    (payload : Forecast 𝕜) : Option (Uuid × 𝕜) :=
  match payload.check cfg.horizonK with
  | some _ => none
  | none => (vet payload).toOption

end Lifecycle

/- The state of a host and the rows of its past episodes. -/
structure Ledger (𝕜 : Type) where
  state : HostEpisodeState 𝕜 := {}
  closed : List (EpisodeRow 𝕜) := []

/- The row that a transition closes, if it closes one. -/
def closedRows
    (tenant : Uuid)
    (hostId : String)
    (transition : Transition 𝕜) : List (EpisodeRow 𝕜) :=
  match transition.episode with
  | none => []
  | some episode =>
      if transition.closed then
        [episodeRow tenant hostId episode transition.endedAt]
      else []

/- The row of the open episode, if one is open. -/
def openRows
    (tenant : Uuid)
    (hostId : String) :
    Option (OpenEpisode 𝕜) → List (EpisodeRow 𝕜)
  | none => []
  | some episode => [episodeRow tenant hostId episode none]

/- All rows of a ledger: the past ones and the open one. -/
def Ledger.rows
    (ledger : Ledger 𝕜)
    (tenant : Uuid)
    (hostId : String) : List (EpisodeRow 𝕜) :=
  ledger.closed ++
    openRows tenant hostId ledger.state.episode

section Recording

variable [Zero 𝕜] [One 𝕜] [LinearOrder 𝕜]
variable (cfg : PersisterConfig 𝕜)

/- Count one message; a refused or stale one counts as none. -/
def Ledger.record
    (ledger : Ledger 𝕜)
    (payload : Forecast 𝕜) : Ledger 𝕜 :=
  match accepted cfg payload with
  | none => ledger
  | some (tenant, peak) =>
      match advance ledger.state (summaryOf payload peak)
          cfg.rules 0 with
      | none => ledger
      | some transition =>
          { state := transition.state
            closed :=
              ledger.closed ++
                closedRows tenant payload.hostId
                  transition }

/- The ledger after the first messages of a stream. -/
def ledgerAfter
    (messages : List (Forecast 𝕜))
    (count : ℕ) : Ledger 𝕜 :=
  (messages.take count).foldl (Ledger.record cfg) {}

variable {cfg}

theorem ledgerAfter_succ
    {messages : List (Forecast 𝕜)}
    {count : ℕ}
    {payload : Forecast 𝕜}
    (hMessage : messages[count]? = some payload) :
    ledgerAfter cfg messages (count + 1) =
      (ledgerAfter cfg messages count).record cfg payload := by
  rw [ledgerAfter, List.take_add_one, hMessage,
    Option.toList_some, List.foldl_append]
  rfl

theorem Ledger.record_of_refused
    {payload : Forecast 𝕜}
    (hRefused : accepted cfg payload = none)
    (ledger : Ledger 𝕜) :
    ledger.record cfg payload = ledger := by
  simp [record, hRefused]

section Accepted

variable {payload : Forecast 𝕜}
variable {tenant : Uuid}
variable {peak : 𝕜}
variable (hAccepted :
  accepted cfg payload = some (tenant, peak))
include hAccepted

theorem Ledger.record_of_stale
    {ledger : Ledger 𝕜}
    (hStale : isStale ledger.state payload.originTs = true) :
    ledger.record cfg payload = ledger := by
  have hAdvance :
      advance ledger.state (summaryOf payload peak)
        cfg.rules 0 = none :=
    advance_of_stale hStale cfg.rules 0
  simp [record, hAccepted, hAdvance]

theorem Ledger.record_of_quiet
    {ledger : Ledger 𝕜}
    (hFresh : isStale ledger.state payload.originTs = false)
    (hNone : ledger.state.episode = none)
    (hBelow : peak < cfg.rules.riskThreshold) :
    ledger.record cfg payload =
      { ledger with
        state := { lastTs := some payload.originTs } } := by
  have hAdvance :
      advance ledger.state (summaryOf payload peak)
        cfg.rules 0 = _ :=
    advance_of_quiet hFresh hNone hBelow 0
  simp [record, hAccepted, hAdvance, closedRows]

theorem Ledger.record_of_opening
    {ledger : Ledger 𝕜}
    (hFresh : isStale ledger.state payload.originTs = false)
    (hNone : ledger.state.episode = none)
    (hAbove : cfg.rules.riskThreshold ≤ peak) :
    ledger.record cfg payload =
      { ledger with
        state :=
          { lastTs := some payload.originTs
            episode :=
              some
                (openedBy (summaryOf payload peak)
                  cfg.rules 0) } } := by
  have hAdvance :
      advance ledger.state (summaryOf payload peak)
        cfg.rules 0 = _ :=
    advance_of_opening hFresh hNone hAbove 0
  simp [record, hAccepted, hAdvance, closedRows]

theorem Ledger.record_of_open
    {ledger : Ledger 𝕜}
    {episode : OpenEpisode 𝕜}
    (hFresh : isStale ledger.state payload.originTs = false)
    (hOpen : ledger.state.episode = some episode) :
    let forecast := summaryOf payload peak
    let updated := updatedBy episode forecast cfg.rules
    let endedAt := endOf episode forecast cfg.rules
    ledger.record cfg payload =
      { state :=
          { lastTs := some payload.originTs
            episode :=
              if endedAt.isSome then none
              else some updated }
        closed :=
          ledger.closed ++
            if endedAt.isSome then
              [episodeRow tenant payload.hostId updated
                endedAt]
            else [] } := by
  have hAdvance :
      advance ledger.state (summaryOf payload peak)
        cfg.rules 0 = _ :=
    advance_of_open hFresh hOpen cfg.rules 0
  simp [record, hAccepted, hAdvance, closedRows]

/- A message that was counted is stale from then on. -/
theorem Ledger.isStale_record
    (ledger : Ledger 𝕜) :
    isStale (ledger.record cfg payload).state
      payload.originTs = true := by
  cases hFresh : isStale ledger.state payload.originTs with
  | true =>
      rw [record_of_stale hAccepted hFresh]
      exact hFresh
  | false =>
      cases hOpen : ledger.state.episode with
      | some episode =>
          rw [record_of_open hAccepted hFresh hOpen]
          simp [isStale]
      | none =>
          rcases lt_or_ge peak cfg.rules.riskThreshold with
            hBelow | hAbove
          · rw [record_of_quiet hAccepted hFresh hOpen hBelow]
            simp [isStale]
          · rw [record_of_opening hAccepted hFresh hOpen
              hAbove]
            simp [isStale]

end Accepted

/- What is stale stays stale. -/
theorem Ledger.isStale_record_of_isStale
    {ledger : Ledger 𝕜}
    {originTs : ℚ}
    (hStale : isStale ledger.state originTs = true)
    (payload : Forecast 𝕜) :
    isStale (ledger.record cfg payload).state originTs =
      true := by
  cases hAccepted : accepted cfg payload with
  | none =>
      rw [record_of_refused hAccepted]
      exact hStale
  | some entry =>
      rcases entry with ⟨tenant, peak⟩
      cases hFresh :
          isStale ledger.state payload.originTs with
      | true =>
          rw [record_of_stale hAccepted hFresh]
          exact hStale
      | false =>
          have hLater : originTs ≤ payload.originTs := by
            cases hLast : ledger.state.lastTs with
            | none => simp [isStale, hLast] at hStale
            | some lastTs =>
                simp only [isStale, hLast,
                  decide_eq_true_eq,
                  decide_eq_false_iff_not,
                  not_le] at hStale hFresh
                exact hStale.trans hFresh.le
          have hCounted :=
            isStale_record hAccepted ledger
          have hLast :
              (ledger.record cfg payload).state.lastTs =
                some payload.originTs := by
            cases hOpen : ledger.state.episode with
            | some episode =>
                rw [record_of_open hAccepted hFresh hOpen]
            | none =>
                rcases lt_or_ge peak
                    cfg.rules.riskThreshold with
                  hBelow | hAbove
                · rw [record_of_quiet hAccepted hFresh hOpen
                    hBelow]
                · rw [record_of_opening hAccepted hFresh
                    hOpen hAbove]
          simp [isStale, hLast, hLater]

/- Every accepted message that was counted is stale. -/
theorem ledgerAfter_seen
    {messages : List (Forecast 𝕜)}
    {message count : ℕ}
    (hBefore : message < count)
    {payload : Forecast 𝕜}
    (hMessage : messages[message]? = some payload)
    (hAccepted : (accepted cfg payload).isSome) :
    isStale (ledgerAfter cfg messages count).state
      payload.originTs = true := by
  induction count with
  | zero => omega
  | succ count ih =>
      rcases Option.isSome_iff_exists.mp hAccepted with
        ⟨⟨tenant, peak⟩, hEntry⟩
      rcases Nat.lt_succ_iff_lt_or_eq.mp hBefore with
        hEarlier | rfl
      · have hSeen := ih hEarlier
        cases hNext : messages[count]? with
        | none =>
            have hEnd : messages.length ≤ count :=
              List.getElem?_eq_none_iff.mp hNext
            rw [ledgerAfter, List.take_of_length_le hEnd]
              at hSeen
            rw [ledgerAfter,
              List.take_of_length_le (by omega)]
            exact hSeen
        | some next =>
            rw [ledgerAfter_succ hNext]
            exact Ledger.isStale_record_of_isStale hSeen next
      · rw [ledgerAfter_succ hMessage]
        exact Ledger.isStale_record hEntry _

end Recording

end Persister

end Nidra
