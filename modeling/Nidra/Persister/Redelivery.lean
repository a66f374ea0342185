import Nidra.Lib.Folds
import Nidra.Persister.Ledger

/-
  This file states when the episode rows of one host are
  those of a run without crashes, and proves that they are in
  every run in which no attempt that opens an episode crashes
  between its commit and the write of its state, the stream
  is handled in order, and no open episode expires.

  Key definitions include:
    * `World.lastState`, `World.rememberedId`
    * `EpisodesAgree`
    * `KeptAttempt`, `Kept`
    * `Outcome`, `Shown`, `Follows`

  Main declarations:
    * `attempt_outcome`
    * `step_follows`
    * `episodesAgree_of_allKept`
-/

namespace Nidra

namespace Persister

set_option linter.unusedSectionVars false

variable {𝕜 : Type}

------------------------------------------------------------
-- What is claimed
------------------------------------------------------------

/- The state of a host as it was last written. -/
def World.lastState
    (w : World 𝕜)
    (key : String × String) :
    Option (HostEpisodeState 𝕜) :=
  match w.ep.written key with
  | none => some {}
  | some hash => hash.read

/- The id of the episode that is remembered as open. -/
def World.rememberedId
    (w : World 𝕜)
    (key : String × String) : Option ℕ :=
  ((w.lastState key).bind HostEpisodeState.episode).map
    OpenEpisode.id

section Claim

variable [Zero 𝕜] [One 𝕜] [LinearOrder 𝕜]
variable (cfg : PersisterConfig 𝕜)
variable (messages : List (Forecast 𝕜))

/-
  At most one row is open, an open row is the one that is
  remembered, the remembered one has a row, and once every
  accepted message is acknowledged the rows are, up to their
  ids, those of the run without crashes.
-/
structure EpisodesAgree
    (key : String × String)
    (now : ℚ)
    (w : World 𝕜) : Prop where
  oneOpen :
    (w.episodes.filter
      (fun row => row.endedAt.isNone)).length ≤ 1
  openRemembered :
    ∀ row ∈ w.episodes, row.endedAt = none →
      w.rememberedId key = some row.id
  rememberedStored :
    ∀ id, w.rememberedId key = some id →
      ∃ row ∈ w.episodes, row.id = id
  agree :
    (∀ message payload, messages[message]? = some payload →
      (accepted cfg payload).isSome → message ∈ w.acked) →
    w.episodes.map EpisodeRow.unnamed =
      (crashFree cfg messages now).episodes.map
        EpisodeRow.unnamed

/- Effects up to the commit: the read and the id come first. -/
def commitEffects : ℕ := 3

/- Effects up to the write of the state in Redis. -/
def saveEffects : ℕ := 4

/-
  An attempt in order: every message before it was counted,
  the state has not expired unless nothing in it matters to
  the message, and an attempt that opens an episode does not
  stop before the state is written.
-/
structure KeptAttempt
    (w : World 𝕜)
    (message budget : ℕ)
    (payload : Forecast 𝕜)
    (peak : 𝕜)
    (state : HostEpisodeState 𝕜) : Prop where
  inOrder :
    ∀ before < message, ∀ earlier ∈ messages[before]?,
      (accepted cfg earlier).isSome →
      isStale state earlier.originTs = true
  notExpired :
    (w.ep.get w.now (episodeKey payload)).isNone →
      state.episode.isNone ∧
        isStale state payload.originTs = false
  openingSaved :
    state.episode.isNone →
      isStale state payload.originTs = false →
      cfg.rules.riskThreshold ≤ peak →
      saveEffects ≤ budget

instance
    (w : World 𝕜)
    (message budget : ℕ)
    (payload : Forecast 𝕜)
    (peak : 𝕜)
    (state : HostEpisodeState 𝕜) :
    Decidable
      (KeptAttempt cfg messages w message budget payload
        peak state) :=
  decidable_of_iff (_ ∧ _ ∧ _)
    ⟨fun h => ⟨h.1, h.2.1, h.2.2⟩,
      fun h => ⟨h.inOrder, h.notExpired, h.openingSaved⟩⟩

/- An attempt that gets past its commit is in order. -/
def Kept (w : World 𝕜) : Event → Prop
  | .wait _ => True
  | .attempt message budget =>
      ∀ payload ∈ messages[message]?,
        ∀ entry ∈ accepted cfg payload,
          ∀ state ∈ w.lastState (episodeKey payload),
            commitEffects ≤ budget →
              KeptAttempt cfg messages w message budget
                payload entry.2 state

instance
    (w : World 𝕜)
    (event : Event) :
    Decidable (Kept cfg messages w event) := by
  cases event with
  | wait time => exact isTrue trivial
  | attempt message budget =>
      unfold Kept
      infer_instance

end Claim

------------------------------------------------------------
-- What one attempt does
------------------------------------------------------------

section Outcomes

variable [Zero 𝕜] [One 𝕜] [LinearOrder 𝕜]
variable (cfg : PersisterConfig 𝕜)

/- What a state becomes by a message, if anything. -/
def transitionOf
    (w : World 𝕜)
    (payload : Forecast 𝕜)
    (peak : 𝕜)
    (state : HostEpisodeState 𝕜) :
    Option (Transition 𝕜) :=
  advance state (summaryOf payload peak) cfg.rules w.drawn

/- The world after the commit of a message. -/
def World.committed
    (w : World 𝕜)
    (payload : Forecast 𝕜)
    (tenant : Uuid)
    (peak : 𝕜)
    (state : HostEpisodeState 𝕜) : World 𝕜 :=
  World.withRows { w with drawn := w.drawn + 1 } payload
    tenant peak (transitionOf cfg w payload peak state)

/- A world in which some messages are acknowledged too. -/
def World.withAcks
    (w : World 𝕜)
    (acks : List ℕ) : World 𝕜 :=
  { w with acked := w.acked ++ acks }

/-
  What an attempt can lead to: no commit; the commit of a
  stale message; a commit without the write of the state; or
  both. Only the second and the last may acknowledge.
-/
inductive Outcome
    (w : World 𝕜)
    (message budget : ℕ)
    (payload : Forecast 𝕜) : World 𝕜 → Prop where
  | early
      (drawn : ℕ)
      (hDrawn : w.drawn ≤ drawn) :
      Outcome w message budget payload
        { w with drawn := drawn }
  | stale
      {tenant : Uuid}
      {peak : 𝕜}
      {state : HostEpisodeState 𝕜}
      (hAccepted : accepted cfg payload = some (tenant, peak))
      (hState : w.stateOf (episodeKey payload) = some state)
      (hBudget : commitEffects ≤ budget)
      (hStale : transitionOf cfg w payload peak state = none)
      (acks : List ℕ)
      (hAcks : acks = [] ∨ acks = [message]) :
      Outcome w message budget payload
        ((w.committed cfg payload tenant peak
          state).withAcks acks)
  | unsaved
      {tenant : Uuid}
      {peak : 𝕜}
      {state : HostEpisodeState 𝕜}
      (hAccepted : accepted cfg payload = some (tenant, peak))
      (hState : w.stateOf (episodeKey payload) = some state)
      (hBudget : commitEffects ≤ budget)
      (hStopped : budget < saveEffects) :
      Outcome w message budget payload
        (w.committed cfg payload tenant peak state)
  | saved
      {tenant : Uuid}
      {peak : 𝕜}
      {state : HostEpisodeState 𝕜}
      {transition : Transition 𝕜}
      (hAccepted : accepted cfg payload = some (tenant, peak))
      (hState : w.stateOf (episodeKey payload) = some state)
      (hBudget : saveEffects ≤ budget)
      (hTransition :
        transitionOf cfg w payload peak state =
          some transition)
      (acks : List ℕ)
      (hAcks : acks = [] ∨ acks = [message]) :
      Outcome w message budget payload
        (((w.committed cfg payload tenant peak
          state).withState (episodeKey payload)
            transition.state).withAcks acks)

/- Acknowledging gets done or not. -/
theorem ack_attempt
    (w : World 𝕜)
    (message budget : ℕ) :
    ∃ acks : List ℕ,
      (acks = [] ∨ acks = [message]) ∧
        ((ack message).attempt budget w).2 =
          w.withAcks acks := by
  cases budget with
  | zero =>
      exact ⟨[], Or.inl rfl, by simp [ack, World.withAcks]⟩
  | succ budget =>
      exact
        ⟨[message], Or.inr rfl, by simp [ack, World.withAcks]⟩

/- A message that is refused has no effect. -/
theorem attempt_refused
    {payload : Forecast 𝕜}
    (hRefused : accepted cfg payload = none)
    (w : World 𝕜)
    (message budget : ℕ) :
    ((handleMessage cfg message payload).attempt
      budget w).2 = w := by
  unfold accepted at hRefused
  cases hCheck : payload.check cfg.horizonK with
  | some error =>
      simp [handleMessage, dispatch, handle, hCheck,
        Program.attempt_bind]
  | none =>
      cases hVet : vet payload with
      | error error =>
          simp [handleMessage, dispatch, handle, process,
            hCheck, hVet, Program.attempt_bind]
      | ok entry =>
          simp [hCheck, hVet, Except.toOption] at hRefused

/- An accepted message is handled as one in order. -/
theorem handle_of_accepted
    {payload : Forecast 𝕜}
    {tenant : Uuid}
    {peak : 𝕜}
    (hAccepted :
      accepted cfg payload = some (tenant, peak)) :
    handle cfg payload =
      (do
        let state ← readState payload
        advanceRead cfg payload tenant peak state) := by
  unfold accepted at hAccepted
  cases hCheck : payload.check cfg.horizonK with
  | some error => simp [hCheck] at hAccepted
  | none =>
      cases hVet : vet payload with
      | error error =>
          simp [hCheck, hVet, Except.toOption] at hAccepted
      | ok entry =>
          simp only [hCheck, hVet, Except.toOption,
            Option.some.injEq] at hAccepted
          subst hAccepted
          simp only [handle, process, hCheck, hVet]

/- What an attempt leads to once the state is read. -/
theorem advanceHost_attempt_outcome
    {w : World 𝕜}
    {payload : Forecast 𝕜}
    {tenant : Uuid}
    {peak : 𝕜}
    {state : HostEpisodeState 𝕜}
    (hAccepted : accepted cfg payload = some (tenant, peak))
    (hState : w.stateOf (episodeKey payload) = some state)
    (message budget : ℕ) :
    Outcome cfg w message (budget + 1) payload
      ((dispatch (advanceHost cfg payload tenant peak state)
        (ack message)).attempt budget w).2 := by
  simp only [dispatch, advanceHost, uuid4, commit,
    Program.attempt_bind]
  rcases budget with _ | _ | budget
  · exact .early w.drawn le_rfl
  · exact .early (w.drawn + 1) (Nat.le_succ _)
  · simp only [Program.attempt_step_succ]
    cases hTransition :
        transitionOf cfg w payload peak state with
    | none =>
        have hAdvance := hTransition
        rw [transitionOf] at hAdvance
        simp only [hAdvance, saveState,
          Program.attempt_pure]
        rcases
            ack_attempt (w.committed cfg payload tenant peak
              state) message budget with
          ⟨acks, hAcks, hWorld⟩
        have hOutcome :
            Outcome cfg w message (budget + 3) payload _ :=
          .stale hAccepted hState (by simp [commitEffects])
            hTransition acks hAcks
        rw [← hWorld] at hOutcome
        rw [World.committed, hTransition] at hOutcome
        exact hOutcome
    | some transition =>
        have hAdvance := hTransition
        rw [transitionOf] at hAdvance
        simp only [hAdvance, saveState, writeState]
        cases budget with
        | zero =>
            have hOutcome :
                Outcome cfg w message 3 payload _ :=
              .unsaved hAccepted hState
                (by simp [commitEffects])
                (by simp [saveEffects])
            rw [World.committed, hTransition] at hOutcome
            exact hOutcome
        | succ budget =>
            simp only [Program.attempt_write_succ,
              Program.attempt_pure]
            rcases
                ack_attempt
                  ((w.committed cfg payload tenant peak
                    state).withState (episodeKey payload)
                      transition.state) message budget with
              ⟨acks, hAcks, hWorld⟩
            have hOutcome :
                Outcome cfg w message (budget + 4) payload
                  _ :=
              .saved hAccepted hState (by simp [saveEffects])
                hTransition acks hAcks
            rw [← hWorld] at hOutcome
            rw [World.committed, hTransition] at hOutcome
            exact hOutcome

/- One attempt leads to one of its outcomes. -/
theorem attempt_outcome
    (w : World 𝕜)
    (message budget : ℕ)
    (payload : Forecast 𝕜) :
    Outcome cfg w message budget payload
      ((handleMessage cfg message payload).attempt
        budget w).2 := by
  cases hAccepted : accepted cfg payload with
  | none =>
      rw [attempt_refused cfg hAccepted]
      exact .early w.drawn le_rfl
  | some entry =>
      rcases entry with ⟨tenant, peak⟩
      rw [handleMessage, dispatch,
        handle_of_accepted cfg hAccepted]
      simp only [readState, Program.attempt_bind]
      cases budget with
      | zero => exact .early w.drawn le_rfl
      | succ budget =>
          simp only [Program.attempt_read_succ]
          cases hState : w.stateOf (episodeKey payload) with
          | none =>
              simp only [advanceRead, Program.attempt_pure]
              exact .early w.drawn le_rfl
          | some state =>
              have hOutcome :=
                advanceHost_attempt_outcome cfg hAccepted
                  hState message budget
              rw [dispatch, Program.attempt_bind] at hOutcome
              exact hOutcome

end Outcomes

------------------------------------------------------------
-- Reading and writing the state
------------------------------------------------------------

/- A state that was written is the last one. -/
theorem lastState_withState
    (w : World 𝕜)
    (key : String × String)
    {state : HostEpisodeState 𝕜}
    {lastTs : ℚ}
    (hLast : state.lastTs = some lastTs) :
    (w.withState key state).lastState key = some state := by
  have hEmpty :=
    EpisodeHash.isEmpty_write
      ((w.ep.get w.now key).getD {}) hLast
  simp only [World.lastState, World.withState, hEmpty,
    Bool.false_eq_true, if_false,
    TtlStore.written_renew_self]
  exact EpisodeHash.read_write _ hLast

/- A state that is read is the last one, or it expired. -/
theorem stateOf_eq
    (w : World 𝕜)
    (key : String × String) :
    w.stateOf key = w.lastState key ∨
      w.ep.get w.now key = none ∧
        w.stateOf key = some {} := by
  unfold World.stateOf World.lastState
  cases hGet : w.ep.get w.now key with
  | none => exact Or.inr ⟨rfl, rfl⟩
  | some hash =>
      rw [TtlStore.written_of_get hGet]
      exact Or.inl rfl

section Invariant

variable [Zero 𝕜] [One 𝕜] [LinearOrder 𝕜]
variable {cfg : PersisterConfig 𝕜}

/- An expired state that does not matter changes nothing. -/
theorem transitionOf_stateOf
    {w : World 𝕜}
    {payload : Forecast 𝕜}
    {read state : HostEpisodeState 𝕜}
    (hRead : w.stateOf (episodeKey payload) = some read)
    (hLast : w.lastState (episodeKey payload) = some state)
    (hExpired :
      (w.ep.get w.now (episodeKey payload)).isNone →
        state.episode.isNone ∧
          isStale state payload.originTs = false)
    (peak : 𝕜) :
    transitionOf cfg w payload peak read =
      transitionOf cfg w payload peak state := by
  rcases stateOf_eq w (episodeKey payload) with
    hSame | ⟨hGet, hNew⟩
  · rw [hSame, hLast, Option.some.injEq] at hRead
    rw [hRead]
  · rw [hNew, Option.some.injEq] at hRead
    rcases hExpired (Option.isNone_iff_eq_none.mpr hGet) with
      ⟨hIsNone, hFresh⟩
    have hNone := Option.isNone_iff_eq_none.mp hIsNone
    subst hRead
    unfold transitionOf
    rcases lt_or_ge peak cfg.rules.riskThreshold with
      hBelow | hAbove
    · rw [advance_of_quiet hFresh hNone hBelow,
        advance_of_quiet rfl rfl hBelow]
    · rw [advance_of_opening hFresh hNone hAbove,
        advance_of_opening rfl rfl hAbove]

/- Only a stale message leads to no transition. -/
theorem isStale_of_transitionOf
    {w : World 𝕜}
    {payload : Forecast 𝕜}
    {peak : 𝕜}
    {state : HostEpisodeState 𝕜}
    (hNone : transitionOf cfg w payload peak state = none) :
    isStale state payload.originTs = true := by
  by_contra hFresh
  rw [Bool.not_eq_true] at hFresh
  unfold transitionOf at hNone
  cases hOpen : state.episode with
  | some episode =>
      rw [advance_of_open hFresh hOpen] at hNone
      contradiction
  | none =>
      rcases lt_or_ge peak cfg.rules.riskThreshold with
        hBelow | hAbove
      · rw [advance_of_quiet hFresh hOpen hBelow] at hNone
        contradiction
      · rw [advance_of_opening hFresh hOpen hAbove] at hNone
        contradiction

------------------------------------------------------------
-- The invariant
------------------------------------------------------------

variable (cfg)
variable (messages : List (Forecast 𝕜))

/- What the lifecycle reads of the message at a position. -/
def summaryAt (count : ℕ) : Option (ForecastSummary 𝕜) := do
  let payload ← messages[count]?
  let entry ← accepted cfg payload
  return summaryOf payload entry.2

/-
  The rows after the past ones: none without an open episode,
  and otherwise the row of the open episode, as remembered or
  as the next message has already left it.
-/
inductive Shown
    (tenant : Uuid)
    (hostId : String)
    (state : HostEpisodeState 𝕜)
    (next : Option (ForecastSummary 𝕜)) :
    List (EpisodeRow 𝕜) → Prop where
  | quiet
      (hNone : state.episode = none) :
      Shown tenant hostId state next []
  | current
      {episode : OpenEpisode 𝕜}
      (hOpen : state.episode = some episode) :
      Shown tenant hostId state next
        [episodeRow tenant hostId episode none]
  | ahead
      {episode : OpenEpisode 𝕜}
      {forecast : ForecastSummary 𝕜}
      (hOpen : state.episode = some episode)
      (hNext : next = some forecast)
      (hFresh : isStale state forecast.originTs = false) :
      Shown tenant hostId state next
        [episodeRow tenant hostId
          (updatedBy episode forecast cfg.rules)
          (endOf episode forecast cfg.rules)]

variable (tenant : Uuid)
variable (key : String × String)

/-
  The world follows the ledger after the first `count`
  messages: the remembered state and the past rows are the
  ledger's up to ids, the open row is the remembered one, and
  every acknowledged message was counted.
-/
structure Follows
    (w : World 𝕜)
    (count : ℕ)
    (state : HostEpisodeState 𝕜)
    (past shown : List (EpisodeRow 𝕜)) : Prop where
  remembered : w.lastState key = some state
  state_eq :
    (ledgerAfter cfg messages count).state = state.unnamed
  past_eq :
    (ledgerAfter cfg messages count).closed =
      past.map EpisodeRow.unnamed
  rows : w.episodes = past ++ shown
  shown :
    Shown cfg tenant key.2 state (summaryAt cfg messages count)
      shown
  pastEnded : ∀ row ∈ past, row.endedAt ≠ none
  drawn : ∀ id ∈ w.episodes.map EpisodeRow.id, id < w.drawn
  nodup : (w.episodes.map EpisodeRow.id).Nodup
  acked : ∀ message ∈ w.acked, message < count

variable {cfg messages tenant key}
variable {w : World 𝕜}
variable {count : ℕ}
variable {state : HostEpisodeState 𝕜}
variable {past shown : List (EpisodeRow 𝕜)}

namespace Follows

/- Ids that are drawn and dropped change nothing. -/
theorem withDrawn
    (hFollows :
      Follows cfg messages tenant key w count state past shown)
    {drawn : ℕ}
    (hDrawn : w.drawn ≤ drawn) :
    Follows cfg messages tenant key
      { w with drawn := drawn } count state past shown :=
  { hFollows with
    drawn := fun id hId =>
      (hFollows.drawn id hId).trans_le hDrawn }

/- Acknowledging a message that was counted is right. -/
theorem withAcks
    (hFollows :
      Follows cfg messages tenant key w count state past shown)
    {message : ℕ}
    (hCounted : message < count)
    {acks : List ℕ}
    (hAcks : acks = [] ∨ acks = [message]) :
    Follows cfg messages tenant key (w.withAcks acks) count
      state past shown := by
  refine { hFollows with acked := ?_ }
  intro other hMem
  rcases List.mem_append.mp hMem with hOld | hNew
  · exact hFollows.acked other hOld
  · rcases hAcks with rfl | rfl
    · simp at hNew
    · rw [List.mem_singleton.mp hNew]
      exact hCounted

/- A message that counts as none may be counted. -/
theorem skip
    (hFollows :
      Follows cfg messages tenant key w count state past shown)
    {payload : Forecast 𝕜}
    (hMessage : messages[count]? = some payload)
    (hSkip :
      (accepted cfg payload).isSome →
        isStale state payload.originTs = true) :
    Follows cfg messages tenant key w (count + 1) state past
      shown := by
  have hLedger :
      ledgerAfter cfg messages (count + 1) =
        ledgerAfter cfg messages count := by
    rw [ledgerAfter_succ hMessage]
    cases hAccepted : accepted cfg payload with
    | none => exact Ledger.record_of_refused hAccepted _
    | some entry =>
        apply Ledger.record_of_stale hAccepted
        rw [hFollows.state_eq, isStale_unnamed]
        exact hSkip (by rw [hAccepted]; rfl)
  refine
    { hFollows with
      state_eq := by rw [hLedger, hFollows.state_eq]
      past_eq := by rw [hLedger, hFollows.past_eq]
      shown := ?_
      acked := fun message hMem =>
        Nat.lt_succ_of_lt (hFollows.acked message hMem) }
  cases hFollows.shown with
  | quiet hNone => exact .quiet hNone
  | current hOpen => exact .current hOpen
  | ahead hOpen hNext hFresh =>
      -- A message that is ahead is not one to skip.
      simp only [summaryAt, hMessage, Option.bind_eq_bind,
        Option.bind_some] at hNext
      cases hAccepted : accepted cfg payload with
      | none => simp [hAccepted] at hNext
      | some entry =>
          simp only [hAccepted, Option.bind_some,
            Option.pure_def, Option.some.injEq] at hNext
          rw [← hNext, summaryOf_originTs,
            hSkip (by rw [hAccepted]; rfl)] at hFresh
          contradiction

/- Messages that count as none may be counted. -/
theorem skipTo
    (hFollows :
      Follows cfg messages tenant key w count state past shown)
    {message : ℕ}
    (hLater : count ≤ message)
    (hEnd : message ≤ messages.length)
    (hSkip :
      ∀ before < message, ∀ earlier,
        messages[before]? = some earlier →
        (accepted cfg earlier).isSome →
        isStale state earlier.originTs = true) :
    Follows cfg messages tenant key w message state past
      shown := by
  induction message, hLater using Nat.le_induction with
  | base => exact hFollows
  | succ message hLater ih =>
      have hRest :=
        ih (by omega)
          (fun before hBefore =>
            hSkip before (Nat.lt_succ_of_lt hBefore))
      have hBound : message < messages.length := by omega
      have hMessage :
          messages[message]? = some messages[message] :=
        List.getElem?_eq_getElem hBound
      exact
        hRest.skip hMessage
          (hSkip message (Nat.lt_succ_self _) _ hMessage)

/- A message that is not stale was not counted yet. -/
theorem le_of_not_stale
    (hFollows :
      Follows cfg messages tenant key w count state past shown)
    {message : ℕ}
    {payload : Forecast 𝕜}
    (hMessage : messages[message]? = some payload)
    (hAccepted : (accepted cfg payload).isSome)
    (hFresh : isStale state payload.originTs = false) :
    count ≤ message := by
  by_contra hBefore
  have hSeen :=
    ledgerAfter_seen (not_le.mp hBefore) hMessage hAccepted
  rw [hFollows.state_eq, isStale_unnamed, hFresh] at hSeen
  contradiction

/- The row of the open episode has its id. -/
theorem shown_id
    (hFollows :
      Follows cfg messages tenant key w count state past shown)
    {episode : OpenEpisode 𝕜}
    (hOpen : state.episode = some episode) :
    shown.map EpisodeRow.id = [episode.id] := by
  cases hFollows.shown with
  | quiet hNone =>
      rw [hNone] at hOpen
      contradiction
  | current hOther =>
      rw [hOther, Option.some.injEq] at hOpen
      rw [← hOpen]
      rfl
  | ahead hOther _ _ =>
      rw [hOther, Option.some.injEq] at hOpen
      rw [← hOpen]
      rfl

/- Past rows do not have the id of the open episode. -/
theorem past_id_ne
    (hFollows :
      Follows cfg messages tenant key w count state past shown)
    {episode : OpenEpisode 𝕜}
    (hOpen : state.episode = some episode)
    {row : EpisodeRow 𝕜}
    (hRow : row ∈ past) :
    row.id ≠ episode.id := by
  have hNodup := hFollows.nodup
  rw [hFollows.rows, List.map_append,
    hFollows.shown_id hOpen] at hNodup
  intro hEq
  have hMem : episode.id ∈ past.map EpisodeRow.id := by
    rw [← hEq]
    exact List.mem_map_of_mem hRow
  exact
    (List.disjoint_of_nodup_append hNodup) hMem
      List.mem_cons_self

/-
  Writing what the open episode becomes changes the shown row
  only, to the same row whether or not it was ahead.
-/
theorem refresh_rows
    (hFollows :
      Follows cfg messages tenant key w count state past shown)
    {episode : OpenEpisode 𝕜}
    (hOpen : state.episode = some episode)
    (forecast : ForecastSummary 𝕜)
    (endedAt : Option ℚ) :
    let updated := updatedBy episode forecast cfg.rules
    w.episodes.map
        (fun row => row.refresh tenant updated endedAt) =
      past ++ [episodeRow tenant key.2 updated endedAt] := by
  intro updated
  have hPast :
      past.map
          (fun row => row.refresh tenant updated endedAt) =
        past := by
    refine (List.map_congr_left ?_).trans (List.map_id past)
    intro row hRow
    have hNe : row.id ≠ updated.id :=
      hFollows.past_id_ne hOpen hRow
    simp [EpisodeRow.refresh, hNe]
  have hShown :
      shown.map
          (fun row => row.refresh tenant updated endedAt) =
        [episodeRow tenant key.2 updated endedAt] := by
    cases hFollows.shown with
    | quiet hNone =>
        rw [hNone] at hOpen
        contradiction
    | current hOther =>
        rw [hOther, Option.some.injEq] at hOpen
        subst hOpen
        simp [EpisodeRow.refresh, episodeRow, updated,
          updatedBy]
    | ahead hOther _ _ =>
        rw [hOther, Option.some.injEq] at hOpen
        subst hOpen
        simp [EpisodeRow.refresh, episodeRow, updated,
          updatedBy]
  rw [hFollows.rows, List.map_append, hPast, hShown]

/- Ids are kept when the open row is refreshed. -/
theorem refreshed_ids
    (hFollows :
      Follows cfg messages tenant key w count state past shown)
    {episode updated : OpenEpisode 𝕜}
    (hOpen : state.episode = some episode)
    (hId : updated.id = episode.id)
    (endedAt : Option ℚ) :
    (past ++
        [episodeRow tenant key.2 updated endedAt]).map
          EpisodeRow.id =
      w.episodes.map EpisodeRow.id := by
  rw [hFollows.rows, List.map_append, List.map_append,
    hFollows.shown_id hOpen]
  simp [episodeRow, hId]

end Follows

------------------------------------------------------------
-- One message
------------------------------------------------------------

section Message

variable {payload : Forecast 𝕜}
variable {peak : 𝕜}
variable {message : ℕ}
variable
  (hFollows :
    Follows cfg messages tenant key w message state past shown)
variable (hMessage : messages[message]? = some payload)
variable
  (hAccepted : accepted cfg payload = some (tenant, peak))
variable (hKey : episodeKey payload = key)
include hFollows hMessage hAccepted hKey

/- The rows of a commit that updates the open episode. -/
theorem committed_open
    {read : HostEpisodeState 𝕜}
    (hRead :
      transitionOf cfg w payload peak read =
        transitionOf cfg w payload peak state)
    (hFresh : isStale state payload.originTs = false)
    {episode : OpenEpisode 𝕜}
    (hOpen : state.episode = some episode) :
    let forecast := summaryOf payload peak
    (w.committed cfg payload tenant peak read).episodes =
      past ++
        [episodeRow tenant key.2
          (updatedBy episode forecast cfg.rules)
          (endOf episode forecast cfg.rules)] := by
  intro forecast
  have hTransition :
      transitionOf cfg w payload peak state = _ :=
    advance_of_open hFresh hOpen cfg.rules w.drawn
  simp only [World.committed, World.withRows, hRead,
    hTransition, writeEpisode, Bool.false_eq_true, if_false]
  exact hFollows.refresh_rows hOpen forecast _

/-
  A commit that opens no episode keeps following the same
  messages, with the open row ahead.
-/
theorem follows_committed
    {read : HostEpisodeState 𝕜}
    (hRead :
      transitionOf cfg w payload peak read =
        transitionOf cfg w payload peak state)
    (hFresh : isStale state payload.originTs = false)
    (hNotOpening :
      state.episode = none →
        ¬ cfg.rules.riskThreshold ≤ peak) :
    ∃ shown',
      Follows cfg messages tenant key
        (w.committed cfg payload tenant peak read) message
        state past shown' := by
  cases hOpen : state.episode with
  | none =>
      have hBelow := not_le.mp (hNotOpening hOpen)
      have hTransition :
          transitionOf cfg w payload peak state = _ :=
        advance_of_quiet hFresh hOpen hBelow w.drawn
      have hDrawn :=
        hFollows.withDrawn (Nat.le_succ w.drawn)
      refine ⟨shown, ?_⟩
      simp only [World.committed, World.withRows, hRead,
        hTransition, writeEpisode]
      exact { hDrawn with }
  | some episode =>
      have hRows :=
        committed_open hFollows hMessage hAccepted hKey hRead
          hFresh hOpen
      have hIds :=
        hFollows.refreshed_ids hOpen
          (show
            (updatedBy episode (summaryOf payload peak)
              cfg.rules).id = episode.id from rfl)
          (endOf episode (summaryOf payload peak) cfg.rules)
      rw [← hRows] at hIds
      refine
        ⟨_, { hFollows with
          rows := hRows
          shown := .ahead hOpen ?_ hFresh
          drawn := ?_
          nodup := ?_ }⟩
      · simp [summaryAt, hMessage, hAccepted]
      · rw [hIds]
        intro id hId
        exact Nat.lt_succ_of_lt (hFollows.drawn id hId)
      · rw [hIds]
        exact hFollows.nodup

/- Committing and saving a quiet message counts it. -/
theorem follows_quiet
    {read : HostEpisodeState 𝕜}
    (hRead :
      transitionOf cfg w payload peak read =
        transitionOf cfg w payload peak state)
    {transition : Transition 𝕜}
    (hTransition :
      transitionOf cfg w payload peak read = some transition)
    (hFresh : isStale state payload.originTs = false)
    (hNone : state.episode = none)
    (hBelow : peak < cfg.rules.riskThreshold) :
    Follows cfg messages tenant key
      ((w.committed cfg payload tenant peak read).withState
        key transition.state)
      (message + 1) { lastTs := some payload.originTs }
      past shown := by
  have hAdvance :
      transitionOf cfg w payload peak state = _ :=
    advance_of_quiet hFresh hNone hBelow w.drawn
  have hEpisodes :
      (w.committed cfg payload tenant peak read).episodes =
        w.episodes := by
    simp only [World.committed, World.withRows, hRead,
      hAdvance, writeEpisode]
  rw [hRead, hAdvance, Option.some.injEq] at hTransition
  subst hTransition
  have hLedger :
      ledgerAfter cfg messages (message + 1) = _ :=
    ledgerAfter_succ hMessage
  rw [Ledger.record_of_quiet hAccepted
    (by rw [hFollows.state_eq]; exact hFresh)
    (by rw [hFollows.state_eq, unnamed_episode, hNone]; rfl)
    hBelow] at hLedger
  refine
    { remembered := lastState_withState _ _ rfl
      state_eq := by rw [hLedger]; rfl
      past_eq := by rw [hLedger]; exact hFollows.past_eq
      rows := hEpisodes.trans hFollows.rows
      shown := ?_
      pastEnded := hFollows.pastEnded
      drawn := ?_
      nodup := ?_
      acked := fun other hMem =>
        Nat.lt_succ_of_lt (hFollows.acked other hMem) }
  · cases hFollows.shown with
    | quiet _ => exact .quiet rfl
    | current hOpen => simp [hNone] at hOpen
    | ahead hOpen _ _ => simp [hNone] at hOpen
  · intro id hId
    rw [World.withState, hEpisodes] at hId
    exact Nat.lt_succ_of_lt (hFollows.drawn id hId)
  · rw [World.withState, hEpisodes]
    exact hFollows.nodup

/- Committing and saving an opening message counts it. -/
theorem follows_opening
    {read : HostEpisodeState 𝕜}
    (hRead :
      transitionOf cfg w payload peak read =
        transitionOf cfg w payload peak state)
    {transition : Transition 𝕜}
    (hTransition :
      transitionOf cfg w payload peak read = some transition)
    (hFresh : isStale state payload.originTs = false)
    (hNone : state.episode = none)
    (hAbove : cfg.rules.riskThreshold ≤ peak) :
    let opened :=
      openedBy (summaryOf payload peak) cfg.rules w.drawn
    Follows cfg messages tenant key
      ((w.committed cfg payload tenant peak read).withState
        key transition.state)
      (message + 1)
      { lastTs := some payload.originTs
        episode := some opened }
      past [episodeRow tenant key.2 opened none] := by
  intro opened
  have hAdvance :
      transitionOf cfg w payload peak state = _ :=
    advance_of_opening hFresh hNone hAbove w.drawn
  have hShown : shown = [] := by
    cases hFollows.shown with
    | quiet _ => rfl
    | current hOpen => simp [hNone] at hOpen
    | ahead hOpen _ _ => simp [hNone] at hOpen
  have hHost : payload.hostId = key.2 := by
    rw [← hKey]
    rfl
  have hEpisodes :
      (w.committed cfg payload tenant peak read).episodes =
        w.episodes ++
          [episodeRow tenant key.2 opened none] := by
    simp only [World.committed, World.withRows, hRead,
      hAdvance, writeEpisode, if_true, hHost]
    rfl
  have hIds :
      (w.episodes ++
          [episodeRow tenant key.2 opened none]).map
            EpisodeRow.id =
        w.episodes.map EpisodeRow.id ++ [w.drawn] := by
    rw [List.map_append]
    rfl
  rw [hRead, hAdvance, Option.some.injEq] at hTransition
  subst hTransition
  have hLedger :
      ledgerAfter cfg messages (message + 1) = _ :=
    ledgerAfter_succ hMessage
  rw [Ledger.record_of_opening hAccepted
    (by rw [hFollows.state_eq]; exact hFresh)
    (by rw [hFollows.state_eq, unnamed_episode, hNone]; rfl)
    hAbove] at hLedger
  refine
    { remembered := lastState_withState _ _ rfl
      state_eq := by rw [hLedger]; rfl
      past_eq := by rw [hLedger]; exact hFollows.past_eq
      rows := by
        rw [World.withState, hEpisodes, hFollows.rows, hShown,
          List.append_nil]
      shown := .current rfl
      pastEnded := hFollows.pastEnded
      drawn := ?_
      nodup := ?_
      acked := fun other hMem =>
        Nat.lt_succ_of_lt (hFollows.acked other hMem) }
  · intro id hId
    rw [World.withState, hEpisodes, hIds,
      List.mem_append, List.mem_singleton] at hId
    rcases hId with hOld | rfl
    · exact Nat.lt_succ_of_lt (hFollows.drawn id hOld)
    · exact Nat.lt_succ_self _
  · rw [World.withState, hEpisodes, hIds,
      ← List.concat_eq_append]
    refine hFollows.nodup.concat ?_
    intro hMem
    exact absurd (hFollows.drawn _ hMem) (lt_irrefl _)

/- Committing and saving during an episode counts it. -/
theorem follows_open
    {read : HostEpisodeState 𝕜}
    (hRead :
      transitionOf cfg w payload peak read =
        transitionOf cfg w payload peak state)
    {transition : Transition 𝕜}
    (hTransition :
      transitionOf cfg w payload peak read = some transition)
    (hFresh : isStale state payload.originTs = false)
    {episode : OpenEpisode 𝕜}
    (hOpen : state.episode = some episode) :
    ∃ state' past' shown',
      Follows cfg messages tenant key
        ((w.committed cfg payload tenant peak read).withState
          key transition.state)
        (message + 1) state' past' shown' := by
  have hAdvance :
      transitionOf cfg w payload peak state = _ :=
    advance_of_open hFresh hOpen cfg.rules w.drawn
  have hHost : payload.hostId = key.2 := by
    rw [← hKey]
    rfl
  have hRows :=
    committed_open hFollows hMessage hAccepted hKey hRead
      hFresh hOpen
  have hIds :=
    hFollows.refreshed_ids hOpen
      (show
        (updatedBy episode (summaryOf payload peak)
          cfg.rules).id = episode.id from rfl)
      (endOf episode (summaryOf payload peak) cfg.rules)
  rw [← hRows] at hIds
  have hDrawn :
      ∀ id ∈
        (w.committed cfg payload tenant peak
          read).episodes.map EpisodeRow.id,
        id < w.drawn + 1 := by
    rw [hIds]
    intro id hId
    exact Nat.lt_succ_of_lt (hFollows.drawn id hId)
  have hNodup :
      ((w.committed cfg payload tenant peak
        read).episodes.map EpisodeRow.id).Nodup := by
    rw [hIds]
    exact hFollows.nodup
  rw [hRead, hAdvance, Option.some.injEq] at hTransition
  subst hTransition
  have hLedger :
      ledgerAfter cfg messages (message + 1) = _ :=
    ledgerAfter_succ hMessage
  rw [Ledger.record_of_open hAccepted
    (by rw [hFollows.state_eq]; exact hFresh)
    (by
      rw [hFollows.state_eq, unnamed_episode, hOpen,
        Option.map_some]),
    hHost] at hLedger
  simp only [endOf_unnamed, updatedBy_unnamed] at hLedger
  cases hEnd :
      endOf episode (summaryOf payload peak) cfg.rules with
  | none =>
      simp only [hEnd, Option.isSome_none,
        Bool.false_eq_true, if_false,
        List.append_nil] at hLedger hRows
      exact
        ⟨_, past, _,
          { remembered := lastState_withState _ _ rfl
            state_eq := by rw [hLedger]; rfl
            past_eq := by rw [hLedger]; exact hFollows.past_eq
            rows := hRows
            shown := .current rfl
            pastEnded := hFollows.pastEnded
            drawn := hDrawn
            nodup := hNodup
            acked := fun other hMem =>
              Nat.lt_succ_of_lt
                (hFollows.acked other hMem) }⟩
  | some endedAt =>
      simp only [hEnd, Option.isSome_some,
        if_true] at hLedger hRows
      refine
        ⟨_, _, [],
          { remembered := lastState_withState _ _ rfl
            state_eq := by rw [hLedger]; rfl
            past_eq := ?_
            rows := hRows.trans (List.append_nil _).symm
            shown := .quiet rfl
            pastEnded := ?_
            drawn := hDrawn
            nodup := hNodup
            acked := fun other hMem =>
              Nat.lt_succ_of_lt
                (hFollows.acked other hMem) }⟩
      · rw [hLedger, hFollows.past_eq, List.map_append]
        rfl
      · intro row hRow
        rcases List.mem_append.mp hRow with hOld | hNew
        · exact hFollows.pastEnded row hOld
        · rw [List.mem_singleton.mp hNew]
          simp [episodeRow]

end Message

------------------------------------------------------------
-- One step
------------------------------------------------------------

namespace Follows

/- A stale message in order may be counted. -/
theorem counted_of_stale
    (hFollows :
      Follows cfg messages tenant key w count state past shown)
    {message budget : ℕ}
    {payload : Forecast 𝕜}
    {peak : 𝕜}
    (hMessage : messages[message]? = some payload)
    (hOrder :
      KeptAttempt cfg messages w message budget payload peak
        state)
    (hStale : isStale state payload.originTs = true) :
    ∃ count', message < count' ∧
      Follows cfg messages tenant key w count' state past
        shown := by
  rcases lt_or_ge message count with hBefore | hLater
  · exact ⟨count, hBefore, hFollows⟩
  · have hEnd : message < messages.length :=
      (List.getElem?_eq_some_iff.mp hMessage).1
    have hReached :=
      hFollows.skipTo hLater hEnd.le hOrder.inOrder
    exact
      ⟨message + 1, Nat.lt_succ_self _,
        hReached.skip hMessage (fun _ => hStale)⟩

/- All before a message in order that is new is counted. -/
theorem reach_of_fresh
    (hFollows :
      Follows cfg messages tenant key w count state past shown)
    {message budget : ℕ}
    {payload : Forecast 𝕜}
    {peak : 𝕜}
    (hMessage : messages[message]? = some payload)
    (hAccepted : (accepted cfg payload).isSome)
    (hOrder :
      KeptAttempt cfg messages w message budget payload peak
        state)
    (hFresh : isStale state payload.originTs = false) :
    Follows cfg messages tenant key w message state past
      shown := by
  have hEnd : message < messages.length :=
    (List.getElem?_eq_some_iff.mp hMessage).1
  exact
    hFollows.skipTo
      (hFollows.le_of_not_stale hMessage hAccepted hFresh)
      hEnd.le hOrder.inOrder

/- Committing a stale message changes no episode. -/
theorem committed_stale
    (hFollows :
      Follows cfg messages tenant key w count state past shown)
    {payload : Forecast 𝕜}
    {peak : 𝕜}
    {read : HostEpisodeState 𝕜}
    (hStale : transitionOf cfg w payload peak read = none) :
    Follows cfg messages tenant key
      (w.committed cfg payload tenant peak read) count state
      past shown := by
  have hDrawn := hFollows.withDrawn (Nat.le_succ w.drawn)
  simp only [World.committed, World.withRows, hStale]
  exact { hDrawn with }

/- Saving a message that was not stale counts it. -/
theorem saved
    {message : ℕ}
    (hFollows :
      Follows cfg messages tenant key w message state past
        shown)
    {payload : Forecast 𝕜}
    {peak : 𝕜}
    (hMessage : messages[message]? = some payload)
    (hAccepted : accepted cfg payload = some (tenant, peak))
    (hKey : episodeKey payload = key)
    {read : HostEpisodeState 𝕜}
    (hRead :
      transitionOf cfg w payload peak read =
        transitionOf cfg w payload peak state)
    {transition : Transition 𝕜}
    (hTransition :
      transitionOf cfg w payload peak read = some transition)
    (hFresh : isStale state payload.originTs = false) :
    ∃ state' past' shown',
      Follows cfg messages tenant key
        ((w.committed cfg payload tenant peak read).withState
          key transition.state)
        (message + 1) state' past' shown' := by
  cases hOpen : state.episode with
  | some episode =>
      exact
        follows_open hFollows hMessage hAccepted hKey hRead
          hTransition hFresh hOpen
  | none =>
      rcases lt_or_ge peak cfg.rules.riskThreshold with
        hBelow | hAbove
      · exact
          ⟨_, _, _,
            follows_quiet hFollows hMessage hAccepted hKey
              hRead hTransition hFresh hOpen hBelow⟩
      · exact
          ⟨_, _, _,
            follows_opening hFollows hMessage hAccepted hKey
              hRead hTransition hFresh hOpen hAbove⟩

end Follows

/- An outcome in order keeps following the ledger. -/
theorem outcome_follows
    (hFollows :
      Follows cfg messages tenant key w count state past shown)
    {message budget : ℕ}
    {payload : Forecast 𝕜}
    (hMessage : messages[message]? = some payload)
    (hKey : episodeKey payload = key)
    (hTenant :
      ∀ uuid peak, accepted cfg payload = some (uuid, peak) →
        uuid = tenant)
    {w' : World 𝕜}
    (hOutcome : Outcome cfg w message budget payload w')
    (hKept :
      ∀ uuid peak,
        accepted cfg payload = some (uuid, peak) →
        commitEffects ≤ budget →
        KeptAttempt cfg messages w message budget payload
          peak state) :
    ∃ count' state' past' shown',
      Follows cfg messages tenant key w' count' state' past'
        shown' := by
  have hLast : w.lastState (episodeKey payload) = some state :=
    hKey ▸ hFollows.remembered
  cases hOutcome with
  | early drawn hDrawn =>
      exact ⟨_, _, _, _, hFollows.withDrawn hDrawn⟩
  | @stale uuid peak read hAccepted hState hBudget hStale acks
      hAcks =>
      have hOrder := hKept uuid peak hAccepted hBudget
      have hRead :
          transitionOf cfg w payload peak read =
            transitionOf cfg w payload peak state :=
        transitionOf_stateOf hState hLast hOrder.notExpired
          peak
      obtain rfl := hTenant uuid peak hAccepted
      rcases
          hFollows.counted_of_stale hMessage hOrder
            (isStale_of_transitionOf (hRead ▸ hStale)) with
        ⟨count', hCounted, hReached⟩
      exact
        ⟨_, _, _, _,
          (hReached.committed_stale hStale).withAcks
            hCounted hAcks⟩
  | @unsaved uuid peak read hAccepted hState hBudget
      hStopped =>
      have hOrder := hKept uuid peak hAccepted hBudget
      have hRead :
          transitionOf cfg w payload peak read =
            transitionOf cfg w payload peak state :=
        transitionOf_stateOf hState hLast hOrder.notExpired
          peak
      obtain rfl := hTenant uuid peak hAccepted
      cases hFresh : isStale state payload.originTs with
      | true =>
          have hStale :
              transitionOf cfg w payload peak state = none :=
            advance_of_stale hFresh cfg.rules w.drawn
          exact
            ⟨_, _, _, _,
              hFollows.committed_stale (hRead.trans hStale)⟩
      | false =>
          have hReached :=
            hFollows.reach_of_fresh hMessage
              (by rw [hAccepted]; rfl) hOrder hFresh
          rcases
              follows_committed hReached hMessage hAccepted
                hKey hRead hFresh
                (fun hNone hAbove =>
                  absurd
                    (hOrder.openingSaved
                      (Option.isNone_iff_eq_none.mpr hNone)
                      hFresh hAbove)
                    (not_le.mpr hStopped)) with
            ⟨shown', hCommitted⟩
          exact ⟨_, _, _, _, hCommitted⟩
  | @saved uuid peak read transition hAccepted hState hBudget
      hTransition acks hAcks =>
      have hOrder :=
        hKept uuid peak hAccepted
          (le_trans (by decide) hBudget)
      have hRead :
          transitionOf cfg w payload peak read =
            transitionOf cfg w payload peak state :=
        transitionOf_stateOf hState hLast hOrder.notExpired
          peak
      obtain rfl := hTenant uuid peak hAccepted
      have hFresh : isStale state payload.originTs = false := by
        rw [← Bool.not_eq_true]
        intro hStale
        have hNone :
            transitionOf cfg w payload peak state = none :=
          advance_of_stale hStale cfg.rules w.drawn
        rw [hRead, hNone] at hTransition
        contradiction
      have hReached :=
        hFollows.reach_of_fresh hMessage
          (by rw [hAccepted]; rfl) hOrder hFresh
      rcases
          hReached.saved hMessage hAccepted hKey hRead
            hTransition hFresh with
        ⟨state', past', shown', hSaved⟩
      rw [hKey]
      exact
        ⟨_, _, _, _,
          hSaved.withAcks (Nat.lt_succ_self message) hAcks⟩

------------------------------------------------------------
-- The rows at the end
------------------------------------------------------------

/- When all is counted the rows are those of the ledger. -/
theorem Follows.rows_of_counted
    (hFollows :
      Follows cfg messages tenant key w count state past shown)
    (hCounted : messages.length ≤ count) :
    w.episodes.map EpisodeRow.unnamed =
      (ledgerAfter cfg messages messages.length).rows
        tenant key.2 := by
  have hLedger :
      ledgerAfter cfg messages messages.length =
        ledgerAfter cfg messages count := by
    rw [ledgerAfter, ledgerAfter, List.take_length,
      List.take_of_length_le hCounted]
  have hShown :
      shown.map EpisodeRow.unnamed =
        openRows tenant key.2 state.unnamed.episode := by
    cases hFollows.shown with
    | quiet hNone => simp [hNone, openRows]
    | current hOpen => simp [hOpen, openRows]
    | ahead hOpen hNext hFresh =>
        rw [summaryAt,
          List.getElem?_eq_none hCounted] at hNext
        contradiction
  rw [hLedger, Ledger.rows, hFollows.rows, List.map_append,
    hShown, hFollows.past_eq, hFollows.state_eq]

/-
  When every accepted message is acknowledged the rows are
  those of the ledger.
-/
theorem Follows.rows_of_acked
    (hFollows :
      Follows cfg messages tenant key w count state past shown)
    (hAcked :
      ∀ message payload, messages[message]? = some payload →
        (accepted cfg payload).isSome → message ∈ w.acked) :
    w.episodes.map EpisodeRow.unnamed =
      (ledgerAfter cfg messages messages.length).rows
        tenant key.2 := by
  rcases le_total messages.length count with hEnd | hBefore
  · exact hFollows.rows_of_counted hEnd
  · have hReached :
        Follows cfg messages tenant key w messages.length
          state past shown := by
      apply hFollows.skipTo hBefore le_rfl
      intro message _ payload hMessage hAccepted
      have hCounted :=
        hFollows.acked message
          (hAcked message payload hMessage hAccepted)
      have hSeen :=
        ledgerAfter_seen hCounted hMessage hAccepted
      rw [hFollows.state_eq, isStale_unnamed] at hSeen
      exact hSeen
    exact hReached.rows_of_counted le_rfl

/- At most the shown row is open. -/
theorem Follows.oneOpen
    (hFollows :
      Follows cfg messages tenant key w count state past
        shown) :
    (w.episodes.filter
      (fun row => row.endedAt.isNone)).length ≤ 1 := by
  have hPast :
      past.filter (fun row => row.endedAt.isNone) = [] := by
    rw [List.filter_eq_nil_iff]
    intro row hRow
    simp [hFollows.pastEnded row hRow]
  have hShown : shown.length ≤ 1 := by
    cases hFollows.shown with
    | quiet _ => simp
    | current _ => simp
    | ahead _ _ _ => simp
  rw [hFollows.rows, List.filter_append, hPast,
    List.nil_append]
  exact (List.length_filter_le _ _).trans hShown

/- An open row is the remembered one. -/
theorem Follows.openRemembered
    (hFollows :
      Follows cfg messages tenant key w count state past shown)
    {row : EpisodeRow 𝕜}
    (hRow : row ∈ w.episodes)
    (hOpen : row.endedAt = none) :
    w.rememberedId key = some row.id := by
  rw [hFollows.rows] at hRow
  rcases List.mem_append.mp hRow with hPast | hShown
  · exact absurd hOpen (hFollows.pastEnded row hPast)
  · cases hEpisode : state.episode with
    | none =>
        cases hFollows.shown with
        | quiet _ => simp at hShown
        | current hSome => simp [hEpisode] at hSome
        | ahead hSome _ _ => simp [hEpisode] at hSome
    | some episode =>
        have hIds := hFollows.shown_id hEpisode
        have hMem :
            row.id ∈ shown.map EpisodeRow.id :=
          List.mem_map_of_mem hShown
        rw [hIds, List.mem_singleton] at hMem
        simp [World.rememberedId, hFollows.remembered,
          hEpisode, hMem]

/- The remembered episode has a row. -/
theorem Follows.rememberedStored
    (hFollows :
      Follows cfg messages tenant key w count state past shown)
    {id : ℕ}
    (hId : w.rememberedId key = some id) :
    ∃ row ∈ w.episodes, row.id = id := by
  simp only [World.rememberedId, hFollows.remembered,
    Option.bind_some, Option.map_eq_some_iff] at hId
  rcases hId with ⟨episode, hOpen, rfl⟩
  have hMem : episode.id ∈ shown.map EpisodeRow.id := by
    rw [hFollows.shown_id hOpen]
    exact List.mem_cons_self
  rcases List.mem_map.mp hMem with ⟨row, hRow, hId⟩
  refine ⟨row, ?_, hId⟩
  rw [hFollows.rows]
  exact List.mem_append_right _ hRow

end Invariant

------------------------------------------------------------
-- Runs
------------------------------------------------------------

section Runs

variable [Zero 𝕜] [One 𝕜] [LinearOrder 𝕜]
variable {cfg : PersisterConfig 𝕜}

/- An accepted message names its tenant. -/
theorem tenantUuid_of_accepted
    {payload : Forecast 𝕜}
    {tenant : Uuid}
    {peak : 𝕜}
    (hAccepted :
      accepted cfg payload = some (tenant, peak)) :
    tenantUuid payload.tenantId = some tenant := by
  unfold accepted at hAccepted
  cases hCheck : payload.check cfg.horizonK with
  | some error => simp [hCheck] at hAccepted
  | none =>
      simp only [hCheck] at hAccepted
      unfold vet at hAccepted
      cases hCausal : assertCausal payload with
      | error error =>
          rw [hCausal] at hAccepted
          contradiction
      | ok _ =>
          cases hUuid : tenantUuid payload.tenantId with
          | none =>
              rw [hCausal, hUuid] at hAccepted
              contradiction
          | some uuid =>
              cases hPeak : maxPCompromise payload with
              | error error =>
                  rw [hCausal, hUuid, hPeak] at hAccepted
                  contradiction
              | ok top =>
                  rw [hCausal, hUuid, hPeak] at hAccepted
                  cases hAccepted
                  rfl

/- The tenant of a stream of one host, if it has one. -/
def streamTenant (key : String × String) : Uuid :=
  (tenantUuid key.1).getD 0

variable {messages : List (Forecast 𝕜)}
variable {key : String × String}

theorem eq_streamTenant
    {payload : Forecast 𝕜}
    (hKey : episodeKey payload = key)
    (uuid : Uuid)
    (peak : 𝕜)
    (hAccepted : accepted cfg payload = some (uuid, peak)) :
    uuid = streamTenant key := by
  have hUuid := tenantUuid_of_accepted hAccepted
  have hTenant : payload.tenantId = key.1 := by
    rw [← hKey]
    rfl
  rw [streamTenant, ← hTenant, hUuid, Option.getD_some]

/- The world follows the ledger as far as something. -/
def FollowsLedger
    (cfg : PersisterConfig 𝕜)
    (messages : List (Forecast 𝕜))
    (key : String × String)
    (w : World 𝕜) : Prop :=
  ∃ count state past shown,
    Follows cfg messages (streamTenant key) key w count state
      past shown

theorem start_follows (now : ℚ) :
    FollowsLedger cfg messages key (World.start now) := by
  refine
    ⟨0, {}, [], [],
      { remembered := ?_
        state_eq := rfl
        past_eq := rfl
        rows := rfl
        shown := .quiet rfl
        pastEnded := ?_
        drawn := ?_
        nodup := List.nodup_nil
        acked := ?_ }⟩
  · simp [World.lastState, World.start]
  · simp
  · simp [World.start]
  · simp [World.start]

variable (hHost : ∀ payload ∈ messages, episodeKey payload = key)
include hHost

/- A kept step keeps following the ledger. -/
theorem step_follows
    {w : World 𝕜}
    (hFollows : FollowsLedger cfg messages key w)
    {event : Event}
    (hKept : Kept cfg messages w event) :
    FollowsLedger cfg messages key
      (w.step cfg messages event) := by
  rcases hFollows with ⟨count, state, past, shown, hFollows⟩
  cases event with
  | wait time =>
      exact ⟨count, state, past, shown, { hFollows with }⟩
  | attempt message budget =>
      cases hMessage : messages[message]? with
      | none =>
          simp only [World.step, hMessage]
          exact ⟨count, state, past, shown, hFollows⟩
      | some payload =>
          simp only [World.step, hMessage]
          have hKey :=
            hHost payload (List.mem_of_getElem? hMessage)
          refine
            outcome_follows hFollows hMessage hKey
              (eq_streamTenant hKey)
              (attempt_outcome cfg w message budget payload)
              ?_
          intro uuid peak hAccepted hBudget
          exact
            hKept payload hMessage (uuid, peak) hAccepted state
              (hKey ▸ hFollows.remembered) hBudget

/- A kept run keeps following the ledger. -/
theorem run_follows
    (now : ℚ)
    (events : List Event)
    (hKept :
      AllAlong (World.step cfg messages) (Kept cfg messages)
        (World.start now) events) :
    FollowsLedger cfg messages key
      ((World.start now).runEvents cfg messages events) :=
  AllAlong.invariant (FollowsLedger cfg messages key)
    (fun _ _ hFollows hStep =>
      step_follows hHost hFollows hStep)
    (start_follows now) hKept

omit hHost

------------------------------------------------------------
-- The run without crashes
------------------------------------------------------------

/- The world after a commit and the write of the state. -/
def World.settled
    (cfg : PersisterConfig 𝕜)
    (w : World 𝕜)
    (payload : Forecast 𝕜)
    (tenant : Uuid)
    (peak : 𝕜)
    (state : HostEpisodeState 𝕜) : World 𝕜 :=
  match transitionOf cfg w payload peak state with
  | none => w.committed cfg payload tenant peak state
  | some transition =>
      (w.committed cfg payload tenant peak state).withState
        (episodeKey payload) transition.state

/- An accepted message that is handled is acknowledged. -/
theorem exec_of_accepted
    {w : World 𝕜}
    {payload : Forecast 𝕜}
    {tenant : Uuid}
    {peak : 𝕜}
    {state : HostEpisodeState 𝕜}
    (hAccepted : accepted cfg payload = some (tenant, peak))
    (hState : w.stateOf (episodeKey payload) = some state)
    (message : ℕ) :
    (handleMessage cfg message payload).exec w =
      (w.settled cfg payload tenant peak state).withAcks
        [message] := by
  rw [handleMessage, dispatch, handle_of_accepted cfg hAccepted]
  simp only [readState, advanceRead, advanceHost, uuid4,
    commit, ack,
    Program.exec_bind, Program.eval_bind, Program.eval_read,
    Program.exec_read, hState, Program.eval_step,
    Program.exec_step, Program.eval_pure, Program.exec_pure,
    Program.exec_write]
  unfold World.settled
  cases hTransition :
      transitionOf cfg w payload peak state with
  | none =>
      have hAdvance := hTransition
      rw [transitionOf] at hAdvance
      simp [hAdvance, saveState, World.withAcks,
        World.committed, hTransition]
  | some transition =>
      have hAdvance := hTransition
      rw [transitionOf] at hAdvance
      simp [hAdvance, saveState, writeState, World.withAcks,
        World.committed, hTransition]

/- Handling an accepted message has an outcome. -/
theorem exec_outcome
    {w : World 𝕜}
    {payload : Forecast 𝕜}
    {tenant : Uuid}
    {peak : 𝕜}
    {state : HostEpisodeState 𝕜}
    (hAccepted : accepted cfg payload = some (tenant, peak))
    (hState : w.stateOf (episodeKey payload) = some state)
    (message : ℕ) :
    Outcome cfg w message saveEffects payload
      ((handleMessage cfg message payload).exec w) := by
  rw [exec_of_accepted hAccepted hState, World.settled]
  cases hTransition :
      transitionOf cfg w payload peak state with
  | none =>
      exact
        .stale hAccepted hState (by decide) hTransition
          [message] (Or.inr rfl)
  | some transition =>
      exact
        .saved hAccepted hState le_rfl hTransition
          [message] (Or.inr rfl)

/- Nothing that was written has expired. -/
def World.Unexpired
    (w : World 𝕜)
    (key : String × String) : Prop :=
  w.ep.get w.now key = none → w.ep.written key = none

theorem unexpired_settled
    {w : World 𝕜}
    {payload : Forecast 𝕜}
    (hUnexpired : w.Unexpired (episodeKey payload))
    (tenant : Uuid)
    (peak : 𝕜)
    (state : HostEpisodeState 𝕜) :
    (w.settled cfg payload tenant peak state).Unexpired
      (episodeKey payload) := by
  unfold World.settled
  cases transitionOf cfg w payload peak state with
  | none => exact hUnexpired
  | some transition =>
      intro hGet
      simp only [World.withState] at hGet ⊢
      split at hGet
      · rename_i hEmpty
        simp [hEmpty]
      · rw [TtlStore.get_renew_self, if_pos] at hGet
        · contradiction
        · simp [episodeTtlS]

/-
  What holds after the first messages of the run without
  crashes: all that were accepted are acknowledged.
-/
structure Handled
    (cfg : PersisterConfig 𝕜)
    (messages : List (Forecast 𝕜))
    (key : String × String)
    (count : ℕ)
    (w : World 𝕜) : Prop where
  follows : FollowsLedger cfg messages key w
  unexpired : w.Unexpired key
  acked :
    ∀ message < count, ∀ payload,
      messages[message]? = some payload →
      (accepted cfg payload).isSome → message ∈ w.acked

/- A refused message that is handled has no effect. -/
theorem exec_of_refused
    {payload : Forecast 𝕜}
    (hRefused : accepted cfg payload = none)
    (w : World 𝕜)
    (message : ℕ) :
    (handleMessage cfg message payload).exec w = w := by
  unfold accepted at hRefused
  cases hCheck : payload.check cfg.horizonK with
  | some error =>
      simp [handleMessage, dispatch, handle, hCheck]
  | none =>
      cases hVet : vet payload with
      | error error =>
          simp [handleMessage, dispatch, handle, process,
            hCheck, hVet]
      | ok entry =>
          simp [hCheck, hVet, Except.toOption] at hRefused

theorem settled_acked
    (w : World 𝕜)
    (payload : Forecast 𝕜)
    (tenant : Uuid)
    (peak : 𝕜)
    (state : HostEpisodeState 𝕜) :
    (w.settled cfg payload tenant peak state).acked =
      w.acked := by
  unfold World.settled
  cases transitionOf cfg w payload peak state with
  | none => rfl
  | some transition => rfl

/- Without an expired state the last state is read. -/
theorem stateOf_of_unexpired
    {w : World 𝕜}
    {key : String × String}
    (hUnexpired : w.Unexpired key) :
    w.stateOf key = w.lastState key := by
  rcases stateOf_eq w key with hSame | ⟨hGet, hNew⟩
  · exact hSame
  · rw [hNew, World.lastState, hUnexpired hGet]

/- The next message of such a run is handled in order. -/
theorem Handled.inOrder
    {count : ℕ}
    {w : World 𝕜}
    (hHandled : Handled cfg messages key count w)
    {payload : Forecast 𝕜}
    (hKey : episodeKey payload = key)
    {state : HostEpisodeState 𝕜}
    (hLast : w.lastState key = some state)
    (peak : 𝕜) :
    KeptAttempt cfg messages w count saveEffects payload peak
      state := by
  rcases hHandled.follows with
    ⟨reached, other, past, shown, hFollows⟩
  have hSame := hFollows.remembered
  rw [hLast, Option.some.injEq] at hSame
  subst hSame
  refine
    { inOrder := ?_
      notExpired := ?_
      openingSaved := fun _ _ _ => le_rfl }
  · intro before hBefore earlier hMessage hAccepted
    have hCounted :=
      hFollows.acked before
        (hHandled.acked before hBefore earlier hMessage
          hAccepted)
    have hSeen :=
      ledgerAfter_seen hCounted hMessage hAccepted
    rw [hFollows.state_eq, isStale_unnamed] at hSeen
    exact hSeen
  · intro hGet
    rw [hKey, Option.isNone_iff_eq_none] at hGet
    rw [World.lastState, hHandled.unexpired hGet,
      Option.some.injEq] at hLast
    subst hLast
    exact ⟨rfl, rfl⟩

/- Handling the next message keeps this. -/
theorem Handled.next
    {count : ℕ}
    {w : World 𝕜}
    (hHandled : Handled cfg messages key count w)
    {payload : Forecast 𝕜}
    (hMessage : messages[count]? = some payload)
    (hKey : episodeKey payload = key) :
    Handled cfg messages key (count + 1)
      ((handleMessage cfg count payload).exec w) := by
  cases hAccepted : accepted cfg payload with
  | none =>
      rw [exec_of_refused hAccepted]
      refine
        { follows := hHandled.follows
          unexpired := hHandled.unexpired
          acked := ?_ }
      intro message hBefore other hOther hOk
      rcases Nat.lt_succ_iff_lt_or_eq.mp hBefore with
        hEarlier | rfl
      · exact hHandled.acked message hEarlier other hOther hOk
      · rw [hMessage, Option.some.injEq] at hOther
        rw [← hOther, hAccepted] at hOk
        contradiction
  | some entry =>
      rcases entry with ⟨uuid, peak⟩
      rcases hHandled.follows with
        ⟨reached, state, past, shown, hFollows⟩
      have hLast := hFollows.remembered
      have hState :
          w.stateOf (episodeKey payload) = some state := by
        rw [hKey, stateOf_of_unexpired hHandled.unexpired]
        exact hLast
      have hExec := exec_of_accepted hAccepted hState count
      refine
        { follows := ?_
          unexpired := ?_
          acked := ?_ }
      · exact
          outcome_follows hFollows hMessage hKey
            (eq_streamTenant hKey)
            (exec_outcome hAccepted hState count)
            (fun _ top _ _ =>
              hHandled.inOrder hKey hLast top)
      · rw [hExec, ← hKey]
        exact
          unexpired_settled (hKey ▸ hHandled.unexpired)
            uuid peak state
      · intro message hBefore other hOther hOk
        rw [hExec, World.withAcks, settled_acked]
        rcases Nat.lt_succ_iff_lt_or_eq.mp hBefore with
          hEarlier | rfl
        · exact
            List.mem_append_left _
              (hHandled.acked message hEarlier other hOther
                hOk)
        · exact List.mem_append_right _ List.mem_cons_self

include hHost

/- Handling the rest of the stream keeps this. -/
theorem Handled.rest
    (rest : List (Forecast 𝕜))
    {count : ℕ}
    {w : World 𝕜}
    (hRest : ∀ i, rest[i]? = messages[count + i]?)
    (hHandled : Handled cfg messages key count w) :
    Handled cfg messages key (count + rest.length)
      ((rest.zipIdx count).foldl
        (fun w entry =>
          (handleMessage cfg entry.2 entry.1).exec w) w) := by
  induction rest generalizing count w with
  | nil => exact hHandled
  | cons payload rest ih =>
      have hMessage : messages[count]? = some payload :=
        (hRest 0).symm
      have hKey :=
        hHost payload (List.mem_of_getElem? hMessage)
      rw [List.zipIdx_cons, List.foldl_cons,
        List.length_cons, Nat.add_comm rest.length 1,
        ← Nat.add_assoc]
      refine ih ?_ (hHandled.next hMessage hKey)
      intro i
      rw [Nat.add_assoc, Nat.add_comm 1 i]
      exact hRest (i + 1)

/- The run without crashes handles every message. -/
theorem crashFree_handled (now : ℚ) :
    Handled cfg messages key messages.length
      (crashFree cfg messages now) := by
  have hStart :
      Handled cfg messages key 0 (World.start now) :=
    { follows := start_follows now
      unexpired := fun _ => by simp [World.start]
      acked := fun message hBefore =>
        absurd hBefore (Nat.not_lt_zero message) }
  have hAll := hStart.rest hHost messages (by simp)
  rw [Nat.zero_add] at hAll
  exact hAll

/-
  In every run of kept attempts on the forecasts of one host,
  with any crashes, redeliveries and time between them, the
  episode rows agree with those of the run without crashes.
-/
theorem episodesAgree_of_allKept
    (now : ℚ)
    (events : List Event)
    (hKept :
      AllAlong (World.step cfg messages) (Kept cfg messages)
        (World.start now) events) :
    EpisodesAgree cfg messages key now
      ((World.start now).runEvents cfg messages events) := by
  rcases run_follows hHost now events hKept with
    ⟨count, state, past, shown, hFollows⟩
  have hHandled :
      Handled cfg messages key messages.length _ :=
    crashFree_handled hHost now
  rcases hHandled.follows with
    ⟨count', state', past', shown', hFree⟩
  refine
    { oneOpen := hFollows.oneOpen
      openRemembered := fun _ => hFollows.openRemembered
      rememberedStored := fun _ => hFollows.rememberedStored
      agree := ?_ }
  intro hAcked
  rw [hFollows.rows_of_acked hAcked]
  refine (hFree.rows_of_acked ?_).symm
  intro message payload hMessage hAccepted
  exact
    hHandled.acked message
      (List.getElem?_eq_some_iff.mp hMessage).1
      payload hMessage hAccepted

end Runs

------------------------------------------------------------
-- Two runs
------------------------------------------------------------

/- One forecast below the line closes an episode. -/
def quickRules : PersisterConfig ℚ :=
  { rules :=
      { riskThreshold := 1 / 2
        closeAfter := 1
        leadTimeM := 1 }
    horizonK := 1 }

def demoHost : String × String :=
  ("00000000-0000-0000-0000-000000000001", "10.0.0.1")

/- A forecast of one host with a given peak. -/
def demoForecast (originTs peak : ℚ) : Forecast ℚ :=
  { tenantId := demoHost.1
    hostId := demoHost.2
    originTs := originTs
    horizons :=
      [{ k := 1
         ts := originTs + 60
         pCompromise := peak
         ciLow := 0
         ciHigh := 1
         stageDist := [("benign", 1)]
         predictedFeatures := [] }]
    leadTimeS := none
    observedStage := "recon"
    observedRisk := 0
    topSignals := []
    drivingWindow := 0
    modelVersion := "demo" }

/- The risk rises and falls. -/
def riseAndFall : List (Forecast ℚ) :=
  [demoForecast 0 (3 / 4), demoForecast 60 (1 / 4)]

/-
  The first forecast crashes before its commit, the second
  between its commit and the write of the state, and both
  are delivered again.
-/
def crashedInOrder : List Event :=
  [.attempt 0 2, .attempt 0 5, .attempt 1 3, .attempt 1 5]

theorem episodesAgree_crashedInOrder :
    EpisodesAgree quickRules riseAndFall demoHost 0
      ((World.start 0).runEvents quickRules riseAndFall
        crashedInOrder) := by
  apply episodesAgree_of_allKept
  · intro payload hMem
    rcases List.mem_pair.mp hMem with rfl | rfl
    · rfl
    · rfl
  · decide +kernel

/- The one who opens an episode crashes after its commit. -/
def crashedOpening : List Event :=
  [.attempt 0 3, .attempt 0 5]

/- Two rows are left open. -/
theorem not_episodesAgree_crashedOpening :
    ¬ EpisodesAgree quickRules riseAndFall demoHost 0
      ((World.start 0).runEvents quickRules riseAndFall
        crashedOpening) := by
  intro hAgree
  have hTwo :
      (((World.start 0).runEvents quickRules riseAndFall
        crashedOpening).episodes.filter
          (fun row => row.endedAt.isNone)).length = 2 := by
    decide +kernel
  have hOne := hAgree.oneOpen
  rw [hTwo] at hOne
  contradiction

end Persister

end Nidra
