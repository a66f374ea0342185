import Nidra.Common.InHand
import Nidra.Lib.History
import Nidra.Lib.Record

/-
  This file notes down what consumers do with messages, and
  states that in every run an acknowledgement comes after the
  return of a handler that was called on the message.

  Key definitions include:
    * `Note`, `Group.note`, `Group.log`
    * `Seen`
    * `Called`, `Handled`, `Earned`

  Main declarations:
    * `seen_of_note`
    * `Earned.step`
-/

namespace Nidra

namespace Bus

set_option linter.unusedSectionVars false

variable {σ μ κ : Type}

------------------------------------------------------------
-- Notes
------------------------------------------------------------

/-
  What is seen of a consumer: it was given new messages; it
  was given messages by a claim from a cursor on, with where
  to go on; it called the handler on a message; the handler
  returned; it acknowledged the message.
-/
inductive Note (μ : Type) where
  | read (name : String) (batch : List ℕ)
  | reclaimed
      (name : String)
      (cursor : ℕ)
      (batch : List ℕ)
      (next : Option ℕ)
  | called (name : String) (id : ℕ) (message : μ)
  | returned (name : String) (id : ℕ)
  | acked (name : String) (id : ℕ)
  deriving DecidableEq

/- What an effect of a handler has to be noted down. -/
def Progress.note
    (name : String)
    (id : ℕ) : Progress κ → Option (Note μ)
  | .going _ => none
  | .returned => some (.returned name id)
  | .raised => none

section Notes

variable (cfg : BusConfig)
variable (service : Service σ μ κ)

/- What is seen of a move. -/
def Group.note
    (g : Group σ μ κ) : Move μ → Option (Note μ)
  | .read name =>
      if g.idle name then some (.read name (g.unread cfg))
      else none
  | .reclaim name cursor =>
      if g.idle name then
        some
          (.reclaimed name cursor
            ((g.claimable cfg cursor).filter
              (fun id => g.trimmed ≤ id))
            (g.nextCursor cfg cursor))
      else none
  | .dispatch name =>
      match (g.consumers name).task,
        (g.consumers name).batch with
      | none, id :: _ =>
          g.stream[id]?.map (fun message =>
            .called name id message)
      | _, _ => none
  | .work name =>
      match (g.consumers name).task with
      | none => none
      | some (id, .returned) => some (.acked name id)
      | some (id, .running rest) =>
          (service.effect rest g.shared).1.note name id
  | _ => none

/- Which note each move can leave, and when. -/
inductive Seen
    (g : Group σ μ κ) : Move μ → Note μ → Prop where
  | read
      (name : String)
      (hIdle : g.idle name = true) :
      Seen g (.read name) (.read name (g.unread cfg))
  | reclaimed
      (name : String)
      (cursor : ℕ)
      (hIdle : g.idle name = true) :
      Seen g (.reclaim name cursor)
        (.reclaimed name cursor
          ((g.claimable cfg cursor).filter
            (fun id => g.trimmed ≤ id))
          (g.nextCursor cfg cursor))
  | called
      (name : String)
      (id : ℕ)
      (message : μ)
      (hMessage : g.stream[id]? = some message) :
      Seen g (.dispatch name) (.called name id message)
  | returned
      (name : String)
      (id : ℕ)
      (rest : κ)
      (hTask :
        (g.consumers name).task = some (id, .running rest)) :
      Seen g (.work name) (.returned name id)
  | acked
      (name : String)
      (id : ℕ)
      (hTask :
        (g.consumers name).task = some (id, .returned)) :
      Seen g (.work name) (.acked name id)

theorem seen_of_note
    {g : Group σ μ κ}
    {move : Move μ}
    {note : Note μ}
    (hNote : g.note cfg service move = some note) :
    Seen cfg g move note := by
  cases move with
  | read name =>
      simp only [Group.note] at hNote
      split at hNote
      · next hIdle =>
          cases hNote
          exact .read name hIdle
      · cases hNote
  | reclaim name cursor =>
      simp only [Group.note] at hNote
      split at hNote
      · next hIdle =>
          cases hNote
          exact .reclaimed name cursor hIdle
      · cases hNote
  | dispatch name =>
      simp only [Group.note] at hNote
      split at hNote
      · rcases Option.map_eq_some_iff.mp hNote with
          ⟨message, hMessage, hEq⟩
        cases hEq
        exact .called name _ message hMessage
      · cases hNote
  | work name =>
      simp only [Group.note] at hNote
      split at hNote
      · cases hNote
      · next hTask =>
          cases hNote
          exact .acked name _ hTask
      · next rest hTask =>
          cases hProgress :
              (service.effect rest g.shared).1 with
          | returned =>
              rw [hProgress, Progress.note] at hNote
              cases hNote
              exact .returned name _ rest hTask
          | going next => simp [hProgress, Progress.note] at hNote
          | raised => simp [hProgress, Progress.note] at hNote
  | wait _ => cases hNote
  | publish _ => cases hNote
  | trim _ => cases hNote
  | fail _ => cases hNote
  | leave _ => cases hNote
  | crash _ => cases hNote

/- What is seen of a run. -/
def Group.log
    (g : Group σ μ κ)
    (moves : List (Move μ)) : List (Note μ) :=
  record (Group.step cfg service) (Group.note cfg service) g
    moves

end Notes

------------------------------------------------------------
-- Acknowledgements
------------------------------------------------------------

section Earned

variable (cfg : BusConfig)
variable (service : Service σ μ κ)

/- A consumer has called its handler on the message. -/
def Called
    (stream : List μ)
    (log : List (Note μ))
    (name : String)
    (id : ℕ) : Prop :=
  ∃ message,
    stream[id]? = some message ∧
      .called name id message ∈ log

/- The handler was called on the message and has returned. -/
def Handled
    (stream : List μ)
    (log : List (Note μ))
    (name : String)
    (id : ℕ) : Prop :=
  ∃ message,
    stream[id]? = some message ∧
      [.called name id message, .returned name id].Sublist log

/-
  A handler that runs was called on its message, one that is
  through has returned, and nothing is acknowledged before
  its handler has returned.
-/
structure Earned
    (log : List (Note μ))
    (g : Group σ μ κ) : Prop where
  running :
    ∀ name id rest,
      (g.consumers name).task = some (id, .running rest) →
        Called g.stream log name id
  returned :
    ∀ name id,
      (g.consumers name).task = some (id, .returned) →
        Handled g.stream log name id
  acked :
    log.EachAfter (fun before note =>
      ∀ name id,
        note = .acked name id →
          Handled g.stream before name id)

theorem getElem?_of_isPrefix
    {stream longer : List μ}
    (hPrefix : stream <+: longer)
    {id : ℕ}
    {message : μ}
    (hMessage : stream[id]? = some message) :
    longer[id]? = some message := by
  rcases hPrefix with ⟨rest, rfl⟩
  rw [List.getElem?_append_left
    (List.getElem?_eq_some_iff.mp hMessage).1]
  exact hMessage

theorem Called.mono
    {stream longer : List μ}
    {log : List (Note μ)}
    {name : String}
    {id : ℕ}
    (hCalled : Called stream log name id)
    (hPrefix : stream <+: longer)
    (more : List (Note μ)) :
    Called longer (log ++ more) name id := by
  rcases hCalled with ⟨message, hMessage, hMem⟩
  exact
    ⟨message, getElem?_of_isPrefix hPrefix hMessage,
      List.mem_append_left _ hMem⟩

theorem Handled.mono
    {stream longer : List μ}
    {log : List (Note μ)}
    {name : String}
    {id : ℕ}
    (hHandled : Handled stream log name id)
    (hPrefix : stream <+: longer)
    (more : List (Note μ)) :
    Handled longer (log ++ more) name id := by
  rcases hHandled with ⟨message, hMessage, hSublist⟩
  exact
    ⟨message, getElem?_of_isPrefix hPrefix hMessage,
      hSublist.trans (List.sublist_append_left _ _)⟩

/- The return of a handler comes after its call. -/
theorem Called.handled
    {stream : List μ}
    {log : List (Note μ)}
    {name : String}
    {id : ℕ}
    (hCalled : Called stream log name id) :
    Handled stream (log ++ [Note.returned name id])
      name id := by
  rcases hCalled with ⟨message, hMessage, hMem⟩
  refine ⟨message, hMessage, ?_⟩
  have hCall :
      [Note.called name id message].Sublist log :=
    List.singleton_sublist.mpr hMem
  exact
    hCall.append (List.Sublist.refl [Note.returned name id])

/- A running handler was running, or is called by the move. -/
theorem running_step
    {g : Group σ μ κ}
    {move : Move μ}
    {name : String}
    {id : ℕ}
    {rest : κ}
    (hTask :
      ((g.step cfg service move).consumers name).task =
        some (id, .running rest)) :
    (∃ last,
        (g.consumers name).task =
          some (id, .running last)) ∨
      ∃ message,
        g.stream[id]? = some message ∧
          g.note cfg service move =
            some (.called name id message) := by
  cases Group.taskAfter_step cfg service hTask with
  | before _ hBefore => exact Or.inl ⟨rest, hBefore⟩
  | worked last hLast _ => exact Or.inl ⟨last, hLast⟩
  | started message hMessage _ =>
      simp only [Group.step, Group.dispatch] at hTask
      split at hTask
      · next first batch hNone hBatch =>
          rw [Group.withConsumer_self] at hTask
          rcases Option.map_eq_some_iff.mp hTask with
            ⟨found, hFound, hStart⟩
          cases hStart
          refine Or.inr ⟨found, hFound, ?_⟩
          simp [Group.note, hNone, hBatch, hFound]
      · exact Or.inl ⟨rest, hTask⟩

/- A handler that is through was, or returns in the move. -/
theorem returned_step
    {g : Group σ μ κ}
    {move : Move μ}
    {name : String}
    {id : ℕ}
    (hTask :
      ((g.step cfg service move).consumers name).task =
        some (id, .returned)) :
    (g.consumers name).task = some (id, .returned) ∨
      (∃ rest,
          (g.consumers name).task =
            some (id, .running rest)) ∧
        g.note cfg service move =
          some (.returned name id) := by
  by_cases hOther : ∀ other ∈ move.consumer, name ≠ other
  · rw [Group.consumers_step_of_ne cfg service g hOther]
      at hTask
    exact Or.inl hTask
  push Not at hOther
  rcases hOther with ⟨other, hMove, rfl⟩
  cases move with
  | wait _ => cases hMove
  | publish _ => cases hMove
  | trim _ => cases hMove
  | read other =>
      cases hMove
      simp only [Group.step, Group.read] at hTask
      split at hTask
      · simp [Group.withConsumer] at hTask
      · exact Or.inl hTask
  | reclaim other cursor =>
      cases hMove
      simp only [Group.step, Group.reclaim] at hTask
      split at hTask
      · simp [Group.withConsumer] at hTask
      · exact Or.inl hTask
  | dispatch other =>
      cases hMove
      simp only [Group.step, Group.dispatch] at hTask
      split at hTask
      · rw [Group.withConsumer_self] at hTask
        rcases Option.map_eq_some_iff.mp hTask with
          ⟨message, _, hStart⟩
        cases hStart
      · exact Or.inl hTask
  | work other =>
      cases hMove
      simp only [Group.step, Group.work] at hTask
      split at hTask
      · exact Or.inl hTask
      · simp [Group.acknowledge, Group.release,
          Group.withConsumer] at hTask
      · next first rest hRunning =>
          cases hProgress :
              (service.effect rest g.shared).1 with
          | going next =>
              simp only [hProgress, Group.progressed,
                Group.handling, Group.withConsumer_self]
                at hTask
              cases hTask
          | returned =>
              simp only [hProgress, Group.progressed,
                Group.handling, Group.withConsumer_self]
                at hTask
              cases hTask
              refine Or.inr ⟨⟨rest, hRunning⟩, ?_⟩
              simp [Group.note, hRunning, hProgress,
                Progress.note]
          | raised =>
              simp only [hProgress, Group.progressed,
                Group.release, Group.withConsumer_self]
                at hTask
              cases hTask
  | fail other =>
      cases hMove
      simp only [Group.step, Group.fail] at hTask
      split at hTask
      · exact Or.inl hTask
      · simp [Group.release, Group.withConsumer] at hTask
      · simp [Group.withConsumer] at hTask
  | leave other =>
      cases hMove
      simp only [Group.step, Group.leave] at hTask
      split at hTask
      · simp [Group.withConsumer] at hTask
      · exact Or.inl hTask
  | crash other =>
      cases hMove
      simp [Group.step, Group.withConsumer] at hTask

/- Only what a handler is through with is acknowledged. -/
theorem task_of_acked
    {g : Group σ μ κ}
    {move : Move μ}
    {name : String}
    {id : ℕ}
    (hNote :
      g.note cfg service move = some (.acked name id)) :
    (g.consumers name).task = some (id, .returned) := by
  cases seen_of_note cfg service hNote with
  | acked _ _ hTask => exact hTask

theorem Earned.start
    (now : ℚ)
    (shared : σ) :
    Earned [] (Group.start now shared : Group σ μ κ) :=
  { running := by
      intro name id rest hTask
      simp [Group.start] at hTask
    returned := by
      intro name id hTask
      simp [Group.start] at hTask
    acked := List.eachAfter_nil }

/- A move acknowledges nothing that was not handled. -/
theorem Earned.step
    {log : List (Note μ)}
    {g : Group σ μ κ}
    (hEarned : Earned log g)
    (move : Move μ) :
    Earned (log ++ (g.note cfg service move).toList)
      (g.step cfg service move) := by
  have hPrefix := (g.later_step cfg service move).stream
  refine
    { running := ?_
      returned := ?_
      acked := ?_ }
  · intro name id rest hTask
    rcases running_step cfg service hTask with
      ⟨last, hLast⟩ | ⟨message, hMessage, hNote⟩
    · exact
        (hEarned.running name id last hLast).mono hPrefix _
    · refine
        ⟨message, getElem?_of_isPrefix hPrefix hMessage, ?_⟩
      simp [hNote]
  · intro name id hTask
    rcases returned_step cfg service hTask with
      hBefore | ⟨⟨rest, hRunning⟩, hNote⟩
    · exact
        (hEarned.returned name id hBefore).mono hPrefix _
    · have hHandled :=
        (hEarned.running name id rest hRunning).handled
      rw [hNote]
      simpa using hHandled.mono hPrefix []
  · have hOld :
        log.EachAfter (fun before note =>
          ∀ name id,
            note = .acked name id →
              Handled (g.step cfg service move).stream
                before name id) := by
      intro before note after hEq name id hAcked
      have hHandled :=
        hEarned.acked before note after hEq name id hAcked
      simpa using hHandled.mono hPrefix []
    cases hNote : g.note cfg service move with
    | none => simpa using hOld
    | some note =>
        apply List.eachAfter_concat hOld
        intro name id hAcked
        rw [hAcked] at hNote
        have hTask := task_of_acked cfg service hNote
        have hHandled := hEarned.returned name id hTask
        simpa using hHandled.mono hPrefix []

end Earned

end Bus

end Nidra
