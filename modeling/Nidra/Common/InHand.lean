import Nidra.Common.Bus

/-
  This file states what a move does to the shared state and
  to the handlers that are running, and from it the rule for
  a property of both that the effects keep.

  Key definitions include:
    * `Group.TaskAfter`
    * `Group.Sound`

  Main declarations:
    * `Group.taskAfter_step`
    * `Group.shared_step`
    * `Group.Sound.step`
-/

namespace Nidra

namespace Bus

variable {σ μ κ : Type}
variable (cfg : BusConfig)
variable (service : Service σ μ κ)

namespace Group

------------------------------------------------------------
-- What a move does
------------------------------------------------------------

/-
  Where a running handler comes from: it was running before,
  it was just started on its message, or it is what the
  effect that was just done has left.
-/
inductive TaskAfter
    (g : Group σ μ κ)
    (name : String)
    (id : ℕ)
    (rest : κ) : Move μ → Prop where
  | before
      (move : Move μ)
      (hTask :
        (g.consumers name).task = some (id, .running rest)) :
      TaskAfter g name id rest move
  | started
      (message : μ)
      (hMessage : g.stream[id]? = some message)
      (hStart : rest = service.start message) :
      TaskAfter g name id rest (.dispatch name)
  | worked
      (last : κ)
      (hTask :
        (g.consumers name).task = some (id, .running last))
      (hGoing : (service.effect last g.shared).1 = .going rest) :
      TaskAfter g name id rest (.work name)

theorem withConsumer_self
    (g : Group σ μ κ)
    (name : String)
    (consumer : Consumer κ) :
    (g.withConsumer name consumer).consumers name =
      consumer :=
  Function.update_self _ _ _

/- A handler that has just been dispatched is at its start. -/
theorem taskAfter_dispatch
    {g : Group σ μ κ}
    {name : String}
    {id : ℕ}
    {rest : κ}
    (hTask :
      ((g.dispatch service name).consumers name).task =
        some (id, .running rest)) :
    TaskAfter service g name id rest (.dispatch name) := by
  unfold dispatch at hTask
  split at hTask
  · next first batch hNone hBatch =>
      rw [withConsumer_self] at hTask
      rcases Option.map_eq_some_iff.mp hTask with
        ⟨message, hMessage, hStart⟩
      cases hStart
      exact .started message hMessage rfl
  · exact .before _ hTask

/- A handler that has just worked goes on with the rest. -/
theorem taskAfter_work
    {g : Group σ μ κ}
    {name : String}
    {id : ℕ}
    {rest : κ}
    (hTask :
      ((g.work service name).consumers name).task =
        some (id, .running rest)) :
    TaskAfter service g name id rest (.work name) := by
  unfold work at hTask
  split at hTask
  · exact .before _ hTask
  · simp [acknowledge, release, withConsumer] at hTask
  · next first last hLast =>
      cases hProgress : (service.effect last g.shared).1 with
      | going next =>
          simp only [hProgress, progressed, handling,
            withConsumer_self] at hTask
          cases hTask
          exact .worked last hLast hProgress
      | returned =>
          simp only [hProgress, progressed, handling,
            withConsumer_self] at hTask
          cases hTask
      | raised =>
          simp only [hProgress, progressed, release,
            withConsumer_self] at hTask
          cases hTask

/- A move leaves a consumer with a handler only so. -/
theorem taskAfter_step
    {g : Group σ μ κ}
    {move : Move μ}
    {name : String}
    {id : ℕ}
    {rest : κ}
    (hTask :
      ((g.step cfg service move).consumers name).task =
        some (id, .running rest)) :
    TaskAfter service g name id rest move := by
  by_cases hOther : ∀ other ∈ move.consumer, name ≠ other
  · rw [consumers_step_of_ne cfg service g hOther] at hTask
    exact .before move hTask
  push Not at hOther
  rcases hOther with ⟨other, hMove, rfl⟩
  cases move with
  | wait _ => cases hMove
  | publish _ => cases hMove
  | trim _ => cases hMove
  | read other =>
      cases hMove
      simp only [step, read] at hTask
      split at hTask
      · simp [withConsumer] at hTask
      · exact .before _ hTask
  | reclaim other cursor =>
      cases hMove
      simp only [step, reclaim] at hTask
      split at hTask
      · simp [withConsumer] at hTask
      · exact .before _ hTask
  | dispatch other =>
      cases hMove
      exact taskAfter_dispatch service hTask
  | work other =>
      cases hMove
      exact taskAfter_work service hTask
  | fail other =>
      cases hMove
      simp only [step, fail] at hTask
      split at hTask
      · exact .before _ hTask
      · simp [release, withConsumer] at hTask
      · simp [withConsumer] at hTask
  | leave other =>
      cases hMove
      simp only [step, leave] at hTask
      split at hTask
      · simp [withConsumer] at hTask
      · exact .before _ hTask
  | crash other =>
      cases hMove
      simp [step, withConsumer] at hTask

/- Only the effect of a running handler changes the state. -/
theorem shared_step
    (g : Group σ μ κ)
    (move : Move μ) :
    (g.step cfg service move).shared = g.shared ∨
      ∃ name id rest,
        move = .work name ∧
          (g.consumers name).task =
              some (id, .running rest) ∧
            (g.step cfg service move).shared =
              (service.effect rest g.shared).2 := by
  cases move with
  | work name =>
      simp only [step, work]
      split
      · exact Or.inl rfl
      · exact Or.inl rfl
      · next id rest hTask =>
          exact Or.inr ⟨name, id, rest, rfl, hTask, rfl⟩
  | read _ =>
      left
      simp only [step, read]
      split <;> rfl
  | reclaim _ _ =>
      left
      simp only [step, reclaim]
      split <;> rfl
  | dispatch _ =>
      left
      simp only [step, dispatch]
      split <;> rfl
  | fail _ =>
      left
      simp only [step, fail]
      split <;> rfl
  | leave _ =>
      left
      simp only [step, leave]
      split <;> rfl
  | wait _ => exact Or.inl rfl
  | publish _ => exact Or.inl rfl
  | trim _ => exact Or.inl rfl
  | crash _ => exact Or.inl rfl

------------------------------------------------------------
-- The rule
------------------------------------------------------------

/-
  A property of the state that is shared, and one of every
  handler that is running.
-/
structure Sound
    (inv : σ → Prop)
    (fit : κ → Prop)
    (g : Group σ μ κ) : Prop where
  shared : inv g.shared
  inHand :
    ∀ name id rest,
      (g.consumers name).task = some (id, .running rest) →
        fit rest

theorem Sound.start
    {inv : σ → Prop}
    (fit : κ → Prop)
    {shared : σ}
    (hInv : inv shared)
    (now : ℚ) :
    Sound inv fit (Group.start now shared : Group σ μ κ) :=
  { shared := hInv
    inHand := by
      intro name id rest hTask
      simp [Group.start] at hTask }

/-
  Both are kept by a move if handlers start fit, and if the
  effect that the move has done, if it has one done, keeps
  them.
-/
theorem Sound.step
    {inv : σ → Prop}
    {fit : κ → Prop}
    {g : Group σ μ κ}
    (hSound : Sound inv fit g)
    {move : Move μ}
    (hStart : ∀ message, fit (service.start message))
    (hEffect :
      ∀ name id rest,
        move = .work name →
          (g.consumers name).task =
              some (id, .running rest) →
            inv (service.effect rest g.shared).2 ∧
              ∀ next,
                (service.effect rest g.shared).1 =
                    .going next →
                  fit next) :
    Sound inv fit (g.step cfg service move) := by
  constructor
  · rcases shared_step cfg service g move with
      hSame | ⟨name, id, rest, hMove, hTask, hAfter⟩
    · rw [hSame]
      exact hSound.shared
    · rw [hAfter]
      exact (hEffect name id rest hMove hTask).1
  · intro name id rest hTask
    cases taskAfter_step cfg service hTask with
    | before _ hBefore =>
        exact hSound.inHand name id rest hBefore
    | started message _ hRest =>
        rw [hRest]
        exact hStart message
    | worked last hLast hGoing =>
        exact
          (hEffect name id last rfl hLast).2 rest hGoing

end Group

end Bus

end Nidra
