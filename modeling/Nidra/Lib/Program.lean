import Mathlib
import Nidra.Lib.Numerals

/-
  This file defines resumable programs over a shared state:
  a program is a tree of indivisible effects, so that it can
  be run to the end, or stopped after any number of its
  effects.

  Key definitions include:
    * `Program`
    * `Program.bind`
    * `Program.step`
    * `Program.run`, `Program.exec`, `Program.eval`
    * `Program.attempt`, `Program.resume`, `Program.cut`
    * `Program.trace`, `Program.applyAll`
    * `Program.zoom`
    * `Program.Keeps`
-/

/-
  A program over a state. `effect update next` performs one
  indivisible effect: the state `s` becomes `update s`, and
  the program goes on with `next s`, so that an effect may
  read the state it changes.
-/
inductive Program (σ α : Type) where
  | done (value : α)
  | effect
      (update : σ → σ)
      (next : σ → Program σ α)

namespace Program

variable {σ α β γ : Type}

------------------------------------------------------------
-- Sequencing
------------------------------------------------------------

/- Run `f` on the value of a program once it is done. -/
def bind
    (p : Program σ α)
    (f : α → Program σ β) : Program σ β :=
  match p with
  | .done a => f a
  | .effect update next =>
      .effect update (fun s => (next s).bind f)

instance : Monad (Program σ) where
  pure := .done
  bind := bind

/- One effect that reads and writes the state. -/
def step (f : σ → α × σ) : Program σ α :=
  .effect (fun s => (f s).2) (fun s => .done (f s).1)

/- One effect that only reads the state. -/
def read (f : σ → α) : Program σ α :=
  .effect id (fun s => .done (f s))

/- One effect that only writes the state. -/
def write (f : σ → σ) : Program σ Unit :=
  .effect f (fun _ => .done ())

------------------------------------------------------------
-- Running to the end
------------------------------------------------------------

/- The value and the state after every effect. -/
def run : Program σ α → σ → α × σ
  | .done a, s => (a, s)
  | .effect update next, s => (next s).run (update s)

/- The state after every effect. -/
def exec (p : Program σ α) (s : σ) : σ :=
  (p.run s).2

/- The value of a program that runs to the end. -/
def eval (p : Program σ α) (s : σ) : α :=
  (p.run s).1

@[simp] theorem run_done
    (a : α)
    (s : σ) :
    (done a : Program σ α).run s = (a, s) := rfl

@[simp] theorem run_pure
    (a : α)
    (s : σ) :
    (pure a : Program σ α).run s = (a, s) := rfl

@[simp] theorem run_step
    (f : σ → α × σ)
    (s : σ) :
    (step f).run s = f s := rfl

@[simp] theorem run_read
    (f : σ → α)
    (s : σ) :
    (read f).run s = (f s, s) := rfl

@[simp] theorem run_write
    (f : σ → σ)
    (s : σ) :
    (write f).run s = ((), f s) := rfl

/- Running a sequence runs its parts one after the other. -/
@[simp] theorem run_bind
    (p : Program σ α)
    (f : α → Program σ β)
    (s : σ) :
    (p >>= f).run s =
      (f (p.run s).1).run (p.run s).2 := by
  change (p.bind f).run s = _
  induction p generalizing s with
  | done a => rfl
  | effect update next ih =>
      exact ih s (update s)

@[simp] theorem exec_pure
    (a : α)
    (s : σ) :
    (pure a : Program σ α).exec s = s := rfl

@[simp] theorem eval_pure
    (a : α)
    (s : σ) :
    (pure a : Program σ α).eval s = a := rfl

@[simp] theorem exec_step
    (f : σ → α × σ)
    (s : σ) :
    (step f).exec s = (f s).2 := rfl

@[simp] theorem eval_step
    (f : σ → α × σ)
    (s : σ) :
    (step f).eval s = (f s).1 := rfl

@[simp] theorem exec_read
    (f : σ → α)
    (s : σ) :
    (read f).exec s = s := rfl

@[simp] theorem eval_read
    (f : σ → α)
    (s : σ) :
    (read f).eval s = f s := rfl

@[simp] theorem exec_write
    (f : σ → σ)
    (s : σ) :
    (write f).exec s = f s := rfl

@[simp] theorem exec_bind
    (p : Program σ α)
    (f : α → Program σ β)
    (s : σ) :
    (p >>= f).exec s = (f (p.eval s)).exec (p.exec s) := by
  simp [exec, eval]

@[simp] theorem eval_bind
    (p : Program σ α)
    (f : α → Program σ β)
    (s : σ) :
    (p >>= f).eval s = (f (p.eval s)).eval (p.exec s) := by
  simp [exec, eval]

------------------------------------------------------------
-- Stopping after some effects
------------------------------------------------------------

/-
  Run a program that stops once `budget` effects are done.
  The answer is `none` when the program was stopped, and
  otherwise its value with the effects that were left.
-/
def attempt :
    Program σ α → ℕ → σ → Option (α × ℕ) × σ
  | .done a, budget, s => (some (a, budget), s)
  | .effect _ _, 0, s => (none, s)
  | .effect update next, budget + 1, s =>
      (next s).attempt budget (update s)

@[simp] theorem attempt_done
    (a : α)
    (budget : ℕ)
    (s : σ) :
    (done a : Program σ α).attempt budget s =
      (some (a, budget), s) := by
  cases budget <;> rfl

@[simp] theorem attempt_pure
    (a : α)
    (budget : ℕ)
    (s : σ) :
    (pure a : Program σ α).attempt budget s =
      (some (a, budget), s) :=
  attempt_done a budget s

@[simp] theorem attempt_effect_zero
    (update : σ → σ)
    (next : σ → Program σ α)
    (s : σ) :
    (effect update next).attempt 0 s = (none, s) := rfl

@[simp] theorem attempt_effect_succ
    (update : σ → σ)
    (next : σ → Program σ α)
    (budget : ℕ)
    (s : σ) :
    (effect update next).attempt (budget + 1) s =
      (next s).attempt budget (update s) := rfl

@[simp] theorem attempt_step_zero
    (f : σ → α × σ)
    (s : σ) :
    (step f).attempt 0 s = (none, s) := rfl

@[simp] theorem attempt_step_succ
    (f : σ → α × σ)
    (budget : ℕ)
    (s : σ) :
    (step f).attempt (budget + 1) s =
      (some ((f s).1, budget), (f s).2) :=
  attempt_done _ _ _

@[simp] theorem attempt_read_zero
    (f : σ → α)
    (s : σ) :
    (read f).attempt 0 s = (none, s) := rfl

@[simp] theorem attempt_read_succ
    (f : σ → α)
    (budget : ℕ)
    (s : σ) :
    (read f).attempt (budget + 1) s =
      (some (f s, budget), s) :=
  attempt_done _ _ _

@[simp] theorem attempt_write_zero
    (f : σ → σ)
    (s : σ) :
    (write f).attempt 0 s = (none, s) := rfl

@[simp] theorem attempt_write_succ
    (f : σ → σ)
    (budget : ℕ)
    (s : σ) :
    (write f).attempt (budget + 1) s =
      (some ((), budget), f s) :=
  attempt_done _ _ _

/- The attempt as a program, without a value when it fails. -/
def cut :
    Program σ α → ℕ → Program σ (Option α)
  | .done a, _ => .done (some a)
  | .effect _ _, 0 => .done none
  | .effect update next, budget + 1 =>
      .effect update (fun s => (next s).cut budget)

theorem exec_cut
    (p : Program σ α)
    (budget : ℕ)
    (s : σ) :
    (p.cut budget).exec s = (p.attempt budget s).2 := by
  induction p generalizing budget s with
  | done a => rw [attempt_done]; rfl
  | effect update next ih =>
      cases budget with
      | zero => rfl
      | succ budget => exact ih s budget (update s)

/-
  The next effect of a program: what is left of it, and the
  state after the effect.
-/
def resume :
    Program σ α → σ → Program σ α × σ
  | .done a, s => (.done a, s)
  | .effect update next, s => (next s, update s)

theorem resume_read_bind
    (f : σ → α)
    (rest : α → Program σ β)
    (s : σ) :
    (read f >>= rest).resume s = (rest (f s), s) := rfl

/-
  An attempt at a sequence stops in the first part, or goes
  on with what the first part left of the budget.
-/
theorem attempt_bind
    (p : Program σ α)
    (f : α → Program σ β)
    (budget : ℕ)
    (s : σ) :
    (p >>= f).attempt budget s =
      match p.attempt budget s with
      | (none, s') => (none, s')
      | (some (a, left), s') => (f a).attempt left s' := by
  change (p.bind f).attempt budget s = _
  induction p generalizing budget s with
  | done a => simp [bind]
  | effect update next ih =>
      cases budget with
      | zero => rfl
      | succ budget => exact ih s budget (update s)

------------------------------------------------------------
-- Traces
------------------------------------------------------------

/- The effects of a run to the end, as changes of the state. -/
def trace : Program σ α → σ → List (σ → σ)
  | .done _, _ => []
  | .effect update next, s => update :: (next s).trace (update s)

/- The state after some changes. -/
def applyAll
    (s : σ)
    (updates : List (σ → σ)) : σ :=
  updates.foldl (fun s update => update s) s

@[simp] theorem trace_pure
    (a : α)
    (s : σ) :
    (pure a : Program σ α).trace s = [] := rfl

@[simp] theorem trace_step
    (f : σ → α × σ)
    (s : σ) :
    (step f).trace s = [fun s => (f s).2] := rfl

@[simp] theorem trace_read
    (f : σ → α)
    (s : σ) :
    (read f).trace s = [id] := rfl

@[simp] theorem trace_write
    (f : σ → σ)
    (s : σ) :
    (write f).trace s = [f] := rfl

/- The effects of a sequence are those of its parts. -/
@[simp] theorem trace_bind
    (p : Program σ α)
    (f : α → Program σ β)
    (s : σ) :
    (p >>= f).trace s =
      p.trace s ++ (f (p.eval s)).trace (p.exec s) := by
  change (p.bind f).trace s = _
  induction p generalizing s with
  | done a => rfl
  | effect update next ih =>
      exact congrArg (List.cons update) (ih s (update s))

theorem exec_eq_applyAll
    (p : Program σ α)
    (s : σ) :
    p.exec s = applyAll s (p.trace s) := by
  induction p generalizing s with
  | done a => rfl
  | effect update next ih => exact ih s (update s)

/- An attempt does the first effects of the run. -/
theorem attempt_eq_applyAll
    (p : Program σ α)
    (budget : ℕ)
    (s : σ) :
    (p.attempt budget s).2 =
      applyAll s ((p.trace s).take budget) := by
  induction p generalizing budget s with
  | done a => simp [trace, applyAll]
  | effect update next ih =>
      cases budget with
      | zero => rfl
      | succ budget => exact ih s budget (update s)

/- An attempt ends if its budget lasts for every effect. -/
theorem attempt_of_trace_le
    (p : Program σ α)
    {budget : ℕ}
    {s : σ}
    (hBudget : (p.trace s).length ≤ budget) :
    p.attempt budget s =
      (some (p.eval s, budget - (p.trace s).length),
        p.exec s) := by
  induction p generalizing budget s with
  | done a => simp [trace, eval, exec, run]
  | effect update next ih =>
      cases budget with
      | zero => simp [trace] at hBudget
      | succ budget =>
          have hRest :
              ((next s).trace (update s)).length ≤ budget := by
            simpa [trace] using hBudget
          have hAttempt := ih s hRest
          simp only [attempt_effect_succ, hAttempt, trace,
            List.length_cons, Nat.add_sub_add_right]
          rfl

/- An attempt stops if its budget does not last. -/
theorem attempt_of_lt_trace
    (p : Program σ α)
    {budget : ℕ}
    {s : σ}
    (hBudget : budget < (p.trace s).length) :
    (p.attempt budget s).1 = none := by
  induction p generalizing budget s with
  | done a => simp [trace] at hBudget
  | effect update next ih =>
      cases budget with
      | zero => rfl
      | succ budget =>
          apply ih s
          simpa [trace] using hBudget

------------------------------------------------------------
-- A part of a state
------------------------------------------------------------

section Zoom

variable {τ : Type}

/- Run a program on a part of a larger state. -/
def zoom
    (get : τ → σ)
    (set : τ → σ → τ) : Program σ α → Program τ α
  | .done a => .done a
  | .effect update next =>
      .effect
        (fun t => set t (update (get t)))
        (fun t => (next (get t)).zoom get set)

/- An attempt changes the part as it does on its own. -/
theorem attempt_zoom
    {get : τ → σ}
    {set : τ → σ → τ}
    (hGetSet : ∀ t s, get (set t s) = s)
    (hSetGet : ∀ t, set t (get t) = t)
    (hSetSet : ∀ t s s', set (set t s) s' = set t s')
    (p : Program σ α)
    (budget : ℕ)
    (t : τ) :
    (p.zoom get set).attempt budget t =
      ((p.attempt budget (get t)).1,
        set t (p.attempt budget (get t)).2) := by
  induction p generalizing budget t with
  | done a => simp [zoom, hSetGet]
  | effect update next ih =>
      cases budget with
      | zero => simp [zoom, hSetGet]
      | succ budget =>
          have hRest :=
            ih (get t) budget (set t (update (get t)))
          rw [hGetSet, hSetSet] at hRest
          exact hRest

end Zoom

------------------------------------------------------------
-- Properties kept by every effect
------------------------------------------------------------

/-
  Every effect of the program keeps a property of the state,
  whatever the state is when the effect is reached.
-/
inductive Keeps (inv : σ → Prop) : Program σ α → Prop where
  | done (a : α) : Keeps inv (.done a)
  | effect
      (update : σ → σ)
      (next : σ → Program σ α)
      (hUpdate : ∀ s, inv s → inv (update s))
      (hNext : ∀ s, inv s → Keeps inv (next s)) :
      Keeps inv (.effect update next)

namespace Keeps

variable {inv : σ → Prop}

theorem bind
    {p : Program σ α}
    {f : α → Program σ β}
    (hFirst : Keeps inv p)
    (hRest : ∀ a, Keeps inv (f a)) :
    Keeps inv (p >>= f) := by
  change Keeps inv (p.bind f)
  induction hFirst with
  | done a => exact hRest a
  | effect update next hUpdate _ ih =>
      exact .effect update _ hUpdate ih

/- A kept property holds after a run to the end. -/
theorem run
    {p : Program σ α}
    (hKeeps : Keeps inv p)
    {s : σ}
    (hInv : inv s) :
    inv (p.run s).2 := by
  induction hKeeps generalizing s with
  | done a => exact hInv
  | effect update next hUpdate _ ih =>
      exact ih s hInv (hUpdate s hInv)

/- A kept property holds wherever the program is stopped. -/
theorem attempt
    {p : Program σ α}
    (hKeeps : Keeps inv p)
    (budget : ℕ)
    {s : σ}
    (hInv : inv s) :
    inv (p.attempt budget s).2 := by
  induction hKeeps generalizing s budget with
  | done a => simpa using hInv
  | effect update next hUpdate _ ih =>
      cases budget with
      | zero => exact hInv
      | succ budget =>
          exact ih s hInv budget (hUpdate s hInv)

end Keeps

end Program
