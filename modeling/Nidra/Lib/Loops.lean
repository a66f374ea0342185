import Mathlib
import Nidra.Lib.Numerals

/-
  This file defines loops that put out one value at every
  step, and states when two loops go the same way.

  Key definitions include:
    * `loopState`, `loopOutput`

  Main declarations:
    * `loop_simulation`
    * `loop_simulation_until`
-/

section Loops

variable {σ τ α β : Type}

/- The state of a loop before its step `k`. -/
def loopState
    (step : ℕ → σ → α × σ)
    (s : σ) : ℕ → σ
  | 0 => s
  | k + 1 => (step k (loopState step s k)).2

/- What a loop puts out at its step `k`. -/
def loopOutput
    (step : ℕ → σ → α × σ)
    (s : σ)
    (k : ℕ) : α :=
  (step k (loopState step s k)).1

theorem loopState_succ
    (step : ℕ → σ → α × σ)
    (s : σ)
    (k : ℕ) :
    loopState step s (k + 1) =
      (step k (loopState step s k)).2 := rfl

section Simulation

variable {step : ℕ → σ → α × σ}
variable {step' : ℕ → τ → β × τ}
variable (related : ℕ → σ → τ → Prop)
variable (alike : ℕ → α → β → Prop)
variable {s : σ}
variable {t : τ}

/-
  Two loops whose steps lead from related states to related
  ones, up to some step, are in related states there, and
  have put out alike values.
-/
theorem loop_simulation_until
    {K : ℕ}
    (hStart : related 0 s t)
    (hStep :
      ∀ k < K, ∀ s t, related k s t →
        alike k (step k s).1 (step' k t).1 ∧
          related (k + 1) (step k s).2 (step' k t).2) :
    (∀ k < K,
        alike k (loopOutput step s k)
          (loopOutput step' t k)) ∧
      ∀ k ≤ K,
        related k (loopState step s k)
          (loopState step' t k) := by
  have hRelated :
      ∀ k ≤ K,
        related k (loopState step s k)
          (loopState step' t k) := by
    intro k
    induction k with
    | zero => exact fun _ => hStart
    | succ k ih =>
        intro hLe
        exact (hStep k hLe _ _ (ih (by omega))).2
  refine ⟨?_, hRelated⟩
  intro k hLt
  exact (hStep k hLt _ _ (hRelated k hLt.le)).1

/- And if all their steps do, at every step. -/
theorem loop_simulation
    (hStart : related 0 s t)
    (hStep :
      ∀ k s t, related k s t →
        alike k (step k s).1 (step' k t).1 ∧
          related (k + 1) (step k s).2 (step' k t).2)
    (k : ℕ) :
    alike k (loopOutput step s k) (loopOutput step' t k) := by
  have hUntil :=
    loop_simulation_until related alike (K := k + 1) hStart
      (fun k _ => hStep k)
  exact hUntil.1 k (Nat.lt_succ_self k)

end Simulation

end Loops
