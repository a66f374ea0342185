import Mathlib
import Nidra.Lib.Numerals

/-
  This file defines the running products of a list, the shares
  that survive a sequence of hazards, and states that they do
  not rise, stay between zero and one, and that a sequence with
  at most one certain hazard survives until that hazard.

  Key definitions include:
    * `List.cumprod`
    * `UnitInterval`

  Main declarations:
    * `List.cumprod_pairwise`
    * `List.cumprod_mem_unit`
    * `List.cumprod_events`
-/

section Survival

variable {𝕜 : Type}
variable [Field 𝕜] [LinearOrder 𝕜] [IsStrictOrderedRing 𝕜]

/- A number lies between zero and one. -/
def UnitInterval (x : 𝕜) : Prop :=
  0 ≤ x ∧ x ≤ 1

theorem UnitInterval.one_sub
    {x : 𝕜}
    (hUnit : UnitInterval x) :
    UnitInterval (1 - x) :=
  ⟨sub_nonneg.mpr hUnit.2, sub_le_self 1 hUnit.1⟩

theorem UnitInterval.mul
    {x y : 𝕜}
    (hX : UnitInterval x)
    (hY : UnitInterval y) :
    UnitInterval (x * y) :=
  ⟨mul_nonneg hX.1 hY.1,
    mul_le_one₀ hX.2 hY.1 hY.2⟩

end Survival

namespace List

variable {𝕜 : Type}
variable [Field 𝕜]

/- The running products, from a factor on. -/
def cumprodFrom : 𝕜 → List 𝕜 → List 𝕜
  | _, [] => []
  | acc, x :: rest => acc * x :: cumprodFrom (acc * x) rest

def cumprod (l : List 𝕜) : List 𝕜 :=
  cumprodFrom 1 l

@[simp] theorem length_cumprodFrom
    (acc : 𝕜)
    (l : List 𝕜) :
    (cumprodFrom acc l).length = l.length := by
  induction l generalizing acc with
  | nil => rfl
  | cons x rest ih =>
      rw [cumprodFrom, length_cons, length_cons, ih]

section Ordered

variable [LinearOrder 𝕜] [IsStrictOrderedRing 𝕜]

/- Products of shares are shares of what they began with. -/
theorem cumprodFrom_bounds
    {acc : 𝕜}
    (hAcc : UnitInterval acc)
    {l : List 𝕜}
    (hUnit : ∀ x ∈ l, UnitInterval x) :
    ∀ y ∈ cumprodFrom acc l, UnitInterval y ∧ y ≤ acc := by
  induction l generalizing acc with
  | nil => simp [cumprodFrom]
  | cons x rest ih =>
      have hX := hUnit x (by simp)
      have hNext := hAcc.mul hX
      have hLe : acc * x ≤ acc :=
        mul_le_of_le_one_right hAcc.1 hX.2
      intro y hY
      rcases mem_cons.mp hY with rfl | hRest
      · exact ⟨hNext, hLe⟩
      · rcases ih hNext
          (fun z hZ => hUnit z (mem_cons_of_mem x hZ)) y hRest
          with ⟨hYUnit, hYLe⟩
        exact ⟨hYUnit, hYLe.trans hLe⟩

theorem cumprodFrom_pairwise
    {acc : 𝕜}
    (hAcc : UnitInterval acc)
    {l : List 𝕜}
    (hUnit : ∀ x ∈ l, UnitInterval x) :
    (cumprodFrom acc l).Pairwise (fun a b => b ≤ a) := by
  induction l generalizing acc with
  | nil => exact Pairwise.nil
  | cons x rest ih =>
      have hNext := hAcc.mul (hUnit x (by simp))
      have hRest : ∀ z ∈ rest, UnitInterval z :=
        fun z hZ => hUnit z (mem_cons_of_mem x hZ)
      rw [cumprodFrom, pairwise_cons]
      refine ⟨?_, ih hNext hRest⟩
      intro y hY
      exact (cumprodFrom_bounds hNext hRest y hY).2

theorem unitInterval_one : UnitInterval (1 : 𝕜) :=
  ⟨zero_le_one, le_rfl⟩

/- What survives never rises. -/
theorem cumprod_pairwise
    {l : List 𝕜}
    (hUnit : ∀ x ∈ l, UnitInterval x) :
    l.cumprod.Pairwise (fun a b => b ≤ a) :=
  cumprodFrom_pairwise unitInterval_one hUnit

theorem cumprod_mem_unit
    {l : List 𝕜}
    (hUnit : ∀ x ∈ l, UnitInterval x) :
    ∀ y ∈ l.cumprod, UnitInterval y :=
  fun y hY =>
    (cumprodFrom_bounds unitInterval_one hUnit y hY).1

end Ordered

------------------------------------------------------------
-- Events
------------------------------------------------------------

/-
  With at most one event, all survive before it and none from
  it on.
-/
theorem cumprodFrom_events
    {events : List ℕ}
    (hOne : events.sum ≤ 1)
    (acc : 𝕜)
    {m : ℕ}
    (hLt : m < events.length) :
    (cumprodFrom acc
        (events.map (fun e : ℕ => 1 - (e : 𝕜))))[m]? =
      some (acc * (1 - ((events.take (m + 1)).sum : 𝕜))) := by
  induction events generalizing acc m with
  | nil => exact absurd hLt (Nat.not_lt_zero m)
  | cons e rest ih =>
      rw [sum_cons] at hOne
      rw [map_cons, cumprodFrom]
      cases m with
      | zero => simp
      | succ m =>
          have hRest := ih (by omega) (acc * (1 - (e : 𝕜)))
            (m := m) (by simpa using hLt)
          rw [getElem?_cons_succ, hRest, take_succ_cons,
            sum_cons]
          -- The event is at one place only.
          have hPart :
              (rest.take (m + 1)).sum ≤ rest.sum :=
            (take_sublist _ _).sum_le_sum
              (fun _ _ => Nat.zero_le _)
          have hProduct :
              (e : 𝕜) * ((rest.take (m + 1)).sum : 𝕜) = 0 := by
            rcases Nat.eq_zero_or_pos e with hZero | hPos
            · rw [hZero, Nat.cast_zero, zero_mul]
            · have hNone : (rest.take (m + 1)).sum = 0 := by
                omega
              rw [hNone, Nat.cast_zero, mul_zero]
          rw [Nat.cast_add, Option.some.injEq]
          linear_combination acc * hProduct

theorem cumprod_events
    {events : List ℕ}
    (hOne : events.sum ≤ 1)
    {m : ℕ}
    (hLt : m < events.length) :
    ((events.map (fun e : ℕ => 1 - (e : 𝕜))).cumprod)[m]? =
      some (1 - ((events.take (m + 1)).sum : 𝕜)) := by
  have hAll := cumprodFrom_events hOne (1 : 𝕜) hLt
  rw [one_mul] at hAll
  exact hAll

end List
