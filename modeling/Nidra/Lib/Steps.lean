import Mathlib
import Nidra.Lib.Numerals

/-
  This file defines the lists of times that go on by one step
  each, and states them by what a set of aligned times holds:
  no time is repeated, and after each but the last one the
  next step is there.

  Key definitions include:
    * `Evenly`
    * `Gapless`

  Main declarations:
    * `evenly_iff_gapless`
    * `evenly_iff_slices`
    * `Evenly.getElem_eq`
-/

section Steps

variable {delta : ℤ}

/- Each time is one step after the one before it. -/
def Evenly
    (delta : ℤ)
    (times : List ℤ) : Prop :=
  times.IsChain (fun a b => b = a + delta)

instance Evenly.decidable
    (delta : ℤ)
    (times : List ℤ) :
    Decidable (Evenly delta times) :=
  inferInstanceAs (Decidable (List.IsChain _ _))

/-
  No time is repeated, and the next step of a time is there
  when any later time is.
-/
structure Gapless
    (delta : ℤ)
    (times : List ℤ) : Prop where
  nodup : times.Nodup
  next :
    ∀ t ∈ times, ∀ u ∈ times,
      t < u → t + delta ∈ times

/- A gap does not depend on the order. -/
theorem Gapless.of_perm
    {times times' : List ℤ}
    (hPerm : times.Perm times')
    (hGapless : Gapless delta times) :
    Gapless delta times' := by
  refine
    { nodup := hPerm.nodup_iff.mp hGapless.nodup
      next := ?_ }
  intro t hT u hU hLt
  rw [← hPerm.mem_iff] at hT hU ⊢
  exact hGapless.next t hT u hU hLt

theorem evenly_cons_cons
    {a b : ℤ}
    {rest : List ℤ} :
    Evenly delta (a :: b :: rest) ↔
      b = a + delta ∧ Evenly delta (b :: rest) :=
  List.isChain_cons_cons

/- Times that go on by steps increase. -/
theorem Evenly.pairwise_lt
    (hDelta : 0 < delta)
    {times : List ℤ}
    (hEvenly : Evenly delta times) :
    times.Pairwise (· < ·) := by
  have hLt : times.IsChain (· < ·) := by
    refine List.IsChain.imp ?_ hEvenly
    intro a b hStep
    omega
  exact hLt.pairwise

theorem Evenly.gapless
    (hDelta : 0 < delta)
    {times : List ℤ}
    (hEvenly : Evenly delta times) :
    Gapless delta times := by
  refine
    { nodup := (hEvenly.pairwise_lt hDelta).imp ne_of_lt
      next := ?_ }
  induction times with
  | nil =>
      intro t hT
      cases hT
  | cons a rest ih =>
      intro t hT u hU hLt
      have hSorted := hEvenly.pairwise_lt hDelta
      cases rest with
      | nil =>
          rw [List.mem_singleton] at hT hU
          omega
      | cons b rest =>
          rcases evenly_cons_cons.mp hEvenly with ⟨hB, hRest⟩
          rcases List.mem_cons.mp hT with rfl | hIn
          · rw [← hB]
            simp
          · have hAfter :=
              List.rel_of_pairwise_cons hSorted hIn
            rcases List.mem_cons.mp hU with rfl | hLater
            · omega
            · exact List.mem_cons_of_mem _
                (ih hRest t hIn u hLater hLt)

/-
  In order and aligned, times without a gap go on by steps:
  nothing fits between a time and its next step.
-/
theorem Gapless.evenly
    (hDelta : 0 < delta)
    {times : List ℤ}
    (hSorted : times.Pairwise (· ≤ ·))
    (hAligned : ∀ t ∈ times, delta ∣ t)
    (hGapless : Gapless delta times) :
    Evenly delta times := by
  induction times with
  | nil => exact .nil
  | cons a rest ih =>
      cases rest with
      | nil => exact .singleton a
      | cons b rest =>
          rcases List.nodup_cons.mp hGapless.nodup with
            ⟨hNotMem, hNodup⟩
          have hAfter : ∀ t ∈ b :: rest, a < t := by
            intro t hT
            refine lt_of_le_of_ne
              (List.rel_of_pairwise_cons hSorted hT) ?_
            rintro rfl
            exact hNotMem hT
          have hTail : Gapless delta (b :: rest) := by
            refine { nodup := hNodup, next := ?_ }
            intro t hT u hU hLt
            have hNext := hGapless.next t
              (List.mem_cons_of_mem _ hT) u
              (List.mem_cons_of_mem _ hU) hLt
            rcases List.mem_cons.mp hNext with hEq | hIn
            · have hLate := hAfter t hT
              omega
            · exact hIn
          have hB := hAfter b (by simp)
          have hStep :=
            hGapless.next a (by simp) b (by simp) hB
          have hLe : b ≤ a + delta := by
            rcases List.mem_cons.mp hStep with hEq | hIn
            · omega
            · rcases List.mem_cons.mp hIn with hEq | hLater
              · omega
              · exact List.rel_of_pairwise_cons
                  hSorted.of_cons hLater
          have hBack : delta ∣ b - a :=
            dvd_sub (hAligned b (by simp))
              (hAligned a (by simp))
          have hFar := Int.le_of_dvd (by omega) hBack
          refine evenly_cons_cons.mpr ⟨by omega, ?_⟩
          exact ih hSorted.of_cons
            (fun t hT => hAligned t (List.mem_cons_of_mem _ hT))
            hTail

theorem evenly_iff_gapless
    (hDelta : 0 < delta)
    {times : List ℤ}
    (hSorted : times.Pairwise (· ≤ ·))
    (hAligned : ∀ t ∈ times, delta ∣ t) :
    Evenly delta times ↔ Gapless delta times :=
  ⟨fun hEvenly => hEvenly.gapless hDelta,
    fun hGapless => hGapless.evenly hDelta hSorted hAligned⟩

theorem evenly_iff_getElem
    {times : List ℤ} :
    Evenly delta times ↔
      ∀ (i : ℕ) (hI : i + 1 < times.length),
        times[i + 1] = times[i] + delta := by
  exact List.isChain_iff_getElem

/- The times after a first one are the steps from it. -/
theorem Evenly.getElem_eq
    {times : List ℤ}
    (hEvenly : Evenly delta times)
    {i k : ℕ}
    (hLt : i + k < times.length) :
    times[i + k] = times[i] + k * delta := by
  induction k with
  | zero => simp
  | succ k ih =>
      have hStep := evenly_iff_getElem.mp hEvenly (i + k) hLt
      have hBefore := ih (by omega)
      rw [show times[i + (k + 1)] = times[i + k + 1] from rfl,
        hStep, hBefore]
      push_cast
      ring

/- Aligned times that increase go at least one step each. -/
theorem steps_le_of_lt
    {times : List ℤ}
    (hSorted : times.Pairwise (· < ·))
    (hAligned : ∀ t ∈ times, delta ∣ t)
    {i k : ℕ}
    (hLt : i + k < times.length) :
    times[i] + k * delta ≤ times[i + k] := by
  induction k with
  | zero => simp
  | succ k ih =>
      have hBefore := ih (by omega)
      have hNext : times[i + k] < times[i + (k + 1)] :=
        List.pairwise_iff_getElem.mp hSorted _ _ _ _
          (by omega)
      have hStep :
          delta ∣ times[i + (k + 1)] - times[i + k] :=
        dvd_sub (hAligned _ (List.getElem_mem _))
          (hAligned _ (List.getElem_mem _))
      have hFar := Int.le_of_dvd (by omega) hStep
      push_cast
      linarith

/- Every slice of evenly spaced times is evenly spaced. -/
theorem Evenly.slice
    {times : List ℤ}
    (hEvenly : Evenly delta times)
    (start size : ℕ) :
    Evenly delta ((times.drop start).take size) :=
  (List.IsChain.drop hEvenly start).take size

/-
  Slices of one size that reach over a list show all of its
  steps.
-/
theorem evenly_iff_slices
    {times : List ℤ}
    {size : ℕ}
    (hSize : 2 ≤ size)
    (hFits : size ≤ times.length) :
    Evenly delta times ↔
      ∀ start, start + size ≤ times.length →
        Evenly delta ((times.drop start).take size) := by
  constructor
  · intro hEvenly start _
    exact hEvenly.slice start size
  · intro hSlices
    rw [evenly_iff_getElem]
    intro i hI
    -- The slice that begins at the time, or the last one.
    have hSlice := evenly_iff_getElem.mp
      (hSlices (min i (times.length - size)) (by omega))
      (i - min i (times.length - size))
      (by
        rw [List.length_take, List.length_drop]
        omega)
    rw [List.getElem_take, List.getElem_take,
      List.getElem_drop, List.getElem_drop] at hSlice
    have hAt : min i (times.length - size) +
        (i - min i (times.length - size)) = i := by omega
    have hNext : min i (times.length - size) +
        (i - min i (times.length - size) + 1) = i + 1 := by
      omega
    simpa only [hAt, hNext] using hSlice

end Steps
