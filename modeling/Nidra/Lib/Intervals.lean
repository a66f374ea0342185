import Mathlib
import Nidra.Lib.Numerals

/-
  This file defines the merging of intervals on a line: a
  scan over intervals in order that extends the current one
  as long as the next begins near its end. When nearness
  grows as the gap shrinks, the merged intervals are in order
  and pairwise not near, each given interval lies in one of
  them, and all that lies in one is linked over near gaps.

  Key definitions include:
    * `IntervalsInOrder`
    * `mergeFrom`, `mergeNear`

  Main declarations:
    * `IntervalsInOrder.mergeNear`
    * `mergeNear_apart`
    * `mergeNear_covers`
    * `mergeNear_endpoints`
    * `mergeNear_linked`
-/

section Intervals

variable {τ : Type}
variable [LinearOrder τ]

------------------------------------------------------------
-- Definitions
------------------------------------------------------------

/-
  Intervals, given by their ends, that stand in the order of
  the line and at most touch.
-/
structure IntervalsInOrder (l : List (τ × τ)) : Prop where
  proper : ∀ i ∈ l, i.1 ≤ i.2
  apart : l.Pairwise (fun i j => i.2 ≤ j.1)

variable (near : τ → τ → Prop)
variable [DecidableRel near]

/- Merge the intervals that follow into the current one. -/
def mergeFrom
    (start finish : τ) : List (τ × τ) → List (τ × τ)
  | [] => [(start, finish)]
  | next :: rest =>
      if near finish next.1 then
        mergeFrom start (max finish next.2) rest
      else (start, finish) :: mergeFrom next.1 next.2 rest

def mergeNear : List (τ × τ) → List (τ × τ)
  | [] => []
  | first :: rest => mergeFrom near first.1 first.2 rest

------------------------------------------------------------
-- Order
------------------------------------------------------------

omit [DecidableRel near] in
theorem IntervalsInOrder.tail
    {i : τ × τ}
    {l : List (τ × τ)}
    (hOrder : IntervalsInOrder (i :: l)) :
    IntervalsInOrder l :=
  { proper := fun j hMem =>
      hOrder.proper j (List.mem_cons_of_mem i hMem)
    apart := hOrder.apart.tail }

/- The next interval ends after the current one. -/
theorem IntervalsInOrder.max_finish
    {start finish : τ}
    {next : τ × τ}
    {rest : List (τ × τ)}
    (hOrder :
      IntervalsInOrder ((start, finish) :: next :: rest)) :
    max finish next.2 = next.2 := by
  have hBefore : finish ≤ next.1 :=
    List.rel_of_pairwise_cons hOrder.apart (by simp)
  have hProper : next.1 ≤ next.2 :=
    hOrder.proper next (by simp)
  exact max_eq_right (hBefore.trans hProper)

/- Merging the next interval keeps the order. -/
theorem IntervalsInOrder.extend
    {start finish : τ}
    {next : τ × τ}
    {rest : List (τ × τ)}
    (hOrder :
      IntervalsInOrder ((start, finish) :: next :: rest)) :
    IntervalsInOrder
      ((start, max finish next.2) :: rest) := by
  have hStart : start ≤ finish :=
    hOrder.proper (start, finish) (by simp)
  have hTail := hOrder.tail
  rw [hOrder.max_finish]
  refine ⟨?_, ?_⟩
  · intro i hMem
    rcases List.mem_cons.mp hMem with rfl | hRest
    · have hBefore : finish ≤ next.1 :=
        List.rel_of_pairwise_cons hOrder.apart (by simp)
      exact hStart.trans
        (hBefore.trans (hTail.proper next (by simp)))
    · exact hTail.proper i (List.mem_cons_of_mem next hRest)
  · refine List.pairwise_cons.mpr
      ⟨?_, hTail.tail.apart⟩
    intro j hMem
    exact List.rel_of_pairwise_cons hTail.apart hMem

/- The current interval is merged into the first result. -/
theorem mergeFrom_eq_cons
    (start finish : τ)
    (l : List (τ × τ)) :
    ∃ finish' rest,
      mergeFrom near start finish l =
          (start, finish') :: rest ∧
        finish ≤ finish' := by
  induction l generalizing finish with
  | nil => exact ⟨finish, [], rfl, le_rfl⟩
  | cons next rest ih =>
      by_cases hNear : near finish next.1
      · rcases ih (max finish next.2) with
          ⟨finish', tail, hEq, hLe⟩
        refine ⟨finish', tail, ?_, ?_⟩
        · simpa only [mergeFrom, if_pos hNear] using hEq
        · exact (le_max_left _ _).trans hLe
      · refine ⟨finish, mergeFrom near next.1 next.2 rest,
          ?_, le_rfl⟩
        simp only [mergeFrom, if_neg hNear]

/- Every result begins and ends where a given one does. -/
theorem mergeFrom_endpoints
    {start finish : τ}
    {l : List (τ × τ)}
    (hOrder : IntervalsInOrder ((start, finish) :: l))
    {j : τ × τ}
    (hMem : j ∈ mergeFrom near start finish l) :
    (∃ i ∈ (start, finish) :: l, j.1 = i.1) ∧
      ∃ i ∈ (start, finish) :: l, j.2 = i.2 := by
  induction l generalizing start finish with
  | nil =>
      rw [mergeFrom, List.mem_singleton] at hMem
      subst hMem
      exact ⟨⟨_, by simp, rfl⟩, ⟨_, by simp, rfl⟩⟩
  | cons next rest ih =>
      by_cases hNear : near finish next.1
      · rw [mergeFrom, if_pos hNear] at hMem
        rcases ih hOrder.extend hMem with
          ⟨⟨i, hI, hStart⟩, ⟨i', hI', hFinish⟩⟩
        rw [hOrder.max_finish] at hI hI'
        refine ⟨?_, ?_⟩
        · rcases List.mem_cons.mp hI with rfl | hRest
          · exact ⟨(start, finish), by simp, hStart⟩
          · exact ⟨i, by simp [hRest], hStart⟩
        · rcases List.mem_cons.mp hI' with rfl | hRest
          · exact ⟨next, by simp, hFinish⟩
          · exact ⟨i', by simp [hRest], hFinish⟩
      · rw [mergeFrom, if_neg hNear] at hMem
        rcases List.mem_cons.mp hMem with rfl | hRest
        · exact ⟨⟨_, by simp, rfl⟩, ⟨_, by simp, rfl⟩⟩
        · rcases ih hOrder.tail hRest with
            ⟨⟨i, hI, hStart⟩, ⟨i', hI', hFinish⟩⟩
          exact ⟨⟨i, List.mem_cons_of_mem _ hI, hStart⟩,
            ⟨i', List.mem_cons_of_mem _ hI', hFinish⟩⟩

/- No result begins before the current interval does. -/
theorem mergeFrom_start_le
    {start finish : τ}
    {l : List (τ × τ)}
    (hOrder : IntervalsInOrder ((start, finish) :: l))
    {j : τ × τ}
    (hMem : j ∈ mergeFrom near start finish l) :
    start ≤ j.1 := by
  rcases (mergeFrom_endpoints near hOrder hMem).1 with
    ⟨i, hI, hStart⟩
  rw [hStart]
  rcases List.mem_cons.mp hI with rfl | hRest
  · exact le_rfl
  · have hBefore : finish ≤ i.1 :=
      List.rel_of_pairwise_cons hOrder.apart hRest
    exact (hOrder.proper (start, finish) (by simp)).trans
      hBefore

theorem mergeFrom_inOrder
    {start finish : τ}
    {l : List (τ × τ)}
    (hOrder : IntervalsInOrder ((start, finish) :: l)) :
    IntervalsInOrder (mergeFrom near start finish l) := by
  induction l generalizing start finish with
  | nil => simpa only [mergeFrom] using hOrder
  | cons next rest ih =>
      by_cases hNear : near finish next.1
      · rw [mergeFrom, if_pos hNear]
        exact ih hOrder.extend
      · rw [mergeFrom, if_neg hNear]
        have hRest := ih hOrder.tail
        refine ⟨?_, ?_⟩
        · intro i hMem
          rcases List.mem_cons.mp hMem with rfl | hIn
          · exact hOrder.proper _ (by simp)
          · exact hRest.proper i hIn
        · refine List.pairwise_cons.mpr ⟨?_, hRest.apart⟩
          intro j hMem
          have hBefore : finish ≤ next.1 :=
            List.rel_of_pairwise_cons hOrder.apart (by simp)
          exact hBefore.trans
            (mergeFrom_start_le near hOrder.tail hMem)

theorem IntervalsInOrder.mergeNear
    {l : List (τ × τ)}
    (hOrder : IntervalsInOrder l) :
    IntervalsInOrder (mergeNear near l) := by
  cases l with
  | nil => exact hOrder
  | cons first rest => exact mergeFrom_inOrder near hOrder

/- Intervals that do not touch do not touch when merged. -/
theorem mergeFrom_strict
    {start finish : τ}
    {l : List (τ × τ)}
    (hOrder : IntervalsInOrder ((start, finish) :: l))
    (hStrict :
      ((start, finish) :: l).Pairwise
        (fun i j => i.2 < j.1)) :
    (mergeFrom near start finish l).Pairwise
      (fun i j => i.2 < j.1) := by
  induction l generalizing start finish with
  | nil => simp [mergeFrom]
  | cons next rest ih =>
      by_cases hNear : near finish next.1
      · rw [mergeFrom, if_pos hNear]
        apply ih hOrder.extend
        rw [hOrder.max_finish]
        refine List.pairwise_cons.mpr
          ⟨?_, hStrict.tail.tail⟩
        intro j hMem
        exact List.rel_of_pairwise_cons hStrict.tail hMem
      · rw [mergeFrom, if_neg hNear]
        refine List.pairwise_cons.mpr
          ⟨?_, ih hOrder.tail hStrict.tail⟩
        intro j hMem
        have hBefore : finish < next.1 :=
          List.rel_of_pairwise_cons hStrict (by simp)
        exact hBefore.trans_le
          (mergeFrom_start_le near hOrder.tail hMem)

theorem mergeNear_strict
    {l : List (τ × τ)}
    (hOrder : IntervalsInOrder l)
    (hStrict : l.Pairwise (fun i j => i.2 < j.1)) :
    (mergeNear near l).Pairwise (fun i j => i.2 < j.1) := by
  cases l with
  | nil => exact hStrict
  | cons first rest =>
      exact mergeFrom_strict near hOrder hStrict

/-
  Where intervals that touch are near, merged ones do not
  touch, whatever the intervals were.
-/
theorem mergeFrom_strict_of_refl
    (hRefl : ∀ e : τ, near e e)
    {start finish : τ}
    {l : List (τ × τ)}
    (hOrder : IntervalsInOrder ((start, finish) :: l)) :
    (mergeFrom near start finish l).Pairwise
      (fun i j => i.2 < j.1) := by
  induction l generalizing start finish with
  | nil => simp [mergeFrom]
  | cons next rest ih =>
      by_cases hNear : near finish next.1
      · rw [mergeFrom, if_pos hNear]
        exact ih hOrder.extend
      · rw [mergeFrom, if_neg hNear]
        refine List.pairwise_cons.mpr ⟨?_, ih hOrder.tail⟩
        intro j hMem
        have hLe : finish ≤ next.1 :=
          List.rel_of_pairwise_cons hOrder.apart (by simp)
        have hNe : finish ≠ next.1 := by
          intro hTouch
          exact hNear (hTouch ▸ hRefl finish)
        exact (lt_of_le_of_ne hLe hNe).trans_le
          (mergeFrom_start_le near hOrder.tail hMem)

theorem mergeNear_strict_of_refl
    (hRefl : ∀ e : τ, near e e)
    {l : List (τ × τ)}
    (hOrder : IntervalsInOrder l) :
    (mergeNear near l).Pairwise (fun i j => i.2 < j.1) := by
  cases l with
  | nil => simp [mergeNear]
  | cons first rest =>
      exact mergeFrom_strict_of_refl near hRefl hOrder

theorem mergeNear_endpoints
    {l : List (τ × τ)}
    (hOrder : IntervalsInOrder l)
    {j : τ × τ}
    (hMem : j ∈ mergeNear near l) :
    (∃ i ∈ l, j.1 = i.1) ∧ ∃ i ∈ l, j.2 = i.2 := by
  cases l with
  | nil => simp [mergeNear] at hMem
  | cons first rest =>
      exact mergeFrom_endpoints near hOrder hMem

------------------------------------------------------------
-- Cover
------------------------------------------------------------

theorem mergeFrom_covers
    {start finish : τ}
    {l : List (τ × τ)}
    (hOrder : IntervalsInOrder ((start, finish) :: l))
    {i : τ × τ}
    (hMem : i ∈ (start, finish) :: l) :
    ∃ j ∈ mergeFrom near start finish l,
      j.1 ≤ i.1 ∧ i.2 ≤ j.2 := by
  induction l generalizing start finish with
  | nil =>
      rw [List.mem_singleton] at hMem
      subst hMem
      exact ⟨_, by simp [mergeFrom], le_rfl, le_rfl⟩
  | cons next rest ih =>
      by_cases hNear : near finish next.1
      · rw [mergeFrom, if_pos hNear]
        rcases mergeFrom_eq_cons near start
          (max finish next.2) rest with
          ⟨finish', tail, hEq, hLe⟩
        rcases List.mem_cons.mp hMem with rfl | hLater
        · exact ⟨(start, finish'), by simp [hEq], le_rfl,
            (le_max_left _ _).trans hLe⟩
        · rcases List.mem_cons.mp hLater with rfl | hRest
          · have hBefore : finish ≤ i.1 :=
              List.rel_of_pairwise_cons hOrder.apart
                (by simp)
            have hStart : start ≤ finish :=
              hOrder.proper (start, finish) (by simp)
            exact ⟨(start, finish'), by simp [hEq],
              hStart.trans hBefore,
              (le_max_right _ _).trans hLe⟩
          · exact ih hOrder.extend
              (List.mem_cons_of_mem _ hRest)
      · rw [mergeFrom, if_neg hNear]
        rcases List.mem_cons.mp hMem with rfl | hLater
        · exact ⟨_, List.mem_cons_self, le_rfl, le_rfl⟩
        · rcases ih hOrder.tail hLater with ⟨j, hJ, hIn⟩
          exact ⟨j, List.mem_cons_of_mem _ hJ, hIn⟩

/- Every given interval lies in a merged one. -/
theorem mergeNear_covers
    {l : List (τ × τ)}
    (hOrder : IntervalsInOrder l)
    {i : τ × τ}
    (hMem : i ∈ l) :
    ∃ j ∈ mergeNear near l, j.1 ≤ i.1 ∧ i.2 ≤ j.2 := by
  cases l with
  | nil => simp at hMem
  | cons first rest =>
      exact mergeFrom_covers near hOrder hMem

------------------------------------------------------------
-- Gaps
------------------------------------------------------------

/-
  Merged intervals are not near each other, however many of
  them lie between.
-/
theorem mergeFrom_apart
    (hNear :
      ∀ e s s' : τ, near e s' → s ≤ s' → near e s)
    {start finish : τ}
    {l : List (τ × τ)}
    (hOrder : IntervalsInOrder ((start, finish) :: l)) :
    (mergeFrom near start finish l).Pairwise
      (fun i j => ¬ near i.2 j.1) := by
  induction l generalizing start finish with
  | nil => simp [mergeFrom]
  | cons next rest ih =>
      by_cases hNext : near finish next.1
      · rw [mergeFrom, if_pos hNext]
        exact ih hOrder.extend
      · rw [mergeFrom, if_neg hNext]
        refine List.pairwise_cons.mpr
          ⟨?_, ih hOrder.tail⟩
        intro j hMem hFar
        exact hNext
          (hNear _ _ _ hFar
            (mergeFrom_start_le near hOrder.tail hMem))

theorem mergeNear_apart
    (hNear :
      ∀ e s s' : τ, near e s' → s ≤ s' → near e s)
    {l : List (τ × τ)}
    (hOrder : IntervalsInOrder l) :
    (mergeNear near l).Pairwise
      (fun i j => ¬ near i.2 j.1) := by
  cases l with
  | nil => simp [mergeNear]
  | cons first rest =>
      exact mergeFrom_apart near hNear hOrder

------------------------------------------------------------
-- Links
------------------------------------------------------------

/-
  What is linked along each given interval and over each near
  gap is linked from the start of a merged interval to the
  end of each interval in it.
-/
theorem mergeFrom_linked
    {linked : τ → τ → Prop}
    (hRefl : ∀ a, linked a a)
    (hTrans : ∀ a b c, linked a b → linked b c → linked a c)
    {start finish : τ}
    {l : List (τ × τ)}
    (hOrder : IntervalsInOrder ((start, finish) :: l))
    (hInside : ∀ i ∈ (start, finish) :: l, linked i.1 i.2)
    (hAcross :
      ∀ i ∈ (start, finish) :: l, ∀ i' ∈ l,
        i.2 ≤ i'.1 → near i.2 i'.1 → linked i.2 i'.1)
    {i j : τ × τ}
    (hJ : j ∈ mergeFrom near start finish l)
    (hI : i ∈ (start, finish) :: l)
    (hStart : j.1 ≤ i.1)
    (hFinish : i.2 ≤ j.2) :
    linked j.1 i.2 := by
  induction l generalizing start finish with
  | nil =>
      rw [mergeFrom, List.mem_singleton] at hJ
      rw [List.mem_singleton] at hI
      subst hI hJ
      exact hInside _ (by simp)
  | cons next rest ih =>
      have hProper : start ≤ finish :=
        hOrder.proper (start, finish) (by simp)
      have hBefore : finish ≤ next.1 :=
        List.rel_of_pairwise_cons hOrder.apart (by simp)
      have hNext : next.1 ≤ next.2 :=
        hOrder.proper next (by simp)
      by_cases hNear : near finish next.1
      · rw [mergeFrom, if_pos hNear] at hJ
        have hExtended := hOrder.extend
        have hCurrent : linked start next.2 :=
          hTrans _ _ _ (hInside (start, finish) (by simp))
            (hTrans _ _ _
              (hAcross (start, finish) (by simp) next
                (by simp) hBefore hNear)
              (hInside next (by simp)))
        rw [hOrder.max_finish] at hJ hExtended
        rcases List.mem_cons.mp hI with rfl | hLater
        · -- The first interval lies in the first result only.
          have hLe := mergeFrom_start_le near hExtended hJ
          rw [le_antisymm hStart hLe]
          exact hInside (start, finish) (by simp)
        · rcases List.mem_cons.mp hLater with rfl | hRest
          · -- So does the interval merged into it.
            rcases (mergeFrom_endpoints near hExtended hJ).1
              with ⟨k, hK, hEq⟩
            rcases List.mem_cons.mp hK with rfl | hK
            · rw [hEq]
              exact hCurrent
            · -- Only the same point can begin later.
              have hAfter : i.2 ≤ k.1 :=
                List.rel_of_pairwise_cons hExtended.apart hK
              rw [hEq] at hStart ⊢
              rw [le_antisymm (hStart.trans hNext) hAfter]
              exact hRefl _
          · apply ih hExtended ?_ ?_ hJ
              (List.mem_cons_of_mem _ hRest)
            · intro k hK
              rcases List.mem_cons.mp hK with rfl | hK
              · exact hCurrent
              · exact hInside k (by simp [hK])
            · intro k hK k' hK' hLt hNearK
              rcases List.mem_cons.mp hK with rfl | hK
              · exact hAcross next (by simp) k'
                  (by simp [hK']) hLt hNearK
              · exact hAcross k (by simp [hK]) k'
                  (by simp [hK']) hLt hNearK
      · rw [mergeFrom, if_neg hNear] at hJ
        rcases List.mem_cons.mp hJ with rfl | hJ
        · rcases List.mem_cons.mp hI with rfl | hLater
          · exact hInside _ (by simp)
          · have hAfter : finish ≤ i.1 :=
              List.rel_of_pairwise_cons hOrder.apart hLater
            have hIn : i.1 ≤ i.2 :=
              hOrder.proper i (List.mem_cons_of_mem _ hLater)
            rw [le_antisymm hFinish (hAfter.trans hIn)]
            exact hInside (start, finish) (by simp)
        · have hLe := mergeFrom_start_le near hOrder.tail hJ
          rcases List.mem_cons.mp hI with rfl | hLater
          · have hSame : finish = j.1 :=
              le_antisymm (hBefore.trans hLe)
                (hStart.trans hProper)
            rw [hSame]
            exact hRefl _
          · apply ih hOrder.tail ?_ ?_ hJ hLater
            · intro k hK
              exact hInside k (List.mem_cons_of_mem _ hK)
            · intro k hK k' hK' hLt hNearK
              exact hAcross k (List.mem_cons_of_mem _ hK) k'
                (List.mem_cons_of_mem _ hK') hLt hNearK

theorem mergeNear_linked
    {linked : τ → τ → Prop}
    (hRefl : ∀ a, linked a a)
    (hTrans : ∀ a b c, linked a b → linked b c → linked a c)
    {l : List (τ × τ)}
    (hOrder : IntervalsInOrder l)
    (hInside : ∀ i ∈ l, linked i.1 i.2)
    (hAcross :
      ∀ i ∈ l, ∀ i' ∈ l,
        i.2 ≤ i'.1 → near i.2 i'.1 → linked i.2 i'.1)
    {i j : τ × τ}
    (hJ : j ∈ mergeNear near l)
    (hI : i ∈ l)
    (hStart : j.1 ≤ i.1)
    (hFinish : i.2 ≤ j.2) :
    linked j.1 i.2 := by
  cases l with
  | nil => simp at hI
  | cons first rest =>
      exact mergeFrom_linked near hRefl hTrans hOrder hInside
        (fun k hK k' hK' => hAcross k hK k' (by simp [hK']))
        hJ hI hStart hFinish

end Intervals
