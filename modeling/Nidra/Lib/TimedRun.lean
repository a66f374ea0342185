import Mathlib
import Nidra.Lib.Numerals

/-
  This file defines the search for the first run of hits that
  are consecutive in time: a hit that does not follow the
  element before it by one step begins a run of its own. On
  distinct times of one grid the search finds the least time
  from which every step has a hit.

  Key definitions include:
    * `firstTimedRun`
    * `HitTime`, `HitsFrom`
    * `OnGrid`

  Main declarations:
    * `firstTimedRun_isLeast`
    * `firstTimedRun_mono`
-/

section TimedRun

variable {α : Type}
variable (time : α → ℤ)
variable (hit : α → Bool)
variable (step : ℤ)
variable (m : ℕ)

/-
  The search from a place on, with the time before it and the
  number of hits that lead up to there step by step.
-/
def firstTimedRunFrom :
    Option ℤ → ℕ → ℕ → List α → Option ℕ
  | _, _, _, [] => none
  | prev, run, i, a :: rest =>
      let adjacent := prev.any (fun t => time a - t = step)
      let run :=
        if hit a then
          if adjacent then run + 1 else 1
        else 0
      if m ≤ run then some (i + 1 - m)
      else firstTimedRunFrom (some (time a)) run (i + 1) rest

/- The place where the first run begins. -/
def firstTimedRun (l : List α) : Option ℕ :=
  firstTimedRunFrom time hit step m none 0 0 l

/- The time where the first run begins. -/
def firstTimedRunAt (l : List α) : Option ℤ :=
  (firstTimedRun time hit step m l).bind
    (fun i => (l[i]?).map time)

------------------------------------------------------------
-- Times of Hits
------------------------------------------------------------

/- Some element is a hit at the time. -/
def HitTime
    (l : List α)
    (t : ℤ) : Prop :=
  ∃ a ∈ l, time a = t ∧ hit a = true

/- From the time on, the first `m` steps are in the set. -/
def HitsFrom
    (hits : ℤ → Prop)
    (t : ℤ) : Prop :=
  ∀ k < m, hits (t + k * step)

/- Any two times are a number of steps apart. -/
def OnGrid (l : List α) : Prop :=
  ∀ a ∈ l, ∀ b ∈ l, step ∣ time a - time b

instance OnGrid.decidable
    (l : List α) :
    Decidable (OnGrid time step l) :=
  inferInstanceAs (Decidable (∀ a ∈ l, ∀ b ∈ l, _))

variable {time hit step m}

theorem HitTime.mono
    {part whole : List α}
    (hSub : ∀ a ∈ part, a ∈ whole)
    {t : ℤ}
    (hHit : HitTime time hit part t) :
    HitTime time hit whole t := by
  rcases hHit with ⟨a, hMem, hTime, hIs⟩
  exact ⟨a, hSub a hMem, hTime, hIs⟩

theorem HitsFrom.mono
    {part whole : ℤ → Prop}
    (hSub : ∀ t, part t → whole t)
    {t : ℤ}
    (hHits : HitsFrom step m part t) :
    HitsFrom step m whole t :=
  fun k hK => hSub _ (hHits k hK)

theorem hitTime_concat
    {l : List α}
    {a : α}
    {t : ℤ} :
    HitTime time hit (l ++ [a]) t ↔
      HitTime time hit l t ∨ time a = t ∧ hit a = true := by
  simp only [HitTime, List.mem_append, List.mem_singleton,
    or_and_right, exists_or, exists_eq_left]

------------------------------------------------------------
-- The Invariant of the Search
------------------------------------------------------------

variable (time hit step m)

/-
  What the search knows when a part of the list is behind it:
  the counted hits lead up to the last time step by step, no
  hit is one step before them, and no run has ended.
-/
structure Searched
    (before : List α)
    (prev : Option ℤ)
    (run : ℕ) : Prop where
  last : prev = before.getLast?.map time
  counted :
    ∀ t ∈ prev, ∀ k < run,
      ∃ a, before[before.length - 1 - k]? = some a ∧
        time a = t - k * step ∧ hit a = true
  fits : run ≤ before.length
  stops :
    ∀ t ∈ prev, ¬ HitTime time hit before (t - run * step)
  none : ∀ t, ¬ HitsFrom step m (HitTime time hit before) t

variable {time hit step m}

theorem Searched.nil
    (time : α → ℤ)
    (hit : α → Bool)
    (step : ℤ)
    (hM : 0 < m) :
    Searched time hit step m [] .none 0 := by
  refine ⟨rfl, by simp, le_rfl, by simp, ?_⟩
  intro t hHits
  rcases hHits 0 hM with ⟨a, hMem, _⟩
  exact absurd hMem List.not_mem_nil

/- What is behind the search lies before what comes. -/
theorem time_lt_of_pairwise
    {before : List α}
    {a : α}
    (hSorted :
      (before ++ [a]).Pairwise (fun b c => time b < time c))
    {b : α}
    (hB : b ∈ before) :
    time b < time a :=
  (List.pairwise_append.mp hSorted).2.2 b hB a (by simp)

/- The last time behind the search is the greatest. -/
theorem Searched.le_last
    {before : List α}
    {prev : Option ℤ}
    {run : ℕ}
    (hBefore : Searched time hit step m before prev run)
    (hSorted : before.Pairwise (fun b c => time b < time c))
    {b : α}
    (hB : b ∈ before) :
    ∃ c ∈ before, prev = some (time c) ∧
      time b ≤ time c := by
  rcases List.eq_nil_or_concat before with rfl | ⟨l, c, rfl⟩
  · exact absurd hB List.not_mem_nil
  · rw [List.concat_eq_append] at *
    refine ⟨c, by simp, ?_, ?_⟩
    · rw [hBefore.last, List.getLast?_concat, Option.map_some]
    · rcases List.mem_append.mp hB with hOld | hLast
      · exact (time_lt_of_pairwise hSorted hOld).le
      · rw [List.mem_singleton.mp hLast]

section Step

variable {before : List α}
variable {prev : Option ℤ}
variable {run run' : ℕ}
variable {a : α}

/- The hits that the counter counts after one more element. -/
theorem Searched.counted_step
    (hBefore : Searched time hit step m before prev run)
    (hRun :
      run' =
        if hit a then
          if prev.any (fun t => time a - t = step) then run + 1
          else 1
        else 0) :
    ∀ k < run',
      ∃ b, (before ++ [a])[before.length - k]? = some b ∧
        time b = time a - k * step ∧ hit b = true := by
  intro k hK
  by_cases hHit : hit a = true
  · by_cases hZero : k = 0
    · subst hZero
      exact ⟨a, by simp, by simp, hHit⟩
    · cases hAdjacent :
          prev.any (fun t => decide (time a - t = step)) with
      | false =>
          rw [if_pos hHit, hAdjacent] at hRun
          simp at hRun
          omega
      | true =>
          rw [if_pos hHit, hAdjacent, if_pos rfl] at hRun
          rw [Option.any_eq_true] at hAdjacent
          rcases hAdjacent with ⟨t, hT, hNext⟩
          have hStep : time a - t = step :=
            of_decide_eq_true hNext
          rcases hBefore.counted t hT (k - 1) (by omega) with
            ⟨b, hAt, hTime, hIs⟩
          refine ⟨b, ?_, ?_, hIs⟩
          · have hFits := hBefore.fits
            rw [List.getElem?_append_left (by omega)]
            have hPlace :
                before.length - k =
                  before.length - 1 - (k - 1) := by omega
            rw [hPlace]
            exact hAt
          · have hCast : ((k - 1 : ℕ) : ℤ) = (k : ℤ) - 1 := by
              omega
            rw [hTime, hCast]
            linarith [sub_mul (k : ℤ) 1 step]
  · rw [if_neg hHit] at hRun
    omega

/- One step before them there is no hit. -/
theorem Searched.stops_step
    (hStep : 0 < step)
    (hBefore : Searched time hit step m before prev run)
    (hSorted :
      (before ++ [a]).Pairwise (fun b c => time b < time c))
    (hGrid : OnGrid time step (before ++ [a]))
    (hRun :
      run' =
        if hit a then
          if prev.any (fun t => time a - t = step) then run + 1
          else 1
        else 0) :
    ¬ HitTime time hit (before ++ [a])
      (time a - run' * step) := by
  rw [hitTime_concat]
  by_cases hHit : hit a = true
  · rw [if_pos hHit] at hRun
    cases hAdjacent :
        prev.any (fun t => decide (time a - t = step)) with
    | true =>
        rw [hAdjacent, if_pos rfl] at hRun
        rw [Option.any_eq_true] at hAdjacent
        rcases hAdjacent with ⟨t, hT, hNext⟩
        have hEq : time a - t = step := of_decide_eq_true hNext
        have hSame :
            time a - run' * step = t - run * step := by
          rw [hRun]
          push_cast
          linarith [add_mul (run : ℤ) 1 step]
        rw [hSame]
        rintro (hOld | ⟨hTime, _⟩)
        · exact hBefore.stops t hT hOld
        · have hNonneg : 0 ≤ (run : ℤ) * step := by positivity
          omega
    | false =>
        rw [hAdjacent] at hRun
        simp only [Bool.false_eq_true, if_false] at hRun
        rw [hRun, Nat.cast_one, one_mul]
        rintro (⟨b, hB, hTime, _⟩ | ⟨hTime, _⟩)
        · -- Nothing lies between, so the hit was adjacent.
          rcases hBefore.le_last
            (List.pairwise_append.mp hSorted).1 hB with
            ⟨c, hC, hPrev, hLe⟩
          have hLt := time_lt_of_pairwise hSorted hC
          rcases hGrid a (by simp) c (by simp [hC]) with
            ⟨q, hQ⟩
          have hOne : q = 1 := by
            have hPos : 0 < step * q := by omega
            have hQPos : 0 < q := by
              exact (mul_pos_iff_of_pos_left hStep).mp hPos
            have hLe' : step * q ≤ step * 1 := by
              rw [mul_one]
              omega
            have hQLe := le_of_mul_le_mul_left hLe' hStep
            omega
          rw [hOne, mul_one] at hQ
          rw [hPrev] at hAdjacent
          simp [hQ] at hAdjacent
        · omega
  · rw [if_neg hHit] at hRun
    rw [hRun, Nat.cast_zero, zero_mul, sub_zero]
    rintro (⟨b, hB, hTime, _⟩ | ⟨_, hIs⟩)
    · have hLt := time_lt_of_pairwise hSorted hB
      omega
    · exact hHit hIs

/- A run that ends with the new element is a long one. -/
theorem Searched.none_step
    (hStep : 0 < step)
    (hBefore : Searched time hit step m before prev run)
    (hSorted :
      (before ++ [a]).Pairwise (fun b c => time b < time c))
    (hShort : run' < m)
    (hStops :
      ¬ HitTime time hit (before ++ [a])
        (time a - run' * step)) :
    ∀ t, ¬ HitsFrom step m
      (HitTime time hit (before ++ [a])) t := by
  intro t hHits
  rcases hitTime_concat.mp (hHits (m - 1) (by omega)) with
    hOld | ⟨hLast, _⟩
  · apply hBefore.none t
    intro k hK
    rcases hitTime_concat.mp (hHits k hK) with hIn | ⟨hTime, _⟩
    · exact hIn
    · -- The last hit of the run would not be behind.
      rcases hOld with ⟨b, hB, hTimeB, _⟩
      have hLt := time_lt_of_pairwise hSorted hB
      have hKLe : (k : ℤ) ≤ ((m - 1 : ℕ) : ℤ) := by omega
      have hMul :=
        mul_le_mul_of_nonneg_right hKLe hStep.le
      omega
  · apply hStops
    have hAt := hHits (m - 1 - run') (by omega)
    have hCast :
        ((m - 1 - run' : ℕ) : ℤ) =
          ((m - 1 : ℕ) : ℤ) - run' := by omega
    rw [hCast, sub_mul, ← add_sub_assoc, ← hLast] at hAt
    exact hAt

theorem Searched.next
    (hStep : 0 < step)
    (hBefore : Searched time hit step m before prev run)
    (hSorted :
      (before ++ [a]).Pairwise (fun b c => time b < time c))
    (hGrid : OnGrid time step (before ++ [a]))
    (hRun :
      run' =
        if hit a then
          if prev.any (fun t => time a - t = step) then run + 1
          else 1
        else 0)
    (hShort : run' < m) :
    Searched time hit step m (before ++ [a])
      (some (time a)) run' := by
  have hCounted := hBefore.counted_step hRun
  have hStops := hBefore.stops_step hStep hSorted hGrid hRun
  refine ⟨by simp, ?_, ?_, ?_,
    hBefore.none_step hStep hSorted hShort hStops⟩
  · intro t hT k hK
    rw [Option.mem_some_iff] at hT
    rw [← hT, List.length_append, List.length_singleton,
      Nat.add_sub_cancel]
    exact hCounted k hK
  · have hFits := hBefore.fits
    rw [List.length_append, List.length_singleton, hRun]
    split_ifs
    · omega
    · omega
    · omega
  · intro t hT
    rw [Option.mem_some_iff] at hT
    rw [← hT]
    exact hStops

end Step

------------------------------------------------------------
-- The Search
------------------------------------------------------------

/- What the search finds from a place on. -/
theorem firstTimedRunFrom_spec
    (hStep : 0 < step)
    (hM : 0 < m)
    {l before rest : List α}
    (hSplit : l = before ++ rest)
    (hSorted : l.Pairwise (fun b c => time b < time c))
    (hGrid : OnGrid time step l)
    {prev : Option ℤ}
    {run : ℕ}
    (hBefore : Searched time hit step m before prev run) :
    (∀ i ∈ firstTimedRunFrom time hit step m prev run
        before.length rest,
      ∃ a, l[i]? = some a ∧
        IsLeast
          {t | HitsFrom step m (HitTime time hit l) t}
          (time a)) ∧
      (firstTimedRunFrom time hit step m prev run
          before.length rest = none →
        ∀ t, ¬ HitsFrom step m (HitTime time hit l) t) := by
  induction rest generalizing before prev run with
  | nil =>
      rw [List.append_nil] at hSplit
      refine ⟨by simp [firstTimedRunFrom], ?_⟩
      intro _
      rw [hSplit]
      exact hBefore.none
  | cons a rest ih =>
      have hNext : l = (before ++ [a]) ++ rest := by
        rw [hSplit, List.append_assoc, List.singleton_append]
      have hSortedA :
          (before ++ [a]).Pairwise
            (fun b c => time b < time c) := by
        rw [hNext] at hSorted
        exact (List.pairwise_append.mp hSorted).1
      have hGridA : OnGrid time step (before ++ [a]) := by
        intro b hB c hC
        apply hGrid
        · rw [hNext]
          exact List.mem_append_left _ hB
        · rw [hNext]
          exact List.mem_append_left _ hC
      rw [firstTimedRunFrom]
      generalize hRun :
        (if hit a = true then
          if prev.any (fun t => decide (time a - t = step)) = true
          then run + 1 else 1
        else 0) = run'
      by_cases hLong : m ≤ run'
      · simp only [hLong, if_true]
        refine ⟨?_, by simp⟩
        intro i hI
        rw [Option.mem_some_iff] at hI
        subst hI
        have hCounted := hBefore.counted_step hRun.symm
        have hFound :
            ∀ k < m, ∃ b,
              l[before.length - k]? = some b ∧
                time b = time a - k * step ∧ hit b = true := by
          intro k hK
          rcases hCounted k (by omega) with ⟨b, hAt, hRest⟩
          refine ⟨b, ?_, hRest⟩
          rw [hNext]
          have hLt :
              before.length - k < (before ++ [a]).length := by
            rw [List.length_append, List.length_singleton]
            omega
          rw [List.getElem?_append_left hLt]
          exact hAt
        rcases hFound (m - 1) (by omega) with
          ⟨first, hAt, hTime, _⟩
        have hPlace :
            before.length - (m - 1) = before.length + 1 - m := by
          omega
        rw [hPlace] at hAt
        refine ⟨first, hAt, ?_, ?_⟩
        · intro k hK
          rcases hFound (m - 1 - k) (by omega) with
            ⟨b, hB, hTimeB, hHit⟩
          refine ⟨b, List.mem_of_getElem? hB, ?_, hHit⟩
          have hCast :
              ((m - 1 - k : ℕ) : ℤ) =
                ((m - 1 : ℕ) : ℤ) - k := by omega
          rw [hTimeB, hTime, hCast, sub_mul]
          ring
        · intro t hHits
          by_contra hLt
          apply hBefore.none t
          intro k hK
          rcases hHits k hK with ⟨b, hB, hTimeB, hHit⟩
          rw [hSplit] at hB
          rcases List.mem_append.mp hB with hOld | hLate
          · exact ⟨b, hOld, hTimeB, hHit⟩
          · -- A hit from here on is too late for the run.
            have hLe : time a ≤ time b := by
              rw [hSplit] at hSorted
              have hTail :=
                (List.pairwise_append.mp hSorted).2.1
              rcases List.mem_cons.mp hLate with rfl | hIn
              · exact le_rfl
              · exact (List.rel_of_pairwise_cons hTail hIn).le
            have hKLe : (k : ℤ) ≤ ((m - 1 : ℕ) : ℤ) := by
              omega
            have hMul :=
              mul_le_mul_of_nonneg_right hKLe hStep.le
            omega
      · simp only [hLong, if_false]
        have hAll :=
          ih hNext
            (hBefore.next hStep hSortedA hGridA hRun.symm
              (by omega))
        rw [List.length_append, List.length_singleton] at hAll
        exact hAll

/- A run that is found begins at the least possible time. -/
theorem firstTimedRun_isLeast
    (hStep : 0 < step)
    (hM : 0 < m)
    {l : List α}
    (hSorted : l.Pairwise (fun b c => time b < time c))
    (hGrid : OnGrid time step l)
    {t : ℤ}
    (hFound : firstTimedRunAt time hit step m l = some t) :
    IsLeast
      {t | HitsFrom step m (HitTime time hit l) t} t := by
  rcases Option.bind_eq_some_iff.mp hFound with ⟨i, hI, hTime⟩
  rcases (firstTimedRunFrom_spec hStep hM (List.nil_append l).symm
    hSorted hGrid (Searched.nil time hit step hM)).1 i hI with
    ⟨a, hAt, hLeast⟩
  rw [hAt, Option.map_some, Option.some.injEq] at hTime
  rw [← hTime]
  exact hLeast

/- If any run is possible, one is found. -/
theorem exists_firstTimedRun
    (hStep : 0 < step)
    (hM : 0 < m)
    {l : List α}
    (hSorted : l.Pairwise (fun b c => time b < time c))
    (hGrid : OnGrid time step l)
    {t : ℤ}
    (hHits : HitsFrom step m (HitTime time hit l) t) :
    ∃ u, firstTimedRunAt time hit step m l = some u := by
  rcases firstTimedRunFrom_spec hStep hM
    (List.nil_append l).symm hSorted hGrid
    (Searched.nil time hit step hM) with ⟨hSome, hNone⟩
  cases hFirst : firstTimedRun time hit step m l with
  | none => exact absurd hHits (hNone hFirst t)
  | some i =>
      rcases hSome i hFirst with ⟨a, hAt, _⟩
      refine ⟨time a, ?_⟩
      rw [firstTimedRunAt, hFirst, Option.bind_some, hAt,
        Option.map_some]

/-
  Elements that are left out can only hide or delay a run.
-/
theorem firstTimedRun_mono
    (hStep : 0 < step)
    (hM : 0 < m)
    {part whole : List α}
    (hSub : ∀ a ∈ part, a ∈ whole)
    (hPart : part.Pairwise (fun b c => time b < time c))
    (hWhole : whole.Pairwise (fun b c => time b < time c))
    (hGrid : OnGrid time step whole)
    {t : ℤ}
    (hFound : firstTimedRunAt time hit step m part = some t) :
    ∃ u, firstTimedRunAt time hit step m whole = some u ∧
      u ≤ t := by
  have hGridPart : OnGrid time step part :=
    fun a hA b hB => hGrid a (hSub a hA) b (hSub b hB)
  have hLeast :=
    firstTimedRun_isLeast hStep hM hPart hGridPart hFound
  have hHits :
      HitsFrom step m (HitTime time hit whole) t :=
    HitsFrom.mono (fun _ => HitTime.mono hSub) hLeast.1
  rcases exists_firstTimedRun hStep hM hWhole hGrid hHits with
    ⟨u, hU⟩
  exact ⟨u, hU,
    (firstTimedRun_isLeast hStep hM hWhole hGrid hU).2 hHits⟩

end TimedRun
