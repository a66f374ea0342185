import Nidra.Lib.Steps

/-
  This file compares two ways to look ahead in rows that are
  sorted by time: at the next rows, and at the rows of the
  next while. They find a flagged row at the same places
  exactly when the next flagged rows are as far in rows as in
  time.

  Key definitions include:
    * `AheadInRows`, `AheadInTime`
    * `NextFlag`, `RepeatedFlag`
    * `SpacedAt`

  Main declarations:
    * `aheadInRows_iff`
    * `aheadInTime_iff`
    * `spacedAt_iff`
    * `spacedAt_of_evenly`
    * `spacedAt_iff_of_lt`
-/

section Lookahead

variable {α : Type*}
variable {time : α → ℤ}
variable {flag : α → Bool}
variable {rows : List α}
variable {K i : ℕ}
variable {t reach : ℤ}

------------------------------------------------------------
-- Looking Ahead
------------------------------------------------------------

/- A flagged row is among the next rows after a place. -/
def AheadInRows
    (flag : α → Bool)
    (rows : List α)
    (K i : ℕ) : Prop :=
  ∃ j b, i < j ∧ j ≤ i + K ∧
    rows[j]? = some b ∧ flag b = true

/- A flagged row lies in the while after a time. -/
def AheadInTime
    (time : α → ℤ)
    (flag : α → Bool)
    (rows : List α)
    (reach t : ℤ) : Prop :=
  ∃ b ∈ rows,
    flag b = true ∧ t < time b ∧ time b ≤ t + reach

/-
  The first flagged row after a place that is later than the
  time, with its place.
-/
structure NextFlag
    (time : α → ℤ)
    (flag : α → Bool)
    (rows : List α)
    (i : ℕ)
    (t : ℤ)
    (j : ℕ)
    (b : α) : Prop where
  after : i < j
  atPlace : rows[j]? = some b
  flagged : flag b = true
  later : t < time b
  first :
    ∀ (k : ℕ) c,
      i < k → k < j → rows[k]? = some c → flag c = true →
        time c ≤ t

/- A flagged row among the next rows repeats the time. -/
def RepeatedFlag
    (time : α → ℤ)
    (flag : α → Bool)
    (rows : List α)
    (K i : ℕ)
    (t : ℤ) : Prop :=
  ∃ j b, i < j ∧ j ≤ i + K ∧
    rows[j]? = some b ∧ flag b = true ∧ time b = t

/-
  At a place, the next flagged row is within the rows exactly
  when it is within the while. A flagged row that repeats the
  time of the place has to be followed by one in the while.
-/
structure SpacedAt
    (time : α → ℤ)
    (flag : α → Bool)
    (rows : List α)
    (K : ℕ)
    (reach : ℤ)
    (i : ℕ)
    (t : ℤ) : Prop where
  next :
    ¬ RepeatedFlag time flag rows K i t →
      ∀ j b, NextFlag time flag rows i t j b →
        (j ≤ i + K ↔ time b ≤ t + reach)
  repeated :
    RepeatedFlag time flag rows K i t →
      ∃ j b,
        NextFlag time flag rows i t j b ∧
          time b ≤ t + reach

------------------------------------------------------------
-- The Next Flagged Row
------------------------------------------------------------

/- There is only one next flagged row. -/
theorem NextFlag.unique
    {j j' : ℕ}
    {b b' : α}
    (hNext : NextFlag time flag rows i t j b)
    (hNext' : NextFlag time flag rows i t j' b') :
    j = j' ∧ b = b' := by
  have hPlace : j = j' := by
    rcases lt_trichotomy j j' with hLt | hEq | hGt
    · have hLe := hNext'.first j b hNext.after hLt
        hNext.atPlace hNext.flagged
      exact absurd hNext.later (not_lt.mpr hLe)
    · exact hEq
    · have hLe := hNext.first j' b' hNext'.after hGt
        hNext'.atPlace hNext'.flagged
      exact absurd hNext'.later (not_lt.mpr hLe)
  subst hPlace
  refine ⟨rfl, ?_⟩
  have hSame := hNext.atPlace.symm.trans hNext'.atPlace
  exact Option.some.inj hSame

/- Up to a flagged row that is later, one is the next. -/
theorem exists_nextFlag
    {j : ℕ}
    {b : α}
    (hAfter : i < j)
    (hRow : rows[j]? = some b)
    (hFlag : flag b = true)
    (hLater : t < time b) :
    ∃ j' b',
      j' ≤ j ∧ NextFlag time flag rows i t j' b' := by
  classical
  have hExists :
      ∃ k, i < k ∧
        ∃ c, rows[k]? = some c ∧ flag c = true ∧
          t < time c :=
    ⟨j, hAfter, b, hRow, hFlag, hLater⟩
  rcases Nat.find_spec hExists with
    ⟨hAfter', c, hRow', hFlag', hLater'⟩
  refine ⟨Nat.find hExists, c,
    Nat.find_min' hExists
      ⟨hAfter, b, hRow, hFlag, hLater⟩, ?_⟩
  refine
    { after := hAfter'
      atPlace := hRow'
      flagged := hFlag'
      later := hLater'
      first := ?_ }
  intro k d hFrom hTo hD hFlagD
  by_contra hLate
  exact Nat.find_min hExists hTo
    ⟨hFrom, d, hD, hFlagD, not_le.mp hLate⟩

section Sorted

variable {a : α}

/- Sorted rows after a place are not earlier. -/
theorem time_le_of_sorted
    (hSorted : rows.Pairwise (fun a b => time a ≤ time b))
    {j : ℕ}
    {b : α}
    (hA : rows[i]? = some a)
    (hB : rows[j]? = some b)
    (hLt : i < j) :
    time a ≤ time b := by
  rcases List.getElem?_eq_some_iff.mp hA with ⟨hI, rfl⟩
  rcases List.getElem?_eq_some_iff.mp hB with ⟨hJ, rfl⟩
  exact List.pairwise_iff_getElem.mp hSorted i j hI hJ hLt

/-
  Among the next rows there is a flagged one when the time is
  repeated by one or the next one is among them.
-/
theorem aheadInRows_iff
    (hSorted : rows.Pairwise (fun a b => time a ≤ time b))
    (hA : rows[i]? = some a) :
    AheadInRows flag rows K i ↔
      RepeatedFlag time flag rows K i (time a) ∨
        ∃ j b,
          NextFlag time flag rows i (time a) j b ∧
            j ≤ i + K := by
  constructor
  · rintro ⟨j, b, hAfter, hTo, hRow, hFlag⟩
    have hLe := time_le_of_sorted hSorted hA hRow hAfter
    rcases hLe.eq_or_lt with hSame | hLater
    · exact Or.inl ⟨j, b, hAfter, hTo, hRow, hFlag,
        hSame.symm⟩
    · rcases exists_nextFlag hAfter hRow hFlag hLater with
        ⟨j', b', hBefore, hNext⟩
      exact Or.inr ⟨j', b', hNext, hBefore.trans hTo⟩
  · rintro (⟨j, b, hAfter, hTo, hRow, hFlag, _⟩ |
      ⟨j, b, hNext, hTo⟩)
    · exact ⟨j, b, hAfter, hTo, hRow, hFlag⟩
    · exact ⟨j, b, hNext.after, hTo, hNext.atPlace,
        hNext.flagged⟩

/- In a while there is a flagged row when the next one is. -/
theorem aheadInTime_iff
    (hSorted : rows.Pairwise (fun a b => time a ≤ time b))
    (hA : rows[i]? = some a) :
    AheadInTime time flag rows reach (time a) ↔
      ∃ j b,
        NextFlag time flag rows i (time a) j b ∧
          time b ≤ time a + reach := by
  constructor
  · rintro ⟨b, hMem, hFlag, hLater, hWithin⟩
    rcases List.mem_iff_getElem?.mp hMem with ⟨j, hRow⟩
    have hAfter : i < j := by
      by_contra hNot
      rcases (not_lt.mp hNot).eq_or_lt with rfl | hLt
      · rw [hA, Option.some.injEq] at hRow
        rw [hRow] at hLater
        exact lt_irrefl _ hLater
      · have hLe := time_le_of_sorted hSorted hRow hA hLt
        omega
    rcases exists_nextFlag hAfter hRow hFlag hLater with
      ⟨j', b', hBefore, hNext⟩
    refine ⟨j', b', hNext, ?_⟩
    have hLe : time b' ≤ time b := by
      rcases hBefore.eq_or_lt with rfl | hLt
      · have hSame := hNext.atPlace
        rw [hRow, Option.some.injEq] at hSame
        rw [hSame]
      · exact time_le_of_sorted hSorted hNext.atPlace hRow hLt
    omega
  · rintro ⟨j, b, hNext, hWithin⟩
    exact ⟨b, List.mem_of_getElem? hNext.atPlace,
      hNext.flagged, hNext.later, hWithin⟩

/- Both ways of looking agree where the rows are spaced. -/
theorem spacedAt_iff
    (hSorted : rows.Pairwise (fun a b => time a ≤ time b))
    (hA : rows[i]? = some a) :
    (AheadInRows flag rows K i ↔
        AheadInTime time flag rows reach (time a)) ↔
      SpacedAt time flag rows K reach i (time a) := by
  rw [aheadInRows_iff hSorted hA, aheadInTime_iff hSorted hA]
  constructor
  · intro hAgree
    refine { next := ?_, repeated := ?_ }
    · intro hOnce j b hNext
      constructor
      · intro hTo
        rcases hAgree.mp (Or.inr ⟨j, b, hNext, hTo⟩) with
          ⟨j', b', hNext', hWithin⟩
        rw [(hNext.unique hNext').2]
        exact hWithin
      · intro hWithin
        rcases hAgree.mpr ⟨j, b, hNext, hWithin⟩ with
          hRepeated | ⟨j', b', hNext', hTo⟩
        · exact absurd hRepeated hOnce
        · rw [(hNext.unique hNext').1]
          exact hTo
    · intro hRepeated
      exact hAgree.mp (Or.inl hRepeated)
  · intro hSpaced
    by_cases hRepeated :
        RepeatedFlag time flag rows K i (time a)
    · exact ⟨fun _ => hSpaced.repeated hRepeated,
        fun _ => Or.inl hRepeated⟩
    · constructor
      · rintro (hIs | ⟨j, b, hNext, hTo⟩)
        · exact absurd hIs hRepeated
        · exact ⟨j, b, hNext,
            (hSpaced.next hRepeated j b hNext).mp hTo⟩
      · rintro ⟨j, b, hNext, hWithin⟩
        exact Or.inr ⟨j, b, hNext,
          (hSpaced.next hRepeated j b hNext).mpr hWithin⟩

end Sorted

------------------------------------------------------------
-- Rows Without Gaps
------------------------------------------------------------

/- One row each step, the next rows are the next while. -/
theorem spacedAt_of_evenly
    {delta : ℤ}
    (hDelta : 0 < delta)
    (hEvenly : Evenly delta (rows.map time))
    {a : α}
    (hA : rows[i]? = some a) :
    SpacedAt time flag rows K (K * delta) i (time a) := by
  have hAt : ∀ (j : ℕ) (b : α), i < j → rows[j]? = some b →
      time b = time a + ((j - i : ℕ) : ℤ) * delta := by
    intro j b hLt hB
    rcases List.getElem?_eq_some_iff.mp hA with ⟨hI, rfl⟩
    rcases List.getElem?_eq_some_iff.mp hB with ⟨hJ, rfl⟩
    have hTo : i + (j - i) = j := by omega
    have hStep := hEvenly.getElem_eq (i := i) (k := j - i)
      (by
        rw [List.length_map]
        omega)
    simpa only [hTo, List.getElem_map] using hStep
  refine { next := ?_, repeated := ?_ }
  · intro _ j b hNext
    rw [hAt j b hNext.after hNext.atPlace,
      add_le_add_iff_left, mul_le_mul_iff_left₀ hDelta]
    have hAfter := hNext.after
    omega
  · rintro ⟨j, b, hAfter, _, hRow, _, hSame⟩
    have hTime := hAt j b hAfter hRow
    have hPos : 0 < ((j - i : ℕ) : ℤ) * delta :=
      mul_pos (by omega) hDelta
    omega

/-
  Where no step has two rows, rows reach no less far than
  time: a next flagged row among the next rows has to be in
  the while.
-/
theorem spacedAt_iff_of_lt
    {delta : ℤ}
    (hDelta : 0 < delta)
    (hSorted : rows.Pairwise (fun a b => time a < time b))
    (hAligned : ∀ row ∈ rows, delta ∣ time row)
    {a : α}
    (hA : rows[i]? = some a) :
    SpacedAt time flag rows K (K * delta) i (time a) ↔
      ∀ j b,
        NextFlag time flag rows i (time a) j b →
          j ≤ i + K → time b ≤ time a + K * delta := by
  have hFar : ∀ (j : ℕ) (b : α), i < j → rows[j]? = some b →
      time a + ((j - i : ℕ) : ℤ) * delta ≤ time b := by
    intro j b hLt hB
    rcases List.getElem?_eq_some_iff.mp hA with ⟨hI, rfl⟩
    rcases List.getElem?_eq_some_iff.mp hB with ⟨hJ, rfl⟩
    have hTo : i + (j - i) = j := by omega
    have hTimes : ∀ u ∈ rows.map time, delta ∣ u := by
      simpa using hAligned
    have hSteps := steps_le_of_lt
      (List.pairwise_map.mpr hSorted) hTimes
      (i := i) (k := j - i)
      (by
        rw [List.length_map]
        omega)
    simpa only [hTo, List.getElem_map] using hSteps
  have hOnce :
      ¬ RepeatedFlag time flag rows K i (time a) := by
    rintro ⟨j, b, hAfter, _, hRow, _, hSame⟩
    have hTime := hFar j b hAfter hRow
    have hPos : 0 < ((j - i : ℕ) : ℤ) * delta :=
      mul_pos (by omega) hDelta
    omega
  constructor
  · intro hSpaced j b hNext
    exact (hSpaced.next hOnce j b hNext).mp
  · intro hWithin
    refine { next := ?_, repeated := ?_ }
    · intro _ j b hNext
      refine ⟨hWithin j b hNext, ?_⟩
      intro hTo
      have hTime := hFar j b hNext.after hNext.atPlace
      have hSteps :
          ((j - i : ℕ) : ℤ) * delta ≤ K * delta := by
        omega
      rw [mul_le_mul_iff_left₀ hDelta] at hSteps
      have hAfter := hNext.after
      omega
    · intro hRepeated
      exact absurd hRepeated hOnce

end Lookahead
