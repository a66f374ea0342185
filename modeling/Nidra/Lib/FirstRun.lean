import Mathlib
import Nidra.Lib.Numerals

/-
  This file defines the search for the first run of hits in a
  list: a counter of consecutive hits, reset by a miss, that
  stops when it has reached the asked length at an element
  that is allowed to end the run.

  Key definitions include:
    * `firstRun`
    * `IsRun`, `IsFirstRun`

  Main declarations:
    * `firstRun_eq_some_iff`
    * `firstRun_eq_none_iff`
    * `find?_slice`
    * `exists_prefix_filter`, `exists_infix_filter`
-/

section FirstRun

variable {α : Type}
variable (m : ℕ)
variable (hit ok : α → Bool)

/-
  The search from a place on, with the number of hits that
  stand right before it. The answer is where the run begins.
-/
def firstRunFrom : ℕ → ℕ → List α → Option ℕ
  | _, _, [] => none
  | run, i, a :: rest =>
      let run := if hit a then run + 1 else 0
      if m ≤ run ∧ ok a then some (i + 1 - m)
      else firstRunFrom run (i + 1) rest

def firstRun (l : List α) : Option ℕ :=
  firstRunFrom m hit ok 0 0 l

/- The list has a hit at the place. -/
def HitAt
    (l : List α)
    (i : ℕ) : Prop :=
  ∃ a, l[i]? = some a ∧ hit a = true

/-
  From the place on there are the asked number of hits, and
  the last of them may end a run.
-/
def IsRun
    (l : List α)
    (i : ℕ) : Prop :=
  (∀ k < m, HitAt hit l (i + k)) ∧
    ∃ a, l[i + m - 1]? = some a ∧ ok a = true

def IsFirstRun
    (l : List α)
    (i : ℕ) : Prop :=
  IsRun m hit ok l i ∧ ∀ j < i, ¬ IsRun m hit ok l j

variable {m hit ok}

/-
  The search is right from every place on: the counter counts
  the hits since the last miss, and no run has ended before.
-/
theorem firstRunFrom_spec
    (hM : 0 < m)
    {l : List α}
    {i run : ℕ}
    (hLe : run ≤ i)
    (hHits : ∀ k, i ≤ k + run → k < i → HitAt hit l k)
    (hMiss : run < i → ¬ HitAt hit l (i - run - 1))
    (hBefore : ∀ j, j + m ≤ i → ¬ IsRun m hit ok l j)
    {rest : List α}
    (hRest : l.drop i = rest) :
    (∀ s ∈ firstRunFrom m hit ok run i rest,
        IsFirstRun m hit ok l s) ∧
      (firstRunFrom m hit ok run i rest = none →
        ∀ j, ¬ IsRun m hit ok l j) := by
  induction rest generalizing i run with
  | nil =>
      refine ⟨by simp [firstRunFrom], ?_⟩
      intro _ j hRun
      have hLength : l.length ≤ i := by
        rwa [List.drop_eq_nil_iff] at hRest
      rcases hRun.1 (m - 1) (by omega) with ⟨a, hAt, _⟩
      rcases List.getElem?_eq_some_iff.mp hAt with ⟨hLt, _⟩
      exact hBefore j (by omega) hRun
  | cons a rest ih =>
      have hAt : l[i]? = some a := by
        have hHead := congrArg List.head? hRest
        rwa [List.head?_drop, List.head?_cons] at hHead
      have hNext : l.drop (i + 1) = rest := by
        rw [← List.tail_drop, hRest, List.tail_cons]
      have hHitIff : HitAt hit l i ↔ hit a = true := by
        unfold HitAt
        rw [hAt]
        simp
      -- The counter after this element counts its hits.
      generalize hRun' : (if hit a then run + 1 else 0) = run'
      have hLe' : run' ≤ i + 1 := by
        rw [← hRun']
        split
        · omega
        · omega
      have hHits' :
          ∀ k, i + 1 ≤ k + run' → k < i + 1 →
            HitAt hit l k := by
        intro k hLow hHigh
        by_cases hHit : hit a = true
        · rw [if_pos hHit] at hRun'
          by_cases hLast : k = i
          · rw [hLast, hHitIff]
            exact hHit
          · exact hHits k (by omega) (by omega)
        · rw [if_neg hHit] at hRun'
          omega
      have hMiss' :
          run' < i + 1 → ¬ HitAt hit l (i + 1 - run' - 1) := by
        intro hLt
        by_cases hHit : hit a = true
        · rw [if_pos hHit] at hRun'
          have hSame : i + 1 - run' - 1 = i - run - 1 := by
            omega
          rw [hSame]
          exact hMiss (by omega)
        · rw [if_neg hHit] at hRun'
          have hSame : i + 1 - run' - 1 = i := by omega
          rw [hSame, hHitIff]
          exact hHit
      rw [firstRunFrom]
      simp only [hRun']
      by_cases hFound : m ≤ run' ∧ ok a = true
      · rw [if_pos hFound]
        rcases hFound with ⟨hLong, hOk⟩
        refine ⟨?_, by simp⟩
        intro s hS
        rw [Option.mem_some_iff] at hS
        subst hS
        refine ⟨⟨?_, ⟨a, ?_, hOk⟩⟩, ?_⟩
        · intro k hK
          exact hHits' (i + 1 - m + k) (by omega) (by omega)
        · have hSame : i + 1 - m + m - 1 = i := by omega
          rw [hSame]
          exact hAt
        · intro j hJ
          exact hBefore j (by omega)
      · rw [if_neg hFound]
        refine ih hLe' hHits' hMiss' ?_ hNext
        intro j hEnd hRun
        by_cases hOld : j + m ≤ i
        · exact hBefore j hOld hRun
        · -- The run would end here, where the search stops.
          have hLast : j + m = i + 1 := by omega
          rcases hRun with ⟨hAll, ⟨b, hB, hOk⟩⟩
          have hSame : j + m - 1 = i := by omega
          rw [hSame, hAt, Option.some.injEq] at hB
          subst hB
          have hShort : run' < m := by
            by_contra hLong
            exact hFound ⟨by omega, hOk⟩
          apply hMiss' (by omega)
          have hIn := hAll (m - 1 - run') (by omega)
          have hPlace :
              j + (m - 1 - run') = i + 1 - run' - 1 := by
            omega
          rwa [hPlace] at hIn

theorem firstRun_spec
    (hM : 0 < m)
    (l : List α) :
    (∀ s ∈ firstRun m hit ok l, IsFirstRun m hit ok l s) ∧
      (firstRun m hit ok l = none →
        ∀ j, ¬ IsRun m hit ok l j) :=
  firstRunFrom_spec hM le_rfl (by omega) (by omega)
    (by
      intro j hEnd
      omega)
    List.drop_zero

theorem firstRun_eq_none_iff
    (hM : 0 < m)
    {l : List α} :
    firstRun m hit ok l = none ↔
      ∀ j, ¬ IsRun m hit ok l j := by
  rcases firstRun_spec hM l with ⟨hSome, hNone⟩
  constructor
  · exact hNone
  · intro hNot
    cases hFirst : firstRun m hit ok l with
    | none => rfl
    | some s => exact absurd (hSome s hFirst).1 (hNot s)

theorem firstRun_eq_some_iff
    (hM : 0 < m)
    {l : List α}
    {i : ℕ} :
    firstRun m hit ok l = some i ↔
      IsFirstRun m hit ok l i := by
  rcases firstRun_spec hM l with ⟨hSome, hNone⟩
  constructor
  · exact hSome i
  · intro hFirst
    cases hEq : firstRun m hit ok l with
    | none => exact absurd hFirst.1 (hNone hEq i)
    | some s =>
        have hOther := hSome s hEq
        rcases lt_trichotomy s i with hLt | hSame | hGt
        · exact absurd hOther.1 (hFirst.2 s hLt)
        · rw [hSame]
        · exact absurd hFirst.1 (hOther.2 i hGt)

------------------------------------------------------------
-- Slices
------------------------------------------------------------

/- Without a condition on its end, a run is all hits. -/
theorem isRun_iff
    (hM : 0 < m)
    {l : List α}
    {i : ℕ} :
    IsRun m hit (fun _ => true) l i ↔
      ∀ k < m, HitAt hit l (i + k) := by
  constructor
  · exact fun hRun => hRun.1
  · intro hHits
    refine ⟨hHits, ?_⟩
    rcases hHits (m - 1) (by omega) with ⟨a, hAt, _⟩
    have hSame : i + (m - 1) = i + m - 1 := by omega
    rw [hSame] at hAt
    exact ⟨a, hAt, rfl⟩

/- A run is a full slice of hits. -/
theorem isRun_iff_slice
    (hM : 0 < m)
    {l : List α}
    {i : ℕ} :
    IsRun m hit (fun _ => true) l i ↔
      i < l.length + 1 - m ∧
        ((l.drop i).take m).all hit = true := by
  rw [isRun_iff hM, List.all_eq_true]
  constructor
  · intro hHits
    rcases hHits (m - 1) (by omega) with ⟨last, hLast, _⟩
    rcases List.getElem?_eq_some_iff.mp hLast with ⟨hLt, _⟩
    refine ⟨by omega, ?_⟩
    intro a hMem
    rcases List.getElem?_of_mem hMem with ⟨k, hK⟩
    rw [List.getElem?_take] at hK
    split_ifs at hK with hKM
    rw [List.getElem?_drop] at hK
    rcases hHits k hKM with ⟨b, hB, hHit⟩
    rw [hB, Option.some.injEq] at hK
    rw [← hK]
    exact hHit
  · rintro ⟨hLt, hAll⟩ k hK
    have hIn : i + k < l.length := by omega
    refine ⟨l[i + k], List.getElem?_eq_getElem hIn, ?_⟩
    apply hAll
    apply List.mem_of_getElem? (i := k)
    rw [List.getElem?_take, if_pos hK, List.getElem?_drop]
    exact List.getElem?_eq_getElem hIn

/- The first full slice of hits is the first run. -/
theorem find?_slice
    (hM : 0 < m)
    (l : List α) :
    (List.range (l.length + 1 - m)).find?
        (fun i => ((l.drop i).take m).all hit) =
      firstRun m hit (fun _ => true) l := by
  ext i
  rw [firstRun_eq_some_iff hM, List.find?_range_eq_some,
    List.mem_range]
  unfold IsFirstRun
  rw [isRun_iff_slice hM]
  constructor
  · rintro ⟨hAll, hLt, hNone⟩
    refine ⟨⟨hLt, hAll⟩, ?_⟩
    intro j hJ hRun
    have hNot := hNone j hJ
    rw [((isRun_iff_slice hM).mp hRun).2] at hNot
    exact Bool.noConfusion hNot
  · rintro ⟨⟨hLt, hAll⟩, hNone⟩
    refine ⟨hAll, hLt, ?_⟩
    intro j hJ
    rw [Bool.not_eq_true', Bool.eq_false_iff]
    intro hJAll
    exact hNone j hJ
      ((isRun_iff_slice hM).mpr ⟨by omega, hJAll⟩)

theorem firstRunFrom_map
    {β : Type}
    (m : ℕ)
    (hit ok : β → Bool)
    (f : α → β)
    (run i : ℕ)
    (l : List α) :
    firstRunFrom m hit ok run i (l.map f) =
      firstRunFrom m (fun a => hit (f a)) (fun a => ok (f a))
        run i l := by
  induction l generalizing run i with
  | nil => rfl
  | cons a rest ih => simp [firstRunFrom, ih]

------------------------------------------------------------
-- Stretches
------------------------------------------------------------

/-
  A property that holds before every place where it holds
  selects a prefix of the list.
-/
theorem exists_prefix_filter
    {p : α → Bool}
    {l : List α}
    (hDown :
      ∀ a b, [a, b].Sublist l → p b = true → p a = true) :
    ∃ after, l = l.filter p ++ after := by
  induction l with
  | nil => exact ⟨[], rfl⟩
  | cons a rest ih =>
      cases hA : p a with
      | true =>
          rcases ih (fun x y hSub => hDown x y (hSub.cons a))
            with ⟨after, hEq⟩
          refine ⟨after, ?_⟩
          rw [List.filter_cons_of_pos hA, List.cons_append,
            ← hEq]
      | false =>
          refine ⟨a :: rest, ?_⟩
          have hNone : (a :: rest).filter p = [] := by
            apply List.filter_eq_nil_iff.mpr
            intro b hB hHolds
            rcases List.mem_cons.mp hB with rfl | hIn
            · rw [hA] at hHolds
              exact Bool.noConfusion hHolds
            · have hPair : [a, b].Sublist (a :: rest) :=
                (List.singleton_sublist.mpr hIn).cons_cons a
              rw [hDown a b hPair hHolds] at hA
              exact Bool.noConfusion hA
          rw [hNone, List.nil_append]

/-
  A property that holds between any two places where it holds
  selects a stretch of the list.
-/
theorem exists_infix_filter
    {p : α → Bool}
    {l : List α}
    (hConvex :
      ∀ a b c, [a, b, c].Sublist l →
        p a = true → p c = true → p b = true) :
    ∃ before after, l = before ++ l.filter p ++ after := by
  induction l with
  | nil => exact ⟨[], [], rfl⟩
  | cons a rest ih =>
      cases hA : p a with
      | true =>
          have hDown :
              ∀ b c, [b, c].Sublist rest →
                p c = true → p b = true := by
            intro b c hSub hC
            exact hConvex a b c (hSub.cons_cons a) hA hC
          rcases exists_prefix_filter hDown with ⟨after, hEq⟩
          refine ⟨[], after, ?_⟩
          rw [List.filter_cons_of_pos hA, List.nil_append,
            List.cons_append, ← hEq]
      | false =>
          rcases ih (fun x y z hSub =>
            hConvex x y z (hSub.cons a)) with
            ⟨before, after, hEq⟩
          refine ⟨a :: before, after, ?_⟩
          rw [List.filter_cons_of_neg (by simp [hA]),
            List.cons_append, List.cons_append, ← hEq]

end FirstRun
