import Mathlib
import Nidra.Lib.Numerals

/-
  This file defines the search for the best of a sequence of
  scores, lower ones being better, that only takes a score
  that is better by more than a tolerance, and that stops when
  so many in turn were not.

  Key definitions include:
    * `Improves`, `keepBest`
    * `misses`, `searched`
    * `IsKept`
    * `stopLoop`, `tryStopLoop`
    * `CopyKept`, `upToBest`

  Main declarations:
    * `isKept_keepBest`
    * `misses_searched`
    * `stopLoop_eq`
    * `stopLoop_keepsBest`, `isSome_stopLoop`
-/

section EarlyStop

variable {𝕜 : Type}
variable [Field 𝕜] [LinearOrder 𝕜]

------------------------------------------------------------
-- What is kept
------------------------------------------------------------

/- A score is better than the best so far; none is infinite. -/
def Improves
    (tol : 𝕜)
    (best : Option (𝕜 × ℕ))
    (score : Option 𝕜) : Prop :=
  ∃ s ∈ score, ∀ b ∈ best, s < b.1 - tol

instance
    (tol : 𝕜)
    (best : Option (𝕜 × ℕ))
    (score : Option 𝕜) :
    Decidable (Improves tol best score) :=
  match score, best with
  | none, _ => isFalse (fun h => by simp [Improves] at h)
  | some _, none => isTrue (by simp [Improves])
  | some s, some b =>
      decidable_of_iff (s < b.1 - tol) (by simp [Improves])

/- The best of the first scores, and where it stood. -/
def keepBest
    (tol : 𝕜)
    (score : ℕ → Option 𝕜) : ℕ → Option (𝕜 × ℕ)
  | 0 => none
  | n + 1 =>
      let best := keepBest tol score n
      if Improves tol best (score n) then
        (score n).map (fun s => (s, n))
      else best

/-
  The score that is kept is less than all before it, and less
  than all after it but for the tolerance; when none is kept,
  no score was finite.
-/
def IsKept
    (tol : 𝕜)
    (score : ℕ → Option 𝕜)
    (n : ℕ) : Option (𝕜 × ℕ) → Prop
  | none => ∀ i < n, score i = none
  | some (b, e) =>
      e < n ∧ score e = some b ∧
        (∀ i < e, ∀ s ∈ score i, b < s) ∧
        ∀ i, e < i → i < n → ∀ s ∈ score i, b - tol ≤ s

section Kept

variable [IsStrictOrderedRing 𝕜]
variable {tol : 𝕜}
variable {score : ℕ → Option 𝕜}

theorem isKept_succ_of_improves
    {n : ℕ}
    {best : Option (𝕜 × ℕ)}
    (hTol : 0 ≤ tol)
    (hKept : IsKept tol score n best)
    {s : 𝕜}
    (hScore : score n = some s)
    (hBetter : ∀ b ∈ best, s < b.1 - tol) :
    IsKept tol score (n + 1) (some (s, n)) := by
  refine ⟨Nat.lt_succ_self n, hScore, ?_, ?_⟩
  · intro i hI x hX
    cases best with
    | none =>
        rw [hKept i hI] at hX
        cases hX
    | some b =>
        rcases b with ⟨b, e⟩
        rcases hKept with ⟨_, hAt, hBefore, hAfter⟩
        have hLess : s < b - tol := hBetter (b, e) rfl
        rcases lt_trichotomy i e with hLt | rfl | hGt
        · have hWorse := hBefore i hLt x hX
          linarith
        · rw [hAt] at hX
          cases hX
          linarith
        · have hWorse := hAfter i hGt hI x hX
          linarith
  · intro i hGt hLt
    exact absurd hLt (by omega)

omit [IsStrictOrderedRing 𝕜] in
theorem isKept_succ_of_not_improves
    {n : ℕ}
    {best : Option (𝕜 × ℕ)}
    (hKept : IsKept tol score n best)
    (hNot : ¬ Improves tol best (score n)) :
    IsKept tol score (n + 1) best := by
  have hWorse :
      ∀ s ∈ score n, ∃ b ∈ best, b.1 - tol ≤ s := by
    intro s hS
    by_contra hNone
    apply hNot
    refine ⟨s, hS, ?_⟩
    intro b hB
    by_contra hLt
    exact hNone ⟨b, hB, not_lt.mp hLt⟩
  cases best with
  | none =>
      intro i hI
      rcases Nat.lt_succ_iff_lt_or_eq.mp hI with hLt | rfl
      · exact hKept i hLt
      · cases hScore : score i with
        | none => rfl
        | some s =>
            rcases hWorse s hScore with ⟨b, hB, _⟩
            cases hB
  | some b =>
      rcases b with ⟨b, e⟩
      rcases hKept with ⟨hE, hAt, hBefore, hAfter⟩
      refine ⟨by omega, hAt, hBefore, ?_⟩
      intro i hGt hLt s hS
      rcases Nat.lt_succ_iff_lt_or_eq.mp hLt with hOld | rfl
      · exact hAfter i hGt hOld s hS
      · rcases hWorse s hS with ⟨b', hB, hLe⟩
        cases hB
        exact hLe

theorem isKept_keepBest
    (hTol : 0 ≤ tol)
    (score : ℕ → Option 𝕜)
    (n : ℕ) :
    IsKept tol score n (keepBest tol score n) := by
  induction n with
  | zero =>
      intro i hI
      exact absurd hI (Nat.not_lt_zero i)
  | succ n ih =>
      rw [keepBest]
      split
      · rename_i hImproves
        rcases hImproves with ⟨s, hScore, hBetter⟩
        rw [Option.mem_def] at hScore
        rw [hScore, Option.map_some]
        exact isKept_succ_of_improves hTol ih hScore hBetter
      · rename_i hNot
        exact isKept_succ_of_not_improves ih hNot

theorem isSome_keepBest_iff
    (hTol : 0 ≤ tol)
    (score : ℕ → Option 𝕜)
    (n : ℕ) :
    (keepBest tol score n).isSome = true ↔
      ∃ i < n, (score i).isSome = true := by
  have hKept := isKept_keepBest hTol score n
  cases hBest : keepBest tol score n with
  | none =>
      rw [hBest] at hKept
      constructor
      · intro hSome
        cases hSome
      · rintro ⟨i, hLt, hFinite⟩
        rw [hKept i hLt] at hFinite
        cases hFinite
  | some b =>
      rcases b with ⟨b, e⟩
      rw [hBest] at hKept
      rcases hKept with ⟨hLt, hAt, _⟩
      constructor
      · intro _
        exact ⟨e, hLt, by rw [hAt]; rfl⟩
      · intro _
        rfl

end Kept

------------------------------------------------------------
-- When to stop
------------------------------------------------------------

/- How many scores in turn were not better. -/
def misses
    (tol : 𝕜)
    (score : ℕ → Option 𝕜) : ℕ → ℕ
  | 0 => 0
  | n + 1 =>
      if Improves tol (keepBest tol score n) (score n) then 0
      else misses tol score n + 1

/- How many scores there were up to the best. -/
def upToBest : Option ℕ → ℕ
  | none => 0
  | some e => e + 1

/- The misses are all that came after the best. -/
theorem misses_eq
    (tol : 𝕜)
    (score : ℕ → Option 𝕜)
    (n : ℕ) :
    n =
      misses tol score n +
        upToBest ((keepBest tol score n).map Prod.snd) := by
  induction n with
  | zero => rfl
  | succ n ih =>
      rw [misses, keepBest]
      split
      · rename_i hImproves
        rcases hImproves with ⟨s, hScore, _⟩
        rw [Option.mem_def] at hScore
        simp [hScore, upToBest]
      · omega

/- How many scores are looked at, out of so many. -/
def searched
    (stops : ℕ → Bool) : ℕ → ℕ → ℕ
  | 0, n => n
  | rest + 1, n =>
      if stops (n + 1) then n + 1
      else searched stops rest (n + 1)

/- The search goes on exactly while it does not stop. -/
theorem searched_spec
    (stops : ℕ → Bool)
    (rest n : ℕ) :
    n ≤ searched stops rest n ∧
      searched stops rest n ≤ n + rest ∧
      (∀ i, n < i → i < searched stops rest n →
        stops i = false) ∧
      (searched stops rest n < n + rest →
        n < searched stops rest n ∧
          stops (searched stops rest n) = true) := by
  induction rest generalizing n with
  | zero =>
      refine ⟨le_rfl, le_rfl, ?_, ?_⟩
      · intro i hLow hHigh
        rw [searched] at hHigh
        omega
      · intro hLt
        rw [searched] at hLt
        omega
  | succ rest ih =>
      rw [searched]
      cases hStops : stops (n + 1) with
      | true =>
          rw [if_pos rfl]
          refine ⟨by omega, by omega, ?_, ?_⟩
          · intro i hLow hHigh
            omega
          · intro _
            exact ⟨by omega, hStops⟩
      | false =>
          rw [if_neg Bool.false_ne_true]
          rcases ih (n + 1) with ⟨hLow, hHigh, hOpen, hStop⟩
          refine ⟨by omega, by omega, ?_, ?_⟩
          · intro i hGt hLt
            rcases Nat.lt_or_eq_of_le hGt with hMore | rfl
            · exact hOpen i hMore hLt
            · exact hStops
          · intro hLt
            rcases hStop (by omega) with ⟨hMore, hIs⟩
            exact ⟨by omega, hIs⟩

/-
  A search that stops at so many misses has no more of them,
  and as many when it stops before its end.
-/
theorem misses_searched
    {tol : 𝕜}
    {score : ℕ → Option 𝕜}
    {stops : ℕ → Bool}
    {patience : ℕ}
    (hPatience : 1 ≤ patience)
    (hStops :
      ∀ n, stops (n + 1) = true ↔
        patience ≤ misses tol score (n + 1))
    (epochs : ℕ) :
    misses tol score (searched stops epochs 0) ≤ patience ∧
      (searched stops epochs 0 < epochs →
        misses tol score (searched stops epochs 0) =
          patience) := by
  rcases searched_spec stops epochs 0 with
    ⟨_, hHigh, hOpen, hStop⟩
  have hLe :
      misses tol score (searched stops epochs 0) ≤
        patience := by
    cases hRun : searched stops epochs 0 with
    | zero => simp [misses]
    | succ n =>
        rw [misses]
        split
        · omega
        · cases n with
          | zero =>
              rw [misses]
              exact hPatience
          | succ n =>
              have hNot := hOpen (n + 1) (by omega) (by omega)
              have hFew :
                  ¬ patience ≤ misses tol score (n + 1) := by
                intro hMany
                rw [(hStops n).mpr hMany] at hNot
                cases hNot
              omega
  refine ⟨hLe, ?_⟩
  intro hLt
  rcases hStop (by omega) with ⟨hPos, hIs⟩
  cases hRun : searched stops epochs 0 with
  | zero => omega
  | succ n =>
      rw [hRun] at hIs hLe
      exact le_antisymm hLe ((hStops n).mp hIs)

------------------------------------------------------------
-- Training loops
------------------------------------------------------------

/-
  A loop that trains: the state, what is kept of the best
  epoch, and how many misses are still tolerated.
-/
structure Stopping (𝕜 σ β : Type) where
  state : σ
  best : Option (𝕜 × ℕ × β) := none
  left : ℤ

variable {σ β : Type}

/- What is kept after one more score, with a copy. -/
def keepNext
    (tol : 𝕜)
    (best : Option (𝕜 × ℕ × β))
    (score : Option 𝕜)
    (epoch : ℕ)
    (copy : β) : Option (𝕜 × ℕ × β) :=
  if Improves tol (best.map (fun b => (b.1, b.2.1))) score then
    score.map (fun x => (x, epoch, copy))
  else best

/- The best of the first scores, with the copy made then. -/
def keptCopy
    (tol : 𝕜)
    (score : ℕ → Option 𝕜)
    (copy : ℕ → β)
    (n : ℕ) : Option (𝕜 × ℕ × β) :=
  (keepBest tol score n).map
    (fun b => (b.1, b.2, copy (b.2 + 1)))

theorem keptCopy_forget
    (tol : 𝕜)
    (score : ℕ → Option 𝕜)
    (copy : ℕ → β)
    (n : ℕ) :
    (keptCopy tol score copy n).map
        (fun b => (b.1, b.2.1)) =
      keepBest tol score n := by
  unfold keptCopy
  rw [Option.map_map]
  exact congrFun Option.map_id _

theorem keepNext_keptCopy
    (tol : 𝕜)
    (score : ℕ → Option 𝕜)
    (copy : ℕ → β)
    (n : ℕ) :
    keepNext tol (keptCopy tol score copy n) (score n) n
        (copy (n + 1)) =
      keptCopy tol score copy (n + 1) := by
  unfold keepNext
  rw [keptCopy_forget]
  unfold keptCopy
  rw [keepBest]
  split
  · rw [Option.map_map]
    rfl
  · rfl

/- What is kept is the best, with the copy made then. -/
def CopyKept
    (tol : 𝕜)
    (score : ℕ → Option 𝕜)
    (copy : ℕ → β)
    (n : ℕ) : Option (𝕜 × ℕ × β) → Prop
  | none => IsKept tol score n none
  | some (b, e, kept) =>
      IsKept tol score n (some (b, e)) ∧ kept = copy (e + 1)

theorem copyKept_keptCopy
    [IsStrictOrderedRing 𝕜]
    {tol : 𝕜}
    (hTol : 0 ≤ tol)
    (score : ℕ → Option 𝕜)
    (copy : ℕ → β)
    (n : ℕ) :
    CopyKept tol score copy n (keptCopy tol score copy n) := by
  have hKept := isKept_keepBest hTol score n
  unfold keptCopy
  cases hBest : keepBest tol score n with
  | none =>
      rw [hBest] at hKept
      exact hKept
  | some b =>
      rw [hBest] at hKept
      exact ⟨hKept, rfl⟩

section Loop

variable (tol : 𝕜)
variable (patience : ℤ)
variable (breaks : Bool → ℤ → Bool)
variable (body : ℕ → σ → σ)
variable (score : σ → Option 𝕜)
variable (snapshot : σ → β)

/- One epoch: train, then keep what is better. -/
def Stopping.next
    (s : Stopping 𝕜 σ β)
    (epoch : ℕ) : Bool × Stopping 𝕜 σ β :=
  let state := body epoch s.state
  let improved :=
    Improves tol (s.best.map (fun b => (b.1, b.2.1)))
      (score state)
  (improved,
    { state := state
      best :=
        keepNext tol s.best (score state) epoch
          (snapshot state)
      left := if improved then patience else s.left - 1 })

/- So many epochs, unless the loop breaks before. -/
def stopLoop :
    ℕ → ℕ → Stopping 𝕜 σ β → ℕ × Stopping 𝕜 σ β
  | 0, epoch, s => (epoch, s)
  | rest + 1, epoch, s =>
      let (improved, s') :=
        s.next tol patience body score snapshot epoch
      if breaks improved s'.left then (epoch + 1, s')
      else stopLoop rest (epoch + 1) s'

/- The state after so many epochs. -/
def stateAt (start : σ) : ℕ → σ
  | 0 => start
  | n + 1 => body n (stateAt start n)

/- The score of an epoch. -/
def scoreAt
    (start : σ)
    (epoch : ℕ) : Option 𝕜 :=
  score (stateAt body start (epoch + 1))

/- What the loop has after so many epochs. -/
def stoppingAt
    (start : σ)
    (n : ℕ) : Stopping 𝕜 σ β :=
  { state := stateAt body start n
    best :=
      keptCopy tol (scoreAt body score start)
        (fun n => snapshot (stateAt body start n)) n
    left :=
      patience - misses tol (scoreAt body score start) n }

/- Whether the loop breaks after so many epochs. -/
def breaksAt
    (start : σ)
    (n : ℕ) : Bool :=
  let missed := misses tol (scoreAt body score start) n
  breaks (missed = 0) (patience - missed)

variable {tol patience breaks body score snapshot}

theorem next_stoppingAt
    (start : σ)
    (n : ℕ) :
    (stoppingAt tol patience body score snapshot start n).next
        tol patience body score snapshot n =
      (decide
          (misses tol (scoreAt body score start) (n + 1) = 0),
        stoppingAt tol patience body score snapshot start
          (n + 1)) := by
  have hKept :=
    keepNext_keptCopy tol (scoreAt body score start)
      (fun n => snapshot (stateAt body start n)) n
  have hForget :=
    keptCopy_forget tol (scoreAt body score start)
      (fun n => snapshot (stateAt body start n)) n
  have hScore :
      score (body n (stateAt body start n)) =
        scoreAt body score start n := rfl
  unfold Stopping.next stoppingAt
  dsimp only
  rw [hForget, hScore, ← hKept, misses]
  by_cases hImproves :
      Improves tol (keepBest tol (scoreAt body score start) n)
        (scoreAt body score start n)
  · simp [hImproves, stateAt]
  · simp [hImproves, stateAt]
    ring

/- The loop is the search for where it breaks. -/
theorem stopLoop_eq
    (start : σ)
    (rest n : ℕ) :
    stopLoop tol patience breaks body score snapshot rest n
        (stoppingAt tol patience body score snapshot start n) =
      (searched
          (breaksAt tol patience breaks body score start)
          rest n,
        stoppingAt tol patience body score snapshot start
          (searched
            (breaksAt tol patience breaks body score start)
            rest n)) := by
  induction rest generalizing n with
  | zero => rfl
  | succ rest ih =>
      rw [stopLoop, next_stoppingAt, searched]
      have hBreaks :
          breaks
              (decide
                (misses tol (scoreAt body score start)
                  (n + 1) = 0))
              (stoppingAt tol patience body score snapshot
                start (n + 1)).left =
            breaksAt tol patience breaks body score start
              (n + 1) := rfl
      dsimp only
      rw [hBreaks]
      split
      · rfl
      · exact ih (n + 1)

theorem stopLoop_start
    (start : σ)
    (epochs : ℕ) :
    stopLoop tol patience breaks body score snapshot epochs 0
        { state := start
          left := patience } =
      (searched
          (breaksAt tol patience breaks body score start)
          epochs 0,
        stoppingAt tol patience body score snapshot start
          (searched
            (breaksAt tol patience breaks body score start)
            epochs 0)) := by
  have hStart :
      (stoppingAt tol patience body score snapshot start 0) =
        { state := start
          left := patience } := by
    simp [stoppingAt, keptCopy, keepBest, misses, stateAt]
  rw [← hStart]
  exact stopLoop_eq start epochs 0

theorem keptCopy_epoch
    (score : ℕ → Option 𝕜)
    (copy : ℕ → β)
    (n : ℕ) :
    (keptCopy tol score copy n).map (fun b => b.2.1) =
      (keepBest tol score n).map Prod.snd := by
  unfold keptCopy
  rw [Option.map_map]
  rfl

/-
  The loop keeps the best of the epochs it ran, as it was
  then. It runs no longer than the patience after that one,
  and just as long when it breaks.
-/
variable (snapshot) in
theorem stopLoop_keepsBest
    [IsStrictOrderedRing 𝕜]
    (hTol : 0 ≤ tol)
    (start : σ)
    {few : ℕ}
    (hFew : 1 ≤ few)
    (hBreaks :
      ∀ n,
        breaksAt tol patience breaks body score start (n + 1) =
            true ↔
          few ≤
            misses tol (scoreAt body score start) (n + 1))
    (epochs : ℕ) :
    let result :=
      stopLoop tol patience breaks body score snapshot epochs 0
        { state := start
          left := patience }
    result.1 ≤ epochs ∧
      result.2.state = stateAt body start result.1 ∧
      CopyKept tol (scoreAt body score start)
        (fun n => snapshot (stateAt body start n)) result.1
        result.2.best ∧
      result.1 ≤
        upToBest (result.2.best.map (fun b => b.2.1)) + few ∧
      (result.1 < epochs →
        result.1 =
          upToBest (result.2.best.map (fun b => b.2.1)) +
            few) := by
  intro result
  have hResult : result = _ := stopLoop_start start epochs
  rw [hResult]
  dsimp only [stoppingAt]
  rw [keptCopy_epoch]
  rcases misses_searched hFew hBreaks epochs with
    ⟨hFewer, hSame⟩
  rcases searched_spec
      (breaksAt tol patience breaks body score start) epochs
      0 with ⟨_, hHigh, _, _⟩
  revert hFewer hSame hHigh
  generalize
    searched (breaksAt tol patience breaks body score start)
      epochs 0 = run
  intro hFewer hSame hHigh
  have hRun :=
    misses_eq tol (scoreAt body score start) run
  refine ⟨by omega, rfl, copyKept_keptCopy hTol _ _ run,
    by omega, ?_⟩
  intro hLt
  have hAll := hSame hLt
  omega

variable (snapshot) in
/- Something is kept when an early enough score is finite. -/
theorem isSome_stopLoop
    [IsStrictOrderedRing 𝕜]
    (hTol : 0 ≤ tol)
    (start : σ)
    {few : ℕ}
    (hFew : 1 ≤ few)
    (hBreaks :
      ∀ n,
        breaksAt tol patience breaks body score start (n + 1) =
            true ↔
          few ≤
            misses tol (scoreAt body score start) (n + 1))
    (epochs : ℕ) :
    (stopLoop tol patience breaks body score snapshot epochs 0
          { state := start
            left := patience }).2.best.isSome = true ↔
      ∃ e < min few epochs,
        (scoreAt body score start e).isSome = true := by
  rw [stopLoop_start start epochs]
  dsimp only [stoppingAt, keptCopy]
  rw [Option.isSome_map]
  rcases misses_searched hFew hBreaks epochs with
    ⟨_, hSame⟩
  rcases searched_spec
      (breaksAt tol patience breaks body score start) epochs
      0 with ⟨_, hHigh, hOpen, _⟩
  revert hSame hHigh hOpen
  generalize
    searched (breaksAt tol patience breaks body score start)
      epochs 0 = run
  intro hSame hHigh hOpen
  constructor
  · intro hSome
    by_cases hLong : few < run
    · -- the loop went on after `few` epochs
      have hNot := hOpen few (by omega) hLong
      rcases Nat.exists_eq_add_of_le' hFew with ⟨n, rfl⟩
      have hLess :
          misses tol (scoreAt body score start) (n + 1) <
            n + 1 := by
        by_contra hMany
        rw [(hBreaks n).mpr (not_lt.mp hMany)] at hNot
        cases hNot
      have hSum :=
        misses_eq tol (scoreAt body score start) (n + 1)
      have hKept : (keepBest tol
          (scoreAt body score start) (n + 1)).isSome = true := by
        cases hBest : keepBest tol
            (scoreAt body score start) (n + 1) with
        | none =>
            rw [hBest] at hSum
            exact absurd hSum hLess.ne'
        | some b => rfl
      rcases (isSome_keepBest_iff hTol _ _).mp hKept with
        ⟨e, hLt, hFinite⟩
      exact ⟨e, by omega, hFinite⟩
    · rcases (isSome_keepBest_iff hTol _ _).mp hSome with
        ⟨e, hLt, hFinite⟩
      exact ⟨e, by omega, hFinite⟩
  · rintro ⟨e, hLt, hFinite⟩
    apply (isSome_keepBest_iff hTol _ _).mpr
    refine ⟨e, ?_, hFinite⟩
    by_contra hLate
    have hMany := hSame (by omega)
    have hSum :=
      misses_eq tol (scoreAt body score start) run
    omega

end Loop

------------------------------------------------------------
-- Scores that raise
------------------------------------------------------------

section Fallible

variable {ε : Type}
variable (tol : 𝕜)
variable (patience : ℤ)
variable (breaks : Bool → ℤ → Bool)
variable (body : ℕ → σ → σ)
variable (tryScore : σ → Except ε (Option 𝕜))
variable (snapshot : σ → β)

/- The loop when to score an epoch may raise. -/
def tryStopLoop :
    ℕ → ℕ → Stopping 𝕜 σ β →
      Except ε (ℕ × Stopping 𝕜 σ β)
  | 0, epoch, s => .ok (epoch, s)
  | rest + 1, epoch, s => do
      let value ← tryScore (body epoch s.state)
      let (improved, s') :=
        s.next tol patience body (fun _ => value) snapshot
          epoch
      if breaks improved s'.left then .ok (epoch + 1, s')
      else tryStopLoop rest (epoch + 1) s'

variable {tol patience breaks body tryScore snapshot}

theorem tryStopLoop_ok
    (score : σ → Option 𝕜)
    (hScore :
      ∀ epoch s,
        tryScore (body epoch s) =
          .ok (score (body epoch s)))
    (rest epoch : ℕ)
    (s : Stopping 𝕜 σ β) :
    tryStopLoop tol patience breaks body tryScore snapshot
        rest epoch s =
      .ok
        (stopLoop tol patience breaks body score snapshot
          rest epoch s) := by
  induction rest generalizing epoch s with
  | zero => rfl
  | succ rest ih =>
      have hNext :
          s.next tol patience body
              (fun _ => score (body epoch s.state)) snapshot
              epoch =
            s.next tol patience body score snapshot epoch :=
        rfl
      rw [tryStopLoop, stopLoop, hScore]
      dsimp only [bind, Except.bind]
      rw [hNext]
      split
      · rfl
      · exact ih (epoch + 1) _

theorem tryStopLoop_error
    {e : ε}
    (hScore :
      ∀ epoch s, tryScore (body epoch s) = .error e)
    (rest epoch : ℕ)
    (s : Stopping 𝕜 σ β) :
    tryStopLoop tol patience breaks body tryScore snapshot
        (rest + 1) epoch s =
      .error e := by
  rw [tryStopLoop, hScore]
  rfl

end Fallible

end EarlyStop
