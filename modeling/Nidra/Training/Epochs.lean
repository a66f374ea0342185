import Nidra.Lib.Draws
import Nidra.Lib.PyFloat

/-
  This file defines the rows that one epoch of balanced
  training looks at, every positive some number of times and
  a number of negatives for each, and proves exactly when an
  epoch has as many negatives as it should: what the active
  negatives lack is made up for by silent ones, but what the
  silent negatives lack is not made up for.

  Key definitions include:
    * `EpochRow`, `EpochRecipe`
    * `balancedEpochIndices`
    * `BalancedEpoch`
    * `EnoughSilent`

  Main declarations:
    * `enoughSilent_iff_of_exact`
    * `balancedEpoch_iff`
    * `not_balancedEpoch_allActive`
-/

namespace Nidra

namespace Training

/- The label of a training row, and whether it is active. -/
structure EpochRow where
  risk : ℤ
  active : Bool
deriving DecidableEq, Repr

/- How an epoch is sampled. -/
structure EpochRecipe where
  posRepeat : ℕ
  negRatio : ℕ
  hardNegativeFraction : ℚ
  repeats : 1 ≤ posRepeat
  fraction_nonneg : 0 ≤ hardNegativeFraction
  fraction_le_one : hardNegativeFraction ≤ 1

/- The places of the rows with a label. -/
def labelled
    (rows : List EpochRow)
    (label : ℤ) : List ℕ :=
  (List.range rows.length).filter
    (fun i => rows[i]?.any (fun row => row.risk = label))

def isActive
    (rows : List EpochRow)
    (i : ℕ) : Bool :=
  rows[i]?.any EpochRow.active

variable (rows : List EpochRow)
variable (recipe : EpochRecipe)

def positives : List ℕ :=
  labelled rows 1

def negatives : List ℕ :=
  labelled rows 0

/- The negatives that a detector actually has to reject. -/
def hardPool : List ℕ :=
  (negatives rows).filter (isActive rows)

def easyPool : List ℕ :=
  (negatives rows).filter (fun i => !isActive rows i)

/- How many negatives an epoch should have. -/
def targetNegatives : ℕ :=
  min (negatives rows).length
    ((positives rows).length * recipe.posRepeat *
      recipe.negRatio)

/- How many of them should be active, by a float product. -/
def hardShare : ℕ :=
  (roundHalfEven
    (PyFloat.nearest
      (PyFloat.nearest (targetNegatives rows recipe) *
        recipe.hardNegativeFraction))).toNat

def nHard : ℕ :=
  min (hardPool rows).length (hardShare rows recipe)

def nEasy : ℕ :=
  min (easyPool rows).length
    (targetNegatives rows recipe - nHard rows recipe)

def repeatedPositives : List ℕ :=
  (positives rows).flatMap
    (fun i => List.replicate recipe.posRepeat i)

section Sample

variable {σ : Type}
variable (g : Generator σ)

/- A sample is only drawn when something is asked for. -/
def drawPart
    (s : σ)
    (pool : List ℕ)
    (size : ℕ)
    (replace : Bool) : List ℕ × σ :=
  if size = 0 then ([], s) else g.choice s pool size replace

/- The places of one epoch, in the order of training. -/
def balancedEpochIndices (s : σ) : List ℕ × σ :=
  let hard :=
    drawPart g s (hardPool rows) (nHard rows recipe)
      ((hardPool rows).length < nHard rows recipe)
  let easy :=
    drawPart g hard.2 (easyPool rows) (nEasy rows recipe)
      false
  g.shuffle easy.2
    (repeatedPositives rows recipe ++ hard.1 ++ easy.1)

end Sample

------------------------------------------------------------
-- Balance
------------------------------------------------------------

/-
  Every positive occurs as often as asked, no negative twice,
  and there are as many negatives as there should be.
-/
structure BalancedEpoch
    (indices : List ℕ) : Prop where
  positive :
    ∀ i ∈ positives rows, indices.count i = recipe.posRepeat
  negative : ∀ i ∈ negatives rows, indices.count i ≤ 1
  total :
    (indices.filter (fun i => i ∈ negatives rows)).length =
      targetNegatives rows recipe

/-
  The silent negatives fill what is not for active ones, and
  rounding the share has not made it more than everything.
-/
structure EnoughSilent : Prop where
  filled :
    targetNegatives rows recipe ≤
      hardShare rows recipe + (easyPool rows).length
  notPast :
    min (hardPool rows).length (hardShare rows recipe) ≤
      targetNegatives rows recipe

variable {rows recipe}

theorem mem_labelled
    {label : ℤ}
    {i : ℕ} :
    i ∈ labelled rows label ↔
      ∃ row, rows[i]? = some row ∧ row.risk = label := by
  unfold labelled
  rw [List.mem_filter, List.mem_range, Option.any_eq_true]
  constructor
  · rintro ⟨_, row, hRow, hLabel⟩
    exact ⟨row, hRow, of_decide_eq_true hLabel⟩
  · rintro ⟨row, hRow, hLabel⟩
    rcases List.getElem?_eq_some_iff.mp hRow with ⟨hLt, _⟩
    exact ⟨hLt, row, hRow, decide_eq_true hLabel⟩

theorem nodup_labelled
    (rows : List EpochRow)
    (label : ℤ) :
    (labelled rows label).Nodup :=
  List.nodup_range.filter _

/- No row is both. -/
theorem not_mem_negatives
    {i : ℕ}
    (hPos : i ∈ positives rows) :
    i ∉ negatives rows := by
  intro hNeg
  rcases mem_labelled.mp hPos with ⟨row, hRow, hOne⟩
  rcases mem_labelled.mp hNeg with ⟨row', hRow', hZero⟩
  rw [hRow, Option.some.injEq] at hRow'
  rw [← hRow', hOne] at hZero
  exact absurd hZero (by decide)

/- The two pools make up the negatives. -/
theorem length_pools (rows : List EpochRow) :
    (hardPool rows).length + (easyPool rows).length =
      (negatives rows).length := by
  have hSplit :=
    List.length_eq_length_filter_add (isActive rows)
      (l := negatives rows)
  exact hSplit.symm

/- As long as floats count exactly, the share is a part. -/
theorem hardShare_le
    {rows : List EpochRow}
    {recipe : EpochRecipe}
    (hExact : targetNegatives rows recipe < 2 ^ 53) :
    hardShare rows recipe ≤ targetNegatives rows recipe := by
  have hNonneg :
      (0 : ℚ) ≤ (targetNegatives rows recipe : ℤ) := by
    exact_mod_cast Nat.zero_le _
  have hBound :
      |((targetNegatives rows recipe : ℤ) : ℚ)| <
        (2 : ℚ) ^ (53 : ℤ) := by
    rw [abs_of_nonneg hNonneg]
    exact_mod_cast hExact
  have hCount := PyFloat.nearest_intCast hBound
  rw [Int.cast_natCast] at hCount hNonneg hBound
  have hLe :
      (targetNegatives rows recipe : ℚ) *
          recipe.hardNegativeFraction ≤
        targetNegatives rows recipe :=
    mul_le_of_le_one_right hNonneg recipe.fraction_le_one
  have hProduct :
      |(targetNegatives rows recipe : ℚ) *
          recipe.hardNegativeFraction| <
        (2 : ℚ) ^ (53 : ℤ) := by
    rw [abs_of_nonneg
      (mul_nonneg hNonneg recipe.fraction_nonneg)]
    exact hLe.trans_lt ((le_abs_self _).trans_lt hBound)
  rw [← Int.cast_natCast] at hLe
  have hRound :=
    roundHalfEven_le (PyFloat.nearest_le hProduct hLe)
  unfold hardShare
  rw [hCount]
  omega

/- For them only the silent negatives matter. -/
theorem enoughSilent_iff_of_exact
    {rows : List EpochRow}
    {recipe : EpochRecipe}
    (hExact : targetNegatives rows recipe < 2 ^ 53) :
    EnoughSilent rows recipe ↔
      targetNegatives rows recipe ≤
        hardShare rows recipe + (easyPool rows).length := by
  constructor
  · exact EnoughSilent.filled
  · intro hFilled
    exact ⟨hFilled,
      (min_le_right _ _).trans (hardShare_le hExact)⟩

------------------------------------------------------------
-- Parts of an Epoch
------------------------------------------------------------

section Parts

variable {σ : Type}
variable {g : Generator σ}

theorem drawPart_subperm
    (s : σ)
    (pool : List ℕ)
    (size : ℕ) :
    (drawPart g s pool size false).1.Subperm pool := by
  unfold drawPart
  split
  · exact List.nil_subperm
  · exact g.choice_subperm s pool size

theorem drawPart_length
    (s : σ)
    {pool : List ℕ}
    {size : ℕ}
    (hSize : size ≤ pool.length) :
    (drawPart g s pool size false).1.length = size := by
  unfold drawPart
  split
  · next hZero => rw [hZero, List.length_nil]
  · exact g.choice_length s hSize

/- Parts of the two pools are a part of the negatives. -/
theorem append_subperm_negatives
    {hard easy : List ℕ}
    (hHard : hard.Subperm (hardPool rows))
    (hEasy : easy.Subperm (easyPool rows)) :
    (hard ++ easy).Subperm (negatives rows) := by
  have hBoth := hHard.append hEasy
  refine hBoth.trans ?_
  exact (List.filter_append_perm (isActive rows)
    (negatives rows)).subperm

/- An epoch is the positives with a part of the negatives. -/
theorem balancedEpochIndices_spec
    (g : Generator σ)
    (s : σ)
    (rows : List EpochRow)
    (recipe : EpochRecipe) :
    ∃ drawn : List ℕ,
      (balancedEpochIndices rows recipe g s).1.Perm
          (repeatedPositives rows recipe ++ drawn) ∧
        drawn.Subperm (negatives rows) ∧
        drawn.length = nHard rows recipe + nEasy rows recipe := by
  -- The active negatives are never fewer than are asked for.
  have hReplace :
      decide ((hardPool rows).length < nHard rows recipe) =
        false := by
    rw [decide_eq_false_iff_not, not_lt]
    exact min_le_left _ _
  unfold balancedEpochIndices
  dsimp only
  rw [hReplace]
  have hHardLe : nHard rows recipe ≤ (hardPool rows).length :=
    min_le_left _ _
  have hEasyLe : nEasy rows recipe ≤ (easyPool rows).length :=
    min_le_left _ _
  generalize hHard :
    drawPart g s (hardPool rows) (nHard rows recipe) false = hard
  generalize hEasy :
    drawPart g hard.2 (easyPool rows) (nEasy rows recipe) false =
      easy
  have hPerm :=
    g.shuffle_perm easy.2
      (repeatedPositives rows recipe ++ hard.1 ++ easy.1)
  rw [List.append_assoc] at hPerm
  refine ⟨hard.1 ++ easy.1, ?_, ?_, ?_⟩
  · rw [List.append_assoc]
    exact hPerm
  · rw [← hEasy, ← hHard]
    exact append_subperm_negatives (drawPart_subperm _ _ _)
      (drawPart_subperm _ _ _)
  · rw [List.length_append, ← hEasy, ← hHard,
      drawPart_length _ hHardLe, drawPart_length _ hEasyLe]

/- A positive occurs as often as it is repeated. -/
theorem count_repeatedPositives
    {i : ℕ}
    (hPos : i ∈ positives rows) :
    (repeatedPositives rows recipe).count i =
      recipe.posRepeat := by
  have hFlat :
      ∀ l : List ℕ,
        (l.flatMap
          (fun j => List.replicate recipe.posRepeat j)).count i =
          l.count i * recipe.posRepeat := by
    intro l
    induction l with
    | nil => simp
    | cons j rest ih =>
        rw [List.flatMap_cons, List.count_append, ih,
          List.count_replicate, List.count_cons, add_mul,
          add_comm]
        congr 1
        by_cases hSame : j = i
        · simp [hSame]
        · simp [hSame]
  have hOnce : (positives rows).count i = 1 :=
    List.count_eq_one_of_mem (nodup_labelled rows 1) hPos
  unfold repeatedPositives
  rw [hFlat, hOnce, one_mul]

theorem mem_repeatedPositives
    {i : ℕ}
    (hMem : i ∈ repeatedPositives rows recipe) :
    i ∈ positives rows := by
  rcases List.mem_flatMap.mp hMem with ⟨j, hJ, hRep⟩
  rw [List.eq_of_mem_replicate hRep]
  exact hJ

end Parts

------------------------------------------------------------
-- When an Epoch is Balanced
------------------------------------------------------------

theorem total_eq_iff
    (rows : List EpochRow)
    (recipe : EpochRecipe) :
    nHard rows recipe + nEasy rows recipe =
        targetNegatives rows recipe ↔
      EnoughSilent rows recipe := by
  have hPools := length_pools rows
  have hTarget :
      targetNegatives rows recipe ≤ (negatives rows).length :=
    min_le_left _ _
  unfold nEasy nHard
  constructor
  · intro hTotal
    exact ⟨by omega, by omega⟩
  · rintro ⟨hFilled, hNotPast⟩
    omega

theorem balancedEpoch_iff
    {σ : Type}
    (g : Generator σ)
    (s : σ)
    (rows : List EpochRow)
    (recipe : EpochRecipe) :
    BalancedEpoch rows recipe
        (balancedEpochIndices rows recipe g s).1 ↔
      EnoughSilent rows recipe := by
  rcases balancedEpochIndices_spec g s rows recipe with
    ⟨drawn, hPerm, hDrawn, hLength⟩
  have hTotal :
      ((balancedEpochIndices rows recipe g s).1.filter
          (fun i => i ∈ negatives rows)).length =
        nHard rows recipe + nEasy rows recipe := by
    rw [(hPerm.filter _).length_eq, List.filter_append,
      List.length_append, ← hLength]
    have hNone :
        (repeatedPositives rows recipe).filter
            (fun i => i ∈ negatives rows) = [] := by
      apply List.filter_eq_nil_iff.mpr
      intro i hMem
      rw [decide_eq_true_iff]
      exact not_mem_negatives (mem_repeatedPositives hMem)
    have hAll :
        drawn.filter (fun i => i ∈ negatives rows) = drawn := by
      apply List.filter_eq_self.mpr
      intro i hMem
      exact decide_eq_true (hDrawn.subset hMem)
    rw [hNone, hAll, List.length_nil, zero_add]
  constructor
  · intro hBalanced
    rw [← total_eq_iff, ← hTotal]
    exact hBalanced.total
  · intro hEnough
    refine ⟨?_, ?_, ?_⟩
    · intro i hPos
      rw [hPerm.count_eq, List.count_append,
        count_repeatedPositives hPos]
      have hNot : i ∉ drawn := by
        intro hMem
        exact not_mem_negatives hPos (hDrawn.subset hMem)
      rw [List.count_eq_zero_of_not_mem hNot, add_zero]
    · intro i hNeg
      have hNot : i ∉ repeatedPositives rows recipe := by
        intro hMem
        exact not_mem_negatives (mem_repeatedPositives hMem) hNeg
      rw [hPerm.count_eq, List.count_append,
        List.count_eq_zero_of_not_mem hNot, zero_add]
      exact (hDrawn.count_le i).trans
        (List.nodup_iff_count_le_one.mp
          (nodup_labelled rows 0) i)
    · rw [hTotal]
      exact (total_eq_iff rows recipe).mpr hEnough

/- One positive among active negatives, none of them silent. -/
def allActive : List EpochRow :=
  [⟨1, false⟩, ⟨0, true⟩, ⟨0, true⟩]

def halfHard : EpochRecipe where
  posRepeat := 1
  negRatio := 2
  hardNegativeFraction := 1 / 2
  repeats := le_rfl
  fraction_nonneg := by norm_num
  fraction_le_one := by norm_num

/- Two negatives are there and asked for, one is taken. -/
theorem not_balancedEpoch_allActive :
    ¬ BalancedEpoch allActive halfHard
      (balancedEpochIndices allActive halfHard
        Generator.first ()).1 := by
  intro hBalanced
  have hTotal := hBalanced.total
  revert hTotal
  decide +kernel

end Training

end Nidra
