import Nidra.Lib.Batches
import Nidra.Lib.Fallible
import Nidra.Model.FreeRunning

/-
  This file defines what an epoch of the dynamics is
  validated to, from the scores of the batches that the
  loader gives, and proves that the free-running metrics are
  those of all rows at once, however the rows are batched.

  Key definitions include:
    * `BatchScores`, `DynamicsMetrics`
    * `evaluateDynamics`
    * `validate`

  Main declarations:
    * `weightedByRows_parts`
    * `validate_free`
-/

namespace Nidra

namespace Training

open Model

section Definitions

variable {𝕜 : Type}
variable [Field 𝕜] [LinearOrder 𝕜]
variable {K : ℕ}

------------------------------------------------------------
-- Floats
------------------------------------------------------------

/- The sum of floats; a float is none when it is not finite. -/
def finiteSum (l : List (Option 𝕜)) : Option 𝕜 :=
  (l.mapM id).map List.sum

/- The mean of floats, which is no number when there are none. -/
def finiteMean (l : List (Option 𝕜)) : Option 𝕜 :=
  if l = [] then none
  else (finiteSum l).map (fun x => x / (l.length : 𝕜))

/- How much better than persistence, where that is not exact. -/
def skillOf (mse persistence : Option 𝕜) : Option 𝕜 := do
  let m ← mse
  let p ← persistence
  if 0 < p then some (1 - m / p) else none

------------------------------------------------------------
-- Validation
------------------------------------------------------------

/- What is computed of one batch of the loader. -/
structure BatchScores (𝕜 : Type) (K : ℕ) where
  rows : ℕ
  loss : Option 𝕜
  free : FreeMetrics (Option 𝕜) K

/- The free-running metrics of all batches. -/
structure FreeSummary (𝕜 : Type) (K : ℕ) where
  byK : FreeMetrics (Option 𝕜) K
  nll : Option 𝕜
  mse : Option 𝕜
  skillByK : Fin K → Option 𝕜
  skill : Option 𝕜
  coverage90 : Option 𝕜

/- What an epoch is validated to. -/
structure DynamicsMetrics (𝕜 : Type) (K : ℕ) where
  valNll : Option 𝕜 := none
  free : Option (FreeSummary 𝕜 K) := none

def rowsIn (batches : List (BatchScores 𝕜 K)) : ℕ :=
  (batches.map BatchScores.rows).sum

/- A metric at a horizon, every batch weighted by its rows. -/
def weightedByRows
    (batches : List (BatchScores 𝕜 K))
    (key : FreeMetrics (Option 𝕜) K → Fin K → Option 𝕜)
    (k : Fin K) : Option 𝕜 :=
  (finiteSum
      (batches.map
        (fun b =>
          (key b.free k).map (fun x => x * (b.rows : 𝕜))))).map
    (fun x => x / (rowsIn batches : 𝕜))

/- What is derived from the metrics of every horizon. -/
def summaryOf
    (byK : FreeMetrics (Option 𝕜) K) : FreeSummary 𝕜 K :=
  { byK := byK
    nll := finiteMean (List.ofFn byK.nll)
    mse := finiteMean (List.ofFn byK.mse)
    skillByK := fun k =>
      skillOf (byK.mse k) (byK.msePersistence k)
    skill :=
      skillOf (finiteSum (List.ofFn byK.mse))
        (finiteSum (List.ofFn byK.msePersistence))
    coverage90 := finiteMean (List.ofFn byK.coverage90) }

def byHorizon
    (batches : List (BatchScores 𝕜 K)) :
    FreeMetrics (Option 𝕜) K :=
  { nll := weightedByRows batches FreeMetrics.nll
    mse := weightedByRows batches FreeMetrics.mse
    msePersistence :=
      weightedByRows batches FreeMetrics.msePersistence
    coverage90 :=
      weightedByRows batches FreeMetrics.coverage90 }

/-
  The teacher-forced loss is averaged over the batches, the
  free-running metrics over the rows, and only when there
  are any.
-/
def evaluateDynamics
    (batches : List (BatchScores 𝕜 K)) :
    DynamicsMetrics 𝕜 K :=
  { valNll := finiteMean (batches.map BatchScores.loss)
    free :=
      if rowsIn batches = 0 then none
      else some (summaryOf (byHorizon batches)) }

theorem evaluateDynamics_free_isSome
    (batches : List (BatchScores 𝕜 K)) :
    (evaluateDynamics batches).free.isSome =
      decide (rowsIn batches ≠ 0) := by
  unfold evaluateDynamics
  by_cases hRows : rowsIn batches = 0
  · simp [hRows]
  · simp [hRows]

end Definitions

------------------------------------------------------------
-- Batches of a model's rows
------------------------------------------------------------

section Rows

variable {ι κ M 𝕜 : Type}
variable [Field 𝕜] [LinearOrder 𝕜]
variable [Fintype ι] [ExpLog 𝕜]
variable {K : ℕ}

/- A validation row: its history and the states after it. -/
structure ValRow (ι 𝕜 : Type) (K : ℕ) where
  x : Window ι 𝕜
  y : Fin K → Vec ι 𝕜

/- The free-running metrics of some rows as one batch. -/
def freeOf
    (model : WorldModel ι κ M 𝕜)
    (featureMask : Option (ι → Bool))
    (rows : List (ValRow ι 𝕜 K)) :
    Except RolloutError (FreeMetrics 𝕜 K) :=
  freeRunningMetrics model
    (fun b : Fin rows.length => rows[b].x)
    (fun b : Fin rows.length => rows[b].y) featureMask

/- The same values, of which all are finite. -/
def finiteMetrics
    (m : FreeMetrics 𝕜 K) : FreeMetrics (Option 𝕜) K :=
  { nll := fun k => some (m.nll k)
    mse := fun k => some (m.mse k)
    msePersistence := fun k => some (m.msePersistence k)
    coverage90 := fun k => some (m.coverage90 k) }

/- Score the rows of one batch. -/
def scoreBatch
    (model : WorldModel ι κ M 𝕜)
    (featureMask : Option (ι → Bool))
    (loss : List (ValRow ι 𝕜 K) → Option 𝕜)
    (rows : List (ValRow ι 𝕜 K)) :
    Except RolloutError (BatchScores 𝕜 K) := do
  let free ← freeOf model featureMask rows
  return {
    rows := rows.length
    loss := loss rows
    free := finiteMetrics free }

/- Validate the rows in batches of a size. -/
def validate
    (model : WorldModel ι κ M 𝕜)
    (featureMask : Option (ι → Bool))
    (loss : List (ValRow ι 𝕜 K) → Option 𝕜)
    (batchSize : ℕ)
    (rows : List (ValRow ι 𝕜 K)) :
    Except RolloutError (DynamicsMetrics 𝕜 K) := do
  let scored ←
    (batches batchSize rows).mapM
      (scoreBatch model featureMask loss)
  return evaluateDynamics scored

------------------------------------------------------------
-- However the rows are batched
------------------------------------------------------------

/- Which features count. -/
def keptMask (featureMask : Option (ι → Bool)) : Vec ι 𝕜 :=
  fun i =>
    match featureMask with
    | none => 1
    | some kept => maskValue (kept i)

/- The mean of a row's kept elements. -/
def rowMean
    (mask : Vec ι 𝕜)
    (elements : ValRow ι 𝕜 K → Vec ι 𝕜)
    (row : ValRow ι 𝕜 K) : 𝕜 :=
  (∑ i, elements row i * mask i) / max (∑ i, mask i) 1

/- Means over rows of what the free loop scores of each. -/
def meansOver
    (model : WorldModel ι κ M 𝕜)
    (mask : Vec ι 𝕜)
    (rows : List (ValRow ι 𝕜 K)) : FreeMetrics 𝕜 K :=
  let mean := fun elements =>
    average (rows.map (rowMean mask elements))
  { nll := fun k => mean (fun row i =>
      gaussianNllElement (freeState model row.x k i)
        (freeLogvar model row.x k i) (row.y k i))
    mse := fun k => mean (fun row i =>
      (freeState model row.x k i - row.y k i) ^ 2)
    msePersistence := fun k => mean (fun row i =>
      (row.x.current i - row.y k i) ^ 2)
    coverage90 := fun k => mean (fun row i =>
      insideBand (freeState model row.x k i)
        (freeLogvar model row.x k i) (row.y k i)) }

omit [ExpLog 𝕜] in
theorem keptMean_rows
    (mask : Vec ι 𝕜)
    (elements : ValRow ι 𝕜 K → Vec ι 𝕜)
    (rows : List (ValRow ι 𝕜 K)) :
    keptMean mask
        (fun b : Fin rows.length => elements rows[b]) =
      average (rows.map (rowMean mask elements)) := by
  have hMap :=
    List.ofFn_getElem_eq_map rows (rowMean mask elements)
  unfold keptMean
  rw [← hMap]
  rfl

theorem freeOf_eq
    (model : WorldModel ι κ M 𝕜)
    (featureMask : Option (ι → Bool))
    (hSteps : K ≠ 0)
    (rows : List (ValRow ι 𝕜 K)) :
    freeOf model featureMask rows =
      .ok (meansOver model (keptMask featureMask) rows) := by
  unfold freeOf freeRunningMetrics
  have hChecked : WorldModel.checkSteps K = .ok () := by
    rw [WorldModel.checkSteps, if_neg hSteps]
  rw [hChecked]
  dsimp only [bind, Except.bind, pure, Except.pure]
  unfold meansOver
  dsimp only
  simp only [← keptMean_rows]
  rfl

/- What a batch of rows is scored to. -/
def scoresOf
    (model : WorldModel ι κ M 𝕜)
    (mask : Vec ι 𝕜)
    (loss : List (ValRow ι 𝕜 K) → Option 𝕜)
    (rows : List (ValRow ι 𝕜 K)) : BatchScores 𝕜 K :=
  { rows := rows.length
    loss := loss rows
    free := finiteMetrics (meansOver model mask rows) }

theorem validate_eq
    (model : WorldModel ι κ M 𝕜)
    (featureMask : Option (ι → Bool))
    (loss : List (ValRow ι 𝕜 K) → Option 𝕜)
    (hSteps : K ≠ 0)
    (batchSize : ℕ)
    (rows : List (ValRow ι 𝕜 K)) :
    validate model featureMask loss batchSize rows =
      .ok
        (evaluateDynamics
          ((batches batchSize rows).map
            (scoresOf model (keptMask featureMask) loss))) := by
  have hBatch :
      ∀ batch ∈ batches batchSize rows,
        scoreBatch model featureMask loss batch =
          .ok
            (scoresOf model (keptMask featureMask) loss
              batch) := by
    intro batch _
    unfold scoreBatch
    rw [freeOf_eq model featureMask hSteps batch]
    rfl
  unfold validate
  rw [List.mapM_eq_ok hBatch]
  rfl

end Rows

section Means

variable {ρ 𝕜 : Type}
variable [Field 𝕜] [LinearOrder 𝕜]
variable {K : ℕ}

omit [LinearOrder 𝕜] in
theorem finiteSum_some
    (f : ρ → 𝕜)
    (l : List ρ) :
    finiteSum (l.map (fun a => some (f a))) =
      some (l.map f).sum := by
  unfold finiteSum
  rw [List.mapM_map]
  have hAll :
      l.mapM (fun a => id (some (f a))) =
        some (l.map f) :=
    List.mapM_pure
  exact congrArg (Option.map List.sum) hAll

/- Batches that are scored by means are scored by one mean. -/
theorem weightedByRows_parts
    [IsStrictOrderedRing 𝕜]
    {parts : List (List ρ)}
    {scores : List ρ → BatchScores 𝕜 K}
    (hRows : ∀ part, (scores part).rows = part.length)
    {key : FreeMetrics (Option 𝕜) K → Fin K → Option 𝕜}
    {k : Fin K}
    {value : ρ → 𝕜}
    (hKey :
      ∀ part,
        key (scores part).free k =
          some (average (part.map value))) :
    weightedByRows (parts.map scores) key k =
      some (average (parts.flatten.map value)) := by
  have hTerms :
      (parts.map scores).map
          (fun b =>
            (key b.free k).map
              (fun x => x * (b.rows : 𝕜))) =
        parts.map
          (fun part =>
            some
              (average (part.map value) *
                (part.length : 𝕜))) := by
    rw [List.map_map]
    apply List.map_congr_left
    intro part _
    simp only [Function.comp_apply, hKey, hRows,
      Option.map_some]
  have hCount :
      rowsIn (parts.map scores) =
        (parts.map List.length).sum := by
    unfold rowsIn
    rw [List.map_map]
    exact congrArg List.sum
      (List.map_congr_left (fun part _ => hRows part))
  have hMeans :=
    average_flatten (parts.map (List.map value))
  simp only [List.map_map, Function.comp_def,
    List.length_map] at hMeans
  unfold weightedByRows
  rw [hTerms, hCount, finiteSum_some, Option.map_some,
    List.map_flatten, ← hMeans]

end Means

section Batching

variable {ι κ M 𝕜 : Type}
variable [Field 𝕜] [LinearOrder 𝕜] [IsStrictOrderedRing 𝕜]
variable [Fintype ι] [ExpLog 𝕜]
variable {K : ℕ}

theorem byHorizon_scoresOf
    (model : WorldModel ι κ M 𝕜)
    (mask : Vec ι 𝕜)
    (loss : List (ValRow ι 𝕜 K) → Option 𝕜)
    (parts : List (List (ValRow ι 𝕜 K))) :
    byHorizon (parts.map (scoresOf model mask loss)) =
      finiteMetrics (meansOver model mask parts.flatten) := by
  have hRows :
      ∀ part, (scoresOf model mask loss part).rows =
        part.length :=
    fun _ => rfl
  unfold byHorizon finiteMetrics
  congr 1 <;> funext k <;>
    exact weightedByRows_parts hRows (fun _ => rfl)

/-
  Whatever the size of the batches, the free-running metrics
  that an epoch is validated to, and all that is derived from
  them, are those of all rows as one batch; without a row
  there are none.
-/
theorem validate_free
    (model : WorldModel ι κ M 𝕜)
    (featureMask : Option (ι → Bool))
    (loss : List (ValRow ι 𝕜 K) → Option 𝕜)
    (hSteps : K ≠ 0)
    {batchSize : ℕ}
    (hSize : 0 < batchSize)
    (rows : List (ValRow ι 𝕜 K)) :
    ∃ metrics free,
      validate model featureMask loss batchSize rows =
          .ok metrics ∧
        freeOf model featureMask rows = .ok free ∧
        metrics.free =
          if rows = [] then none
          else some (summaryOf (finiteMetrics free)) := by
  refine ⟨_, _,
    validate_eq model featureMask loss hSteps batchSize rows,
    freeOf_eq model featureMask hSteps rows, ?_⟩
  have hCount :
      rowsIn
          ((batches batchSize rows).map
            (scoresOf model (keptMask featureMask) loss)) =
        rows.length := by
    unfold rowsIn
    rw [List.map_map]
    have hLengths :
        ((batches batchSize rows).map List.length).sum =
          rows.length := by
      rw [← List.length_flatten, flatten_batches hSize]
    exact hLengths
  unfold evaluateDynamics
  dsimp only
  rw [hCount, byHorizon_scoresOf, flatten_batches hSize]
  simp only [List.length_eq_zero_iff]

end Batching

/- A silent host of which one more state is known. -/
def silentRow : ValRow Unit ℚ 1 :=
  { x := silentWindow
    y := fun _ => 1 }

attribute [local instance] rolloutExpLog in
/- Three rows, of which the last makes a batch of its own. -/
theorem validate_free_threeRows :
    ∃ metrics free,
      validate drifting none (fun _ => some 0) 2
            [silentRow, silentRow, silentRow] =
          .ok metrics ∧
        freeOf drifting none
            [silentRow, silentRow, silentRow] =
          .ok free ∧
        metrics.free =
          some (summaryOf (finiteMetrics free)) :=
  validate_free drifting none (fun _ => some 0) one_ne_zero
    Nat.zero_lt_two [silentRow, silentRow, silentRow]

end Training

end Nidra
