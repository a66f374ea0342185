import Nidra.Evaluation.Systems
import Nidra.Lib.Fallible
import Nidra.Model.FreeRunning
import Nidra.Serving.Band

/-
  This file proves for which ensembles the probability that
  is served at an operating point is the statistic that was
  benchmarked: those of one member, and those whose heads all
  read bare states.

  Key definitions include:
    * `servedRow`, `benchedRow`
    * `SameStatistic`

  Main declarations:
    * `rolloutRisk_eq`
    * `riskRawK_of_ensembleRollout`
    * `sameStatistic_of_kinds`
    * `sameStatistic_iff`
-/

namespace Nidra

namespace Evaluation

open Model Serving

set_option linter.unusedSectionVars false

variable {ι κ M 𝕜 : Type}
variable [Field 𝕜] [LinearOrder 𝕜] [ExpLog 𝕜]

------------------------------------------------------------
-- What is computed
------------------------------------------------------------

section Rows

variable (models : List (WorldModel ι κ M 𝕜))
variable (K nSamples : ℕ)
variable
  (noise :
    ℕ → ℕ → ℕ → Fin (samples nSamples) → Vec ι 𝕜)

/- One sampled trajectory of a context. -/
def simulated
    (model : WorldModel ι κ M 𝕜)
    (x : Window ι 𝕜)
    (drawn : ℕ → Vec ι 𝕜) : Trajectory ι κ 𝕜 K :=
  { anchor := x.current
    steps := fun k =>
      loopOutput
        (model.rolloutStep
          (StateSource.model : StateSource ι 𝕜 1) true 0
          x.current drawn)
        (model.begin x) k }

/- The trajectories of a member for a row. -/
def memberRow
    (row : Window ι 𝕜 × ℕ)
    (member : WorldModel ι κ M 𝕜 × ℕ) :
    List (Trajectory ι κ 𝕜 K) :=
  List.ofFn (fun sample =>
    simulated K member.1 row.1 (fun draw =>
      noise member.2 draw row.2 sample))

/- The trajectories of all members for a row. -/
def pooledRow
    (row : Window ι 𝕜 × ℕ) : List (Trajectory ι κ 𝕜 K) :=
  models.zipIdx.flatMap (memberRow K nSamples noise row)

/- The head-mean risks that are served for a row. -/
def servedRow
    (row : Window ι 𝕜 × ℕ) : List (Fin K → 𝕜) :=
  (pooledRow models K nSamples noise row).map (fun out k =>
    average
      (models.map (fun model => model.stepRisk out k)))

/- The risks that the benchmark keeps of a row. -/
def benchedRow
    (row : Window ι 𝕜 × ℕ) : List (Fin K → 𝕜) :=
  if models.any isTrajectory then
    (models.zipIdx.filter (fun member =>
        isTrajectory member.1)).flatMap (fun member =>
      (memberRow K nSamples noise row member).map
        member.1.stepRisk)
  else servedRow models K nSamples noise row

variable {models K nSamples noise}

theorem memberRollouts_eq
    {B : ℕ}
    (hSteps : K ≠ 0)
    (x : Fin B → Window ι 𝕜)
    (drawn : ℕ → Noise ι 𝕜 B (samples nSamples)) :
    memberRollouts models x K nSamples drawn =
      .ok (models.zipIdx.map (fun member b sample =>
        simulated K member.1 (x b) (fun draw =>
          drawn member.2 draw b sample))) := by
  unfold memberRollouts
  apply List.mapM_eq_ok
  intro member _
  rw [rollout_eq_ok member.1 hSteps]
  rfl

theorem poolOutputs_eq
    {B S : ℕ}
    {outs : List (RolloutOutput ι κ 𝕜 B S K)}
    (hSome : outs ≠ []) :
    poolOutputs outs =
      .ok (fun b =>
        outs.flatMap (fun out => List.ofFn (out b))) := by
  unfold poolOutputs
  rw [if_neg (by simpa using hSome)]

/- The risk that a per-state head gives to a state. -/
def bareRisk
    (model : WorldModel ι κ M 𝕜)
    (state : Vec ι 𝕜) : 𝕜 :=
  match model.riskHead with
  | .perState net => sigmoid (net state)
  | .trajectory _ _ => 0

theorem scoreStates_eq
    {model : WorldModel ι κ M 𝕜}
    (hPerState : isTrajectory model = false) :
    scoreStates model = .ok (bareRisk model) := by
  unfold isTrajectory at hPerState
  unfold scoreStates bareRisk
  cases hHead : model.riskHead with
  | perState net => rfl
  | trajectory components net =>
      rw [hHead] at hPerState
      cases hPerState

theorem stepRisk_eq
    {model : WorldModel ι κ M 𝕜}
    (hPerState : isTrajectory model = false)
    (out : Trajectory ι κ 𝕜 K)
    (k : Fin K) :
    model.stepRisk out k =
      bareRisk model (out.steps k).state := by
  unfold isTrajectory at hPerState
  unfold WorldModel.stepRisk bareRisk
  cases hHead : model.riskHead with
  | perState net => rfl
  | trajectory components net =>
      rw [hHead] at hPerState
      cases hPerState

/- Every per-state head scores bare states. -/
theorem sharedRisk_eq
    {B : ℕ}
    (hPerState :
      ∀ model ∈ models, isTrajectory model = false)
    (pooled : Fin B → List (Trajectory ι κ 𝕜 K)) :
    sharedRisk models pooled =
      .ok (fun b =>
        (pooled b).map (fun out k =>
          average
            (models.map (fun model =>
              model.stepRisk out k)))) := by
  have hScores :
      models.mapM scoreStates = .ok (models.map bareRisk) :=
    List.mapM_eq_ok (fun model hMem =>
      scoreStates_eq (hPerState model hMem))
  have hSame :
      ∀ (out : Trajectory ι κ 𝕜 K) k,
        (models.map bareRisk).map (fun score =>
            score (out.steps k).state) =
          models.map (fun model => model.stepRisk out k) := by
    intro out k
    rw [List.map_map]
    apply List.map_congr_left
    intro model hMem
    exact (stepRisk_eq (hPerState model hMem) out k).symm
  unfold sharedRisk
  rw [hScores]
  change
    Except.ok (fun b =>
      (pooled b).map (fun out k =>
        average
          ((models.map bareRisk).map (fun score =>
            score (out.steps k).state)))) = _
  simp only [hSame]

/- The members whose heads score their own rollouts. -/
theorem zip_filter_eq
    {γ : Type}
    (g : WorldModel ι κ M 𝕜 × ℕ → γ) :
    (models.zip (models.zipIdx.map g)).filter (fun member =>
        isTrajectory member.1) =
      (models.zipIdx.filter (fun member =>
        isTrajectory member.1)).map (fun member =>
          (member.1, g member)) := by
  have hZip :
      models.zip (models.zipIdx.map g) =
        models.zipIdx.map (fun member =>
          (member.1, g member)) := by
    nth_rewrite 1 [← List.zipIdx_map_fst 0 models]
    rw [List.zip_map']
  rw [hZip, List.filter_map]
  rfl

/- Each row gets its own risks or those of all heads. -/
theorem batchScores_eq
    (rows : List (Window ι 𝕜 × ℕ)) :
    batchScores models
        (models.zipIdx.map (fun member b sample =>
          simulated K member.1 (rows.get b).1 (fun draw =>
            noise member.2 draw (rows.get b).2 sample)))
        (fun b =>
          pooledRow models K nSamples noise (rows.get b)) =
      .ok (fun b =>
        benchedRow models K nSamples noise (rows.get b)) := by
  unfold batchScores
  simp only [zip_filter_eq]
  cases hAny : models.any isTrajectory with
  | false =>
      have hPerState :
          ∀ model ∈ models, isTrajectory model = false := by
        simpa using hAny
      have hNone :
          models.zipIdx.filter (fun member =>
            isTrajectory member.1) = [] := by
        rw [List.filter_eq_nil_iff]
        intro member hMem
        have hModel := List.fst_mem_of_mem_zipIdx hMem
        simp [hPerState _ hModel]
      rw [hNone, List.map_nil, if_pos List.isEmpty_nil,
        sharedRisk_eq hPerState]
      simp only [benchedRow, hAny, servedRow]
      rfl
  | true =>
      have hSome :
          models.zipIdx.filter (fun member =>
            isTrajectory member.1) ≠ [] := by
        rcases List.any_eq_true.mp hAny with
          ⟨model, hMem, hTrajectory⟩
        rw [← List.zipIdx_map_fst 0 models] at hMem
        rcases List.mem_map.mp hMem with
          ⟨member, hMember, rfl⟩
        exact
          List.ne_nil_of_mem
            (List.mem_filter.mpr ⟨hMember, hTrajectory⟩)
      rw [if_neg (by simpa using hSome)]
      congr 1
      funext b
      rw [ownRisk, List.flatMap_map, benchedRow, if_pos hAny]
      congr 1
      funext member
      rw [memberRow, List.map_ofFn]
      rfl

/- A function of the entries, entry by entry. -/
theorem ofFn_comp_get
    {α β : Type}
    (f : α → β)
    (l : List α) :
    List.ofFn (fun i => f (l.get i)) = l.map f := by
  have hMap := List.map_ofFn (f := l.get) (g := f)
  rw [List.ofFn_get] at hMap
  exact hMap.symm

/- A batch is scored row by row. -/
theorem batchRisk_eq
    (hSteps : K ≠ 0)
    (hSome : models ≠ [])
    (rows : List (Window ι 𝕜 × ℕ)) :
    batchRisk models K nSamples false none noise rows =
      .ok (rows.map (benchedRow models K nSamples noise)) := by
  have hPatched :
      models.map (patched false none) = models := by
    have hId :
        (patched false none : WorldModel ι κ M 𝕜 → _) = id := by
      funext model
      rfl
    rw [hId, List.map_id]
  have hOuts :
      models.zipIdx.map (fun member
          (b : Fin rows.length) sample =>
        simulated K member.1 (rows.get b).1 (fun draw =>
          noise member.2 draw (rows.get b).2 sample)) ≠ [] := by
    simpa using hSome
  unfold batchRisk
  rw [hPatched, memberRollouts_eq hSteps]
  change
    (poolOutputs _ >>= fun pooled =>
      batchScores models _ pooled >>= fun scores =>
        .ok (List.ofFn scores)) = _
  rw [poolOutputs_eq hOuts]
  change
    (batchScores models _ _ >>= fun scores =>
      .ok (List.ofFn scores)) = _
  have hPooled :
      (fun b =>
        (models.zipIdx.map (fun member
            (b : Fin rows.length) sample =>
          simulated K member.1 (rows.get b).1 (fun draw =>
            noise member.2 draw (rows.get b).2
              sample))).flatMap (fun out =>
                List.ofFn (out b))) =
        fun b =>
          pooledRow models K nSamples noise (rows.get b) := by
    funext b
    rw [List.flatMap_map]
    rfl
  rw [hPooled, batchScores_eq]
  change
    Except.ok (List.ofFn (fun b =>
      benchedRow models K nSamples noise (rows.get b))) = _
  congr 1
  exact ofFn_comp_get _ rows

/- All rows are scored, whatever the size of a batch. -/
theorem rolloutRisk_eq
    (hSteps : K ≠ 0)
    (hSome : models ≠ [])
    {chunk : ℕ}
    (hChunk : 0 < chunk)
    {X : List (Window ι 𝕜)}
    (hRows : X ≠ []) :
    rolloutRisk models X K nSamples chunk false none noise =
      .ok (X.zipIdx.map
        (benchedRow models K nSamples noise)) := by
  unfold rolloutRisk
  rw [if_neg hChunk.ne', if_neg (by simpa using hRows),
    List.mapM_eq_ok (fun rows _ =>
      batchRisk_eq hSteps hSome rows)]
  change
    Except.ok
      ((batches chunk X.zipIdx).map (fun rows =>
        rows.map (benchedRow models K nSamples noise))).flatten
      = _
  rw [← List.map_flatten, flatten_batches hChunk]

/- What the heads make of the pool of a row, head-averaged. -/
theorem trajectories_perHeadRisk
    (pooled : List (Trajectory ι κ 𝕜 K))
    (k : Fin K) :
    trajectories
        (headMean (fun member sample =>
          perHeadRisk models pooled member sample k)) =
      pooled.map (fun out =>
        average
          (models.map (fun model =>
            model.stepRisk out k))) := by
  have hHeads :
      ∀ out : Trajectory ι κ 𝕜 K,
        List.ofFn (fun member =>
            (models.get member).stepRisk out k) =
          models.map (fun model => model.stepRisk out k) :=
    fun out =>
      ofFn_comp_get (fun model => model.stepRisk out k) models
  unfold trajectories headMean perHeadRisk
  simp only [hHeads]
  exact
    ofFn_comp_get
      (fun out =>
        average
          (models.map (fun model => model.stepRisk out k)))
      pooled

end Rows

------------------------------------------------------------
-- The two statistics
------------------------------------------------------------

section Statistics

variable [FloorSemiring 𝕜]

/-
  Wherever an operating point is served for a context, the
  benchmark has the same pooled risks at the row of that
  context, whatever batch of rows it scores, with the same
  noise for each member.
-/
def SameStatistic
    (models : List (WorldModel ι κ M 𝕜)) : Prop :=
  ∀ (cfg : ServingConfig 𝕜) method share,
    cfg.pooling = .operatingPoint method share →
      ∀ (X : List (Window ι 𝕜)) nSamples chunk noise n x r,
        0 < chunk →
          X[n]? = some x →
            ensembleRollout cfg models x nSamples
                (fun member draw _ sample =>
                  noise member draw n sample) =
              .ok r →
              ∃ riskTraj rows,
                rolloutRisk models X cfg.horizonLength nSamples
                    chunk false none noise =
                  .ok riskTraj ∧
                  pooledScores method share riskTraj =
                      .ok rows ∧
                    rows[n]? = some r.riskRawK

/- A reduction that is admitted is so for any sample. -/
theorem exists_statistic
    {method : PoolMethod}
    {share : Option 𝕜}
    {l : List 𝕜}
    {value : 𝕜}
    (hOk : poolTrajectoriesNp l method share = .ok value) :
    ∃ statistic : List 𝕜 → 𝕜,
      ∀ other,
        poolTrajectoriesNp other method share =
          .ok (statistic other) := by
  cases method with
  | mean => exact ⟨average, fun _ => rfl⟩
  | median => exact ⟨median, fun _ => rfl⟩
  | max => exact ⟨largest, fun _ => rfl⟩
  | pAboveHalf =>
      exact ⟨fun l => average (aboveHalf l), fun _ => rfl⟩
  | quantile =>
      cases share with
      | none => cases hOk
      | some q =>
          refine ⟨quantile q, fun other => ?_⟩
          simp only [poolTrajectoriesNp, checkedQuantile]
            at hOk ⊢
          split at hOk
          · next hShare => rw [if_pos hShare]
          · cases hOk

theorem mapError_eq_ok_iff
    {ε ε' α : Type}
    {f : ε → ε'}
    {result : Except ε α}
    {a : α} :
    result.mapError f = .ok a ↔ result = .ok a := by
  cases result <;> simp [Except.mapError]

/- What is served is served of some members and steps. -/
theorem admitted_of_ensembleRollout
    {cfg : ServingConfig 𝕜}
    {models : List (WorldModel ι κ M 𝕜)}
    {x : Window ι 𝕜}
    {nSamples : ℕ}
    {drawn : ℕ → Noise ι 𝕜 1 (samples nSamples)}
    {r : Rollout 𝕜}
    (hOk :
      ensembleRollout cfg models x nSamples drawn = .ok r) :
    models ≠ [] ∧ cfg.horizonLength ≠ 0 := by
  constructor
  · rintro rfl
    cases hOk
  · intro hZero
    cases models with
    | nil => cases hOk
    | cons model rest =>
        unfold ensembleRollout at hOk
        rw [Except.bind_eq_ok_iff] at hOk
        rcases hOk with ⟨outs, hOuts, _⟩
        unfold memberRollouts at hOuts
        rw [List.zipIdx_cons, List.mapM_cons,
          Except.bind_eq_ok_iff] at hOuts
        rcases hOuts with ⟨out, hOut, _⟩
        rw [mapError_eq_ok_iff] at hOut
        unfold WorldModel.rollout WorldModel.checkSource
          WorldModel.checkSteps at hOut
        rw [if_pos hZero] at hOut
        cases hOut

/- What is served pools the head-mean risks of the row. -/
theorem riskRawK_of_ensembleRollout
    {cfg : ServingConfig 𝕜}
    {method : PoolMethod}
    {share : Option 𝕜}
    (hPooling : cfg.pooling = .operatingPoint method share)
    {models : List (WorldModel ι κ M 𝕜)}
    {x : Window ι 𝕜}
    {nSamples n : ℕ}
    {noise :
      ℕ → ℕ → ℕ → Fin (samples nSamples) → Vec ι 𝕜}
    {r : Rollout 𝕜}
    (hOk :
      ensembleRollout cfg models x nSamples
          (fun member draw _ sample =>
            noise member draw n sample) =
        .ok r) :
    (List.finRange cfg.horizonLength).mapM (fun k =>
        poolTrajectoriesNp
          ((servedRow models cfg.horizonLength nSamples noise
            (x, n)).map (fun risk => risk k))
          method share) =
      .ok r.riskRawK := by
  rcases admitted_of_ensembleRollout hOk with
    ⟨hSome, hSteps⟩
  have hOuts :
      models.zipIdx.map (fun member
          (_ : Fin 1) (sample : Fin (samples nSamples)) =>
        simulated cfg.horizonLength member.1 x (fun draw =>
          noise member.2 draw n sample)) ≠ [] := by
    simpa using hSome
  unfold ensembleRollout at hOk
  rw [memberRollouts_eq hSteps] at hOk
  change
    (poolOutputs _ >>= fun pooled =>
      (poolRollout cfg
        (perHeadRisk models (pooled 0))).mapError _) = _
    at hOk
  rw [poolOutputs_eq hOuts] at hOk
  change (poolRollout cfg (perHeadRisk models _)).mapError _ = _
    at hOk
  beta_reduce at hOk
  rw [mapError_eq_ok_iff, List.flatMap_map] at hOk
  unfold poolRollout at hOk
  simp only [Except.bind_eq_ok_iff] at hOk
  rcases hOk with
    ⟨raw, hRaw, low, _, high, _, mean, _, lowK, _, highK, _,
      hOk⟩
  cases hOk
  rw [← hRaw]
  unfold overHorizons
  rw [hPooling]
  congr 1
  funext k
  simp only [pointRisk]
  rw [trajectories_perHeadRisk]
  unfold servedRow
  rw [List.map_map]
  rfl

/- Where the rows agree, the statistics do. -/
theorem sameStatistic_of_rows
    {models : List (WorldModel ι κ M 𝕜)}
    (hRows :
      ∀ K nSamples noise row,
        benchedRow models K nSamples noise row =
          servedRow models K nSamples noise row) :
    SameStatistic models := by
  intro cfg method share hPooling X nSamples chunk noise n x r
    hChunk hRow hOk
  rcases admitted_of_ensembleRollout hOk with
    ⟨hSome, hSteps⟩
  have hServed := riskRawK_of_ensembleRollout hPooling hOk
  have hX : X ≠ [] := by
    rintro rfl
    cases hRow
  have hFirst :
      ∃ l value,
        poolTrajectoriesNp l method share = .ok value := by
    have hEach := List.exists_mapM_iff.mp ⟨_, hServed⟩
    rcases hEach ⟨0, Nat.pos_of_ne_zero hSteps⟩
        (List.mem_finRange _) with
      ⟨value, hValue⟩
    exact ⟨_, value, hValue⟩
  rcases hFirst with ⟨l, value, hValue⟩
  rcases exists_statistic hValue with ⟨statistic, hStatistic⟩
  simp only [hStatistic] at hServed
  refine
    ⟨_,
      X.zipIdx.map (fun row =>
        (List.finRange cfg.horizonLength).map (fun k =>
          statistic
            ((benchedRow models cfg.horizonLength nSamples
              noise row).map (fun risk => risk k)))),
      rolloutRisk_eq hSteps hSome hChunk hX, ?_, ?_⟩
  · unfold pooledScores
    have hStep :
        ∀ row ∈ X.zipIdx.map
            (benchedRow models cfg.horizonLength nSamples
              noise),
          (List.finRange cfg.horizonLength).mapM (fun k =>
              (poolTrajectoriesNp
                (row.map (fun risk => risk k)) method
                share).mapError EnsembleError.pooling) =
            .ok ((List.finRange cfg.horizonLength).map (fun k =>
              statistic (row.map (fun risk => risk k)))) := by
      intro row _
      apply List.mapM_eq_ok
      intro k _
      rw [hStatistic]
      rfl
    rw [List.mapM_eq_ok hStep, List.map_map]
    rfl
  · rw [mapM_ok, Except.ok.injEq] at hServed
    rw [← hServed, List.getElem?_map, List.getElem?_zipIdx, hRow]
    simp only [Option.map_some, Nat.zero_add, hRows]

/- One member, or per-state heads only. -/
theorem sameStatistic_of_kinds
    {models : List (WorldModel ι κ M 𝕜)}
    (hKinds :
      models.length ≤ 1 ∨
        ∀ model ∈ models, isTrajectory model = false) :
    SameStatistic models := by
  apply sameStatistic_of_rows
  intro K nSamples noise row
  unfold benchedRow
  split
  · next hAny =>
      rcases hKinds with hOne | hPerState
      · cases models with
        | nil => cases hAny
        | cons model rest =>
            have hRest : rest = [] := by
              rw [List.length_cons] at hOne
              exact List.length_eq_zero_iff.mp (by omega)
            subst hRest
            have hKind : isTrajectory model = true := by
              simpa using hAny
            simp [servedRow, pooledRow, List.zipIdx_cons,
              hKind, average]
      · rcases List.any_eq_true.mp hAny with
          ⟨model, hMem, hTrajectory⟩
        rw [hPerState model hMem] at hTrajectory
        cases hTrajectory
  · rfl

end Statistics

------------------------------------------------------------
-- Other ensembles
------------------------------------------------------------

section Disagreement

variable [Inhabited M]

/- A member that gives one risk to whatever it is shown. -/
def constant
    (reads : Bool)
    (c : ℝ) : WorldModel ι κ M ℝ :=
  { encoder :=
      { cell := fun _ h => h
        output := fun _ => 0
        blank := default }
    transition :=
      { logvarMin := 0
        forward := fun _ _ _ => (0, 0) }
    riskHead :=
      if reads then .trajectory [.state] (fun _ => c)
      else .perState (fun _ => c)
    stageHead :=
      { stages := 1
        net := fun _ _ => 0 }
    stateClamp := 10
    featureMask := none }

theorem stepRisk_constant
    {K : ℕ}
    (reads : Bool)
    (c : ℝ)
    (out : Trajectory ι κ ℝ K)
    (k : Fin K) :
    (constant reads c : WorldModel ι κ M ℝ).stepRisk out k =
      sigmoid c := by
  cases reads <;> rfl

theorem isTrajectory_constant
    (reads : Bool)
    (c : ℝ) :
    isTrajectory (constant reads c : WorldModel ι κ M ℝ) =
      reads := by
  cases reads <;> rfl

/- One member is sure where the others are not. -/
def oneSure
    (before after : List Bool) : List (WorldModel ι κ M ℝ) :=
  before.map (fun reads => constant reads 0) ++
    constant true 1 ::
      after.map (fun reads => constant reads 0)

theorem oneSure_kinds
    (before after : List Bool) :
    (oneSure before after :
        List (WorldModel ι κ M ℝ)).map isTrajectory =
      before ++ true :: after := by
  simp [oneSure, isTrajectory_constant, Function.comp_def]

/- The heads are less sure on average than the one. -/
theorem average_oneSure_lt
    {before after : List Bool}
    (hOthers : 0 < before.length + after.length)
    {K : ℕ}
    (out : Trajectory ι κ ℝ K)
    (k : Fin K) :
    average
        ((oneSure before after :
          List (WorldModel ι κ M ℝ)).map (fun model =>
            model.stepRisk out k)) <
      sigmoid 1 := by
  have hLt : sigmoid (0 : ℝ) < sigmoid 1 :=
    sigmoid_lt (by norm_num)
  have hCount : (0 : ℝ) < before.length + after.length := by
    exact_mod_cast hOthers
  have hRisks :
      (oneSure before after :
          List (WorldModel ι κ M ℝ)).map (fun model =>
            model.stepRisk out k) =
        List.replicate before.length (sigmoid 0) ++
          sigmoid 1 ::
            List.replicate after.length (sigmoid 0) := by
    simp [oneSure, stepRisk_constant, Function.comp_def]
  rw [hRisks, average]
  simp only [List.sum_append, List.sum_cons,
    List.sum_replicate, List.length_append, List.length_cons,
    List.length_replicate, nsmul_eq_mul]
  push_cast
  rw [div_lt_iff₀ (by linarith)]
  nlinarith

/- A configuration that serves the largest risk. -/
noncomputable def servesLargest : ServingConfig ℝ :=
  { pooling := .operatingPoint .max none
    ciLowQuantile := 0
    ciHighQuantile := 1
    calibration := none
    riskThreshold := 0
    horizonLength := 1
    windowSeconds := 1 }

theorem servesLargest_admitted : servesLargest.Admitted :=
  { pooling := by
      intro hMethod
      cases hMethod
    low_nonneg := le_rfl
    low_le_high := zero_le_one
    high_le_one := le_rfl
    slopes := by
      intro paramsByK hSome
      cases hSome
    horizon_pos := Nat.one_pos
    window_pos := one_pos }

/- A window with nothing in it. -/
def emptyWindow : Window ι ℝ :=
  { earlier := []
    current := 0 }

/- An admitted configuration serves every ensemble. -/
theorem exists_ensembleRollout
    {cfg : ServingConfig ℝ}
    (hAdmitted : cfg.Admitted)
    {models : List (WorldModel ι κ M ℝ)}
    (hSome : models ≠ [])
    (x : Window ι ℝ)
    (nSamples : ℕ)
    (drawn : ℕ → Noise ι ℝ 1 (samples nSamples)) :
    ∃ r,
      ensembleRollout cfg models x nSamples drawn =
        .ok r := by
  unfold ensembleRollout
  rw [memberRollouts_eq hAdmitted.horizon_pos.ne']
  change
    ∃ r,
      (poolOutputs _ >>= fun pooled =>
        (poolRollout cfg
          (perHeadRisk models (pooled 0))).mapError _) = .ok r
  rw [poolOutputs_eq (by simpa using hSome)]
  change
    ∃ r,
      (poolRollout cfg (perHeadRisk models _)).mapError _ =
        .ok r
  rw [poolRollout_eq_ok hAdmitted]
  exact ⟨_, rfl⟩

/- The largest risks of rows, horizon by horizon. -/
theorem pooledScores_max
    {K : ℕ}
    (riskTraj : List (List (Fin K → ℝ))) :
    pooledScores .max none riskTraj =
      .ok (riskTraj.map (fun row =>
        (List.finRange K).map (fun k =>
          largest (row.map (fun risk => risk k))))) := by
  apply List.mapM_eq_ok
  intro row _
  apply List.mapM_eq_ok
  intro k _
  rfl

section OneSure

variable (before after : List Bool)
variable (K nSamples : ℕ)
variable
  (noise :
    ℕ → ℕ → ℕ → Fin (samples nSamples) → Vec ι ℝ)
variable (row : Window ι ℝ × ℕ)

/- The benchmark keeps the risk that the sure one gives. -/
theorem sure_mem_benchedRow
    (k : Fin K) :
    sigmoid 1 ∈
      (benchedRow
        (oneSure before after : List (WorldModel ι κ M ℝ))
        K nSamples noise row).map (fun risk => risk k) := by
  have hMem :
      (constant true 1 : WorldModel ι κ M ℝ) ∈
        oneSure before after := by
    simp [oneSure]
  have hAny :
      (oneSure before after :
        List (WorldModel ι κ M ℝ)).any isTrajectory =
          true :=
    List.any_eq_true.mpr
      ⟨_, hMem, isTrajectory_constant true 1⟩
  rw [← List.zipIdx_map_fst 0
    (oneSure before after)] at hMem
  rcases List.mem_map.mp hMem with
    ⟨member, hMember, hConstant⟩
  have hSample : 0 < samples nSamples := by
    unfold samples
    omega
  rw [benchedRow, if_pos hAny, List.mem_map]
  refine
    ⟨member.1.stepRisk
      (simulated K member.1 row.1 (fun draw =>
        noise member.2 draw row.2 ⟨0, hSample⟩)), ?_, ?_⟩
  · rw [List.mem_flatMap]
    refine ⟨member, List.mem_filter.mpr ⟨hMember, ?_⟩, ?_⟩
    · rw [hConstant]
      exact isTrajectory_constant true 1
    · apply List.mem_map_of_mem
      exact List.mem_ofFn.mpr ⟨⟨0, hSample⟩, rfl⟩
  · rw [hConstant]
    exact stepRisk_constant true 1 _ k

/- What is served is less. -/
theorem largest_servedRow_lt
    (hOthers : 0 < before.length + after.length)
    (k : Fin K) :
    largest
        ((servedRow
          (oneSure before after : List (WorldModel ι κ M ℝ))
          K nSamples noise row).map (fun risk => risk k)) <
      sigmoid 1 := by
  by_cases hSome :
      (servedRow
        (oneSure before after : List (WorldModel ι κ M ℝ))
        K nSamples noise row).map (fun risk => risk k) = []
  · rw [hSome]
    have hZero := (sigmoid_bounds 0).1
    have hLt : sigmoid (0 : ℝ) < sigmoid 1 :=
      sigmoid_lt (by norm_num)
    exact lt_of_le_of_lt hZero hLt
  · rcases List.mem_map.mp (largest_mem hSome) with
      ⟨risk, hRisk, hLargest⟩
    rcases List.mem_map.mp hRisk with ⟨out, _, rfl⟩
    rw [← hLargest]
    exact average_oneSure_lt hOthers out k

theorem largest_rows_ne
    (hOthers : 0 < before.length + after.length)
    (k : Fin K) :
    largest
        ((benchedRow
          (oneSure before after : List (WorldModel ι κ M ℝ))
          K nSamples noise row).map (fun risk => risk k)) ≠
      largest
        ((servedRow
          (oneSure before after : List (WorldModel ι κ M ℝ))
          K nSamples noise row).map (fun risk => risk k)) :=
  ne_of_gt
    (lt_of_lt_of_le
      (largest_servedRow_lt before after K nSamples noise row
        hOthers k)
      (le_largest
        (sure_mem_benchedRow before after K nSamples noise row
          k)))

end OneSure

/- Where the largest risk is served, the rows have the same. -/
theorem largest_rows_of_sameStatistic
    {models : List (WorldModel ι κ M ℝ)}
    (hSame : SameStatistic models)
    (hSome : models ≠ [])
    {cfg : ServingConfig ℝ}
    (hAdmitted : cfg.Admitted)
    (hPooling : cfg.pooling = .operatingPoint .max none)
    (x : Window ι ℝ)
    (nSamples : ℕ)
    (noise :
      ℕ → ℕ → ℕ → Fin (samples nSamples) → Vec ι ℝ)
    (k : Fin cfg.horizonLength) :
    largest
        ((benchedRow models cfg.horizonLength nSamples noise
          (x, 0)).map (fun risk => risk k)) =
      largest
        ((servedRow models cfg.horizonLength nSamples noise
          (x, 0)).map (fun risk => risk k)) := by
  have hSteps := hAdmitted.horizon_pos.ne'
  rcases exists_ensembleRollout hAdmitted hSome x nSamples
      (fun member draw _ sample =>
        noise member draw 0 sample) with
    ⟨r, hOk⟩
  rcases hSame cfg .max none hPooling [x] nSamples 1 noise 0 x
      r Nat.one_pos rfl hOk with
    ⟨riskTraj, rows, hTraj, hRows, hRow⟩
  rw [rolloutRisk_eq hSteps hSome Nat.one_pos
    (List.cons_ne_nil x []), Except.ok.injEq] at hTraj
  rw [pooledScores_max, Except.ok.injEq] at hRows
  have hServed := riskRawK_of_ensembleRollout hPooling hOk
  simp only [poolTrajectoriesNp] at hServed
  rw [mapM_ok, Except.ok.injEq] at hServed
  rw [← hRows, ← hTraj, ← hServed] at hRow
  simp only [List.zipIdx_cons, List.map_cons,
    List.getElem?_cons_zero, Option.some.injEq,
    List.map_inj_left] at hRow
  exact hRow k (List.mem_finRange k)

/- The statistics of the largest risk differ. -/
theorem not_sameStatistic_oneSure
    {before after : List Bool}
    (hOthers : 0 < before.length + after.length) :
    ¬ SameStatistic
        (oneSure before after :
          List (WorldModel ι κ M ℝ)) := by
  intro hSame
  have hSome :
      (oneSure before after :
        List (WorldModel ι κ M ℝ)) ≠ [] := by
    simp [oneSure]
  exact
    largest_rows_ne before after _ 1 (fun _ _ _ _ => 0) _
      hOthers ⟨0, servesLargest_admitted.horizon_pos⟩
      (largest_rows_of_sameStatistic hSame hSome
        servesLargest_admitted rfl emptyWindow 1
        (fun _ _ _ _ => 0) _)

/-
  Two trajectory heads, one of which is sure: the pool that is
  served averages them on every trajectory, and the benchmark
  keeps what each gives to its own.
-/
theorem not_sameStatistic_twoHeads :
    ¬ SameStatistic
        ([constant true 1, constant true 0] :
          List (WorldModel Unit Unit Unit ℝ)) := by
  change ¬ SameStatistic (oneSure [] [true])
  exact not_sameStatistic_oneSure (by decide)

/-
  An architecture, which says what the head of each member
  reads, has the same statistic served and benchmarked for all
  weights if and only if it has one member, or no head that
  reads more than bare states.
-/
theorem sameStatistic_iff
    (kinds : List Bool) :
    (∀ models : List (WorldModel ι κ M ℝ),
        models.map isTrajectory = kinds →
          SameStatistic models) ↔
      kinds.length ≤ 1 ∨ true ∉ kinds := by
  constructor
  · intro hAll
    by_contra hNot
    push Not at hNot
    rcases hNot with ⟨hLength, hMem⟩
    rcases List.append_of_mem hMem with
      ⟨before, after, rfl⟩
    apply not_sameStatistic_oneSure _
      (hAll _ (oneSure_kinds before after))
    simp only [List.length_append, List.length_cons] at hLength
    omega
  · rintro hKinds models rfl
    apply sameStatistic_of_kinds
    rcases hKinds with hOne | hNone
    · left
      simpa using hOne
    · right
      intro model hMem
      rw [Bool.eq_false_iff]
      intro hTrue
      apply hNone
      rw [← hTrue]
      exact List.mem_map_of_mem hMem

end Disagreement

end Evaluation

end Nidra
