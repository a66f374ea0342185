import Nidra.Data.ScalerFit
import Nidra.Lib.Batches
import Nidra.Lib.JsonDict

/-
  This file defines the feature scaler: how it is fitted, how
  it transforms states and transforms them back, and how it
  is written to its two files and read from them.

  Key definitions include:
    * `FeatureScaler`, `FittedScaler`
    * `StateArray`, `transform`, `inverseTransform`
    * `fit`
    * `save`, `load`

  Main declarations:
    * `inverseRow_transformRow`
    * `transform_eq`
    * `load_save`
    * `scaler_roundTrip`
-/

namespace Nidra

namespace Data

set_option linter.unusedSectionVars false

------------------------------------------------------------
-- Scalers
------------------------------------------------------------

structure ScalerConfig (𝕜 : Type) where
  clipMin : 𝕜
  clipMax : 𝕜
  kinds : Feature → Kind

/- What a scaler has before it is fitted, by default. -/
def defaultConfig
    {𝕜 : Type}
    [Field 𝕜] : ScalerConfig 𝕜 where
  clipMin := -10
  clipMax := 10
  kinds := featureTransforms

/- A scaler that has its parameters. -/
structure FeatureScaler (𝕜 : Type)
    extends ScalerConfig 𝕜 where
  center : FeatureVector 𝕜
  scale : FeatureVector 𝕜
  referenceStd : Option (FeatureVector 𝕜)
  dropReason : List (String × String)
  nFitRows : ℕ
  nFitActiveRows : ℕ

/- One whose parameters come from a fit. -/
structure FittedScaler (𝕜 : Type)
    [Zero 𝕜] [LT 𝕜]
    extends FeatureScaler 𝕜 where
  scale_pos : ∀ f, 0 < scale f

/- One state, or a stack of arrays of states. -/
inductive StateArray (𝕜 : Type) where
  | row (x : FeatureVector 𝕜)
  | stack (xs : List (StateArray 𝕜))

namespace StateArray

variable {𝕜 : Type}

def mapRows
    (g : FeatureVector 𝕜 → FeatureVector 𝕜) :
    StateArray 𝕜 → StateArray 𝕜
  | .row x => .row (g x)
  | .stack xs => .stack (xs.map (mapRows g))

def AllRows
    (P : FeatureVector 𝕜 → Prop) :
    StateArray 𝕜 → Prop
  | .row x => P x
  | .stack xs => ∀ y ∈ xs, AllRows P y

/- Two maps agree when they agree on every row. -/
theorem mapRows_mapRows_of
    {P : FeatureVector 𝕜 → Prop}
    {g h k : FeatureVector 𝕜 → FeatureVector 𝕜}
    (hRow : ∀ x, P x → g (h x) = k x)
    {x : StateArray 𝕜}
    (hAll : x.AllRows P) :
    (x.mapRows h).mapRows g = x.mapRows k := by
  induction x using mapRows.induct with
  | case1 x =>
      rw [AllRows] at hAll
      rw [mapRows, mapRows, mapRows, hRow x hAll]
  | case2 xs ih =>
      rw [AllRows] at hAll
      rw [mapRows, mapRows, mapRows, List.map_map]
      congr 1
      apply List.map_congr_left
      intro y hY
      exact ih y hY (hAll y hY)

end StateArray

------------------------------------------------------------
-- Transforming
------------------------------------------------------------

namespace FeatureScaler

variable {𝕜 : Type}
variable [Field 𝕜] [LinearOrder 𝕜] [ElementaryFunctions 𝕜]

/- Whether the model sees a feature. -/
def modelMask
    (s : FeatureScaler 𝕜)
    (f : Feature) : Bool :=
  s.kinds f != .drop

def droppedFeatures (s : FeatureScaler 𝕜) : List Feature :=
  featureOrder.filter (fun f => s.kinds f == .drop)

/- The value before it is clipped. -/
def scaled
    (s : FeatureScaler 𝕜)
    (x : FeatureVector 𝕜)
    (f : Feature) : 𝕜 :=
  (applyKind (s.kinds f) (x f) - s.center f) / s.scale f

def transformRow
    (s : FeatureScaler 𝕜)
    (x : FeatureVector 𝕜) : FeatureVector 𝕜 :=
  fun f =>
    if s.modelMask f then
      min (max (s.scaled x f) s.clipMin) s.clipMax
    else 0

def inverseRow
    (s : FeatureScaler 𝕜)
    (z : FeatureVector 𝕜) : FeatureVector 𝕜 :=
  fun f =>
    if s.modelMask f then
      invertKind (s.kinds f) (z f * s.scale f + s.center f)
    else 0

/- A long stack is transformed a chunk at a time. -/
def transform
    (s : FeatureScaler 𝕜)
    (chunkRows : ℕ+) :
    StateArray 𝕜 → StateArray 𝕜
  | .row x => .row (s.transformRow x)
  | .stack xs =>
      if xs.length ≤ chunkRows then
        .stack (xs.map (.mapRows s.transformRow))
      else
        .stack ((batches chunkRows xs).map
          (fun block =>
            block.map (.mapRows s.transformRow))).flatten

def transformChunkRows : ℕ+ := 20000

def inverseTransform
    (s : FeatureScaler 𝕜)
    (z : StateArray 𝕜) : StateArray 𝕜 :=
  z.mapRows s.inverseRow

/- Where an all-zero row lands. -/
def zeroStateScaled (s : FeatureScaler 𝕜) :
    FeatureVector 𝕜 :=
  s.transformRow (fun _ => 0)

end FeatureScaler

------------------------------------------------------------
-- Fitting
------------------------------------------------------------

/- How numbers are written in the reasons for a drop. -/
class FloatText (𝕜 : Type) where
  fourDigits : 𝕜 → String
  fourPlaces : 𝕜 → String

section Fitting

variable {𝕜 : Type}
variable [Field 𝕜] [LinearOrder 𝕜] [IsStrictOrderedRing 𝕜]
variable [ElementaryFunctions 𝕜] [FloatText 𝕜]

def DropReason.message : DropReason 𝕜 → String
  | .declared => "declared"
  | .constant value =>
      "constant on active training rows (value " ++
        FloatText.fourDigits value ++ "); redundant with " ++
        activityFeature.label
  | .duplicate of absCorr =>
      "duplicate of " ++ of.label ++ " (|corr|=" ++
        FloatText.fourPlaces absCorr ++ ")"

def columnMean (xs : List 𝕜) : 𝕜 :=
  xs.sum / xs.length

def columnStd (xs : List 𝕜) : 𝕜 :=
  ElementaryFunctions.sqrt
    (columnMean (xs.map (fun x => (x - columnMean xs) ^ 2)))

/- A column with the deviation that the duplicates are
   looked for with. -/
def standardized (xs : List 𝕜) : List 𝕜 :=
  xs.map (fun x =>
    (x - columnMean xs) / max (columnStd xs) scaleFloor)

def activeStatistics
    (act : List (FeatureVector 𝕜)) : ActiveStatistics 𝕜 where
  mean := fun f => columnMean (act.map (fun x => x f))
  std := fun f => columnStd (act.map (fun x => x f))
  corr := fun a b =>
    columnMean (List.zipWith (· * ·)
      (standardized (act.map (fun x => x a)))
      (standardized (act.map (fun x => x b))))

/- A row with a value that is not zero. -/
def anyNonzero (x : FeatureVector 𝕜) : Bool :=
  0 < (featureOrder.map (fun f => |x f|)).sum

inductive FitError where
  | tooFewActive
  | maskMismatch
deriving DecidableEq, Repr

def FitError.message : FitError → String
  | .tooFewActive =>
      "FeatureScaler.fit needs at least two active training rows"
  | .maskMismatch =>
      "boolean index did not match indexed array"

/- The scaler with what was learned, before its reference. -/
def FitState.bareScaler
    (fit : FitState 𝕜)
    (config : ScalerConfig 𝕜)
    (nRows nActive : ℕ) : FeatureScaler 𝕜 where
  clipMin := config.clipMin
  clipMax := config.clipMax
  kinds := fit.kinds
  center := fit.center
  scale := fit.scale
  referenceStd := none
  dropReason := fit.reasons.map
    (fun entry => (entry.1.label, entry.2.message))
  nFitRows := nRows
  nFitActiveRows := nActive

theorem FitState.scale_positive
    (fit : FitState 𝕜)
    (f : Feature) :
    0 < fit.scale f :=
  fit.scale_pos f

/- The reference is taken over all rows, in scaled units. -/
def FitState.toScaler
    (fit : FitState 𝕜)
    (config : ScalerConfig 𝕜)
    (rows : List (FeatureVector 𝕜))
    (nActive : ℕ) : FittedScaler 𝕜 :=
  let bare := fit.bareScaler config rows.length nActive
  { bare with
    referenceStd := some (fun f =>
      columnStd (rows.map (fun x => bare.transformRow x f)))
    scale_pos := fit.scale_positive }

/- The fit once it is known which rows are active. -/
def fitActive
    (config : ScalerConfig 𝕜)
    (rows act : List (FeatureVector 𝕜)) : FittedScaler 𝕜 :=
  let stabilized := act.map
    (fun x f => applyKind (config.kinds f) (x f))
  (fitFeatures (activeStatistics stabilized)
    config.kinds).toScaler config rows act.length

def fit
    (config : ScalerConfig 𝕜)
    (rows : List (FeatureVector 𝕜))
    (activeMask : Option (List Bool)) :
    Except FitError (FittedScaler 𝕜) :=
  let mask := activeMask.getD (rows.map anyNonzero)
  if mask.count true < 2 then .error .tooFewActive
  else if mask.length ≠ rows.length then .error .maskMismatch
  else
    .ok (fitActive config rows
      (((rows.zip mask).filter (·.2)).map (·.1)))

/- The model sees the features that the fit keeps. -/
theorem modelMask_toScaler
    (fit : FitState 𝕜)
    (config : ScalerConfig 𝕜)
    (rows : List (FeatureVector 𝕜))
    (nActive : ℕ)
    (f : Feature) :
    (fit.toScaler config rows nActive).modelMask f =
      fit.kept f := rfl

theorem columnProduct_comm (xs ys : List 𝕜) :
    List.zipWith (· * ·) xs ys =
      List.zipWith (· * ·) ys xs := by
  apply List.zipWith_comm_of_comm
  exact mul_comm

/- The correlations of a fit are symmetric. -/
theorem activeStatistics_corr_symm
    (act : List (FeatureVector 𝕜))
    (a b : Feature) :
    (activeStatistics act).corr a b =
      (activeStatistics act).corr b a := by
  simp only [activeStatistics]
  rw [columnProduct_comm]

/-
  No two features that the model sees repeat each other on
  the active rows.
-/
theorem fitActive_distinct
    (config : ScalerConfig 𝕜)
    (rows act : List (FeatureVector 𝕜))
    {a b : Feature}
    (hNe : a ≠ b)
    (hA : (fitActive config rows act).modelMask a = true)
    (hB : (fitActive config rows act).modelMask b = true) :
    |(activeStatistics (act.map (fun x f =>
        applyKind (config.kinds f) (x f)))).corr a b| ≤
      duplicateAbsCorr := by
  rw [fitActive, modelMask_toScaler] at hA hB
  exact pruneDuplicates_distinct
    (activeStatistics_corr_symm _) hNe hA hB

end Fitting

------------------------------------------------------------
-- Files
------------------------------------------------------------

section Files

variable {𝕜 : Type}
variable [Field 𝕜] [LinearOrder 𝕜] [ElementaryFunctions 𝕜]

def schemaVersion : String := "1.0"

/- The names of the features, as they stand in the files. -/
def featureNames : List String :=
  featureOrder.map Feature.label

/- One value for each feature, in their order. -/
def columnJson
    {α : Type}
    (write : α → JsonValue 𝕜)
    (v : Feature → α) : JsonValue 𝕜 :=
  .array ((featureOrder.map v).map write)

def namesJson : JsonValue 𝕜 :=
  .array (featureNames.map .text)

def dropReasonJson
    (reasons : List (String × String)) : JsonValue 𝕜 :=
  .object (reasons.map (fun entry => (entry.1, .text entry.2)))

/- The file with the parameters. -/
def toDict (s : FeatureScaler 𝕜) : JsonObject 𝕜 :=
  [ ("feature_order", namesJson),
    ("kinds", columnJson (fun kind => .text kind.label) s.kinds),
    ("center", columnJson .number s.center),
    ("scale", columnJson .number s.scale),
    ("clip_min", .number s.clipMin),
    ("clip_max", .number s.clipMax),
    ("drop_reason", dropReasonJson s.dropReason),
    ("n_fit_rows", .natural s.nFitRows),
    ("n_fit_active_rows", .natural s.nFitActiveRows) ]

def metadata
    (s : FeatureScaler 𝕜)
    (referenceStd : FeatureVector 𝕜) : JsonObject 𝕜 :=
  [ ("feature_order", namesJson),
    ("transforms", .object (featureOrder.map (fun f =>
      (f.label, .text (s.kinds f).label)))),
    ("dropped_features", .array (s.droppedFeatures.map
      (fun f => .text f.label))),
    ("drop_reason", dropReasonJson s.dropReason),
    ("clip_min", .number s.clipMin),
    ("clip_max", .number s.clipMax),
    ("schema_version", .text schemaVersion),
    ("method",
      .text "feature_transforms+zscore_on_active_rows"),
    ("fit_rows", .natural s.nFitRows),
    ("fit_active_rows", .natural s.nFitActiveRows),
    ("reference_std", columnJson .number referenceStd),
    ("zero_state_scaled",
      columnJson .number s.zeroStateScaled) ]

/- A scaler without its reference cannot be saved. -/
def save
    (s : FeatureScaler 𝕜)
    (extraMetadata : JsonObject 𝕜) :
    Option (JsonObject 𝕜 × JsonObject 𝕜) :=
  s.referenceStd.map (fun referenceStd =>
    (toDict s,
      JsonObject.update (metadata s referenceStd)
        extraMetadata))

inductive LoadError where
  | missing (key : String)
  | malformed (key : String)
  | metadataDrift
  | parametersDrift
deriving DecidableEq, Repr

def LoadError.message : LoadError → String
  | .missing key => key
  | .malformed key => "malformed " ++ key
  | .metadataDrift =>
      "Serialized scaler's feature order does not match " ++
        "the current FEATURE_ORDER — schema drift. " ++
        "Refusing to load."
  | .parametersDrift =>
      "Serialized scaler parameters do not match " ++
        "FEATURE_ORDER — refusing to load."

def Kind.ofLabel? (label : String) : Option Kind :=
  validKinds.find? (fun kind => kind.label == label)

/- A value for each feature, if there are as many. -/
def column?
    {α : Type}
    (values : List α) : Option (Feature → α) :=
  if hLength : values.length = featureOrder.length then
    some (fun f =>
      values.get ⟨featureOrder.idxOf f, by
        rw [hLength]
        exact List.idxOf_lt_length_of_mem
          (mem_featureOrder f)⟩)
  else none

/- A key that has to be there, and how it is read. -/
def require
    {α : Type}
    (file : JsonObject 𝕜)
    (key : String)
    (read : JsonValue 𝕜 → Option α) : Except LoadError α :=
  match file.lookup key with
  | none => .error (.missing key)
  | some value =>
      match read value with
      | none => .error (.malformed key)
      | some a => .ok a

/- A key that may be left out. -/
def allow
    {α : Type}
    (file : JsonObject 𝕜)
    (key : String)
    (fallback : α)
    (read : JsonValue 𝕜 → Option α) : Except LoadError α :=
  match file.lookup key with
  | none => .ok fallback
  | some value =>
      match read value with
      | none => .error (.malformed key)
      | some a => .ok a

/- Refuse a file that was written for other features. -/
def checkOrder
    (drift : LoadError)
    (value : Option (JsonValue 𝕜)) : Except LoadError Unit :=
  if value.bind (·.array? JsonValue.text?) = some featureNames
  then .ok ()
  else .error drift

def numbers? (value : JsonValue 𝕜) :
    Option (FeatureVector 𝕜) :=
  (value.array? JsonValue.number?).bind column?

def kinds? (value : JsonValue 𝕜) :
    Option (Feature → Kind) :=
  (value.array? (fun entry =>
    entry.text?.bind Kind.ofLabel?)).bind column?

/- The reference may be left out, or be null. -/
def reference? : JsonValue 𝕜 →
    Option (Option (FeatureVector 𝕜))
  | .null => some none
  | value => (numbers? value).map some

def load
    (params metadata : JsonObject 𝕜) :
    Except LoadError (FeatureScaler 𝕜) := do
  let order ← require metadata "feature_order" some
  checkOrder .metadataDrift (some order)
  checkOrder .parametersDrift (params.lookup "feature_order")
  let clipMin ← require metadata "clip_min" JsonValue.number?
  let clipMax ← require metadata "clip_max" JsonValue.number?
  let kinds ← require params "kinds" kinds?
  let center ← require params "center" numbers?
  let scale ← require params "scale" numbers?
  let dropReason ←
    allow params "drop_reason" []
      (·.fields? JsonValue.text?)
  let nFitRows ←
    allow params "n_fit_rows" 0 JsonValue.natural?
  let nFitActiveRows ←
    allow params "n_fit_active_rows" 0 JsonValue.natural?
  let referenceStd ←
    allow metadata "reference_std" none reference?
  return { clipMin, clipMax, kinds, center, scale,
           referenceStd, dropReason, nFitRows,
           nFitActiveRows }

end Files

------------------------------------------------------------
-- Transforming Back
------------------------------------------------------------

/-
  A row that a scaler can give back: the transform of each
  feature that is kept can be undone, and nothing is clipped.
-/
def FeatureScaler.Recoverable
    (s : FeatureScaler ℝ)
    (x : FeatureVector ℝ) : Prop :=
  ∀ f,
    s.modelMask f = true →
      Invertible (s.kinds f) (x f) ∧
        s.clipMin ≤ s.scaled x f ∧
          s.scaled x f ≤ s.clipMax

/- A row without its dropped features. -/
def FeatureScaler.keptPart
    {𝕜 : Type}
    [Zero 𝕜]
    (s : FeatureScaler 𝕜)
    (x : FeatureVector 𝕜) : FeatureVector 𝕜 :=
  fun f => if s.modelMask f then x f else 0

theorem inverseRow_transformRow
    (s : FittedScaler ℝ)
    {x : FeatureVector ℝ}
    (hRecoverable : s.Recoverable x) :
    s.inverseRow (s.transformRow x) = s.keptPart x := by
  funext f
  unfold FeatureScaler.inverseRow FeatureScaler.transformRow
    FeatureScaler.keptPart
  cases hMask : s.modelMask f with
  | false => rfl
  | true =>
      rcases hRecoverable f hMask with
        ⟨hInvertible, hMin, hMax⟩
      have hScale : s.scale f ≠ 0 := (s.scale_pos f).ne'
      have hUnscaled :
          s.scaled x f * s.scale f + s.center f =
            applyKind (s.kinds f) (x f) := by
        unfold FeatureScaler.scaled
        field_simp
        ring
      simp only [if_true]
      rw [max_eq_left hMin, min_eq_left hMax, hUnscaled]
      exact invertKind_applyKind hInvertible

section Stacks

variable {𝕜 : Type}
variable [Field 𝕜] [LinearOrder 𝕜] [ElementaryFunctions 𝕜]

/- Chunks make no difference to what is transformed. -/
theorem transform_eq
    (s : FeatureScaler 𝕜)
    (chunkRows : ℕ+)
    (x : StateArray 𝕜) :
    s.transform chunkRows x = x.mapRows s.transformRow := by
  cases x with
  | row x =>
      rw [FeatureScaler.transform, StateArray.mapRows]
  | stack xs =>
      rw [FeatureScaler.transform, StateArray.mapRows]
      split
      · rfl
      · rw [← List.map_flatten,
          flatten_batches chunkRows.pos]

end Stacks

------------------------------------------------------------
-- Loading What Was Saved
------------------------------------------------------------

/- The keys of the metadata that loading depends on. -/
def loadedKeys : List String :=
  ["feature_order", "clip_min", "clip_max", "reference_std"]

theorem Kind.ofLabel?_label
    (kind : Kind) :
    Kind.ofLabel? kind.label = some kind := by
  cases kind with
  | log1p => decide
  | asinh => decide
  | zscore => decide
  | unitRange => decide
  | drop => decide

theorem column?_map
    {α : Type}
    (v : Feature → α) :
    column? (featureOrder.map v) = some v := by
  unfold column?
  rw [dif_pos (List.length_map v)]
  congr 1
  funext f
  simp

section Loading

variable {𝕜 : Type}
variable [Field 𝕜] [LinearOrder 𝕜] [ElementaryFunctions 𝕜]

theorem numbers?_columnJson
    (v : FeatureVector 𝕜) :
    numbers? (columnJson .number v) = some v := by
  unfold numbers? columnJson
  rw [JsonValue.array?_map JsonValue.number?_number]
  exact column?_map v

theorem kinds?_columnJson
    (kinds : Feature → Kind) :
    kinds? (𝕜 := 𝕜)
        (columnJson (fun kind => .text kind.label) kinds) =
      some kinds := by
  unfold kinds? columnJson
  rw [JsonValue.array?_map
    (fun kind => Kind.ofLabel?_label kind)]
  exact column?_map kinds
theorem reference?_columnJson
    (v : FeatureVector 𝕜) :
    reference? (columnJson .number v) = some (some v) := by
  have hReference :
      reference? (columnJson .number v) =
        (numbers? (columnJson .number v)).map some := by
    rw [columnJson, reference?]
    intro hNull
    cases hNull
  rw [hReference, numbers?_columnJson, Option.map_some]

theorem dropReason_read
    (reasons : List (String × String)) :
    (dropReasonJson (𝕜 := 𝕜) reasons).fields?
        JsonValue.text? =
      some reasons := by
  rw [dropReasonJson]
  exact JsonValue.fields?_map JsonValue.text?_text reasons

theorem names_read :
    (namesJson (𝕜 := 𝕜)).array? JsonValue.text? =
      some featureNames := by
  rw [namesJson]
  exact JsonValue.array?_map JsonValue.text?_text featureNames

theorem checkOrder_namesJson
    (drift : LoadError) :
    checkOrder (𝕜 := 𝕜) drift (some namesJson) = .ok () := by
  rw [checkOrder, Option.bind_some, names_read, if_pos rfl]

theorem require_eq
    {α : Type}
    {file : JsonObject 𝕜}
    {key : String}
    {value : JsonValue 𝕜}
    {read : JsonValue 𝕜 → Option α}
    {a : α}
    (hLookup : file.lookup key = some value)
    (hRead : read value = some a) :
    require file key read = .ok a := by
  rw [require, hLookup]
  simp only [hRead]

theorem allow_eq
    {α : Type}
    {file : JsonObject 𝕜}
    {key : String}
    {fallback : α}
    {value : JsonValue 𝕜}
    {read : JsonValue 𝕜 → Option α}
    {a : α}
    (hLookup : file.lookup key = some value)
    (hRead : read value = some a) :
    allow file key fallback read = .ok a := by
  rw [allow, hLookup]
  simp only [hRead]

/- What the metadata says, unless it is overwritten. -/
theorem lookup_metadata
    {s : FeatureScaler 𝕜}
    {reference : FeatureVector 𝕜}
    {extra : JsonObject 𝕜}
    {key : String}
    {value : JsonValue 𝕜}
    (hExtra : extra.lookup key = none)
    (hValue :
      (metadata s reference).lookup key = some value) :
    (JsonObject.update (metadata s reference)
      extra).lookup key = some value := by
  rw [JsonObject.lookup_update, hExtra, Option.none_or,
    hValue]

/- A saved scaler is loaded as it was. -/
theorem load_save
    {s : FeatureScaler 𝕜}
    {extra params recorded : JsonObject 𝕜}
    (hExtra : ∀ key ∈ loadedKeys, extra.lookup key = none)
    (hSave : save s extra = some (params, recorded)) :
    load params recorded = .ok s := by
  rw [save, Option.map_eq_some_iff] at hSave
  rcases hSave with ⟨reference, hReference, hFiles⟩
  rw [Prod.mk.injEq] at hFiles
  rcases hFiles with ⟨rfl, rfl⟩
  -- What stands in the metadata.
  have hOrder :
      (JsonObject.update (metadata s reference)
        extra).lookup "feature_order" = some namesJson :=
    lookup_metadata (hExtra _ (by decide))
      (by simp [metadata])
  have hClipMin :
      (JsonObject.update (metadata s reference)
        extra).lookup "clip_min" = some (.number s.clipMin) :=
    lookup_metadata (hExtra _ (by decide))
      (by simp [metadata, List.lookup_cons])
  have hClipMax :
      (JsonObject.update (metadata s reference)
        extra).lookup "clip_max" = some (.number s.clipMax) :=
    lookup_metadata (hExtra _ (by decide))
      (by simp [metadata, List.lookup_cons])
  have hStd :
      (JsonObject.update (metadata s reference)
          extra).lookup "reference_std" =
        some (columnJson .number reference) :=
    lookup_metadata (hExtra _ (by decide))
      (by simp [metadata, List.lookup_cons])
  -- What stands among the parameters.
  have hParams :
      (toDict s).lookup "feature_order" = some namesJson := by
    simp [toDict]
  have hKinds :
      (toDict s).lookup "kinds" =
        some (columnJson (fun kind => .text kind.label)
          s.kinds) := by
    simp [toDict, List.lookup_cons]
  have hCenter :
      (toDict s).lookup "center" =
        some (columnJson .number s.center) := by
    simp [toDict, List.lookup_cons]
  have hScale :
      (toDict s).lookup "scale" =
        some (columnJson .number s.scale) := by
    simp [toDict, List.lookup_cons]
  have hReason :
      (toDict s).lookup "drop_reason" =
        some (dropReasonJson s.dropReason) := by
    simp [toDict, List.lookup_cons]
  have hRows :
      (toDict s).lookup "n_fit_rows" =
        some (.natural s.nFitRows) := by
    simp [toDict, List.lookup_cons]
  have hActive :
      (toDict s).lookup "n_fit_active_rows" =
        some (.natural s.nFitActiveRows) := by
    simp [toDict, List.lookup_cons]
  unfold load
  rw [require_eq hOrder rfl,
    require_eq hClipMin (JsonValue.number?_number _),
    require_eq hClipMax (JsonValue.number?_number _),
    require_eq hKinds (kinds?_columnJson s.kinds),
    require_eq hCenter (numbers?_columnJson s.center),
    require_eq hScale (numbers?_columnJson s.scale),
    allow_eq hReason (dropReason_read s.dropReason),
    allow_eq hRows (JsonValue.natural?_natural _),
    allow_eq hActive (JsonValue.natural?_natural _),
    allow_eq hStd (reference?_columnJson reference), hParams]
  simp only [checkOrder_namesJson, bind, Except.bind, pure,
    Except.pure, ← hReference]

end Loading

------------------------------------------------------------
-- The Round Trip
------------------------------------------------------------

/-
  A fitted scaler gives back what it was given, on the features
  that it keeps. It transforms a stack row by row, and it is
  the same scaler after it was saved and loaded.
-/
theorem scaler_roundTrip
    (s : FittedScaler ℝ) :
    (∀ (chunkRows : ℕ+) (x : StateArray ℝ),
      x.AllRows s.Recoverable →
        s.inverseTransform (s.transform chunkRows x) =
          x.mapRows s.keptPart) ∧
      (∀ (chunkRows other : ℕ+) (xs : List (StateArray ℝ)),
        s.transform chunkRows (.stack xs) =
          .stack (xs.map (s.transform other))) ∧
      ∀ extra params recorded : JsonObject ℝ,
        (∀ key ∈ loadedKeys, extra.lookup key = none) →
          save s.toFeatureScaler extra =
              some (params, recorded) →
            load params recorded = .ok s.toFeatureScaler := by
  refine ⟨?_, ?_, ?_⟩
  · intro chunkRows x hAll
    rw [transform_eq, FeatureScaler.inverseTransform]
    exact StateArray.mapRows_mapRows_of
      (fun x hX => inverseRow_transformRow s hX) hAll
  · intro chunkRows other xs
    rw [transform_eq, StateArray.mapRows]
    congr 1
    apply List.map_congr_left
    intro x hX
    rw [transform_eq]
  · intro extra params recorded hExtra hSave
    exact load_save hExtra hSave

/- A scaler that has dropped one feature. -/
noncomputable def roundTripScaler : FittedScaler ℝ :=
  { (defaultConfig : ScalerConfig ℝ) with
    kinds := Function.update featureTransforms
      (.graph .reciprocity) .drop
    center := fun _ => 1 / 2
    scale := fun _ => 2
    referenceStd := some (fun _ => 1)
    dropReason := [("reciprocity", "declared")]
    nFitRows := 3
    nFitActiveRows := 2
    scale_pos := fun _ => two_pos }

/- A row whose values are all one once they are stabilized. -/
noncomputable def roundTripRow : FeatureVector ℝ :=
  fun f =>
    match roundTripScaler.kinds f with
    | .log1p => Real.exp 1 - 1
    | .asinh => Real.sinh 1
    | _ => 1

theorem applyKind_roundTripRow
    (f : Feature) :
    applyKind (roundTripScaler.kinds f) (roundTripRow f) =
      1 := by
  unfold roundTripRow
  cases roundTripScaler.kinds f with
  | log1p =>
      have hNonneg : (0 : ℝ) ≤ Real.exp 1 - 1 := by
        linarith [Real.add_one_le_exp (1 : ℝ)]
      change Real.log (1 + max (Real.exp 1 - 1) 0) = 1
      rw [max_eq_left hNonneg, add_sub_cancel, Real.log_exp]
  | asinh => exact Real.arsinh_sinh 1
  | zscore => rfl
  | unitRange => rfl
  | drop => rfl

theorem roundTripRow_recoverable :
    roundTripScaler.Recoverable roundTripRow := by
  intro f hMask
  have hApply := applyKind_roundTripRow f
  have hScaled :
      roundTripScaler.scaled roundTripRow f = 1 / 4 := by
    rw [FeatureScaler.scaled, hApply]
    norm_num [roundTripScaler, defaultConfig]
  refine ⟨?_, ?_, ?_⟩
  · have hValue : roundTripRow f =
        match roundTripScaler.kinds f with
        | .log1p => Real.exp 1 - 1
        | .asinh => Real.sinh 1
        | _ => 1 := rfl
    cases hKind : roundTripScaler.kinds f with
    | log1p =>
        rw [hKind] at hApply hValue
        refine ⟨?_, ?_⟩
        · rw [hValue]
          linarith [Real.add_one_le_exp (1 : ℝ)]
        · rw [hApply]
          norm_num [logInverseCeil]
    | asinh =>
        rw [hKind] at hApply
        rw [Invertible, hApply]
        norm_num [logInverseCeil]
    | zscore => trivial
    | unitRange => trivial
    | drop => trivial
  · rw [hScaled]
    norm_num [roundTripScaler, defaultConfig]
  · rw [hScaled]
    norm_num [roundTripScaler, defaultConfig]

/- A row in a stack comes back, and the scaler can be read. -/
theorem scaler_roundTrip_stack :
    roundTripScaler.inverseTransform
        (roundTripScaler.transform
          FeatureScaler.transformChunkRows
          (.stack [.row roundTripRow])) =
      .stack [.row (roundTripScaler.keptPart roundTripRow)] ∧
      ∃ params recorded,
        save roundTripScaler.toFeatureScaler
            [("n_train_samples", .natural 3)] =
          some (params, recorded) ∧
          load params recorded =
            .ok roundTripScaler.toFeatureScaler := by
  rcases scaler_roundTrip roundTripScaler with
    ⟨hInverse, -, hLoad⟩
  constructor
  · rw [hInverse _ _ (by
      simp [StateArray.AllRows, roundTripRow_recoverable])]
    simp [StateArray.mapRows]
  · refine ⟨_, _, rfl, hLoad _ _ _ (by decide) rfl⟩

end Data

end Nidra
