import Nidra.Utils.Config

/-
  This file compares what a chain of configs is merged into
  with what it is meant to say: at every path what the
  nearest config says there, mappings together unless a
  nearer one is marked, and no marker left. The two agree
  exactly if no mapping or list that remains has a marker.

  Key definitions include:
    * `merging`, `saidAt`
    * `Inherits`
    * `Layers`, `settle`, `Layers.Clear`

  Main declarations:
    * `settle_value`
    * `under_value`
    * `without_iff_clear`
    * `said_of_clear`
    * `inherits_iff`
-/

namespace Nidra

namespace Utils

namespace Config

open Yaml

------------------------------------------------------------
-- What a chain says
------------------------------------------------------------

/-
  The mappings that are one at some place: from the nearest
  value on, as far as they are mappings, and none farther
  than a marked one.
-/
def merging : List Yaml → List Dict
  | .mapping d :: rest =>
      if isMarked d then [d] else d :: merging rest
  | _ => []

/-
  What is said at a path, the nearest first. Nothing is said
  under a marker.
-/
def saidAt : List Yaml → List Key → List Yaml
  | values, [] => values
  | values, k :: path =>
      if k = replaceMarker then []
      else
        saidAt
          ((merging values).filterMap (fun d => d.lookup k))
          path

/- Of a mapping only that it is one. -/
def leaf? : Yaml → Option Yaml
  | .mapping _ => none
  | value => some value

/-
  A config inherits from a chain, the nearest first: it has
  no marker at any depth, and at every path it has what the
  nearest config says.
-/
structure Inherits
    (configs : List Dict)
    (cfg : Dict) : Prop where
  unmarked : (Yaml.mapping cfg).Without replaceMarker
  nearest :
    ∀ path,
      ((Yaml.mapping cfg).under path).map leaf? =
        (saidAt (configs.map Yaml.mapping) path).head?.map
          leaf?

------------------------------------------------------------
-- What takes part at a path
------------------------------------------------------------

/-
  What takes part in the result at some place: nothing, one
  value, or a mapping as it stands with the mappings that
  are merged into it, the nearest first.
-/
inductive Layers where
  | absent
  | leaf (value : Yaml)
  | merged (base : Dict) (overrides : List Dict)

/-
  Values of one key, the nearest first, over what is there:
  a marked mapping is the one to merge into, without its
  marker, and so is a mapping over anything that is none.
-/
def settle (old : Option Yaml) : List Yaml → Layers
  | [] =>
      match old with
      | none => .absent
      | some (.mapping base) => .merged base []
      | some value => .leaf value
  | .mapping d :: rest =>
      if isMarked d then .merged (drop d replaceMarker) []
      else
        match settle old rest with
        | .merged base overrides =>
            .merged base (d :: overrides)
        | _ => .merged d []
  | value :: _ => .leaf value

namespace Layers

def child
    (l : Layers)
    (k : Key) : Layers :=
  match l with
  | .merged base overrides =>
      settle (base.lookup k)
        (overrides.filterMap (fun d => d.lookup k))
  | _ => .absent

def atPath (l : Layers) : List Key → Layers
  | [] => l
  | k :: path => (l.child k).atPath path

def value : Layers → Option Yaml
  | .absent => none
  | .leaf value => some value
  | .merged base overrides =>
      some (.mapping (Config.merged base overrides))

/- No mapping or list that takes part has a marker. -/
def Clear : Layers → Prop
  | .absent => True
  | .leaf value => value.Without replaceMarker
  | .merged base overrides =>
      base.lookup replaceMarker = none ∧
        ∀ d ∈ overrides, d.lookup replaceMarker = none

/-
  The keys of what overrides differ throughout, and a single
  value is no mapping.
-/
def Proper : Layers → Prop
  | .absent => True
  | .leaf value => leaf? value = some value
  | .merged _ overrides =>
      ∀ d ∈ overrides, (Yaml.mapping d).Distinct

end Layers

/- No single value is a mapping. -/
theorem settle_leaf
    {old : Option Yaml}
    {values : List Yaml}
    {value : Yaml}
    (hSettle : settle old values = .leaf value) :
    leaf? value = some value := by
  cases values with
  | nil =>
      cases old with
      | none => cases hSettle
      | some v => cases v <;> cases hSettle <;> rfl
  | cons v rest =>
      cases v with
      | mapping d =>
          unfold settle at hSettle
          split at hSettle
          · cases hSettle
          · split at hSettle <;> cases hSettle
      | null => cases hSettle; rfl
      | text s => cases hSettle; rfl
      | scalar truth name => cases hSettle; rfl
      | list items => cases hSettle; rfl

/- Settled values are what they are merged into. -/
theorem settle_value
    (old : Option Yaml)
    (values : List Yaml) :
    (settle old values).value =
      values.foldr (fun v old => some (mergeValue old v))
        old := by
  induction values with
  | nil =>
      cases old with
      | none => rfl
      | some v => cases v <;> rfl
  | cons v rest ih =>
      rw [List.foldr_cons, ← ih]
      cases v with
      | mapping d =>
          rw [settle, mergeValue_mapping]
          split
          · rfl
          · cases hRest : settle old rest with
            | absent => rfl
            | merged base overrides => rfl
            | leaf value =>
                have hLeaf := settle_leaf hRest
                cases value with
                | mapping d' => cases hLeaf
                | null => rfl
                | text s => rfl
                | scalar truth name => rfl
                | list items => rfl
      | null => simp [settle, mergeValue, Layers.value]
      | text s => simp [settle, mergeValue, Layers.value]
      | scalar truth name =>
          simp [settle, mergeValue, Layers.value]
      | list items =>
          simp [settle, mergeValue, Layers.value]

/- A key of merged configs, from what each of them says. -/
theorem lookup_merged
    (base : Dict)
    {overrides : List Dict}
    (hDistinct :
      ∀ d ∈ overrides, (Yaml.mapping d).Distinct)
    (k : Key) :
    (merged base overrides).lookup k =
      (overrides.filterMap (fun d => d.lookup k)).foldr
        (fun v old => some (mergeValue old v))
        (base.lookup k) := by
  induction overrides with
  | nil => rfl
  | cons d overrides ih =>
      rw [List.forall_mem_cons] at hDistinct
      have hRest := ih hDistinct.2
      unfold merged at hRest ⊢
      rw [List.foldr_cons,
        lookup_deepMerge _ _ hDistinct.1.nodup_keys, hRest,
        List.filterMap_cons]
      cases d.lookup k with
      | none => rfl
      | some v => rfl

theorem lookup_merged_eq_child
    (base : Dict)
    {overrides : List Dict}
    (hDistinct :
      ∀ d ∈ overrides, (Yaml.mapping d).Distinct)
    (k : Key) :
    (merged base overrides).lookup k =
      ((Layers.merged base overrides).child k).value := by
  rw [lookup_merged base hDistinct]
  exact (settle_value _ _).symm

theorem settle_proper
    (old : Option Yaml)
    {values : List Yaml}
    (hDistinct : ∀ v ∈ values, v.Distinct) :
    (settle old values).Proper := by
  cases hSettle : settle old values with
  | absent => trivial
  | leaf value => exact settle_leaf hSettle
  | merged base overrides =>
      induction values generalizing base overrides with
      | nil =>
          cases old with
          | none => cases hSettle
          | some v =>
              cases v with
              | mapping d =>
                  cases hSettle
                  exact List.forall_mem_nil _
              | null => cases hSettle
              | text s => cases hSettle
              | scalar truth name => cases hSettle
              | list items => cases hSettle
      | cons v rest ih =>
          rw [List.forall_mem_cons] at hDistinct
          cases v with
          | mapping d =>
              rw [settle] at hSettle
              split at hSettle
              · cases hSettle
                exact List.forall_mem_nil _
              · split at hSettle
                · rename_i base' overrides' hRest
                  cases hSettle
                  have hOthers := ih hDistinct.2 _ _ hRest
                  exact
                    List.forall_mem_cons.mpr
                      ⟨hDistinct.1, hOthers⟩
                · cases hSettle
                  exact List.forall_mem_nil _
          | null => cases hSettle
          | text s => cases hSettle
          | scalar truth name => cases hSettle
          | list items => cases hSettle

namespace Layers

theorem Proper.child
    {l : Layers}
    (hProper : l.Proper)
    (k : Key) :
    (l.child k).Proper := by
  cases l with
  | absent => trivial
  | leaf value => trivial
  | merged base overrides =>
      apply settle_proper
      intro v hMem
      rcases List.mem_filterMap.mp hMem with ⟨d, hD, hV⟩
      have hNext :
          (Yaml.mapping d).next (.key k) = some v := hV
      exact (hProper d hD).next hNext

theorem Proper.atPath
    {l : Layers}
    (hProper : l.Proper)
    (path : List Key) :
    (l.atPath path).Proper := by
  induction path generalizing l with
  | nil => exact hProper
  | cons k path ih => exact ih (hProper.child k)

@[simp] theorem atPath_absent (path : List Key) :
    Layers.absent.atPath path = .absent := by
  induction path with
  | nil => rfl
  | cons k path ih => exact ih

end Layers

/- Nothing is under a key of what is no mapping. -/
theorem next_key_of_leaf
    {value : Yaml}
    (hLeaf : leaf? value = some value)
    (k : Key) :
    value.next (.key k) = none := by
  cases value with
  | mapping d => cases hLeaf
  | null => rfl
  | text s => rfl
  | scalar truth name => rfl
  | list items => rfl

/- Under each path there is what takes part at it. -/
theorem under_value
    {l : Layers}
    (hProper : l.Proper)
    (path : List Key) :
    l.value.bind (fun v => v.under path) =
      (l.atPath path).value := by
  induction path generalizing l with
  | nil => cases l <;> rfl
  | cons k path ih =>
      have hChild := ih (hProper.child k)
      rw [Layers.atPath, ← hChild]
      cases l with
      | absent => rfl
      | leaf value =>
          change value.under (k :: path) = _
          rw [under_cons, next_key_of_leaf hProper]
          rfl
      | merged base overrides =>
          rw [← lookup_merged_eq_child base hProper]
          rfl

------------------------------------------------------------
-- Markers
------------------------------------------------------------

/- A merged mapping has a key if a part of it has it. -/
theorem lookup_merged_eq_none_iff
    (base : Dict)
    {overrides : List Dict}
    (hDistinct :
      ∀ d ∈ overrides, (Yaml.mapping d).Distinct)
    (k : Key) :
    (merged base overrides).lookup k = none ↔
      base.lookup k = none ∧
        ∀ d ∈ overrides, d.lookup k = none := by
  rw [lookup_merged base hDistinct, ← List.filterMap_eq_nil_iff]
  cases overrides.filterMap (fun d => d.lookup k) with
  | nil => exact (and_iff_left rfl).symm
  | cons v rest => simp

/-
  The result has no marker exactly if nothing that takes part
  at any path has one.
-/
theorem without_iff_clear
    {l : Layers}
    (hProper : l.Proper) :
    (∀ v ∈ l.value, v.Without replaceMarker) ↔
      ∀ path, (l.atPath path).Clear := by
  constructor
  · intro hWithout path
    have hUnder := under_value hProper path
    have hThere := hProper.atPath path
    cases hLayers : l.atPath path with
    | absent => trivial
    | leaf value =>
        rw [hLayers] at hUnder
        rcases Option.bind_eq_some_iff.mp hUnder with
          ⟨v, hValue, hPath⟩
        intro steps entries hWithin
        apply hWithout v hValue (path.map Step.key ++ steps)
        rw [within_append]
        exact Option.bind_eq_some_iff.mpr
          ⟨value, hPath, hWithin⟩
    | merged base overrides =>
        rw [hLayers] at hUnder hThere
        rcases Option.bind_eq_some_iff.mp hUnder with
          ⟨v, hValue, hPath⟩
        rw [Layers.Clear,
          ← lookup_merged_eq_none_iff base hThere]
        exact hWithout v hValue _ _ hPath
  · intro hClear v hValue steps entries hWithin
    induction steps generalizing l v with
    | nil =>
        have hHere := hClear []
        cases l with
        | absent => cases hValue
        | leaf value =>
            cases hValue
            exact hHere [] entries hWithin
        | merged base overrides =>
            cases hValue
            cases hWithin
            exact
              (lookup_merged_eq_none_iff base hProper _).mpr
                hHere
    | cons step steps ih =>
        cases l with
        | absent => cases hValue
        | leaf value =>
            cases hValue
            exact hClear [] (step :: steps) entries hWithin
        | merged base overrides =>
            cases hValue
            rcases Option.bind_eq_some_iff.mp hWithin with
              ⟨inner, hNext, hRest⟩
            cases step with
            | index i => cases hNext
            | key k =>
                have hChild :
                    inner ∈
                      ((Layers.merged base overrides).child
                        k).value := by
                  rw [← lookup_merged_eq_child base hProper]
                  exact hNext
                exact
                  ih (hProper.child k)
                    (fun path => hClear (k :: path)) inner
                    hChild hRest

------------------------------------------------------------
-- Values
------------------------------------------------------------

/-
  What takes part at some place is what is said there: the
  first of it, and under each key but the marker what the
  mappings say that are one.
-/
def Layers.Follows
    (values : List Yaml) : Layers → Prop
  | .absent => values = []
  | .leaf value => values.head? = some value
  | .merged base overrides =>
      values.head?.map leaf? = some none ∧
        ∀ k, k ≠ replaceMarker →
          (merging values).filterMap (fun d => d.lookup k) =
            overrides.filterMap (fun d => d.lookup k) ++
              (base.lookup k).toList

theorem isMarked_eq_false
    {d : Dict}
    (hNone : d.lookup replaceMarker = none) :
    isMarked d = false := by
  unfold isMarked
  rw [hNone]
  rfl

theorem merging_of_leaf
    {value : Yaml}
    (hLeaf : leaf? value = some value)
    (rest : List Yaml) :
    merging (value :: rest) = [] := by
  cases value with
  | mapping d => cases hLeaf
  | null => rfl
  | text s => rfl
  | scalar truth name => rfl
  | list items => rfl

/- One mapping alone is one. -/
theorem merging_singleton (d : Dict) :
    merging [.mapping d] = [d] := by
  rw [merging]
  split
  · rfl
  · rfl

theorem settle_follows
    (old : Option Yaml)
    (values : List Yaml) :
    (settle old values).Follows (values ++ old.toList) := by
  induction values with
  | nil =>
      cases old with
      | none => rfl
      | some v =>
          cases v with
          | mapping d =>
              refine ⟨rfl, ?_⟩
              intro k _
              change
                (merging [.mapping d]).filterMap _ = _
              rw [merging_singleton]
              cases hLookup : d.lookup k with
              | none => simp [hLookup]
              | some v => simp [hLookup]
          | null => rfl
          | text s => rfl
          | scalar truth name => rfl
          | list items => rfl
  | cons v rest ih =>
      cases v with
      | mapping d =>
          have hOwn :
              ∀ k,
                [d].filterMap (fun d => d.lookup k) =
                  (d.lookup k).toList := by
            intro k
            cases hLookup : d.lookup k with
            | none => simp [hLookup]
            | some v => simp [hLookup]
          rw [settle, List.cons_append]
          split
          · rename_i hMarked
            refine ⟨rfl, ?_⟩
            intro k hKey
            rw [merging, if_pos hMarked, lookup_drop,
              if_neg hKey]
            exact hOwn k
          · rename_i hNot
            split
            · rename_i base overrides hRest
              rw [hRest] at ih
              refine ⟨rfl, ?_⟩
              intro k hKey
              rw [merging, if_neg hNot, ← List.singleton_append,
                List.filterMap_append, ih.2 k hKey, hOwn,
                ← List.singleton_append (l := overrides),
                List.filterMap_append, hOwn, List.append_assoc]
            · rename_i hNotMerged
              have hAlone :
                  merging (rest ++ old.toList) = [] := by
                cases hRest : settle old rest with
                | merged base overrides =>
                    exact
                      absurd hRest (hNotMerged base overrides)
                | absent =>
                    rw [hRest] at ih
                    rw [show rest ++ old.toList = [] from ih]
                    rfl
                | leaf value =>
                    rw [hRest] at ih
                    rcases List.head?_eq_some_iff.mp ih with
                      ⟨others, hOthers⟩
                    rw [hOthers]
                    exact
                      merging_of_leaf (settle_leaf hRest) _
              refine ⟨rfl, ?_⟩
              intro k _
              rw [merging, if_neg hNot, hAlone]
              exact hOwn k
      | null => rfl
      | text s => rfl
      | scalar truth name => rfl
      | list items => rfl

theorem saidAt_nil (path : List Key) : saidAt [] path = [] := by
  induction path with
  | nil => rfl
  | cons k path ih =>
      rw [saidAt]
      split
      · rfl
      · exact ih

/- Where nothing has a marker, nothing is under one. -/
theorem Layers.Clear.child_eq_absent
    {l : Layers}
    (hClear : l.Clear) :
    l.child replaceMarker = .absent := by
  cases l with
  | absent => rfl
  | leaf value => rfl
  | merged base overrides =>
      have hNone :
          overrides.filterMap
              (fun d => d.lookup replaceMarker) = [] :=
        List.filterMap_eq_nil_iff.mpr hClear.2
      change settle (base.lookup replaceMarker) _ = _
      rw [hNone, hClear.1]
      rfl

/- A clear result has at every path what is said there. -/
theorem said_of_clear
    {l : Layers}
    {values : List Yaml}
    (hFollows : l.Follows values)
    (hProper : l.Proper)
    (hClear : ∀ path, (l.atPath path).Clear)
    (path : List Key) :
    (l.atPath path).value.map leaf? =
      (saidAt values path).head?.map leaf? := by
  induction path generalizing l values with
  | nil =>
      cases l with
      | absent =>
          rw [show values = [] from hFollows]
          rfl
      | leaf value =>
          rw [saidAt, show values.head? = _ from hFollows]
          rfl
      | merged base overrides =>
          rw [saidAt, hFollows.1]
          rfl
  | cons k path ih =>
      rw [saidAt, Layers.atPath]
      split
      · rename_i hKey
        have hHere : l.Clear := hClear []
        rw [hKey, hHere.child_eq_absent,
          Layers.atPath_absent]
        rfl
      · rename_i hKey
        cases l with
        | absent =>
            rw [show values = [] from hFollows]
            change (Layers.absent.atPath path).value.map _ = _
            rw [Layers.atPath_absent, merging,
              List.filterMap_nil, saidAt_nil]
            · rfl
            · intro d rest hEq
              cases hEq
        | leaf value =>
            rcases List.head?_eq_some_iff.mp hFollows with
              ⟨others, rfl⟩
            change (Layers.absent.atPath path).value.map _ = _
            rw [Layers.atPath_absent, merging_of_leaf hProper,
              List.filterMap_nil, saidAt_nil]
            rfl
        | merged base overrides =>
            rw [hFollows.2 k hKey]
            exact
              ih (settle_follows _ _) (hProper.child k)
                (fun path => hClear (k :: path))

------------------------------------------------------------
-- Every chain
------------------------------------------------------------

theorem merging_unmarked
    {configs : List Dict}
    (hUnmarked : ∀ d ∈ configs, isMarked d = false)
    (root : Dict) :
    merging ((configs ++ [root]).map Yaml.mapping) =
      configs ++ [root] := by
  induction configs with
  | nil => exact merging_singleton root
  | cons d configs ih =>
      rw [List.forall_mem_cons] at hUnmarked
      rw [List.cons_append, List.map_cons, merging,
        hUnmarked.1, if_neg Bool.false_ne_true,
        ih hUnmarked.2]

/- The whole chain follows what its configs say. -/
theorem follows_chain
    {root : Dict}
    {overrides : List Dict}
    (hClear : (Layers.merged root overrides).Clear) :
    (Layers.merged root overrides).Follows
      ((overrides ++ [root]).map Yaml.mapping) := by
  refine ⟨?_, ?_⟩
  · cases overrides with
    | nil => rfl
    | cons d overrides => rfl
  · intro k _
    rw [merging_unmarked
      (fun d hD => isMarked_eq_false (hClear.2 d hD)),
      List.filterMap_append]
    cases hLookup : root.lookup k with
    | none => simp [hLookup]
    | some v => simp [hLookup]

/-
  A merged chain inherits as it should exactly if nothing
  that takes part in it at any path has a marker.
-/
theorem inherits_merged_iff
    (root : Dict)
    {overrides : List Dict}
    (hDistinct :
      ∀ d ∈ overrides, (Yaml.mapping d).Distinct) :
    Inherits (overrides ++ [root]) (merged root overrides) ↔
      ∀ path,
        ((Layers.merged root overrides).atPath path).Clear := by
  have hProper : (Layers.merged root overrides).Proper :=
    hDistinct
  have hWithout := without_iff_clear hProper
  constructor
  · intro hInherits
    rw [← hWithout]
    intro v hValue
    cases hValue
    exact hInherits.unmarked
  · intro hClear
    refine
      { unmarked := hWithout.mpr hClear _ rfl
        nearest := ?_ }
    intro path
    have hSaid :=
      said_of_clear (follows_chain (hClear [])) hProper
        hClear path
    rw [← under_value hProper] at hSaid
    exact hSaid

/-
  A config with its chain is read to its end, and what it is
  read as inherits as it should exactly if nothing that takes
  part in it at any path has a marker.
-/
theorem inherits_iff
    {disk : Disk}
    {path : Path}
    {root : Dict}
    {overrides : List Dict}
    {lineage : List Path}
    (hExtends :
      Extends disk (disk.resolve path) root overrides lineage)
    {room : ℕ}
    (hRoom : lineage.length ≤ room) :
    ∃ cfg,
      readWithParents disk room path [] =
          .ok (cfg, lineage) ∧
        (Inherits (overrides ++ [root]) cfg ↔
          ∀ path,
            ((Layers.merged root overrides).atPath
              path).Clear) :=
  ⟨merged root overrides,
    readWithParents_of_extends hExtends hRoom
      (fun _ _ => List.not_mem_nil),
    inherits_merged_iff root hExtends.distinct⟩

------------------------------------------------------------
-- Two configs
------------------------------------------------------------

def named (s : String) : Key :=
  .text s

/- A base config that says one thing. -/
def baseConfig : Dict :=
  [(named "x", .scalar true 1)]

/- A marked mapping, in a mapping that the base lacks. -/
def markedMapping : Dict :=
  [(replaceMarker, .scalar true 1),
    (named "c", .scalar true 2)]

def newMapping : Dict :=
  [(named "b", .mapping markedMapping)]

def childConfig : Dict :=
  [(extendsKey, .text "base.yaml"),
    (named "a", .mapping newMapping)]

theorem distinct_baseConfig :
    (Yaml.mapping baseConfig).Distinct := by
  apply distinct_mapping
  · decide
  · intro entry hMem
    rw [List.mem_singleton.mp hMem]
    exact distinct_scalar _ _

theorem distinct_markedMapping :
    (Yaml.mapping markedMapping).Distinct := by
  apply distinct_mapping
  · decide
  · intro entry hMem
    rcases List.mem_pair.mp hMem with rfl | rfl
    · exact distinct_scalar _ _
    · exact distinct_scalar _ _

theorem distinct_newMapping :
    (Yaml.mapping newMapping).Distinct := by
  apply distinct_mapping
  · decide
  · intro entry hMem
    rw [List.mem_singleton.mp hMem]
    exact distinct_markedMapping

theorem distinct_childConfig :
    (Yaml.mapping childConfig).Distinct := by
  apply distinct_mapping
  · decide
  · intro entry hMem
    rcases List.mem_pair.mp hMem with rfl | rfl
    · exact distinct_text _
    · exact distinct_newMapping

def twoFiles : Disk :=
  { files := fun path =>
      if path = "base.yaml" then
        some (some ⟨.mapping baseConfig, distinct_baseConfig⟩)
      else if path = "child.yaml" then
        some
          (some ⟨.mapping childConfig, distinct_childConfig⟩)
      else none
    resolve := id
    parentPath := fun _ ref =>
      match ref with
      | .text s => some s
      | _ => none }

theorem extends_child :
    Extends twoFiles "child.yaml" baseConfig
      [[(named "a", .mapping newMapping)]]
      ["base.yaml", "child.yaml"] :=
  have hNew : "child.yaml" ∉ ["base.yaml"] := by decide
  have hRoot :
      Extends twoFiles "base.yaml" baseConfig []
        ["base.yaml"] :=
    @Extends.root twoFiles "base.yaml" baseConfig rfl rfl
  @Extends.child twoFiles "child.yaml" "base.yaml"
    childConfig baseConfig [] ["base.yaml"] rfl rfl hRoot
    hNew

theorem inherits_iff_child :
    ∃ cfg,
      readWithParents twoFiles 2 "child.yaml" [] =
          .ok (cfg, ["base.yaml", "child.yaml"]) ∧
        (Inherits
            ([[(named "a", .mapping newMapping)]] ++
              [baseConfig]) cfg ↔
          ∀ path,
            ((Layers.merged baseConfig
              [[(named "a", .mapping newMapping)]]).atPath
                path).Clear) :=
  inherits_iff extends_child (by decide)

/- The marker of the child is left in what is read. -/
theorem not_inherits_child :
    Extends twoFiles "child.yaml" baseConfig
        [[(named "a", .mapping newMapping)]]
        ["base.yaml", "child.yaml"] ∧
      ∃ cfg,
        readWithParents twoFiles 2 "child.yaml" [] =
            .ok (cfg, ["base.yaml", "child.yaml"]) ∧
          ¬ Inherits
            ([[(named "a", .mapping newMapping)]] ++
              [baseConfig]) cfg := by
  refine
    ⟨extends_child, _,
      readWithParents_of_extends extends_child (by decide)
        (fun _ _ => List.not_mem_nil), ?_⟩
  intro hInherits
  have hNone :=
    hInherits.unmarked
      [.key (named "a"), .key (named "b")] markedMapping rfl
  cases hNone

end Config

end Utils

end Nidra
