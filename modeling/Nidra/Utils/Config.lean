import Nidra.Lib.Yaml

/-
  This file defines how a config is read together with the
  configs that it extends: its own mapping is merged into
  what they come to, key by key, and a marked mapping takes
  the place of the one that it overrides.

  Key definitions include:
    * `mergeValue`, `deepMerge`
    * `Disk`, `ReadError`
    * `readWithParents`

  Main declarations:
    * `lookup_deepMerge`
    * `readWithParents_of_extends`
-/

namespace Nidra

namespace Utils

namespace Config

open Yaml

------------------------------------------------------------
-- Merging
------------------------------------------------------------

/-
  Marker a child mapping sets to replace the parent's mapping
  outright instead of merging into it.
-/
def replaceMarker : Key :=
  .text "_replace"

def isMarked (value : Dict) : Bool :=
  ((value.lookup replaceMarker).getD .null).truthy

mutual

/- The value of a key once a value overrides it. -/
def mergeValue
    (old : Option Yaml) : Yaml → Yaml
  | .mapping value =>
      if isMarked value then
        .mapping (drop value replaceMarker)
      else
        match old with
        | some (.mapping base) =>
            .mapping (deepMerge base value)
        | _ => .mapping value
  | value => value

/-
  Merge of two mappings; lists and scalars replace rather
  than combine.
-/
def deepMerge (out : Dict) : Dict → Dict
  | [] => out
  | (key, value) :: rest =>
      deepMerge
        (set out key (mergeValue (out.lookup key) value)) rest

end

theorem mergeValue_mapping
    (old : Option Yaml)
    (d : Dict) :
    mergeValue old (.mapping d) =
      if isMarked d then .mapping (drop d replaceMarker)
      else
        match old with
        | some (.mapping base) => .mapping (deepMerge base d)
        | _ => .mapping d := by
  unfold mergeValue
  rfl

/- Only the keys of the override change, each of them once. -/
theorem lookup_deepMerge
    (out override : Dict)
    (hKeys : (override.map Prod.fst).Nodup)
    (k : Key) :
    (deepMerge out override).lookup k =
      match override.lookup k with
      | none => out.lookup k
      | some value =>
          some (mergeValue (out.lookup k) value) := by
  induction override generalizing out with
  | nil =>
      rw [deepMerge]
      rfl
  | cons entry rest ih =>
      rcases entry with ⟨key, value⟩
      rw [List.map_cons, List.nodup_cons] at hKeys
      rw [deepMerge, ih _ hKeys.2, List.lookup_cons,
        lookup_set]
      by_cases hKey : k = key
      · subst hKey
        have hAbsent : rest.lookup k = none := by
          rw [List.lookup_eq_none_iff]
          intro entry hMem
          rw [bne_iff_ne]
          intro hSame
          apply hKeys.1
          exact List.mem_map.mpr ⟨entry, hMem, hSame.symm⟩
        rw [hAbsent, if_pos rfl, beq_self_eq_true]
      · have hNe : (k == key) = false :=
          beq_eq_false_iff_ne.mpr hKey
        rw [if_neg hKey, hNe]

------------------------------------------------------------
-- Reading
------------------------------------------------------------

abbrev Path :=
  String

/-
  The file system as a config is read from it: the value in
  a file, if there is one and it is YAML; the absolute form
  of a path; and the path that a value of `extends` names
  from a file, if it can be a path.
-/
structure Disk where
  files : Path → Option (Option { v : Yaml // v.Distinct })
  resolve : Path → Path
  parentPath : Path → Yaml → Option Path

inductive ReadError where
  | recursion
  | cycle (chain : List Path)
  | noFile (path : Path)
  | notYaml (path : Path)
  | notMapping (path : Path)
  | notPath (path : Path)
  | noParent (path : Path) (parent : Path)

def extendsKey : Key :=
  .text "extends"

/- The mapping of a config; an empty file is an empty one. -/
def topLevel (value : Yaml) : Option Dict :=
  if value.truthy then
    match value with
    | .mapping entries => some entries
    | _ => none
  else some []

def Disk.content
    (disk : Disk)
    (path : Path) : Except ReadError Dict :=
  match disk.files path with
  | none => .error (.noFile path)
  | some none => .error (.notYaml path)
  | some (some value) =>
      match topLevel value.1 with
      | none => .error (.notMapping path)
      | some entries => .ok entries

/- The parent that a config names, if it names one. -/
def Disk.parent
    (disk : Disk)
    (path : Path)
    (cfg : Dict) : Except ReadError (Option Path) :=
  match (cfg.lookup extendsKey).getD .null with
  | .null => .ok none
  | ref =>
      match disk.parentPath path ref with
      | none => .error (.notPath path)
      | some parent =>
          if (disk.files (disk.resolve parent)).isSome then
            .ok (some parent)
          else .error (.noParent path parent)

/-
  Resolve one config and its chain of parents, parents first,
  on a stack with room for so many calls.
-/
def readWithParents
    (disk : Disk) :
    ℕ → Path → List Path → Except ReadError (Dict × List Path)
  | 0, _, _ => .error .recursion
  | room + 1, path, seen =>
      let path := disk.resolve path
      if path ∈ seen then .error (.cycle (seen ++ [path]))
      else do
        let cfg ← disk.content path
        let parent ← disk.parent path cfg
        match parent with
        | none => .ok (drop cfg extendsKey, [path])
        | some parent => do
            let (parentCfg, lineage) ←
              readWithParents disk room parent
                (seen ++ [path])
            .ok
              (deepMerge parentCfg (drop cfg extendsKey),
                lineage ++ [path])

------------------------------------------------------------
-- Chains
------------------------------------------------------------

/-
  A chain of configs from the one at a path up to one that
  names no parent: what the last one says, what the others
  say with the nearest first, and their paths, parents first.
-/
inductive Extends
    (disk : Disk) :
    Path → Dict → List Dict → List Path → Prop where
  | root
      {path : Path}
      {cfg : Dict}
      (hContent : disk.content path = .ok cfg)
      (hParent : disk.parent path cfg = .ok none) :
      Extends disk path (drop cfg extendsKey) [] [path]
  | child
      {path parent : Path}
      {cfg root : Dict}
      {overrides : List Dict}
      {lineage : List Path}
      (hContent : disk.content path = .ok cfg)
      (hParent : disk.parent path cfg = .ok (some parent))
      (hChain :
        Extends disk (disk.resolve parent) root overrides
          lineage)
      (hNew : path ∉ lineage) :
      Extends disk path root
        (drop cfg extendsKey :: overrides)
        (lineage ++ [path])

/- The configs of a chain, merged from its root on. -/
def merged
    (root : Dict)
    (overrides : List Dict) : Dict :=
  overrides.foldr (fun override out => deepMerge out override)
    root

/- A chain is read to its end, and merged. -/
theorem readWithParents_of_extends
    {disk : Disk}
    {path : Path}
    {root : Dict}
    {overrides : List Dict}
    {lineage : List Path}
    (hExtends :
      Extends disk (disk.resolve path) root overrides lineage)
    {room : ℕ}
    (hRoom : lineage.length ≤ room)
    {seen : List Path}
    (hSeen : ∀ p ∈ lineage, p ∉ seen) :
    readWithParents disk room path seen =
      .ok (merged root overrides, lineage) := by
  generalize hPath : disk.resolve path = resolved at hExtends
  induction hExtends generalizing path room seen with
  | @root resolved cfg hContent hParent =>
      subst hPath
      cases room with
      | zero => simp at hRoom
      | succ room =>
          unfold readWithParents
          dsimp only
          rw [if_neg (hSeen _ List.mem_cons_self), hContent]
          change
            (disk.parent (disk.resolve path) cfg >>= _) = _
          rw [hParent]
          rfl
  | @child resolved parent cfg root overrides lineage hContent
      hParent hChain hNew ih =>
      subst hPath
      cases room with
      | zero => simp at hRoom
      | succ room =>
          rw [List.length_append, List.length_singleton]
            at hRoom
          have hLast :
              disk.resolve path ∈
                lineage ++ [disk.resolve path] :=
            List.mem_append_right _ List.mem_cons_self
          have hRest :
              ∀ p ∈ lineage,
                p ∉ seen ++ [disk.resolve path] := by
            intro p hMem hIn
            rcases List.mem_append.mp hIn with hOld | hHere
            · exact
                hSeen p (List.mem_append_left _ hMem) hOld
            · rw [List.mem_singleton.mp hHere] at hMem
              exact hNew hMem
          have hParents :=
            ih (Nat.le_of_succ_le_succ hRoom) hRest rfl
          unfold readWithParents
          dsimp only
          rw [if_neg (hSeen _ hLast), hContent]
          change
            (disk.parent (disk.resolve path) cfg >>= _) = _
          rw [hParent]
          change
            (readWithParents disk room parent
                (seen ++ [disk.resolve path]) >>= _) = _
          rw [hParents]
          rfl

theorem distinct_content
    {disk : Disk}
    {path : Path}
    {cfg : Dict}
    (hContent : disk.content path = .ok cfg) :
    (Yaml.mapping cfg).Distinct := by
  unfold Disk.content at hContent
  cases hFile : disk.files path with
  | none =>
      rw [hFile] at hContent
      cases hContent
  | some file =>
      cases file with
      | none =>
          rw [hFile] at hContent
          cases hContent
      | some value =>
          rcases value with ⟨value, hDistinct⟩
          rw [hFile] at hContent
          dsimp only at hContent
          unfold topLevel at hContent
          cases hTruth : value.truthy with
          | false =>
              rw [hTruth, if_neg Bool.false_ne_true]
                at hContent
              cases hContent
              exact distinct_nil
          | true =>
              rw [hTruth, if_pos rfl] at hContent
              cases value with
              | mapping entries =>
                  cases hContent
                  exact hDistinct
              | null => cases hContent
              | text s => cases hContent
              | scalar truth name => cases hContent
              | list items => cases hContent

/- The keys of every config of a chain differ throughout. -/
theorem Extends.distinct
    {disk : Disk}
    {path : Path}
    {root : Dict}
    {overrides : List Dict}
    {lineage : List Path}
    (hExtends :
      Extends disk path root overrides lineage) :
    ∀ d ∈ overrides, (Yaml.mapping d).Distinct := by
  induction hExtends with
  | root hContent hParent => exact List.forall_mem_nil _
  | child hContent hParent hChain hNew ih =>
      rw [List.forall_mem_cons]
      exact
        ⟨(distinct_content hContent).drop extendsKey, ih⟩

end Config

end Utils

end Nidra
