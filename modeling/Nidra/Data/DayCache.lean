import Nidra.Data.Contiguity
import Nidra.Data.DayTable
import Nidra.Lib.Memo
import Nidra.Lib.TextKeys

/-
  This file defines how the splits are built from the days of
  a configuration, with the labelled tables kept in files that
  later runs read instead of the raw captures. A table is
  kept under the name of all that it was computed from but
  the horizon, for which it is labelled again when it is used.

  Key definitions include:
    * `DayMeta`, `PipelineConfig`
    * `declaredPacketsTag`, `hostScopeTag`, `dayCachePath`
    * `DayJob`, `RawFiles.table`
    * `buildDay`, `buildDays`, `buildAllSplits`

  Main declarations:
    * `dayCachePath_injective`
    * `finish_congr`
-/

namespace Nidra

namespace Data

open Training

------------------------------------------------------------
-- Configuration
------------------------------------------------------------

inductive FlowFormat where
  | cicflowmeter
  | ctuBinetflow
deriving DecidableEq, Repr

def FlowFormat.text : FlowFormat → String
  | .cicflowmeter => "cicflowmeter"
  | .ctuBinetflow => "ctu_binetflow"

structure FilePath where
  dir : String
  name : String
deriving DecidableEq, Repr

/- A day: its flows and, if they are declared, its packets. -/
structure DayMeta where
  format : FlowFormat
  file : FilePath
  packets : Option FilePath

structure PipelineConfig where
  windowSeconds : ℤ
  contextL : ℕ
  horizonK : ℕ
  minWindowsPerHost : ℕ
  rowCap : Option ℕ
  internalCidrs : List String
  processedDir : Option String
  days : List (String × DayMeta)
  roles : SplitRoles

------------------------------------------------------------
-- The names of kept tables
------------------------------------------------------------

def flowOnlyTag : String := "flowonly"

def cic2017TimebaseTag : String := "utc12h"

def fusionTag : String := "fuse2"

/- The tag of the packets of a day, there or not. -/
def declaredPacketsTag (day : DayMeta) : String :=
  (day.packets.map FilePath.name).getD flowOnlyTag

/- The tag of the networks whose hosts are kept. -/
def hostScopeTag (internalCidrs : List String) : String :=
  if internalCidrs = [] then "allhosts"
  else
    "_".intercalate
      (internalCidrs.map (fun cidr =>
        String.ofList
          (cidr.toList.map (fun c =>
            if c = '/' then '-' else c))))

def rowCapText : Option ℕ → String
  | none => "None"
  | some cap => toString cap

/- The file in which the table of a day is kept. -/
def dayCachePath
    (processedDir dayKey : String)
    (windowSeconds : ℤ)
    (rowCap : Option ℕ)
    (packetsTag : String)
    (format : FlowFormat)
    (hostScope : String) : FilePath :=
  { dir := processedDir
    name :=
      match format with
      | .cicflowmeter =>
          dayKey ++ "__w" ++ toString windowSeconds ++
            "__" ++ packetsTag ++ "__cap" ++ rowCapText rowCap ++
            "__" ++ cic2017TimebaseTag ++ "__" ++ fusionTag ++
            ".parquet"
      | .ctuBinetflow =>
          dayKey ++ "__" ++ format.text ++ "__w" ++
            toString windowSeconds ++ "__" ++ packetsTag ++
            "__cap" ++ rowCapText rowCap ++ "__" ++
            (if hostScope = "" then "allhosts" else hostScope) ++
            "__" ++ fusionTag ++ ".parquet" }

------------------------------------------------------------
-- One table
------------------------------------------------------------

/- What a table is computed from. -/
structure DayJob where
  processedDir : String
  dayKey : String
  format : FlowFormat
  file : FilePath
  windowSeconds : ℤ
  rowCap : Option ℕ
  internalCidrs : List String
  packets : Option FilePath
  horizonK : ℕ

/- The tag of the packets that are used. -/
def DayJob.packetsTag (job : DayJob) : String :=
  (job.packets.map FilePath.name).getD flowOnlyTag

def DayJob.key (job : DayJob) : FilePath :=
  dayCachePath job.processedDir job.dayKey job.windowSeconds
    job.rowCap job.packetsTag job.format
    (hostScopeTag job.internalCidrs)

/- What the readers make of the raw files, by their paths. -/
structure RawFiles where
  cicflowmeter : FilePath → Option ℕ → List RawFlow
  binetflow :
    FilePath → Option ℕ → List String → List RawFlow
  packets : FilePath → List RawPacket

def RawFiles.loadRawFlows
    (raw : RawFiles)
    (path : FilePath)
    (rowCap : Option ℕ)
    (internalCidrs : List String) :
    FlowFormat → List RawFlow
  | .cicflowmeter => raw.cicflowmeter path rowCap
  | .ctuBinetflow => raw.binetflow path rowCap internalCidrs

section Tables

variable [ExpLog ℚ]
variable (sampling : Sampling)
variable (dialect : FlowFormat → LabelDialect)
variable (raw : RawFiles)

/- The labelled table of a day, of all its hosts. -/
def RawFiles.table (job : DayJob) : List StateRow :=
  let inputs :=
    buildDayInputs job.windowSeconds
      (raw.loadRawFlows job.file job.rowCap job.internalCidrs
        job.format)
      (job.packets.elim [] raw.packets)
  loadAndLabelDay sampling (dialect job.format)
    job.windowSeconds 1 job.horizonK inputs.1 inputs.2

------------------------------------------------------------
-- All days
------------------------------------------------------------

/- The tables that are kept, by their files. -/
abbrev TableCache :=
  Memo FilePath (List StateRow)

/- Read the table that is kept, or compute and keep it. -/
def loadOrCompute
    (cache : TableCache)
    (cachePath : Option FilePath)
    (computed : List StateRow) :
    List StateRow × TableCache :=
  match cachePath with
  | none => (computed, cache)
  | some path => cache.fetch path computed

/- The packets of a day, if they are declared and there. -/
def resolvePacketsPath
    (present : FilePath → Bool)
    (day : DayMeta) : Option FilePath :=
  day.packets.filter present

def PipelineConfig.cachePath
    (cfg : PipelineConfig)
    (dayKey : String)
    (day : DayMeta)
    (packetsTag : String) : Option FilePath :=
  cfg.processedDir.map (fun dir =>
    dayCachePath dir dayKey cfg.windowSeconds cfg.rowCap
      packetsTag day.format (hostScopeTag cfg.internalCidrs))

/- What the table of a day is computed from. -/
def PipelineConfig.job
    (cfg : PipelineConfig)
    (dayKey : String)
    (day : DayMeta)
    (packets : Option FilePath) : DayJob :=
  { processedDir := cfg.processedDir.getD ""
    dayKey := dayKey
    format := day.format
    file := day.file
    windowSeconds := cfg.windowSeconds
    rowCap := cfg.rowCap
    internalCidrs := cfg.internalCidrs
    packets := packets
    horizonK := cfg.horizonK }

/-
  The table of a day: the one that is kept for the declared
  packets, or else one from the raw files that are there.
  Without its flows a day is skipped.
-/
def buildDay
    (cfg : PipelineConfig)
    (present : FilePath → Bool)
    (cache : TableCache)
    (dayKey : String)
    (day : DayMeta) :
    Option (List StateRow) × TableCache :=
  match (cfg.cachePath dayKey day
      (declaredPacketsTag day)).bind cache with
  | some table => (some table, cache)
  | none =>
      if present day.file then
        let job :=
          cfg.job dayKey day (resolvePacketsPath present day)
        let loaded :=
          loadOrCompute cache
            (cfg.cachePath dayKey day job.packetsTag)
            (raw.table sampling dialect job)
        (some loaded.1, loaded.2)
      else (none, cache)

/- Hosts with enough windows, unless the table is empty. -/
def filterMinWindows
    (minWindowsPerHost : ℕ)
    (table : List StateRow) : List StateRow :=
  if table = [] ∨ minWindowsPerHost ≤ 1 then table
  else
    table.filter (fun row =>
      minWindowsPerHost ≤
        table.countP (fun other => other.hostId = row.hostId))

/- The table of a day for the geometry of a configuration. -/
def PipelineConfig.finish
    (cfg : PipelineConfig)
    (dayKey : String)
    (table : List StateRow) : List StateRow :=
  let kept := filterMinWindows cfg.minWindowsPerHost table
  if kept = [] then kept
  else
    (reattachRiskLabelSliced kept cfg.horizonK).map
      (fun row => { row with splitGroup := some dayKey })

/- The tables of the days, one after the other. -/
def buildDays
    (cfg : PipelineConfig)
    (present : FilePath → Bool) :
    List (String × DayMeta) → TableCache →
      List (String × List StateRow) × TableCache
  | [], cache => ([], cache)
  | (dayKey, day) :: days, cache =>
      let built :=
        buildDay sampling dialect raw cfg present cache dayKey
          day
      let rest := buildDays cfg present days built.2
      ((built.1.map (fun table =>
          (dayKey, cfg.finish dayKey table))).toList ++ rest.1,
        rest.2)

def tooFewWindows (cfg : PipelineConfig) : String :=
  "windowing.min_windows_per_host=" ++
    toString cfg.minWindowsPerHost ++ " is below L+K=" ++
    toString (cfg.contextL + cfg.horizonK) ++
    "; no sample could be built"

/- The splits of a configuration, and the tables kept. -/
def buildAllSplits
    (cfg : PipelineConfig)
    (present : FilePath → Bool)
    (cache : TableCache) :
    Except String SplitResult × TableCache :=
  if cfg.minWindowsPerHost < cfg.contextL + cfg.horizonK then
    (.error (tooFewWindows cfg), cache)
  else
    let built :=
      buildDays sampling dialect raw cfg present cfg.days cache
    (buildSplits (fun dayKey => built.1.lookup dayKey)
      cfg.roles (some cfg.horizonK), built.2)

end Tables

------------------------------------------------------------
-- Names tell what they were made from
------------------------------------------------------------

/- The notation of a network. -/
def IsNetwork (cidr : String) : Prop :=
  '/' ∈ cidr.toList ∧ '_' ∉ cidr.toList ∧ '-' ∉ cidr.toList

/- A text without two underscores, and with none at its end. -/
def IsPlain (text : String) : Prop :=
  text.toList.Solid '_'

theorem rowCapText_injective :
    Function.Injective rowCapText := by
  have hNever : ∀ cap : ℕ, "None" ≠ toString cap := by
    intro cap hEq
    have hMem : 'N' ∈ (toString cap).toList := by
      rw [← hEq]
      decide
    exact not_mem_toString_nat (by decide) cap hMem
  intro first second hSame
  cases first with
  | none =>
      cases second with
      | none => rfl
      | some cap => exact absurd hSame (hNever cap)
  | some cap =>
      cases second with
      | none => exact absurd hSame.symm (hNever cap)
      | some other => exact congrArg some (Nat.repr_inj.mp hSame)

/- The characters of a network as its tag has them. -/
theorem map_slash_injective
    {first second : List Char}
    (hFirst : '-' ∉ first)
    (hSecond : '-' ∉ second)
    (hSame :
      first.map (fun c => if c = '/' then '-' else c) =
        second.map (fun c => if c = '/' then '-' else c)) :
    first = second := by
  induction first generalizing second with
  | nil => exact (List.map_eq_nil_iff.mp hSame.symm).symm
  | cons c first ih =>
      cases second with
      | nil => cases hSame
      | cons d second =>
          rw [List.mem_cons, not_or] at hFirst hSecond
          rw [List.map_cons, List.map_cons,
            List.cons.injEq] at hSame
          have hHead : c = d := by
            have hEq := hSame.1
            split_ifs at hEq with hC hD
            · exact hC.trans hD.symm
            · exact absurd hEq hSecond.1
            · exact absurd hEq.symm hFirst.1
            · exact hEq
          rw [hHead, ih hFirst.2 hSecond.2 hSame.2]

def slashFree (cidr : String) : List Char :=
  cidr.toList.map (fun c => if c = '/' then '-' else c)

theorem toList_hostScopeTag
    {cidrs : List String}
    (hSome : cidrs ≠ []) :
    (hostScopeTag cidrs).toList =
      ['_'].intercalate (cidrs.map slashFree) := by
  unfold hostScopeTag
  rw [if_neg hSome, String.toList_intercalate, List.map_map]
  congr 1
  apply List.map_congr_left
  intro cidr _
  exact String.toList_ofList

theorem slashFree_spec
    {cidr : String}
    (hNetwork : IsNetwork cidr) :
    '-' ∈ slashFree cidr ∧ '_' ∉ slashFree cidr := by
  rcases hNetwork with ⟨hSlash, hUnder, _⟩
  constructor
  · exact List.mem_map.mpr ⟨'/', hSlash, by decide⟩
  · intro hMem
    rcases List.mem_map.mp hMem with ⟨c, hC, hEq⟩
    split_ifs at hEq with hIs
    · cases hEq
    · exact hUnder (hEq ▸ hC)

theorem isPlain_hostScopeTag
    {cidrs : List String}
    (hNetworks : ∀ cidr ∈ cidrs, IsNetwork cidr) :
    IsPlain (hostScopeTag cidrs) := by
  unfold IsPlain
  by_cases hNone : cidrs = []
  · subst hNone
    exact List.solid_of_not_mem (by decide)
  · rw [toList_hostScopeTag hNone]
    apply List.solid_intercalate
    intro part hPart
    rcases List.mem_map.mp hPart with ⟨cidr, hCidr, rfl⟩
    have hSpec := slashFree_spec (hNetworks cidr hCidr)
    exact ⟨List.ne_nil_of_mem hSpec.1, hSpec.2⟩

/- Hosts of networks are not mistaken for all hosts. -/
theorem mem_hostScopeTag
    {cidrs : List String}
    (hNetworks : ∀ cidr ∈ cidrs, IsNetwork cidr)
    (hSome : cidrs ≠ []) :
    '-' ∈ (hostScopeTag cidrs).toList := by
  rw [toList_hostScopeTag hSome]
  rcases List.exists_cons_of_ne_nil hSome with
    ⟨cidr, rest, rfl⟩
  have hSpec :=
    slashFree_spec (hNetworks cidr List.mem_cons_self)
  rw [List.map_cons]
  cases rest with
  | nil =>
      rw [List.map_nil, List.intercalate_singleton]
      exact hSpec.1
  | cons other rest =>
      rw [List.map_cons, List.intercalate_cons_cons,
        List.append_assoc]
      exact List.mem_append_left _ hSpec.1

theorem hostScopeTag_ne_empty
    {cidrs : List String}
    (hNetworks : ∀ cidr ∈ cidrs, IsNetwork cidr) :
    hostScopeTag cidrs ≠ "" := by
  intro hEmpty
  by_cases hNone : cidrs = []
  · subst hNone
    revert hEmpty
    decide
  · have hMem := mem_hostScopeTag hNetworks hNone
    rw [hEmpty] at hMem
    cases hMem

theorem hostScopeTag_injective
    {first second : List String}
    (hFirst : ∀ cidr ∈ first, IsNetwork cidr)
    (hSecond : ∀ cidr ∈ second, IsNetwork cidr)
    (hSame : hostScopeTag first = hostScopeTag second) :
    first = second := by
  have hAll : '-' ∉ (hostScopeTag []).toList := by decide
  by_cases hNone : first = []
  · by_cases hAlso : second = []
    · rw [hNone, hAlso]
    · rw [hNone] at hSame
      rw [hSame] at hAll
      exact absurd (mem_hostScopeTag hSecond hAlso) hAll
  · by_cases hOther : second = []
    · rw [hOther] at hSame
      rw [← hSame] at hAll
      exact absurd (mem_hostScopeTag hFirst hNone) hAll
    · -- The parts between the underscores are the networks.
      have hSplit :
          ∀ {cidrs : List String},
            (∀ cidr ∈ cidrs, IsNetwork cidr) → cidrs ≠ [] →
              ((hostScopeTag cidrs).toList).splitOn '_' =
                cidrs.map slashFree := by
        intro cidrs hNetworks hSome
        rw [toList_hostScopeTag hSome]
        apply List.splitOn_intercalate
        · intro part hPart
          rcases List.mem_map.mp hPart with ⟨cidr, hCidr, rfl⟩
          exact (slashFree_spec (hNetworks cidr hCidr)).2
        · simpa using hSome
      have hParts :
          first.map slashFree = second.map slashFree := by
        rw [← hSplit hFirst hNone, ← hSplit hSecond hOther,
          hSame]
      clear hSame hSplit hNone hOther hAll
      induction first generalizing second with
      | nil =>
          exact (List.map_eq_nil_iff.mp hParts.symm).symm
      | cons cidr first ih =>
          cases second with
          | nil => cases hParts
          | cons other second =>
              rw [List.forall_mem_cons] at hFirst hSecond
              rw [List.map_cons, List.map_cons,
                List.cons.injEq] at hParts
              have hHead :=
                map_slash_injective hFirst.1.2.2
                  hSecond.1.2.2 hParts.1
              rw [String.toList_inj.mp hHead,
                ih hFirst.2 hSecond.2 hParts.2]

/- What comes after the day in the name of a kept table. -/
def afterWindow
    (windowSeconds : ℤ)
    (rowCap : Option ℕ)
    (packetsTag : String)
    (rest : List Char) : List Char :=
  'w' :: (toString windowSeconds).toList ++
    '_' :: '_' :: (packetsTag.toList ++
      '_' :: '_' :: ('c' :: 'a' :: 'p' ::
        (rowCapText rowCap).toList ++ '_' :: '_' :: rest))

theorem isPlain_toString (n : ℤ) :
    ('w' :: (toString n).toList).Solid '_' := by
  apply List.solid_of_not_mem
  rw [List.mem_cons, not_or]
  exact
    ⟨by decide, not_mem_toString_int (by decide) (by decide) n⟩

theorem isPlain_rowCapText (cap : Option ℕ) :
    ('c' :: 'a' :: 'p' :: (rowCapText cap).toList).Solid
      '_' := by
  apply List.solid_of_not_mem
  have hText : '_' ∉ (rowCapText cap).toList := by
    cases cap with
    | none => decide
    | some cap => exact not_mem_toString_nat (by decide) cap
  simp [hText]

theorem afterWindow_injective
    {window window' : ℤ}
    {cap cap' : Option ℕ}
    {tag tag' : String}
    {rest rest' : List Char}
    (hTag : IsPlain tag)
    (hTag' : IsPlain tag')
    (hSame :
      afterWindow window cap tag rest =
        afterWindow window' cap' tag' rest') :
    window = window' ∧ cap = cap' ∧ tag = tag' ∧
      rest = rest' := by
  unfold afterWindow at hSame
  rcases List.split_at_double (isPlain_toString window)
    (isPlain_toString window') hSame with ⟨hWindow, hSame⟩
  rcases List.split_at_double hTag hTag' hSame with
    ⟨hTags, hSame⟩
  rcases List.split_at_double (isPlain_rowCapText cap)
    (isPlain_rowCapText cap') hSame with ⟨hCap, hRest⟩
  simp only [List.cons.injEq, true_and] at hWindow hCap
  exact
    ⟨Int.repr_injective (String.toList_inj.mp hWindow),
      rowCapText_injective (String.toList_inj.mp hCap),
      String.toList_inj.mp hTags, hRest⟩

theorem toList_name_cicflowmeter
    (dir dayKey : String)
    (window : ℤ)
    (cap : Option ℕ)
    (tag scope : String) :
    (dayCachePath dir dayKey window cap tag .cicflowmeter
        scope).name.toList =
      dayKey.toList ++
        '_' :: '_' :: afterWindow window cap tag
          (cic2017TimebaseTag ++ "__" ++ fusionTag ++
            ".parquet").toList := by
  simp [dayCachePath, afterWindow, cic2017TimebaseTag,
    fusionTag, String.toList_append]

theorem toList_name_ctuBinetflow
    (dir dayKey : String)
    (window : ℤ)
    (cap : Option ℕ)
    (tag : String)
    {scope : String}
    (hScope : scope ≠ "") :
    (dayCachePath dir dayKey window cap tag .ctuBinetflow
        scope).name.toList =
      dayKey.toList ++
        '_' :: '_' ::
          (FlowFormat.ctuBinetflow.text.toList ++
            '_' :: '_' :: afterWindow window cap tag
              (scope.toList ++
                '_' :: '_' ::
                  (fusionTag ++ ".parquet").toList)) := by
  simp [dayCachePath, afterWindow, FlowFormat.text, fusionTag,
    String.toList_append, hScope]

/-
  Two tables are kept in one file only if they are of the
  same day, window length, cap, packets and format, and of
  the same networks where these are looked at.
-/
theorem dayCachePath_injective
    {dir dir' dayKey dayKey' tag tag' : String}
    {window window' : ℤ}
    {cap cap' : Option ℕ}
    {format format' : FlowFormat}
    {cidrs cidrs' : List String}
    (hDay : IsPlain dayKey)
    (hDay' : IsPlain dayKey')
    (hTag : IsPlain tag)
    (hTag' : IsPlain tag')
    (hCidrs : ∀ cidr ∈ cidrs, IsNetwork cidr)
    (hCidrs' : ∀ cidr ∈ cidrs', IsNetwork cidr)
    (hSame :
      dayCachePath dir dayKey window cap tag format
          (hostScopeTag cidrs) =
        dayCachePath dir' dayKey' window' cap' tag' format'
          (hostScopeTag cidrs')) :
    dayKey = dayKey' ∧ window = window' ∧ cap = cap' ∧
      tag = tag' ∧ format = format' ∧
        (format = .ctuBinetflow → cidrs = cidrs') := by
  have hName :=
    congrArg (fun path => path.name.toList) hSame
  have hScope := hostScopeTag_ne_empty hCidrs
  have hScope' := hostScopeTag_ne_empty hCidrs'
  cases format with
  | cicflowmeter =>
      cases format' with
      | cicflowmeter =>
          simp only [toList_name_cicflowmeter] at hName
          rcases List.split_at_double hDay hDay' hName with
            ⟨hDays, hAfter⟩
          rcases afterWindow_injective hTag hTag' hAfter with
            ⟨hWindow, hCap, hTags, _⟩
          exact
            ⟨String.toList_inj.mp hDays, hWindow, hCap, hTags,
              rfl, fun hFormat => by cases hFormat⟩
      | ctuBinetflow =>
          simp only [toList_name_cicflowmeter,
            toList_name_ctuBinetflow _ _ _ _ _ hScope'] at hName
          rcases List.split_at_double hDay hDay' hName with
            ⟨_, hAfter⟩
          -- One goes on with the window, the other one not.
          cases (List.cons.inj hAfter).1
  | ctuBinetflow =>
      cases format' with
      | cicflowmeter =>
          simp only [toList_name_cicflowmeter,
            toList_name_ctuBinetflow _ _ _ _ _ hScope] at hName
          rcases List.split_at_double hDay hDay' hName with
            ⟨_, hAfter⟩
          cases (List.cons.inj hAfter).1
      | ctuBinetflow =>
          simp only [toList_name_ctuBinetflow _ _ _ _ _ hScope,
            toList_name_ctuBinetflow _ _ _ _ _ hScope']
            at hName
          rcases List.split_at_double hDay hDay' hName with
            ⟨hDays, hAfter⟩
          simp only [List.append_cancel_left_eq,
            List.cons.injEq, true_and] at hAfter
          rcases afterWindow_injective hTag hTag' hAfter with
            ⟨hWindow, hCap, hTags, hRest⟩
          rcases List.split_at_double
            (isPlain_hostScopeTag hCidrs)
            (isPlain_hostScopeTag hCidrs') hRest with
            ⟨hScopes, _⟩
          exact
            ⟨String.toList_inj.mp hDays, hWindow, hCap, hTags,
              rfl, fun _ =>
                hostScopeTag_injective hCidrs hCidrs'
                  (String.toList_inj.mp hScopes)⟩

------------------------------------------------------------
-- Tables that differ in their horizon
------------------------------------------------------------

/- Tables with the same rows and stages in the same order. -/
def SameStages (table other : List StateRow) : Prop :=
  table.map StateRow.unlabelled =
    other.map StateRow.unlabelled

theorem sortRows_map_unlabelled
    (table : List StateRow) :
    (sortRows table).map StateRow.unlabelled =
      sortRows (table.map StateRow.unlabelled) :=
  (sortByKey_map StateRow.key StateRow.unlabelled table).symm

/- Labelling again leaves the rows and the stages. -/
theorem map_unlabelled_reattach
    (table : List StateRow)
    (horizonK : ℕ) :
    (reattachRiskLabelSliced table horizonK).map
        StateRow.unlabelled =
      sortRows (table.map StateRow.unlabelled) := by
  rw [← sortRows_map_unlabelled]
  exact
    map_unlabelled_withRisk
      (length_slicedRisk (sortRows_pairwise_hostId table)
        horizonK)

/- What is labelled again does not depend on labels. -/
theorem reattach_congr
    {table other : List StateRow}
    (hSame : SameStages table other)
    (horizonK : ℕ) :
    reattachRiskLabelSliced table horizonK =
      reattachRiskLabelSliced other horizonK := by
  have hSorted :
      (sortRows table).map StateRow.unlabelled =
        (sortRows other).map StateRow.unlabelled := by
    rw [sortRows_map_unlabelled, sortRows_map_unlabelled,
      hSame]
  have hOf :
      ∀ rows : List StateRow,
        withRisk rows (slicedRisk rows horizonK) =
          withRisk (rows.map StateRow.unlabelled)
            (slicedRisk (rows.map StateRow.unlabelled)
              horizonK) := by
    intro rows
    have hAttacks :
        (rows.map StateRow.unlabelled).map StateRow.isAttack =
          rows.map StateRow.isAttack := by
      rw [List.map_map]
      rfl
    have hHosts :
        (rows.map StateRow.unlabelled).map StateRow.hostId =
          rows.map StateRow.hostId := by
      rw [List.map_map]
      rfl
    unfold slicedRisk
    rw [hAttacks, hHosts, List.length_map]
    unfold withRisk
    rw [List.zipWith_map_left]
    rfl
  unfold reattachRiskLabelSliced
  rw [hOf (sortRows table), hOf (sortRows other), hSorted]

theorem SameStages.filter
    {table other : List StateRow}
    (hSame : SameStages table other)
    (p : String → Bool) :
    SameStages (table.filter (fun row => p row.hostId))
      (other.filter (fun row => p row.hostId)) := by
  have hOf :
      ∀ rows : List StateRow,
        (rows.filter (fun row => p row.hostId)).map
            StateRow.unlabelled =
          (rows.map StateRow.unlabelled).filter
            (fun row => p row.hostId) := by
    intro rows
    rw [List.filter_map]
    rfl
  unfold SameStages at hSame ⊢
  rw [hOf, hOf, hSame]

theorem SameStages.nil_iff
    {table other : List StateRow}
    (hSame : SameStages table other) :
    table = [] ↔ other = [] := by
  have hLength := congrArg List.length hSame
  rw [List.length_map, List.length_map] at hLength
  rw [← List.length_eq_zero_iff, hLength,
    List.length_eq_zero_iff]

theorem SameStages.countP_hostId
    {table other : List StateRow}
    (hSame : SameStages table other)
    (hostId : String) :
    table.countP (fun row => row.hostId = hostId) =
      other.countP (fun row => row.hostId = hostId) := by
  have hOf :
      ∀ rows : List StateRow,
        rows.countP (fun row => row.hostId = hostId) =
          (rows.map StateRow.unlabelled).countP
            (fun row => row.hostId = hostId) := by
    intro rows
    rw [List.countP_map]
    rfl
  rw [hOf table, hOf other, hSame]

theorem SameStages.filterMinWindows
    {table other : List StateRow}
    (hSame : SameStages table other)
    (minWindowsPerHost : ℕ) :
    SameStages (filterMinWindows minWindowsPerHost table)
      (filterMinWindows minWindowsPerHost other) := by
  unfold Data.filterMinWindows
  by_cases hAll : table = [] ∨ minWindowsPerHost ≤ 1
  · have hOther : other = [] ∨ minWindowsPerHost ≤ 1 :=
      hAll.imp hSame.nil_iff.mp id
    rw [if_pos hAll, if_pos hOther]
    exact hSame
  · have hOther : ¬ (other = [] ∨ minWindowsPerHost ≤ 1) :=
      fun hNot => hAll (hNot.imp hSame.nil_iff.mpr id)
    rw [if_neg hAll, if_neg hOther]
    simp only [hSame.countP_hostId]
    exact
      hSame.filter (fun hostId =>
        minWindowsPerHost ≤
          other.countP (fun row => row.hostId = hostId))

/-
  A table that was labelled for any horizon is as good as
  one that is labelled for that of the configuration.
-/
theorem finish_congr
    {table other : List StateRow}
    (hSame : SameStages table other)
    (cfg : PipelineConfig)
    (dayKey : String) :
    cfg.finish dayKey table = cfg.finish dayKey other := by
  have hKept := hSame.filterMinWindows cfg.minWindowsPerHost
  unfold PipelineConfig.finish
  by_cases hNone :
      filterMinWindows cfg.minWindowsPerHost table = []
  · have hOther := hKept.nil_iff.mp hNone
    rw [hNone, hOther]
  · have hOther := fun hNil => hNone (hKept.nil_iff.mpr hNil)
    simp only [if_neg hNone, if_neg hOther,
      reattach_congr hKept cfg.horizonK]

end Data

end Nidra
