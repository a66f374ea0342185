import Nidra.Data.DayCache
import Nidra.Training.SampledGraphs

/-
  This file states that the kept tables change nothing. After
  any runs, of any geometries and with any raw files missing,
  a run that has its raw files builds the splits that it
  would build without kept tables; and a table without packets
  is used only where the packets are not there. Each run lists
  and samples neighbours in its own way, so this is said of
  days on which no neighbourhood is sampled.

  Key definitions include:
    * `Archive`, `PipelineConfig.Lawful`
    * `PipelineRun`, `keptAfter`
    * `PipelineConfig.Unsampled`
    * `PipelineConfig.Complete`, `PipelineConfig.uncached`

  Main declarations:
    * `sameStages_of_key`
    * `buildDay_spec`, `buildDays_spec`
    * `splits_of_keptTables`
    * `tables_of_anyRun`
-/

namespace Nidra

namespace Data

open Training

------------------------------------------------------------
-- Runs over one archive
------------------------------------------------------------

/- Where the flows and the packets of every day are. -/
structure Archive where
  file : String → FlowFormat → FilePath
  packets : String → String → FilePath

/-
  A configuration names the files of the archive, and its
  names can be told apart in the names of kept tables.
-/
structure PipelineConfig.Lawful
    (archive : Archive)
    (cfg : PipelineConfig) : Prop where
  files :
    ∀ dayKey day, (dayKey, day) ∈ cfg.days →
      day.file = archive.file dayKey day.format ∧
        ∀ packets ∈ day.packets,
          packets = archive.packets dayKey packets.name
  names :
    ∀ dayKey day, (dayKey, day) ∈ cfg.days →
      IsPlain dayKey ∧
        ∀ packets ∈ day.packets,
          IsPlain packets.name ∧ packets.name ≠ flowOnlyTag
  networks : ∀ cidr ∈ cfg.internalCidrs, IsNetwork cidr

/-
  A configuration, the raw files that are there, and how the
  process lists sets and draws from them.
-/
structure PipelineRun where
  cfg : PipelineConfig
  present : FilePath → Bool
  sampling : Sampling

structure PipelineRun.Lawful
    (archive : Archive)
    (run : PipelineRun) : Prop where
  cfg : run.cfg.Lawful archive
  sampling : run.sampling.Lists

/- Every raw file that a configuration names is there. -/
def PipelineConfig.Complete
    (cfg : PipelineConfig)
    (present : FilePath → Bool) : Prop :=
  ∀ dayKey day, (dayKey, day) ∈ cfg.days →
    present day.file = true ∧
      ∀ packets ∈ day.packets, present packets = true

def PipelineConfig.uncached
    (cfg : PipelineConfig) : PipelineConfig :=
  { cfg with processedDir := none }

------------------------------------------------------------
-- The tables of an archive
------------------------------------------------------------

structure DayJob.Lawful
    (archive : Archive)
    (job : DayJob) : Prop where
  file : job.file = archive.file job.dayKey job.format
  packets :
    ∀ packets ∈ job.packets,
      packets = archive.packets job.dayKey packets.name ∧
        IsPlain packets.name ∧ packets.name ≠ flowOnlyTag
  name : IsPlain job.dayKey
  networks : ∀ cidr ∈ job.internalCidrs, IsNetwork cidr

section Jobs

variable {archive : Archive}

theorem DayJob.Lawful.isPlain_packetsTag
    {job : DayJob}
    (hLawful : job.Lawful archive) :
    IsPlain job.packetsTag := by
  unfold DayJob.packetsTag
  cases hPackets : job.packets with
  | none => exact List.solid_of_not_mem (by decide)
  | some packets => exact (hLawful.packets packets hPackets).2.1

/- The packets of a day are known by their tag. -/
theorem DayJob.Lawful.packets_eq
    {job other : DayJob}
    (hLawful : job.Lawful archive)
    (hOther : other.Lawful archive)
    (hDay : job.dayKey = other.dayKey)
    (hTag : job.packetsTag = other.packetsTag) :
    job.packets = other.packets := by
  unfold DayJob.packetsTag at hTag
  cases hPackets : job.packets with
  | none =>
      cases hAlso : other.packets with
      | none => rfl
      | some packets =>
          rw [hPackets, hAlso] at hTag
          exact
            absurd hTag.symm (hOther.packets packets hAlso).2.2
  | some packets =>
      rw [hPackets] at hTag
      cases hAlso : other.packets with
      | none =>
          rw [hAlso] at hTag
          exact absurd hTag (hLawful.packets packets hPackets).2.2
      | some also =>
          rw [hAlso] at hTag
          have hName : packets.name = also.name := hTag
          rw [(hLawful.packets packets hPackets).1,
            (hOther.packets also hAlso).1, hDay, hName]

theorem PipelineConfig.Lawful.job
    {cfg : PipelineConfig}
    (hLawful : cfg.Lawful archive)
    {dayKey : String}
    {day : DayMeta}
    (hDay : (dayKey, day) ∈ cfg.days)
    {packets : Option FilePath}
    (hPackets : ∀ path ∈ packets, path ∈ day.packets) :
    (cfg.job dayKey day packets).Lawful archive :=
  { file := (hLawful.files dayKey day hDay).1
    packets := fun path hPath =>
      ⟨(hLawful.files dayKey day hDay).2 path
          (hPackets path hPath),
        (hLawful.names dayKey day hDay).2 path
          (hPackets path hPath)⟩
    name := (hLawful.names dayKey day hDay).1
    networks := hLawful.networks }

theorem PipelineConfig.cachePath_job
    {cfg : PipelineConfig}
    {dir : String}
    (hDir : cfg.processedDir = some dir)
    (dayKey : String)
    (day : DayMeta)
    (packets : Option FilePath) :
    cfg.cachePath dayKey day
        (cfg.job dayKey day packets).packetsTag =
      some (cfg.job dayKey day packets).key := by
  simp [PipelineConfig.cachePath, PipelineConfig.job,
    DayJob.key, hDir]

theorem PipelineConfig.key_of_cachePath
    {cfg : PipelineConfig}
    {dayKey : String}
    {day : DayMeta}
    {packets : Option FilePath}
    {path : FilePath}
    (hPath :
      cfg.cachePath dayKey day
          (cfg.job dayKey day packets).packetsTag =
        some path) :
    path = (cfg.job dayKey day packets).key := by
  cases hDir : cfg.processedDir with
  | none => simp [PipelineConfig.cachePath, hDir] at hPath
  | some dir =>
      have hSame :=
        PipelineConfig.cachePath_job hDir dayKey day packets
      exact Option.some_inj.mp (hPath.symm.trans hSame)

end Jobs

/- The packets that were declared, or none if not there. -/
def UsesPackets
    (present : FilePath → Bool)
    (day : DayMeta)
    (packets : Option FilePath) : Prop :=
  packets = day.packets ∨
    packets = none ∧
      ∃ missing ∈ day.packets, present missing = false

theorem usesPackets_resolve
    (present : FilePath → Bool)
    (day : DayMeta) :
    UsesPackets present day (resolvePacketsPath present day) := by
  unfold resolvePacketsPath UsesPackets
  cases day.packets with
  | none => exact Or.inl rfl
  | some path =>
      cases hPresent : present path with
      | true =>
          left
          rw [Option.filter_some, if_pos hPresent]
      | false =>
          right
          refine ⟨?_, path, rfl, hPresent⟩
          rw [Option.filter_some, if_neg (by simp [hPresent])]

theorem mem_of_resolve
    {present : FilePath → Bool}
    {day : DayMeta} :
    ∀ path ∈ resolvePacketsPath present day,
      path ∈ day.packets := by
  intro path hPath
  exact (Option.filter_eq_some_iff.mp hPath).1

theorem sameStages_refl (table : List StateRow) :
    SameStages table table :=
  rfl

/- The flows that a table is computed from. -/
def RawFiles.flowsOf
    (raw : RawFiles)
    (job : DayJob) : List (FlowRow ℚ) :=
  prepareFlowsForWindowing job.windowSeconds
    (raw.loadRawFlows job.file job.rowCap job.internalCidrs
      job.format)

/- No host of a day has more neighbours than are looked at. -/
def DayJob.Unsampled
    (raw : RawFiles)
    (job : DayJob) : Prop :=
  ∀ lastTs,
    BelowCap defaultDegreeCap lastTs (raw.flowsOf job)

def PipelineConfig.Unsampled
    (raw : RawFiles)
    (cfg : PipelineConfig) : Prop :=
  ∀ dayKey day, (dayKey, day) ∈ cfg.days →
    (cfg.job dayKey day none).Unsampled raw

section Runs

variable [ExpLog ℚ]
variable (dialect : FlowFormat → LabelDialect)
variable (raw : RawFiles)

/- The tables that some runs leave behind. -/
def keptAfter (runs : List PipelineRun) : TableCache :=
  runs.foldl
    (fun cache run =>
      (buildAllSplits run.sampling dialect raw run.cfg
        run.present cache).2)
    Memo.empty

/- The horizon changes the labels of a table alone. -/
theorem sameStages_loadAndLabelDay
    (sampling : Sampling)
    (labels : LabelDialect)
    (windowSeconds : ℤ)
    (minWindows horizonK horizonK' : ℕ)
    (flows : List (FlowRow ℚ))
    (packets : List (PacketRow ℚ)) :
    SameStages
      (loadAndLabelDay sampling labels windowSeconds
        minWindows horizonK flows packets)
      (loadAndLabelDay sampling labels windowSeconds
        minWindows horizonK' flows packets) := by
  unfold SameStages loadAndLabelDay attachRiskLabel
  rw [← reattachRiskLabelSliced_eq,
    ← reattachRiskLabelSliced_eq, map_unlabelled_reattach,
    map_unlabelled_reattach]

/- A table that nothing is sampled for is one for all runs. -/
theorem table_eq_of_unsampled
    {sampling sampling' : Sampling}
    (hLists : sampling.Lists)
    (hLists' : sampling'.Lists)
    {job : DayJob}
    (hUnsampled : job.Unsampled raw) :
    raw.table sampling dialect job =
      raw.table sampling' dialect job := by
  have hStates :=
    buildStateRows_lists hLists hLists' hUnsampled
      job.windowSeconds
      (preparePacketsForWindowing job.windowSeconds
        (job.packets.elim [] raw.packets))
  unfold RawFiles.flowsOf at hStates
  unfold RawFiles.table loadAndLabelDay windowizeDay
    buildDayInputs
  simp only [hStates]

variable {archive : Archive}

/- Tables that are kept in one file have the same stages. -/
theorem sameStages_of_key
    {job other : DayJob}
    (hLawful : job.Lawful archive)
    (hOther : other.Lawful archive)
    (hKey : job.key = other.key)
    {sampling sampling' : Sampling}
    (hLists : sampling.Lists)
    (hLists' : sampling'.Lists)
    (hUnsampled : other.Unsampled raw) :
    SameStages (raw.table sampling dialect job)
      (raw.table sampling' dialect other) := by
  rw [← table_eq_of_unsampled dialect raw hLists hLists'
    hUnsampled]
  unfold DayJob.key at hKey
  rcases dayCachePath_injective hLawful.name hOther.name
    hLawful.isPlain_packetsTag hOther.isPlain_packetsTag
    hLawful.networks hOther.networks hKey with
    ⟨hDay, hWindow, hCap, hTag, hFormat, hCidrs⟩
  have hPackets := hLawful.packets_eq hOther hDay hTag
  have hFile : job.file = other.file := by
    rw [hLawful.file, hOther.file, hDay, hFormat]
  have hFlows :
      raw.loadRawFlows job.file job.rowCap job.internalCidrs
          job.format =
        raw.loadRawFlows other.file other.rowCap
          other.internalCidrs other.format := by
    rw [← hFile, ← hCap, ← hFormat]
    cases hIs : job.format with
    | cicflowmeter => rfl
    | ctuBinetflow => rw [hCidrs hIs]
  unfold RawFiles.table
  rw [hFlows, hPackets, hWindow, hFormat]
  exact sameStages_loadAndLabelDay sampling _ _ _ _ _ _ _

/-
  A table that some run may want of a day, where it does not
  depend on the run.
-/
structure Wanted
    (raw : RawFiles)
    (archive : Archive)
    (demand : Sampling × DayJob) : Prop where
  lists : demand.1.Lists
  lawful : demand.2.Lawful archive
  unsampled : demand.2.Unsampled raw

/- The kept tables are what they are kept as. -/
abbrev KeptRight
    (archive : Archive)
    (cache : TableCache) : Prop :=
  cache.Agrees (Wanted raw archive)
    (fun demand => demand.2.key)
    (fun demand => raw.table demand.1 dialect demand.2)
    SameStages

------------------------------------------------------------
-- One day
------------------------------------------------------------

variable {dialect raw}
variable {sampling : Sampling}

/-
  A day is skipped only without its flows, and its table is
  computed from them with the packets that are declared, or
  without any where these are not there.
-/
structure DayBuilt
    (sampling : Sampling)
    (dialect : FlowFormat → LabelDialect)
    (raw : RawFiles)
    (cfg : PipelineConfig)
    (present : FilePath → Bool)
    (dayKey : String)
    (day : DayMeta)
    (built : Option (List StateRow)) : Prop where
  table :
    ∀ table ∈ built, ∃ packets,
      UsesPackets present day packets ∧
        SameStages table
          (raw.table sampling dialect
            (cfg.job dayKey day packets))
  skipped : built = none → present day.file = false

/- A day with its flows has a table. -/
theorem DayBuilt.exists_table
    {cfg : PipelineConfig}
    {present : FilePath → Bool}
    {dayKey : String}
    {day : DayMeta}
    {built : Option (List StateRow)}
    (hBuilt :
      DayBuilt sampling dialect raw cfg present dayKey day
        built)
    (hThere : present day.file = true) :
    ∃ table, built = some table := by
  cases hTable : built with
  | none =>
      have hMissing := hBuilt.skipped hTable
      rw [hThere] at hMissing
      cases hMissing
  | some table => exact ⟨table, rfl⟩

/- What is computed is kept right, sampled or not. -/
theorem loadOrCompute_kept
    {cache : TableCache}
    (hKept : KeptRight dialect raw archive cache)
    (hLists : sampling.Lists)
    {cfg : PipelineConfig}
    {dayKey : String}
    {day : DayMeta}
    {packets : Option FilePath}
    (hJob : (cfg.job dayKey day packets).Lawful archive) :
    KeptRight dialect raw archive
      (loadOrCompute cache
        (cfg.cachePath dayKey day
          (cfg.job dayKey day packets).packetsTag)
        (raw.table sampling dialect
          (cfg.job dayKey day packets))).2 := by
  cases hDir : cfg.processedDir with
  | none =>
      have hPath :
          cfg.cachePath dayKey day
            (cfg.job dayKey day packets).packetsTag = none := by
        simp [PipelineConfig.cachePath, hDir]
      simp only [hPath, loadOrCompute]
      exact hKept
  | some dir =>
      simp only [PipelineConfig.cachePath_job hDir,
        loadOrCompute]
      apply hKept.fetch
      intro demand hWanted hKey
      exact
        sameStages_of_key dialect raw hJob hWanted.lawful
          hKey.symm hLists hWanted.lists hWanted.unsampled

/- What is read or computed is right. -/
theorem loadOrCompute_spec
    {cache : TableCache}
    (hKept : KeptRight dialect raw archive cache)
    {cfg : PipelineConfig}
    {dayKey : String}
    {day : DayMeta}
    {packets : Option FilePath}
    (hWanted :
      Wanted raw archive
        (sampling, cfg.job dayKey day packets)) :
    SameStages
      (loadOrCompute cache
        (cfg.cachePath dayKey day
          (cfg.job dayKey day packets).packetsTag)
        (raw.table sampling dialect
          (cfg.job dayKey day packets))).1
      (raw.table sampling dialect
        (cfg.job dayKey day packets)) := by
  cases hDir : cfg.processedDir with
  | none =>
      have hPath :
          cfg.cachePath dayKey day
            (cfg.job dayKey day packets).packetsTag = none := by
        simp [PipelineConfig.cachePath, hDir]
      simp only [hPath, loadOrCompute]
      exact sameStages_refl _
  | some dir =>
      have hServed := hKept.fetch_same sameStages_refl hWanted
      simp only [PipelineConfig.cachePath_job hDir,
        loadOrCompute]
      exact hServed

theorem buildDay_kept
    {cache : TableCache}
    (hKept : KeptRight dialect raw archive cache)
    (hLists : sampling.Lists)
    {cfg : PipelineConfig}
    (hLawful : cfg.Lawful archive)
    (present : FilePath → Bool)
    {dayKey : String}
    {day : DayMeta}
    (hDay : (dayKey, day) ∈ cfg.days) :
    KeptRight dialect raw archive
      (buildDay sampling dialect raw cfg present cache dayKey
        day).2 := by
  unfold buildDay
  split
  · exact hKept
  · split
    · exact
        loadOrCompute_kept hKept hLists
          (hLawful.job hDay mem_of_resolve)
    · exact hKept

theorem buildDay_spec
    {cache : TableCache}
    (hKept : KeptRight dialect raw archive cache)
    (hLists : sampling.Lists)
    {cfg : PipelineConfig}
    (hLawful : cfg.Lawful archive)
    (hUnsampled : cfg.Unsampled raw)
    (present : FilePath → Bool)
    {dayKey : String}
    {day : DayMeta}
    (hDay : (dayKey, day) ∈ cfg.days) :
    DayBuilt sampling dialect raw cfg present dayKey day
      (buildDay sampling dialect raw cfg present cache dayKey
        day).1 := by
  -- The flows of a day do not depend on its packets.
  have hWanted :
      ∀ packets : Option FilePath,
        (∀ path ∈ packets, path ∈ day.packets) →
          Wanted raw archive
            (sampling, cfg.job dayKey day packets) :=
    fun packets hPackets =>
      { lists := hLists
        lawful := hLawful.job hDay hPackets
        unsampled := hUnsampled dayKey day hDay }
  unfold buildDay
  split
  · next table hDeclared =>
      -- A table that is kept for the declared packets.
      rcases Option.bind_eq_some_iff.mp hDeclared with
        ⟨path, hPath, hTable⟩
      rw [PipelineConfig.key_of_cachePath hPath] at hTable
      refine
        { table := ?_
          skipped := fun hNone => by cases hNone }
      intro found hFound
      cases hFound
      exact
        ⟨day.packets, Or.inl rfl,
          hKept (sampling, cfg.job dayKey day day.packets)
            table
            (hWanted day.packets (fun path hPath => hPath))
            hTable⟩
  · split
    · refine
        { table := ?_
          skipped := fun hNone => by cases hNone }
      intro found hFound
      cases hFound
      exact
        ⟨resolvePacketsPath present day,
          usesPackets_resolve present day,
          loadOrCompute_spec hKept (hWanted _ mem_of_resolve)⟩
    · next hMissing =>
        exact
          { table := fun found hFound => by cases hFound
            skipped := fun _ =>
              Bool.not_eq_true _ ▸ hMissing }

------------------------------------------------------------
-- All days
------------------------------------------------------------

theorem buildDays_kept
    {cache : TableCache}
    (hKept : KeptRight dialect raw archive cache)
    (hLists : sampling.Lists)
    {cfg : PipelineConfig}
    (hLawful : cfg.Lawful archive)
    (present : FilePath → Bool)
    {days : List (String × DayMeta)}
    (hDays : days ⊆ cfg.days) :
    KeptRight dialect raw archive
      (buildDays sampling dialect raw cfg present days
        cache).2 := by
  induction days generalizing cache with
  | nil => exact hKept
  | cons day days ih =>
      rw [List.cons_subset] at hDays
      have hNext :=
        buildDay_kept hKept hLists hLawful present hDays.1
      exact ih hNext hDays.2

/- With all raw files there, the tables are those of the days. -/
theorem buildDays_complete
    {cache : TableCache}
    (hKept : KeptRight dialect raw archive cache)
    (hLists : sampling.Lists)
    {cfg : PipelineConfig}
    (hLawful : cfg.Lawful archive)
    (hUnsampled : cfg.Unsampled raw)
    {present : FilePath → Bool}
    (hComplete : cfg.Complete present)
    {days : List (String × DayMeta)}
    (hDays : days ⊆ cfg.days) :
    (buildDays sampling dialect raw cfg present days cache).1 =
      days.map (fun day =>
        (day.1, cfg.finish day.1
          (raw.table sampling dialect
            (cfg.job day.1 day.2 day.2.packets)))) := by
  induction days generalizing cache with
  | nil => rfl
  | cons day days ih =>
      rw [List.cons_subset] at hDays
      have hBuilt :=
        buildDay_spec hKept hLists hLawful hUnsampled present
          hDays.1
      have hThere := hComplete day.1 day.2 hDays.1
      have hRest :=
        ih
          (buildDay_kept hKept hLists hLawful present hDays.1)
          hDays.2
      simp only [buildDays, List.map_cons]
      rw [hRest]
      rcases hBuilt.exists_table hThere.1 with ⟨table, hTable⟩
      rcases hBuilt.table table hTable with
        ⟨packets, hUses, hSame⟩
      have hPackets : packets = day.2.packets := by
        rcases hUses with hDeclared | ⟨_, path, hPath, hNot⟩
        · exact hDeclared
        · rw [hThere.2 path hPath] at hNot
          cases hNot
      rw [hPackets] at hSame
      rw [hTable, Option.map_some,
        finish_congr hSame cfg day.1]
      rfl

/- Any table is of a day, and any day with flows has one. -/
theorem buildDays_spec
    {cache : TableCache}
    (hKept : KeptRight dialect raw archive cache)
    (hLists : sampling.Lists)
    {cfg : PipelineConfig}
    (hLawful : cfg.Lawful archive)
    (hUnsampled : cfg.Unsampled raw)
    (present : FilePath → Bool)
    {days : List (String × DayMeta)}
    (hDays : days ⊆ cfg.days) :
    (∀ dayKey table,
        (dayKey, table) ∈
            (buildDays sampling dialect raw cfg present days
              cache).1 →
          ∃ day packets,
            (dayKey, day) ∈ days ∧
              UsesPackets present day packets ∧
                table =
                  cfg.finish dayKey
                    (raw.table sampling dialect
                      (cfg.job dayKey day packets))) ∧
      ∀ dayKey day, (dayKey, day) ∈ days →
        present day.file = true →
          ∃ table,
            (dayKey, table) ∈
              (buildDays sampling dialect raw cfg present days
                cache).1 := by
  induction days generalizing cache with
  | nil =>
      constructor
      · intro dayKey table hMem
        cases hMem
      · intro dayKey day hMem
        cases hMem
  | cons first days ih =>
      rw [List.cons_subset] at hDays
      have hBuilt :=
        buildDay_spec hKept hLists hLawful hUnsampled present
          hDays.1
      have hNext :=
        buildDay_kept hKept hLists hLawful present hDays.1
      rcases ih hNext hDays.2 with ⟨hTables, hFound⟩
      simp only [buildDays]
      constructor
      · intro dayKey table hMem
        rcases List.mem_append.mp hMem with hFirst | hRest
        · rw [Option.mem_toList] at hFirst
          rcases Option.map_eq_some_iff.mp hFirst with
            ⟨found, hTable, hEq⟩
          cases hEq
          rcases hBuilt.table found hTable with
            ⟨packets, hUses, hSame⟩
          exact
            ⟨first.2, packets, List.mem_cons_self, hUses,
              finish_congr hSame cfg first.1⟩
        · rcases hTables dayKey table hRest with
            ⟨day, packets, hDay, hUses, hEq⟩
          exact
            ⟨day, packets, List.mem_cons_of_mem _ hDay, hUses,
              hEq⟩
      · intro dayKey day hMem hThere
        rcases List.mem_cons.mp hMem with hFirst | hRest
        · subst hFirst
          rcases hBuilt.exists_table hThere with
            ⟨table, hTable⟩
          refine ⟨cfg.finish dayKey table, ?_⟩
          apply List.mem_append_left
          simp [hTable]
        · rcases hFound dayKey day hRest hThere with
            ⟨table, hTable⟩
          exact ⟨table, List.mem_append_right _ hTable⟩

------------------------------------------------------------
-- Any runs before
------------------------------------------------------------

theorem buildAllSplits_fst
    (cfg : PipelineConfig)
    (present : FilePath → Bool)
    (cache : TableCache) :
    (buildAllSplits sampling dialect raw cfg present cache).1 =
      if cfg.minWindowsPerHost < cfg.contextL + cfg.horizonK
      then .error (tooFewWindows cfg)
      else
        buildSplits
          (fun dayKey =>
            (buildDays sampling dialect raw cfg present
              cfg.days cache).1.lookup dayKey)
          cfg.roles (some cfg.horizonK) := by
  unfold buildAllSplits
  split <;> rfl

theorem buildAllSplits_kept
    {cache : TableCache}
    (hKept : KeptRight dialect raw archive cache)
    {run : PipelineRun}
    (hRun : run.Lawful archive) :
    KeptRight dialect raw archive
      (buildAllSplits run.sampling dialect raw run.cfg
        run.present cache).2 := by
  unfold buildAllSplits
  split
  · exact hKept
  · exact
      buildDays_kept hKept hRun.sampling hRun.cfg run.present
        (List.Subset.refl _)

theorem keptRight_keptAfter
    {runs : List PipelineRun}
    (hRuns : ∀ run ∈ runs, run.Lawful archive) :
    KeptRight dialect raw archive
      (keptAfter dialect raw runs) := by
  have hFrom :
      ∀ cache : TableCache,
        KeptRight dialect raw archive cache →
          KeptRight dialect raw archive
            (runs.foldl
              (fun cache run =>
                (buildAllSplits run.sampling dialect raw
                  run.cfg run.present cache).2)
              cache) := by
    induction runs with
    | nil => exact fun cache hKept => hKept
    | cons run runs ih =>
        rw [List.forall_mem_cons] at hRuns
        intro cache hKept
        exact ih hRuns.2 _ (buildAllSplits_kept hKept hRuns.1)
  exact hFrom _ Memo.agrees_empty

/-
  Whatever runs there were before, a run that has its raw
  files, and that samples no neighbourhood of its days, builds
  the splits that it would build from these files.
-/
theorem splits_of_keptTables
    {earlier : List PipelineRun}
    (hEarlier : ∀ run ∈ earlier, run.Lawful archive)
    {run : PipelineRun}
    (hRun : run.Lawful archive)
    (hUnsampled : run.cfg.Unsampled raw)
    (hComplete : run.cfg.Complete run.present) :
    (buildAllSplits run.sampling dialect raw run.cfg
        run.present (keptAfter dialect raw earlier)).1 =
      (buildAllSplits run.sampling dialect raw
        run.cfg.uncached run.present Memo.empty).1 := by
  have hKept :
      KeptRight dialect raw archive
        (keptAfter dialect raw earlier) :=
    keptRight_keptAfter hEarlier
  have hNone :
      KeptRight dialect raw archive Memo.empty :=
    Memo.agrees_empty
  have hUncached : run.cfg.uncached.Lawful archive :=
    { files := hRun.cfg.files
      names := hRun.cfg.names
      networks := hRun.cfg.networks }
  have hTables :=
    buildDays_complete hKept hRun.sampling hRun.cfg
      hUnsampled hComplete (List.Subset.refl run.cfg.days)
  have hPlain :=
    buildDays_complete hNone hRun.sampling hUncached
      hUnsampled hComplete (List.Subset.refl run.cfg.days)
  have hSame :
      (buildDays run.sampling dialect raw run.cfg run.present
          run.cfg.days (keptAfter dialect raw earlier)).1 =
        (buildDays run.sampling dialect raw run.cfg.uncached
          run.present run.cfg.days Memo.empty).1 :=
    hTables.trans hPlain.symm
  rw [buildAllSplits_fst, buildAllSplits_fst, hSame]
  rfl

/-
  Whatever runs there were before and whatever is missing, a
  run that samples no neighbourhood of its days has a table
  of every day whose flows are there, and each is computed
  with the declared packets, or without any where these are
  missing now.
-/
theorem tables_of_anyRun
    {earlier : List PipelineRun}
    (hEarlier : ∀ run ∈ earlier, run.Lawful archive)
    {run : PipelineRun}
    (hRun : run.Lawful archive)
    (hUnsampled : run.cfg.Unsampled raw) :
    (∀ dayKey table,
        (dayKey, table) ∈
            (buildDays run.sampling dialect raw run.cfg
              run.present run.cfg.days
              (keptAfter dialect raw earlier)).1 →
          ∃ day packets,
            (dayKey, day) ∈ run.cfg.days ∧
              UsesPackets run.present day packets ∧
                table =
                  run.cfg.finish dayKey
                    (raw.table run.sampling dialect
                      (run.cfg.job dayKey day packets))) ∧
      ∀ dayKey day, (dayKey, day) ∈ run.cfg.days →
        run.present day.file = true →
          ∃ table,
            (dayKey, table) ∈
              (buildDays run.sampling dialect raw run.cfg
                run.present run.cfg.days
                (keptAfter dialect raw earlier)).1 :=
  buildDays_spec (keptRight_keptAfter hEarlier) hRun.sampling
    hRun.cfg hUnsampled run.present (List.Subset.refl _)

end Runs

------------------------------------------------------------
-- One capture
------------------------------------------------------------

section Examples

local instance cachedExpLog : ExpLog ℚ := ExpLog.tangent

/- A capture with the flows and the packets of a day. -/
def monday : String × DayMeta :=
  ("monday",
    { format := .ctuBinetflow
      file := ⟨"/flows", "capture.binetflow"⟩
      packets := some ⟨"/packets", "capture.parquet"⟩ })

/- The days of a run with a context and a horizon. -/
def mondayConfig
    (contextL horizonK : ℕ) : PipelineConfig :=
  { windowSeconds := 60
    contextL := contextL
    horizonK := horizonK
    minWindowsPerHost := contextL + horizonK
    rowCap := none
    internalCidrs := ["147.32.0.0/16"]
    processedDir := some "/processed"
    days := [monday]
    roles :=
      { trainDays := ["monday"]
        testDays := []
        holdoutDays := []
        valFraction := 1 / 5
        valBlockPerDay := true
        preOnsetMarginS := 1800
        valDays := []
        valCarveTrainDays := [] } }

def mondayArchive : Archive :=
  { file := fun _ _ => ⟨"/flows", "capture.binetflow"⟩
    packets := fun _ name => ⟨"/packets", name⟩ }

def mondayFiles : RawFiles :=
  { cicflowmeter := fun _ _ => []
    binetflow := fun _ _ _ =>
      [flowAt 5 "BENIGN", flowAt 130 "PortScan"]
    packets := fun _ => [] }

theorem lawful_mondayConfig
    (contextL horizonK : ℕ) :
    (mondayConfig contextL horizonK).Lawful mondayArchive := by
  have hPlain :
      ∀ text : String, '_' ∉ text.toList → IsPlain text :=
    fun text hText => List.solid_of_not_mem hText
  refine { files := ?_, names := ?_, networks := ?_ }
  · intro dayKey day hDay
    cases List.mem_singleton.mp hDay
    refine ⟨rfl, ?_⟩
    intro packets hPackets
    cases hPackets
    rfl
  · intro dayKey day hDay
    cases List.mem_singleton.mp hDay
    refine ⟨hPlain _ (by decide), ?_⟩
    intro packets hPackets
    cases hPackets
    exact ⟨hPlain _ (by decide), by decide⟩
  · intro cidr hCidr
    rw [List.mem_singleton.mp hCidr]
    exact ⟨by decide, by decide, by decide⟩

/- Two flows have too few hosts to sample any. -/
theorem unsampled_mondayConfig
    (contextL horizonK : ℕ) :
    (mondayConfig contextL horizonK).Unsampled
      mondayFiles := by
  intro dayKey day hDay lastTs
  cases List.mem_singleton.mp hDay
  have hFlows :
      2 *
          (prepareFlowsForWindowing 60
            [flowAt 5 "BENIGN",
              flowAt 130 "PortScan"]).length ≤
        defaultDegreeCap := by
    decide +kernel
  exact belowCap_of_length hFlows lastTs

/- The names in the opposite order. -/
def byNameDown : Sampling :=
  { listed := fun hosts => (hosts.sort (· ≤ ·)).reverse
    draw := fun _ _ => [] }

theorem lists_byName : byName.Lists :=
  fun _ => Finset.sort_perm_toList _ _

theorem lists_byNameDown : byNameDown.Lists :=
  fun members =>
    (List.reverse_perm _).trans
      (Finset.sort_perm_toList members (· ≤ ·))

/-
  The first run had no packets, the other geometry, and
  another order of sets.
-/
def withoutPackets : PipelineRun :=
  { cfg := mondayConfig 2 3
    present := fun path => path.dir ≠ "/packets"
    sampling := byNameDown }

def withPackets : PipelineRun :=
  { cfg := mondayConfig 1 2
    present := fun _ => true
    sampling := byName }

theorem lawful_withoutPackets :
    withoutPackets.Lawful mondayArchive :=
  { cfg := lawful_mondayConfig 2 3
    sampling := lists_byNameDown }

theorem lawful_withPackets :
    withPackets.Lawful mondayArchive :=
  { cfg := lawful_mondayConfig 1 2
    sampling := lists_byName }

theorem splits_of_keptTables_monday :
    (buildAllSplits byName (fun _ => scanDialect) mondayFiles
        (mondayConfig 1 2) (fun _ => true)
        (keptAfter (fun _ => scanDialect) mondayFiles
          [withoutPackets])).1 =
      (buildAllSplits byName (fun _ => scanDialect) mondayFiles
        (mondayConfig 1 2).uncached (fun _ => true)
        Memo.empty).1 := by
  have hEarlier :
      ∀ run ∈ [withoutPackets], run.Lawful mondayArchive := by
    intro run hRun
    rw [List.mem_singleton.mp hRun]
    exact lawful_withoutPackets
  exact
    splits_of_keptTables hEarlier lawful_withPackets
      (unsampled_mondayConfig 1 2)
      (fun _ _ _ => ⟨rfl, fun _ _ => rfl⟩)

/- The packets are missing again after they were there. -/
theorem tables_of_anyRun_monday :
    ∃ table,
      ("monday", table) ∈
        (buildDays byNameDown (fun _ => scanDialect)
          mondayFiles (mondayConfig 2 3)
          withoutPackets.present (mondayConfig 2 3).days
          (keptAfter (fun _ => scanDialect) mondayFiles
            [withoutPackets, withPackets])).1 := by
  have hEarlier :
      ∀ run ∈ [withoutPackets, withPackets],
        run.Lawful mondayArchive := by
    intro run hRun
    rw [List.mem_cons, List.mem_singleton] at hRun
    rcases hRun with rfl | rfl
    · exact lawful_withoutPackets
    · exact lawful_withPackets
  exact
    (tables_of_anyRun hEarlier lawful_withoutPackets
      (unsampled_mondayConfig 2 3)).2 "monday" monday.2
        List.mem_cons_self (by decide)

end Examples

end Data

end Nidra
