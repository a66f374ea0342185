import Nidra.Training.Windowize

/-
  This file states what filling and dynamics do to the rows
  of one host: the filled rows are an arithmetic progression
  of windows, and the dynamics of a row depend on it and the
  two rows before it.

  Key definitions include:
    * `rowsOf`
    * `progression`
    * `deltaAt`, `slopeAt`
    * `Observed`

  Main declarations:
    * `rowsOf_perHost`, `rowsOf_sortTable`
    * `fillHost_eq_progression`
    * `dynamicsHost_progression`
    * `mem_observedTable`
    * `rowsOf_buildStateRows`
-/

namespace Nidra

namespace Training

set_option linter.unusedSectionVars false

variable {𝕜 : Type}

------------------------------------------------------------
-- Keys
------------------------------------------------------------

/- A key of a table has a value. -/
theorem lookupKey_isSome
    {κ α : Type}
    [DecidableEq κ]
    {table : List (κ × α)}
    {key : κ} :
    (lookupKey table key).isSome ↔
      ∃ row ∈ table, row.1 = key := by
  simp [lookupKey]

theorem mem_of_lookupKey
    {κ α : Type}
    [DecidableEq κ]
    {table : List (κ × α)}
    {key : κ}
    {value : α}
    (hLookup : lookupKey table key = some value) :
    (key, value) ∈ table := by
  unfold lookupKey at hLookup
  rcases Option.map_eq_some_iff.mp hLookup with
    ⟨row, hFind, rfl⟩
  have hKey : row.1 = key := by
    simpa using List.find?_some hFind
  rw [← hKey]
  exact List.mem_of_find?_eq_some hFind

/- Rows with distinct keys are found. -/
theorem lookupKey_of_mem
    {κ α : Type}
    [DecidableEq κ]
    {table : List (κ × α)}
    (hDistinct : (table.map Prod.fst).Nodup)
    {key : κ}
    {value : α}
    (hMem : (key, value) ∈ table) :
    lookupKey table key = some value := by
  have hSome : (lookupKey table key).isSome :=
    lookupKey_isSome.mpr ⟨_, hMem, rfl⟩
  rcases Option.isSome_iff_exists.mp hSome with
    ⟨found, hFound⟩
  have hInj :=
    List.inj_on_of_nodup_map hDistinct
      (mem_of_lookupKey hFound) hMem rfl
  rw [hFound, (Prod.mk.inj hInj).2]

/- A key all of whose rows have one value is found. -/
theorem lookupKey_of_forall
    {κ α : Type}
    [DecidableEq κ]
    {table : List (κ × α)}
    {key : κ}
    {value : α}
    (hSome : ∃ row ∈ table, row.1 = key)
    (hAll : ∀ found, (key, found) ∈ table → found = value) :
    lookupKey table key = some value := by
  rcases Option.isSome_iff_exists.mp
    (lookupKey_isSome.mpr hSome) with ⟨found, hFound⟩
  rw [hFound, hAll found (mem_of_lookupKey hFound)]

/- What is found for a key among the groups of a table. -/
theorem lookupKey_groups
    {α κ β : Type}
    [DecidableEq κ]
    (key : α → κ)
    (f : List α → β)
    (rows : List α)
    (k : κ) :
    lookupKey
        ((groupsBy key rows).map (fun g => (g.1, f g.2))) k =
      if rows.filter (fun row => key row = k) = [] then none
      else some (f (rows.filter (fun row => key row = k))) := by
  split
  · next hNone =>
      rw [← Option.not_isSome_iff_eq_none, lookupKey_isSome]
      rintro ⟨_, hMem, hKey⟩
      rcases List.mem_map.mp hMem with ⟨⟨k', group⟩, hG, rfl⟩
      rcases (mem_groupsBy.mp hG).1 with ⟨row, hRow, hRowKey⟩
      have hFound :
          row ∈ rows.filter (fun row => key row = k) := by
        simp only [List.mem_filter, decide_eq_true_eq]
        exact ⟨hRow, hRowKey.trans hKey⟩
      rw [hNone] at hFound
      cases hFound
  · next hSome =>
      rcases List.exists_mem_of_ne_nil _ hSome with
        ⟨row, hMem⟩
      simp only [List.mem_filter, decide_eq_true_eq] at hMem
      apply lookupKey_of_forall
      · exact
          ⟨_, List.mem_map.mpr
            ⟨(k, _), mem_groupsBy.mpr ⟨⟨row, hMem⟩, rfl⟩, rfl⟩,
            rfl⟩
      · intro found hFound
        rcases List.mem_map.mp hFound with
          ⟨⟨k', group⟩, hG, hEq⟩
        rcases Prod.mk.inj hEq with ⟨rfl, rfl⟩
        rw [(mem_groupsBy.mp hG).2]

/- Filtering by the key keeps what is found for it. -/
theorem lookupKey_filter
    {κ α : Type}
    [DecidableEq κ]
    (table : List (κ × α))
    {keep : κ → Bool}
    {key : κ}
    (hKeep : keep key = true) :
    lookupKey (table.filter (fun row => keep row.1)) key =
      lookupKey table key := by
  unfold lookupKey
  rw [List.find?_filter]
  congr 2
  funext row
  by_cases hKey : row.1 = key
  · simp [hKey, hKeep]
  · simp [hKey]

------------------------------------------------------------
-- The rows of a host
------------------------------------------------------------

/- The rows of one host, in the order of the table. -/
def rowsOf
    {α : Type}
    (host : String)
    (table : List (HostWindow × α)) : List (ℤ × α) :=
  (table.filter (fun row => row.1.1 = host)).map
    (fun row => (row.1.2, row.2))

theorem mem_rowsOf
    {α : Type}
    {host : String}
    {table : List (HostWindow × α)}
    {ts : ℤ}
    {value : α} :
    (ts, value) ∈ rowsOf host table ↔
      ((host, ts), value) ∈ table := by
  simp only [rowsOf, List.mem_map, List.mem_filter,
    decide_eq_true_eq]
  constructor
  · rintro ⟨⟨⟨other, at'⟩, held⟩, ⟨hMem, rfl⟩, hEq⟩
    cases hEq
    exact hMem
  · intro hMem
    exact ⟨_, ⟨hMem, rfl⟩, rfl⟩

/- What a host's rows hold is what the table holds. -/
theorem lookupKey_rowsOf
    {α : Type}
    (host : String)
    (table : List (HostWindow × α))
    (ts : ℤ) :
    lookupKey (rowsOf host table) ts =
      lookupKey table (host, ts) := by
  unfold lookupKey rowsOf
  rw [List.find?_map, List.find?_filter]
  simp only [Option.map_map, Function.comp_def]
  congr 2
  funext row
  rw [decide_eq_decide, decide_eq_true_eq,
    decide_eq_true_eq, Prod.ext_iff]

/- Keys are distinct when those of each host are. -/
theorem nodup_of_rowsOf
    {α : Type}
    {table : List (HostWindow × α)}
    (hRows :
      ∀ host, ((rowsOf host table).map Prod.fst).Nodup) :
    (table.map Prod.fst).Nodup := by
  induction table with
  | nil => exact List.nodup_nil
  | cons row rest ih =>
      rcases row with ⟨⟨host, ts⟩, value⟩
      have hOwn := hRows host
      have hCons :
          rowsOf host (((host, ts), value) :: rest) =
            (ts, value) :: rowsOf host rest := by
        simp [rowsOf]
      rw [hCons, List.map_cons, List.nodup_cons] at hOwn
      rw [List.map_cons, List.nodup_cons]
      refine ⟨?_, ih ?_⟩
      · intro hMem
        rcases List.mem_map.mp hMem with
          ⟨⟨key, other⟩, hRest, hKey⟩
        apply hOwn.1
        have hSame : key = (host, ts) := hKey
        have hRest' : ((host, ts), other) ∈ rest := by
          rw [← hSame]
          exact hRest
        exact
          List.mem_map.mpr ⟨_, mem_rowsOf.mpr hRest', rfl⟩
      · intro other
        have hSub :
            (rowsOf other rest).Sublist
              (rowsOf other (((host, ts), value) :: rest)) := by
          unfold rowsOf
          exact
            ((List.sublist_cons_self _ _).filter _).map _
        exact (hRows other).sublist (hSub.map _)

/- What is done per host is done to the rows of each. -/
theorem rowsOf_perHost
    (f : List (ℤ × FeatureVector 𝕜) →
      List (ℤ × FeatureVector 𝕜))
    {host : String}
    {table : List (HostWindow × FeatureVector 𝕜)}
    (hHost : ∃ row ∈ table, row.1.1 = host) :
    rowsOf host (perHost f table) =
      f (rowsOf host table) := by
  have hKeyOf :
      ∀ (k : String) (group : List (HostWindow × FeatureVector 𝕜)),
        ∀ row ∈
            (f (group.map (fun row => (row.1.2, row.2)))).map
              (fun row => ((k, row.1), row.2)),
          row.1.1 = k := by
    intro k group row hRow
    rcases List.mem_map.mp hRow with ⟨_, _, rfl⟩
    rfl
  have hFilter :=
    @inGroups_filter _ _ _ _
      (fun row : HostWindow × FeatureVector 𝕜 => row.1.1)
      _ _ hKeyOf table host
  rw [if_pos (List.mem_map.mpr hHost)] at hFilter
  have hBack :
      ∀ rows : List (ℤ × FeatureVector 𝕜),
        (rows.map (fun row => ((host, row.1), row.2))).map
            (fun row => (row.1.2, row.2)) =
          rows := by
    intro rows
    rw [List.map_map]
    exact List.map_id _
  unfold rowsOf perHost
  rw [hFilter, hBack]

/- The hosts of a table stay when something is done. -/
theorem host_of_perHost
    {f : List (ℤ × FeatureVector 𝕜) →
      List (ℤ × FeatureVector 𝕜)}
    {host : String}
    {table : List (HostWindow × FeatureVector 𝕜)}
    (hRow : ∃ row ∈ perHost f table, row.1.1 = host) :
    ∃ row ∈ table, row.1.1 = host := by
  rcases hRow with ⟨row, hRow, rfl⟩
  rcases mem_inGroups.mp hRow with ⟨k, hKey, hIn⟩
  rcases List.mem_map.mp hIn with ⟨_, _, rfl⟩
  exact hKey

/- A sorted table has the rows of each host in order. -/
theorem rowsOf_sortTable
    (host : String)
    (table : List (HostWindow × FeatureVector 𝕜)) :
    rowsOf host (sortTable table) =
      sortByKey Prod.fst (rowsOf host table) := by
  unfold rowsOf sortTable
  rw [sortByKey_filter]
  apply List.map_insertionSort
  intro a hA b hB
  have hHostA : a.1.1 = host := by
    simpa using (List.mem_filter.mp hA).2
  have hHostB : b.1.1 = host := by
    simpa using (List.mem_filter.mp hB).2
  rw [Prod.Lex.toLex_le_toLex, hHostA, hHostB]
  simp

------------------------------------------------------------
-- Progressions of windows
------------------------------------------------------------

/- Rows at evenly spaced windows. -/
def progression
    (lo step : ℤ)
    (value : ℕ → FeatureVector 𝕜)
    (n : ℕ) : List (ℤ × FeatureVector 𝕜) :=
  (List.range n).map
    (fun (i : ℕ) => (lo + (i : ℤ) * step, value i))

theorem progression_pairwise
    (lo : ℤ)
    {step : ℤ}
    (hStep : 0 < step)
    (value : ℕ → FeatureVector 𝕜)
    (n : ℕ) :
    (progression lo step value n).Pairwise
      (fun a b => a.1 < b.1) := by
  unfold progression
  rw [List.pairwise_map]
  refine List.pairwise_lt_range.imp ?_
  intro i j hLess
  have hCast : (i : ℤ) < (j : ℤ) := by exact_mod_cast hLess
  have hMul := mul_lt_mul_of_pos_right hCast hStep
  simp only
  omega

theorem lookupKey_progression
    (lo : ℤ)
    {step : ℤ}
    (hStep : 0 < step)
    (value : ℕ → FeatureVector 𝕜)
    {n i : ℕ}
    (hBound : i < n) :
    lookupKey (progression lo step value n)
        (lo + (i : ℤ) * step) =
      some (value i) := by
  apply lookupKey_of_mem
  · apply List.pairwise_map.mpr
    refine (progression_pairwise lo hStep value n).imp ?_
    intro a b hLess
    exact hLess.ne
  · exact
      List.mem_map.mpr ⟨i, List.mem_range.mpr hBound, rfl⟩

/- Filling makes a progression of a host's windows. -/
theorem fillHost_eq_progression
    [Field 𝕜]
    [LinearOrder 𝕜]
    {windowSeconds : ℤ}
    (hWindow : 0 < windowSeconds)
    {rows : List (ℤ × FeatureVector 𝕜)}
    {lo : ℤ}
    {n : ℕ}
    (hMin : (rows.map Prod.fst).min? = some lo)
    (hMax :
      (rows.map Prod.fst).max? =
        some (lo + (n : ℤ) * windowSeconds)) :
    fillHost windowSeconds rows =
      progression lo windowSeconds
        (fun (i : ℕ) =>
          (lookupKey rows
            (lo + (i : ℤ) * windowSeconds)).getD (fun _ => 0))
        (n + 1) := by
  have hCount :
      (lo + (n : ℤ) * windowSeconds + windowSeconds - lo +
          windowSeconds - 1) / windowSeconds =
        (n : ℤ) + 1 := by
    have hSplit :
        lo + (n : ℤ) * windowSeconds + windowSeconds - lo +
            windowSeconds - 1 =
          (windowSeconds - 1) +
            windowSeconds * ((n : ℤ) + 1) := by
      ring
    rw [hSplit, Int.add_mul_ediv_left _ _ hWindow.ne',
      Int.ediv_eq_zero_of_lt (by omega) (by omega)]
    omega
  simp only [fillHost, hMin, hMax, Option.getD_some, arange,
    hCount, progression, List.map_map]
  rfl

------------------------------------------------------------
-- Dynamics of a progression
------------------------------------------------------------

theorem getD_map_range
    [Zero 𝕜]
    (f : ℕ → 𝕜)
    {n i : ℕ}
    (hBound : i < n) :
    ((List.range n).map f).getD i 0 = f i := by
  rw [List.getD_eq_getElem?_getD, List.getElem?_map,
    List.getElem?_range hBound]
  rfl

section Dynamics

variable [Field 𝕜] [LinearOrder 𝕜]

/- The difference of a source from the window before. -/
def deltaAt
    (value : ℕ → FeatureVector 𝕜)
    (source : DynamicSource) : ℕ → 𝕜
  | 0 => 0
  | i + 1 => value (i + 1) source.feature - value i source.feature

/- The slope of a source over three windows. -/
def slopeAt
    (value : ℕ → FeatureVector 𝕜)
    (source : DynamicSource) : ℕ → 𝕜
  | 0 => 0
  | 1 => 0
  | i + 2 =>
      olsSlope3 (value i source.feature)
        (value (i + 1) source.feature)
        (value (i + 2) source.feature)

theorem diff_map_range
    (value : ℕ → FeatureVector 𝕜)
    (source : DynamicSource)
    {n i : ℕ}
    (hBound : i < n) :
    (diff ((List.range n).map
        (fun j => value j source.feature))).getD i 0 =
      deltaAt value source i := by
  unfold diff
  rw [List.length_map, List.length_range,
    getD_map_range _ hBound]
  cases i with
  | zero => rfl
  | succ i =>
      simp only [deltaAt]
      rw [getD_map_range _ hBound, getD_map_range _ (by omega)]

theorem rollingOlsSlope3_map_range
    (value : ℕ → FeatureVector 𝕜)
    (source : DynamicSource)
    {n i : ℕ}
    (hBound : i < n) :
    (rollingOlsSlope3 ((List.range n).map
        (fun j => value j source.feature))).getD i 0 =
      slopeAt value source i := by
  unfold rollingOlsSlope3
  rw [List.length_map, List.length_range,
    getD_map_range _ hBound]
  match i with
  | 0 => rfl
  | 1 => rfl
  | i + 2 =>
      simp only [slopeAt]
      rw [getD_map_range _ (by omega),
        getD_map_range _ (by omega), getD_map_range _ hBound]

/- The row of a progression with its dynamics. -/
def withDynamicsAt
    (value : ℕ → FeatureVector 𝕜)
    (i : ℕ) : FeatureVector 𝕜 :=
  withDynamics (value i)
    (fun source => deltaAt value source i)
    (fun slope => slopeAt value slope.source i)

theorem dynamicsHost_progression
    (lo step : ℤ)
    (value : ℕ → FeatureVector 𝕜)
    (n : ℕ) :
    dynamicsHost (progression lo step value n) =
      progression lo step (withDynamicsAt value) n := by
  have hBase :
      ∀ source : DynamicSource,
        (progression lo step value n).map
            (fun row => row.2 source.feature) =
          (List.range n).map
            (fun j => value j source.feature) := by
    intro source
    unfold progression
    rw [List.map_map]
    rfl
  unfold dynamicsHost
  simp only [hBase]
  apply List.ext_getElem
  · simp [progression]
  · intro i hLeft hRight
    have hBound : i < n := by simpa [progression] using hRight
    simp only [progression, List.getElem_mapIdx,
      List.getElem_map, List.getElem_range, withDynamicsAt,
      diff_map_range value _ hBound,
      rollingOlsSlope3_map_range value _ hBound]

/- A host's value in its i-th window, zeros when silent. -/
def valueFrom
    (table : List (HostWindow × FeatureVector 𝕜))
    (host : String)
    (lo step : ℤ)
    (i : ℕ) : FeatureVector 𝕜 :=
  (lookupKey table (host, lo + (i : ℤ) * step)).getD
    (fun _ => 0)

/- The filled rows of a host with their dynamics. -/
theorem rowsOf_dynamics
    {windowSeconds : ℤ}
    (hWindow : 0 < windowSeconds)
    {table : List (HostWindow × FeatureVector 𝕜)}
    {host : String}
    {lo : ℤ}
    {n : ℕ}
    (hMin :
      ((rowsOf host table).map Prod.fst).min? = some lo)
    (hMax :
      ((rowsOf host table).map Prod.fst).max? =
        some (lo + (n : ℤ) * windowSeconds)) :
    rowsOf host
        (addDynamics (fillEmptyWindows windowSeconds table)) =
      progression lo windowSeconds
        (withDynamicsAt
          (valueFrom table host lo windowSeconds))
        (n + 1) := by
  have hHost : ∃ row ∈ table, row.1.1 = host := by
    have hMem := List.min?_mem hMin
    rcases List.mem_map.mp hMem with ⟨⟨ts, value⟩, hRow, _⟩
    exact ⟨_, mem_rowsOf.mp hRow, rfl⟩
  have hFilled :
      rowsOf host (fillEmptyWindows windowSeconds table) =
        progression lo windowSeconds
          (valueFrom table host lo windowSeconds) (n + 1) := by
    unfold fillEmptyWindows
    rw [rowsOf_perHost _ hHost,
      fillHost_eq_progression hWindow hMin hMax]
    simp only [lookupKey_rowsOf]
    rfl
  have hSorted :
      rowsOf host
          (sortTable (fillEmptyWindows windowSeconds table)) =
        progression lo windowSeconds
          (valueFrom table host lo windowSeconds) (n + 1) := by
    rw [rowsOf_sortTable, hFilled]
    apply sortByKey_of_pairwise
    refine (progression_pairwise lo hWindow _ _).imp ?_
    intro a b hLess
    exact hLess.le
  have hSome :
      ∃ row ∈ sortTable (fillEmptyWindows windowSeconds table),
        row.1.1 = host := by
    have hRow :
        (lo + ((0 : ℕ) : ℤ) * windowSeconds,
            valueFrom table host lo windowSeconds 0) ∈
          rowsOf host
            (sortTable
              (fillEmptyWindows windowSeconds table)) := by
      rw [hSorted]
      exact
        List.mem_map.mpr
          ⟨0, List.mem_range.mpr (Nat.succ_pos n), rfl⟩
    exact ⟨_, mem_rowsOf.mp hRow, rfl⟩
  unfold addDynamics
  rw [rowsOf_perHost _ hSome, hSorted,
    dynamicsHost_progression]

end Dynamics

------------------------------------------------------------
-- Observed windows
------------------------------------------------------------

section Observed

variable [Field 𝕜] [LinearOrder 𝕜] [FloorRing 𝕜]
variable [ExpLog 𝕜]

/- A window within the time range of the flows. -/
def InDay
    (flows : List (FlowRow 𝕜))
    (ts : ℤ) : Prop :=
  ∃ first ∈ flows, ∃ last ∈ flows,
    first.windowTs ≤ ts ∧ ts ≤ last.windowTs

/- A flow starts, or a packet is sent, by a flow source. -/
def Observed
    (flows : List (FlowRow 𝕜))
    (packets : List (PacketRow 𝕜))
    (host : String)
    (ts : ℤ) : Prop :=
  (∃ row ∈ flows, row.key = (host, ts)) ∨
    ((∃ row ∈ packets, row.key = (host, ts)) ∧
      (∃ row ∈ flows, row.srcIp = host) ∧ InDay flows ts)

theorem mem_flowKeys
    {flows : List (FlowRow 𝕜)}
    {key : HostWindow} :
    key ∈ (aggregateFlows flows).map Prod.fst ↔
      ∃ row ∈ flows, row.key = key := by
  unfold aggregateFlows groupsBy
  simp [List.map_map, Function.comp_def, List.mem_eraseDups]

theorem mem_packetKeys
    {packets : List (PacketRow 𝕜)}
    {key : HostWindow} :
    key ∈ (aggregatePackets packets).map Prod.fst ↔
      ∃ row ∈ packets, row.key = key := by
  unfold aggregatePackets groupsBy
  simp [List.map_map, Function.comp_def, List.mem_eraseDups]

theorem nodup_flowKeys
    (flows : List (FlowRow 𝕜)) :
    ((aggregateFlows flows).map Prod.fst).Nodup := by
  unfold aggregateFlows groupsBy
  rw [List.map_map, List.map_map]
  simp only [Function.comp_def, List.map_id']
  exact List.nodup_eraseDups _

theorem nodup_packetKeys
    (packets : List (PacketRow 𝕜)) :
    ((aggregatePackets packets).map Prod.fst).Nodup := by
  unfold aggregatePackets groupsBy
  rw [List.map_map, List.map_map]
  simp only [Function.comp_def, List.map_id']
  exact List.nodup_eraseDups _

/- The range of the aggregates is the day of the flows. -/
theorem inDay_iff
    {flows : List (FlowRow 𝕜)}
    (hFlows : aggregateFlows flows ≠ [])
    (ts : ℤ) :
    InDay flows ts ↔
      (((aggregateFlows flows).map
          (fun a => a.1.2)).min?.getD 0 ≤ ts ∧
        ts ≤
          ((aggregateFlows flows).map
            (fun a => a.1.2)).max?.getD 0) := by
  let windows := (aggregateFlows flows).map (fun a => a.1.2)
  have hMem :
      ∀ w, w ∈ windows ↔ ∃ row ∈ flows, row.windowTs = w := by
    intro w
    have hKeys :
        windows =
          ((aggregateFlows flows).map Prod.fst).map
            Prod.snd := by
      rw [List.map_map]
      rfl
    rw [hKeys, List.mem_map]
    constructor
    · rintro ⟨key, hKey, rfl⟩
      rcases mem_flowKeys.mp hKey with ⟨row, hRow, rfl⟩
      exact ⟨row, hRow, rfl⟩
    · rintro ⟨row, hRow, rfl⟩
      exact ⟨row.key, mem_flowKeys.mpr ⟨row, hRow, rfl⟩, rfl⟩
  have hNonempty : windows ≠ [] := by
    simpa [windows] using hFlows
  rcases Option.isSome_iff_exists.mp
    (List.isSome_min?_of_ne_nil hNonempty) with ⟨lo, hLo⟩
  rcases Option.isSome_iff_exists.mp
    (List.isSome_max?_of_ne_nil hNonempty) with ⟨hi, hHi⟩
  change
    _ ↔ windows.min?.getD 0 ≤ ts ∧ ts ≤ windows.max?.getD 0
  rw [hLo, hHi, Option.getD_some, Option.getD_some]
  constructor
  · rintro ⟨first, hFirst, last, hLast, hFrom, hTo⟩
    have hLe :=
      (List.le_min?_iff hLo).mp (le_refl _) first.windowTs
        ((hMem _).mpr ⟨first, hFirst, rfl⟩)
    have hGe :=
      (List.max?_le_iff hHi).mp (le_refl _) last.windowTs
        ((hMem _).mpr ⟨last, hLast, rfl⟩)
    exact ⟨hLe.trans hFrom, hTo.trans hGe⟩
  · rintro ⟨hFrom, hTo⟩
    rcases (hMem lo).mp (List.min?_mem hLo) with
      ⟨first, hFirst, rfl⟩
    rcases (hMem hi).mp (List.max?_mem hHi) with
      ⟨last, hLast, rfl⟩
    exact ⟨first, hFirst, last, hLast, hFrom, hTo⟩

/- The fused windows are the observed ones. -/
theorem mem_fuse_keys
    {flows : List (FlowRow 𝕜)}
    {packets : List (PacketRow 𝕜)}
    {host : String}
    {ts : ℤ} :
    (host, ts) ∈
        (fuse (aggregateFlows flows)
          (aggregatePackets packets)).map FusedRow.key ↔
      Observed flows packets host ts := by
  unfold fuse Observed
  simp only
  split
  · next hNone =>
      rw [List.map_map]
      change
        (host, ts) ∈
          ((aggregateFlows flows).map Prod.fst).map id ↔ _
      rw [List.map_id, mem_flowKeys]
      constructor
      · exact Or.inl
      · rintro (hFlow | ⟨hPacket, ⟨row, hRow, _⟩, _⟩)
        · exact hFlow
        · rcases hNone with hNone | hNone
          · have hMem := mem_packetKeys.mpr hPacket
            rw [hNone] at hMem
            simp at hMem
          · have hMem :=
              mem_flowKeys.mpr ⟨row, hRow, rfl⟩
            rw [hNone] at hMem
            simp at hMem
  · next hSome =>
      have hFlows : aggregateFlows flows ≠ [] := by
        intro hNone
        exact hSome (Or.inr hNone)
      have hHosts :
          host ∈ (aggregateFlows flows).map
              (fun a => a.1.1) ↔
            ∃ row ∈ flows, row.srcIp = host := by
        have hKeys :
            (aggregateFlows flows).map (fun a => a.1.1) =
              ((aggregateFlows flows).map Prod.fst).map
                Prod.fst := by
          rw [List.map_map]
          rfl
        rw [hKeys, List.mem_map]
        constructor
        · rintro ⟨key, hKey, rfl⟩
          rcases mem_flowKeys.mp hKey with ⟨row, hRow, rfl⟩
          exact ⟨row, hRow, rfl⟩
        · rintro ⟨row, hRow, rfl⟩
          exact
            ⟨row.key, mem_flowKeys.mpr ⟨row, hRow, rfl⟩, rfl⟩
      rw [List.map_map]
      change
        (host, ts) ∈ List.map id _ ↔ _
      rw [List.map_id, List.mem_append, List.mem_filter,
        decide_eq_true_eq, mem_flowKeys]
      have hKept :
          (host, ts) ∈
              (packetKept (aggregateFlows flows)
                (aggregatePackets packets)).map Prod.fst ↔
            (∃ row ∈ packets, row.key = (host, ts)) ∧
              (∃ row ∈ flows, row.srcIp = host) ∧
                InDay flows ts := by
        rw [inDay_iff hFlows, ← hHosts, ← mem_packetKeys]
        unfold packetKept
        simp only [List.mem_map, List.mem_filter,
          decide_eq_true_eq]
        constructor
        · rintro ⟨row, ⟨hRow, hHost, hRange⟩, hKey⟩
          rw [hKey] at hHost hRange
          exact ⟨⟨row, hRow, hKey⟩, hHost, hRange⟩
        · rintro ⟨⟨row, hRow, hKey⟩, hHost, hRange⟩
          refine ⟨row, ⟨hRow, ?_⟩, hKey⟩
          rw [hKey]
          exact ⟨hHost, hRange⟩
      rw [hKept]
      constructor
      · rintro (hFlow | ⟨hPacket, _⟩)
        · exact Or.inl hFlow
        · exact Or.inr hPacket
      · rintro (hFlow | hPacket)
        · exact Or.inl hFlow
        · by_cases hFlow : ∃ row ∈ flows, row.key = (host, ts)
          · exact Or.inl hFlow
          · exact Or.inr ⟨hPacket, hFlow⟩

/- A host has one fused row for a window. -/
theorem nodup_fuse_keys
    (flows : List (FlowRow 𝕜))
    (packets : List (PacketRow 𝕜)) :
    ((fuse (aggregateFlows flows)
      (aggregatePackets packets)).map FusedRow.key).Nodup := by
  unfold fuse
  simp only
  split
  · rw [List.map_map]
    change (List.map id _).Nodup
    rw [List.map_id]
    exact nodup_flowKeys flows
  · rw [List.map_map]
    change (List.map id _).Nodup
    rw [List.map_id]
    have hPackets :
        ((packetKept (aggregateFlows flows)
          (aggregatePackets packets)).map Prod.fst).Nodup :=
      (nodup_packetKeys packets).sublist
        (List.filter_sublist.map _)
    refine
      (nodup_flowKeys flows).append (hPackets.filter _) ?_
    intro key hFlow hPacket
    have hNew := (List.mem_filter.mp hPacket).2
    simp only [decide_eq_true_eq] at hNew
    exact hNew hFlow

section Rows

variable (sampling : Sampling)
variable (windowSeconds : ℤ)
variable (degreeCap : ℕ)
variable {flows : List (FlowRow 𝕜)}
variable {packets : List (PacketRow 𝕜)}
variable {host : String}

theorem observedTable_keys
    (flows : List (FlowRow 𝕜))
    (packets : List (PacketRow 𝕜)) :
    (observedTable sampling degreeCap flows packets).map
        Prod.fst =
      (fuse (aggregateFlows flows)
        (aggregatePackets packets)).map FusedRow.key := by
  unfold observedTable
  simp only
  rw [List.map_map]
  rfl

/- An observed window has a row, and it is active. -/
theorem mem_observedTable
    {ts : ℤ} :
    (∃ features,
        ((host, ts), features) ∈
          observedTable sampling degreeCap flows packets) ↔
      Observed flows packets host ts := by
  rw [← mem_fuse_keys,
    ← observedTable_keys sampling degreeCap flows packets,
    List.mem_map]
  constructor
  · rintro ⟨features, hMem⟩
    exact ⟨_, hMem, rfl⟩
  · rintro ⟨⟨key, features⟩, hMem, rfl⟩
    exact ⟨features, hMem⟩

theorem isActive_observedTable
    {row : HostWindow × FeatureVector 𝕜}
    (hRow :
      row ∈ observedTable sampling degreeCap flows packets) :
    row.2 .isActive = 1 := by
  unfold observedTable at hRow
  rcases List.mem_map.mp hRow with ⟨_, _, rfl⟩
  rfl

theorem lookupKey_observedTable
    {ts : ℤ} :
    (lookupKey
        (observedTable sampling degreeCap flows packets)
        (host, ts)).isSome ↔
      Observed flows packets host ts := by
  rw [lookupKey_isSome, ← mem_observedTable sampling degreeCap]
  constructor
  · rintro ⟨⟨key, features⟩, hRow, rfl⟩
    exact ⟨features, hRow⟩
  · rintro ⟨features, hRow⟩
    exact ⟨_, hRow, rfl⟩

/- A host that is not observed has no row. -/
theorem observed_of_mem
    {ts : ℤ}
    {features : FeatureVector 𝕜}
    (hRow :
      ((host, ts), features) ∈
        buildStateRows sampling windowSeconds degreeCap flows
          packets) :
    ∃ ts', Observed flows packets host ts' := by
  unfold buildStateRows addDynamics at hRow
  have hDynamics := mem_sortByKey.mp hRow
  rcases host_of_perHost ⟨_, hDynamics, rfl⟩ with
    ⟨row, hSorted, hHost⟩
  have hFilled := mem_sortByKey.mp hSorted
  rcases host_of_perHost ⟨_, hFilled, hHost⟩ with
    ⟨⟨⟨host', ts'⟩, features'⟩, hObserved, rfl⟩
  exact
    ⟨ts',
      (mem_observedTable sampling degreeCap).mp
        ⟨features', hObserved⟩⟩

variable {windowSeconds}

/-
  The rows of a host run from its first to its last observed
  window, one for each window.
-/
theorem rowsOf_buildStateRows
    (hWindow : 0 < windowSeconds)
    (hFlows : ∀ row ∈ flows, windowSeconds ∣ row.windowTs)
    (hPackets :
      ∀ row ∈ packets, windowSeconds ∣ row.windowTs)
    (hHost : ∃ ts, Observed flows packets host ts) :
    ∃ (lo : ℤ) (n : ℕ),
      Observed flows packets host lo ∧
      Observed flows packets host
        (lo + (n : ℤ) * windowSeconds) ∧
      (∀ ts, Observed flows packets host ts →
        lo ≤ ts ∧ ts ≤ lo + (n : ℤ) * windowSeconds) ∧
      rowsOf host
          (buildStateRows sampling windowSeconds degreeCap
            flows packets) =
        progression lo windowSeconds
          (withDynamicsAt
            (valueFrom
              (observedTable sampling degreeCap flows packets)
              host lo windowSeconds))
          (n + 1) := by
  let table := observedTable sampling degreeCap flows packets
  let windows := (rowsOf host table).map Prod.fst
  have hMem :
      ∀ ts, ts ∈ windows ↔ Observed flows packets host ts := by
    intro ts
    rw [← mem_observedTable sampling degreeCap]
    simp only [windows, List.mem_map, Prod.exists,
      mem_rowsOf, exists_and_right, exists_eq_right, table]
  have hAligned :
      ∀ ts, Observed flows packets host ts →
        windowSeconds ∣ ts := by
    rintro ts (⟨row, hRow, hKey⟩ | ⟨⟨row, hRow, hKey⟩, _⟩)
    · rw [← (Prod.mk.inj hKey).2]
      exact hFlows row hRow
    · rw [← (Prod.mk.inj hKey).2]
      exact hPackets row hRow
  have hNonempty : windows ≠ [] := by
    rcases hHost with ⟨ts, hTs⟩
    exact List.ne_nil_of_mem ((hMem ts).mpr hTs)
  rcases Option.isSome_iff_exists.mp
    (List.isSome_min?_of_ne_nil hNonempty) with ⟨lo, hLo⟩
  rcases Option.isSome_iff_exists.mp
    (List.isSome_max?_of_ne_nil hNonempty) with ⟨hi, hHi⟩
  have hLoObs := (hMem lo).mp (List.min?_mem hLo)
  have hHiObs := (hMem hi).mp (List.max?_mem hHi)
  have hRange :
      ∀ ts, Observed flows packets host ts →
        lo ≤ ts ∧ ts ≤ hi := by
    intro ts hTs
    have hTsMem := (hMem ts).mpr hTs
    exact
      ⟨(List.le_min?_iff hLo).mp (le_refl _) ts hTsMem,
        (List.max?_le_iff hHi).mp (le_refl _) ts hTsMem⟩
  have hOrder : lo ≤ hi := (hRange lo hLoObs).2
  rcases dvd_sub (hAligned hi hHiObs) (hAligned lo hLoObs)
    with ⟨c, hC⟩
  have hNonneg : 0 ≤ c := by
    have hMul : 0 ≤ windowSeconds * c := by omega
    exact nonneg_of_mul_nonneg_right hMul hWindow
  have hLast :
      hi = lo + ((c.toNat : ℕ) : ℤ) * windowSeconds := by
    rw [Int.toNat_of_nonneg hNonneg, mul_comm]
    omega
  rw [hLast] at hHi hHiObs hRange
  refine ⟨lo, c.toNat, hLoObs, hHiObs, hRange, ?_⟩
  unfold buildStateRows
  rw [rowsOf_sortTable, rowsOf_dynamics hWindow hLo hHi]
  apply sortByKey_of_pairwise
  refine (progression_pairwise lo hWindow _ _).imp ?_
  intro a b hLess
  exact hLess.le

section Aligned

variable (hWindow : 0 < windowSeconds)
variable
  (hFlows : ∀ row ∈ flows, windowSeconds ∣ row.windowTs)
variable
  (hPackets : ∀ row ∈ packets, windowSeconds ∣ row.windowTs)
include hWindow hFlows hPackets

theorem dvd_of_observed
    {ts : ℤ}
    (hTs : Observed flows packets host ts) :
    windowSeconds ∣ ts := by
  rcases hTs with ⟨row, hRow, hKey⟩ | ⟨⟨row, hRow, hKey⟩, _⟩
  · rw [← (Prod.mk.inj hKey).2]
    exact hFlows row hRow
  · rw [← (Prod.mk.inj hKey).2]
    exact hPackets row hRow

/-
  A host has a row for every window between two windows in
  which it was observed, active when it was observed there.
-/
theorem mem_buildStateRows
    {ts : ℤ} :
    (∃ features,
        ((host, ts), features) ∈
          buildStateRows sampling windowSeconds degreeCap
            flows packets) ↔
      windowSeconds ∣ ts ∧
        ∃ first last,
          Observed flows packets host first ∧
            Observed flows packets host last ∧
              first ≤ ts ∧ ts ≤ last := by
  constructor
  · rintro ⟨features, hRow⟩
    rcases rowsOf_buildStateRows sampling degreeCap hWindow
        hFlows hPackets
        (observed_of_mem sampling windowSeconds degreeCap
          hRow) with
      ⟨lo, n, hLo, hHi, _, hRows⟩
    have hMem := mem_rowsOf.mpr hRow
    rw [hRows] at hMem
    rcases List.mem_map.mp hMem with ⟨i, hI, hEq⟩
    have hTs : lo + (i : ℤ) * windowSeconds = ts :=
      (Prod.mk.inj hEq).1
    have hBound : i ≤ n := by
      have hLess := List.mem_range.mp hI
      omega
    have hCast : (i : ℤ) ≤ (n : ℤ) := by exact_mod_cast hBound
    have hMul := mul_le_mul_of_nonneg_right hCast hWindow.le
    have hNonneg : 0 ≤ (i : ℤ) * windowSeconds :=
      mul_nonneg (Int.natCast_nonneg i) hWindow.le
    rw [← hTs]
    refine ⟨?_, lo, _, hLo, hHi, by omega, by omega⟩
    exact
      dvd_add
        (dvd_of_observed hWindow hFlows hPackets hLo)
        (dvd_mul_left _ _)
  · rintro ⟨hDvd, first, last, hFirst, hLast, hFrom, hTo⟩
    rcases rowsOf_buildStateRows sampling degreeCap hWindow
        hFlows hPackets ⟨first, hFirst⟩ with
      ⟨lo, n, hLo, _, hRange, hRows⟩
    have hLoLe := (hRange first hFirst).1
    have hLeHi := (hRange last hLast).2
    rcases
        dvd_sub hDvd
          (dvd_of_observed hWindow hFlows hPackets hLo) with
      ⟨c, hC⟩
    have hNonneg : 0 ≤ c := by
      have hMul : 0 ≤ windowSeconds * c := by omega
      exact nonneg_of_mul_nonneg_right hMul hWindow
    have hTs : ts = lo + (c.toNat : ℤ) * windowSeconds := by
      rw [Int.toNat_of_nonneg hNonneg, mul_comm]
      omega
    have hBound : c.toNat < n + 1 := by
      have hMul :
          (c.toNat : ℤ) * windowSeconds ≤
            (n : ℤ) * windowSeconds := by
        omega
      have hLe := le_of_mul_le_mul_right hMul hWindow
      omega
    let value :=
      withDynamicsAt
        (valueFrom
          (observedTable sampling degreeCap flows packets)
          host lo windowSeconds)
    refine ⟨value c.toNat, ?_⟩
    apply mem_rowsOf.mp
    rw [hRows, hTs]
    exact
      List.mem_map.mpr
        ⟨c.toNat, List.mem_range.mpr hBound, rfl⟩

theorem isActive_buildStateRows
    {ts : ℤ}
    {features : FeatureVector 𝕜}
    (hRow :
      ((host, ts), features) ∈
        buildStateRows sampling windowSeconds degreeCap flows
          packets) :
    (features .isActive = 1 ∧
        Observed flows packets host ts) ∨
      (features .isActive = 0 ∧
        ¬ Observed flows packets host ts) := by
  rcases rowsOf_buildStateRows sampling degreeCap hWindow
      hFlows hPackets
      (observed_of_mem sampling windowSeconds degreeCap
        hRow) with
    ⟨lo, n, _, _, _, hRows⟩
  have hMem := mem_rowsOf.mpr hRow
  rw [hRows] at hMem
  rcases List.mem_map.mp hMem with ⟨i, _, hEq⟩
  rcases Prod.mk.inj hEq with ⟨hTs, hFeatures⟩
  have hValue :
      features .isActive =
        (lookupKey
          (observedTable sampling degreeCap flows packets)
            (host, ts)).getD (fun _ => 0) .isActive := by
    rw [← hFeatures, ← hTs]
    rfl
  rw [hValue, ← lookupKey_observedTable sampling degreeCap]
  cases hLookup :
      lookupKey
        (observedTable sampling degreeCap flows packets)
        (host, ts) with
  | none => simp
  | some found =>
      have hActive :=
        isActive_observedTable sampling degreeCap
          (mem_of_lookupKey hLookup)
      left
      exact ⟨hActive, rfl⟩

/- A host has one row for a window. -/
theorem nodup_buildStateRows :
    ((buildStateRows sampling windowSeconds degreeCap flows
      packets).map Prod.fst).Nodup := by
  apply nodup_of_rowsOf
  intro host
  by_cases hHost : ∃ ts, Observed flows packets host ts
  · rcases rowsOf_buildStateRows sampling degreeCap hWindow
        hFlows hPackets hHost with
      ⟨lo, n, _, _, _, hRows⟩
    rw [hRows]
    apply List.pairwise_map.mpr
    refine (progression_pairwise lo hWindow _ _).imp ?_
    intro a b hLess
    exact hLess.ne
  · have hNone :
        rowsOf host
          (buildStateRows sampling windowSeconds degreeCap
            flows packets) = [] := by
      apply List.eq_nil_iff_forall_not_mem.mpr
      rintro ⟨ts, features⟩ hRow
      exact
        hHost
          (observed_of_mem sampling windowSeconds degreeCap
            (mem_rowsOf.mp hRow))
    rw [hNone]
    exact List.nodup_nil

end Aligned

end Rows

end Observed

end Training

end Nidra
