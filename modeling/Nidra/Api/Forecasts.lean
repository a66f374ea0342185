import Nidra.Lib.Columns
import Nidra.Lib.Paging
import Nidra.Persister.Redelivery

/-
  This file defines the three reads over the table that the
  persister writes: pages of the history, the latest forecast
  of each host, and one forecast in full. It proves what they
  show while the persister works, crashes and is handed its
  messages again.

  Key definitions include:
    * `PageConfig`, `resolvedLimit`
    * `Collation`
    * `ListQuery`, `listForecasts`
    * `HostSort`, `listHosts`
    * `getForecast`
    * `Stored`

  Main declarations:
    * `wrote_step`, `stored_run`
    * `no_forecast_missed`, `pages_of_quiet_table`
    * `hosts_are_latest`
    * `forecast_kept`
-/

namespace Nidra

namespace Api

namespace Forecasts

open Persister
  (ForecastRow PersisterConfig accepted insertForecast)

variable {𝕜 : Type}

------------------------------------------------------------
-- Requests
------------------------------------------------------------

/- The settings of the pages. -/
structure PageConfig where
  pageLimit : ℕ := 50
  maxPageLimit : ℕ := 500

/- A page size that is asked for, under the ceiling. -/
def resolvedLimit
    (cfg : PageConfig)
    (requested : Option ℕ) : ℕ :=
  min (requested.getD cfg.pageLimit) cfg.maxPageLimit

inductive SortOrder where
  | desc
  | asc
deriving DecidableEq

/- The columns that hosts can be sorted by. -/
inductive HostSort where
  | risk
  | observedRisk
  | host
  | lastSeen
deriving DecidableEq

/- What a page of the history is asked for. -/
structure ListQuery where
  host : Option String := none
  since : Option ℚ := none
  until_ : Option ℚ := none
  limit : Option ℕ := none
  offset : ℕ := 0
  order : SortOrder := .desc

------------------------------------------------------------
-- Answers
------------------------------------------------------------

/- The promoted columns of a row. -/
structure ForecastSummary (𝕜 : Type) where
  hostId : String
  originTs : ℚ
  observedRisk : 𝕜
  observedStage : String
  maxPCompromise : 𝕜
  leadTimeS : Option 𝕜
  modelVersion : String

def fields (row : ForecastRow 𝕜) : ForecastSummary 𝕜 :=
  { hostId := row.hostId
    originTs := row.originTs
    observedRisk := row.observedRisk
    observedStage := row.observedStage
    maxPCompromise := row.maxPCompromise
    leadTimeS := row.leadTimeS
    modelVersion := row.modelVersion }

/- A page, and how many rows there are in all. -/
structure ForecastPage (𝕜 : Type) where
  items : List (ForecastSummary 𝕜)
  total : ℕ
  limit : ℕ
  offset : ℕ

structure HostList (𝕜 : Type) where
  hosts : List (ForecastSummary 𝕜)

/- Why a forecast is not shown. -/
inductive NotShown (𝕜 : Type) where
  | notFound
  | invalid (error : SchemaError 𝕜)

------------------------------------------------------------
-- The reads
------------------------------------------------------------

/-
  How the database compares texts: by a key that no two texts
  have in common.
-/
structure Collation (κ : Type) where
  key : String → κ
  key_injective : Function.Injective key

/- The rows that a query asks for. -/
def ListQuery.selects
    (query : ListQuery)
    (tenant : Uuid)
    (row : ForecastRow 𝕜) : Bool :=
  row.tenantId = tenant &&
    query.host.all (fun host => row.hostId = host) &&
    query.since.all (fun since => since ≤ row.originTs) &&
    query.until_.all (fun until_ => row.originTs < until_)

section Reads

variable {κ : Type}
variable [LinearOrder κ]
variable (collation : Collation κ)

/- Sort by a column either way, then by host. -/
def orderBy
    {β : Type}
    [LinearOrder β]
    (order : SortOrder)
    (column : ForecastRow 𝕜 → β)
    (rows : List (ForecastRow 𝕜)) : List (ForecastRow 𝕜) :=
  match order with
  | .desc =>
      sortByKey
        (fun row =>
          toLex
            (OrderDual.toDual (column row),
              collation.key row.hostId))
        rows
  | .asc =>
      sortByKey
        (fun row => toLex (column row, collation.key row.hostId))
        rows

variable (cfg : PageConfig)

/-
  A page of the history. The rows are counted and selected by
  two statements; a row may be added in between.
-/
def listForecasts
    (counted selected : List (ForecastRow 𝕜))
    (tenant : Uuid)
    (query : ListQuery) : ForecastPage 𝕜 :=
  let size := resolvedLimit cfg query.limit
  let rows :=
    orderBy collation query.order ForecastRow.originTs
      (selected.filter (query.selects tenant))
  { items := ((rows.drop query.offset).take size).map fields
    total := counted.countP (query.selects tenant)
    limit := size
    offset := query.offset }

/- The latest row of each host of a tenant. -/
def latestRows
    (rows : List (ForecastRow 𝕜))
    (tenant : Uuid) : List (ForecastRow 𝕜) :=
  distinctOn ForecastRow.hostId
    (sortByKey
      (fun row =>
        toLex
          (collation.key row.hostId, OrderDual.toDual row.originTs))
      (rows.filter (fun row => row.tenantId = tenant)))

/- Sort rows by the column that was chosen. -/
def HostSort.sorted
    [LinearOrder 𝕜]
    (sort : HostSort)
    (order : SortOrder)
    (rows : List (ForecastRow 𝕜)) : List (ForecastRow 𝕜) :=
  match sort with
  | .risk =>
      orderBy collation order ForecastRow.maxPCompromise rows
  | .observedRisk =>
      orderBy collation order ForecastRow.observedRisk rows
  | .host =>
      orderBy collation order (fun row => collation.key row.hostId)
        rows
  | .lastSeen =>
      orderBy collation order ForecastRow.originTs rows

/- Every host of a tenant at its latest forecast. -/
def listHosts
    [LinearOrder 𝕜]
    (rows : List (ForecastRow 𝕜))
    (tenant : Uuid)
    (sort : HostSort)
    (order : SortOrder)
    (limit : Option ℕ) : HostList 𝕜 :=
  let latest := latestRows collation rows tenant
  { hosts :=
      ((sort.sorted collation order latest).take
        (resolvedLimit cfg limit)).map fields }

end Reads

section Detail

variable [Zero 𝕜] [One 𝕜] [LinearOrder 𝕜]

/- One forecast in full, checked again on the way out. -/
def getForecast
    (horizonK : ℕ)
    (rows : List (ForecastRow 𝕜))
    (tenant : Uuid)
    (host : String)
    (ts : ℚ) : Except (NotShown 𝕜) (Forecast 𝕜) :=
  match rows.find? (fun row =>
      row.tenantId = tenant ∧ row.hostId = host ∧
        row.originTs = ts) with
  | none => .error .notFound
  | some row =>
      match row.payload.check horizonK with
      | some error => .error (.invalid error)
      | none => .ok row.payload

end Detail

------------------------------------------------------------
-- The table
------------------------------------------------------------

/- What no two rows have in common. -/
def rowKey (row : ForecastRow 𝕜) : Uuid × String × ℚ :=
  (row.tenantId, row.hostId, row.originTs)

def keyOf
    (forecast : Forecast 𝕜)
    (tenant : Uuid) : Uuid × String × ℚ :=
  (tenant, forecast.hostId, forecast.originTs)

/- The row that a forecast is written as. -/
def rowOf
    (forecast : Forecast 𝕜)
    (tenant : Uuid)
    (peak : 𝕜) : ForecastRow 𝕜 :=
  { tenantId := tenant
    hostId := forecast.hostId
    originTs := forecast.originTs
    observedRisk := forecast.observedRisk
    observedStage := forecast.observedStage
    maxPCompromise := peak
    leadTimeS := forecast.leadTimeS
    payload := forecast
    modelVersion := forecast.modelVersion }

/- A forecast is written unless its key is taken. -/
theorem insertForecast_cases
    (rows : List (ForecastRow 𝕜))
    (forecast : Forecast 𝕜)
    (tenant : Uuid)
    (peak : 𝕜) :
    ((∃ row ∈ rows, rowKey row = keyOf forecast tenant) ∧
        (insertForecast rows forecast tenant peak).2 =
          rows) ∨
      ((∀ row ∈ rows, rowKey row ≠ keyOf forecast tenant) ∧
        (insertForecast rows forecast tenant peak).2 =
          rows ++ [rowOf forecast tenant peak]) := by
  have hSame :
      ∀ row : ForecastRow 𝕜,
        (row.tenantId == tenant &&
            row.hostId == forecast.hostId &&
            decide (row.originTs = forecast.originTs)) =
          true ↔
          rowKey row = keyOf forecast tenant := by
    intro row
    simp [rowKey, keyOf, and_assoc]
  unfold insertForecast
  split
  · rename_i hAny
    left
    rcases List.any_eq_true.mp hAny with ⟨row, hRow, hKey⟩
    exact ⟨⟨row, hRow, (hSame row).mp hKey⟩, rfl⟩
  · rename_i hNone
    right
    refine ⟨?_, rfl⟩
    intro row hRow hKey
    exact
      hNone (List.any_eq_true.mpr
        ⟨row, hRow, (hSame row).mpr hKey⟩)

/- A row for the key of a forecast is there once it commits. -/
theorem exists_row_of_insertForecast
    (rows : List (ForecastRow 𝕜))
    (forecast : Forecast 𝕜)
    (tenant : Uuid)
    (peak : 𝕜) :
    ∃ row ∈ (insertForecast rows forecast tenant peak).2,
      rowKey row = keyOf forecast tenant := by
  rcases insertForecast_cases rows forecast tenant peak with
    ⟨⟨row, hRow, hKey⟩, hSame⟩ | ⟨_, hAdded⟩
  · rw [hSame]
    exact ⟨row, hRow, hKey⟩
  · rw [hAdded]
    exact
      ⟨rowOf forecast tenant peak,
        List.mem_append_right _ (List.mem_singleton_self _),
        rfl⟩

section Runs

variable [Zero 𝕜] [One 𝕜] [LinearOrder 𝕜]
variable (cfg : PersisterConfig 𝕜)
variable (messages : List (Forecast 𝕜))

/- A row is what one of the messages was written as. -/
def WrittenBy (row : ForecastRow 𝕜) : Prop :=
  ∃ payload ∈ messages, ∃ peak,
    accepted cfg payload = some (row.tenantId, peak) ∧
      row = rowOf payload row.tenantId peak

/-
  What the table always is: no key twice, each row as some
  message says, and a row for the key of every message that
  was acknowledged.
-/
structure Stored (w : Persister.World 𝕜) : Prop where
  keys_nodup : (w.forecasts.map rowKey).Nodup
  written : ∀ row ∈ w.forecasts, WrittenBy cfg messages row
  acked :
    ∀ m ∈ w.acked, ∀ payload ∈ messages[m]?,
      ∀ tenant peak,
        accepted cfg payload = some (tenant, peak) →
          ∃ row ∈ w.forecasts,
            rowKey row = keyOf payload tenant

/- What a step does to the table and to what is acknowledged. -/
inductive Wrote
    (w : Persister.World 𝕜) : Persister.World 𝕜 → Prop
  | nothing
      {w' : Persister.World 𝕜}
      (hForecasts : w'.forecasts = w.forecasts)
      (hAcked : w'.acked = w.acked) : Wrote w w'
  | committed
      {w' : Persister.World 𝕜}
      {payload : Forecast 𝕜}
      {tenant : Uuid}
      {peak : 𝕜}
      {m : ℕ}
      (hMessage : messages[m]? = some payload)
      (hAccepted : accepted cfg payload = some (tenant, peak))
      (hForecasts :
        w'.forecasts =
          (insertForecast w.forecasts payload tenant peak).2)
      (acks : List ℕ)
      (hAcks : acks = [] ∨ acks = [m])
      (hAcked : w'.acked = w.acked ++ acks) : Wrote w w'

variable {cfg messages}

theorem wrote_step
    (w : Persister.World 𝕜)
    (event : Persister.Event) :
    Wrote cfg messages w
      (w.step cfg messages event) := by
  cases event with
  | wait time => exact Wrote.nothing rfl rfl
  | attempt message budget =>
      dsimp only [Persister.World.step]
      cases hMessage : messages[message]? with
      | none => exact Wrote.nothing rfl rfl
      | some payload =>
          dsimp only
          have hOutcome :=
            Persister.attempt_outcome cfg w message budget
              payload
          revert hOutcome
          generalize
            ((Persister.handleMessage cfg message
              payload).attempt budget w).2 = w'
          intro hOutcome
          cases hOutcome with
          | early drawn hDrawn => exact Wrote.nothing rfl rfl
          | stale hAccepted hState hBudget hStale acks hAcks =>
              exact
                Wrote.committed hMessage hAccepted rfl acks
                  hAcks rfl
          | unsaved hAccepted hState hBudget hStopped =>
              exact
                Wrote.committed hMessage hAccepted rfl []
                  (Or.inl rfl) (List.append_nil _).symm
          | saved hAccepted hState hBudget hTransition acks
              hAcks =>
              exact
                Wrote.committed hMessage hAccepted rfl acks
                  hAcks rfl

/- The table only grows, at its end. -/
theorem Wrote.prefix
    {w w' : Persister.World 𝕜}
    (hWrote : Wrote cfg messages w w') :
    w.forecasts <+: w'.forecasts := by
  cases hWrote with
  | nothing hForecasts hAcked =>
      rw [hForecasts]
  | @committed payload tenant peak m hMessage hAccepted
      hForecasts acks hAcks hAcked =>
      rw [hForecasts]
      rcases insertForecast_cases w.forecasts payload tenant
          peak with ⟨_, hSame⟩ | ⟨_, hAdded⟩
      · rw [hSame]
      · rw [hAdded]
        exact List.prefix_append _ _

theorem Stored.wrote
    {w w' : Persister.World 𝕜}
    (hStored : Stored cfg messages w)
    (hWrote : Wrote cfg messages w w') :
    Stored cfg messages w' := by
  have hPrefix := hWrote.prefix
  cases hWrote with
  | nothing hForecasts hAcked =>
      exact
        { keys_nodup := by
            rw [hForecasts]
            exact hStored.keys_nodup
          written := by
            rw [hForecasts]
            exact hStored.written
          acked := by
            rw [hForecasts, hAcked]
            exact hStored.acked }
  | @committed payload tenant peak m hMessage hAccepted
      hForecasts acks hAcks hAcked =>
      refine ⟨?_, ?_, ?_⟩
      · rw [hForecasts]
        rcases insertForecast_cases w.forecasts payload tenant
            peak with ⟨_, hSame⟩ | ⟨hNew, hAdded⟩
        · rw [hSame]
          exact hStored.keys_nodup
        · rw [hAdded]
          exact
            List.nodup_map_concat hStored.keys_nodup hNew
      · rw [hForecasts]
        rcases insertForecast_cases w.forecasts payload tenant
            peak with ⟨_, hSame⟩ | ⟨hNew, hAdded⟩
        · rw [hSame]
          exact hStored.written
        · rw [hAdded]
          intro row hRow
          rw [List.mem_append, List.mem_singleton] at hRow
          rcases hRow with hOld | rfl
          · exact hStored.written row hOld
          · exact
              ⟨payload, List.mem_of_getElem? hMessage, peak,
                hAccepted, rfl⟩
      · rw [hAcked]
        intro m' hM' payload' hPayload' tenant' peak' hAccepted'
        have hOld :
            m' ∈ w.acked →
              ∃ row ∈ w'.forecasts,
                rowKey row = keyOf payload' tenant' := by
          intro hMem
          rcases hStored.acked m' hMem payload' hPayload'
              tenant' peak' hAccepted' with
            ⟨row, hRow, hKey⟩
          exact ⟨row, hPrefix.subset hRow, hKey⟩
        rcases List.mem_append.mp hM' with hMem | hLast
        · exact hOld hMem
        · -- The message that is acknowledged has committed.
          rcases hAcks with rfl | rfl
          · cases hLast
          · rw [List.mem_singleton] at hLast
            subst hLast
            rw [hMessage] at hPayload'
            cases hPayload'
            rw [hAccepted] at hAccepted'
            cases hAccepted'
            rw [hForecasts]
            exact exists_row_of_insertForecast _ _ _ _

theorem stored_start (now : ℚ) :
    Stored cfg messages (Persister.World.start now) where
  keys_nodup := List.nodup_nil
  written := fun _ hRow => absurd hRow List.not_mem_nil
  acked := fun _ hMem => absurd hMem List.not_mem_nil

/- The table is sound in every run, and only grows. -/
theorem stored_run
    {w : Persister.World 𝕜}
    (hStored : Stored cfg messages w)
    (events : List Persister.Event) :
    Stored cfg messages (w.runEvents cfg messages events) ∧
      w.forecasts <+:
        (w.runEvents cfg messages events).forecasts := by
  induction events generalizing w with
  | nil => exact ⟨hStored, List.prefix_rfl⟩
  | cons event rest ih =>
      have hWrote :
          Wrote cfg messages w
            (w.step cfg messages event) :=
        wrote_step w event
      rcases ih (hStored.wrote hWrote) with ⟨hRest, hPrefix⟩
      exact ⟨hRest, hWrote.prefix.trans hPrefix⟩

end Runs

------------------------------------------------------------
-- Pages of the history
------------------------------------------------------------

/- A row comes before another by a column, then by host. -/
def Before
    {κ β : Type}
    [LinearOrder κ]
    [LinearOrder β]
    (collation : Collation κ)
    (order : SortOrder)
    (column : ForecastRow 𝕜 → β)
    (a b : ForecastRow 𝕜) : Prop :=
  match order with
  | .desc =>
      column b < column a ∨
        column a = column b ∧
          collation.key a.hostId < collation.key b.hostId
  | .asc =>
      column a < column b ∨
        column a = column b ∧
          collation.key a.hostId < collation.key b.hostId

/- Rows are sorted by a key of the column and the host. -/
theorem orderBy_eq_sortByKey
    {κ β : Type}
    [LinearOrder κ]
    [LinearOrder β]
    (collation : Collation κ)
    (order : SortOrder)
    (column : ForecastRow 𝕜 → β) :
    ∃ (γ : Type) (_ : LinearOrder γ)
      (key : ForecastRow 𝕜 → γ),
      (∀ a b, key a = key b →
        column a = column b ∧ a.hostId = b.hostId) ∧
      (∀ a b, key a < key b ↔
        Before collation order column a b) ∧
      ∀ rows,
        orderBy collation order column rows =
          sortByKey key rows := by
  cases order with
  | desc =>
      refine
        ⟨_, inferInstance, _, ?_, ?_, fun rows => rfl⟩
      · intro a b hSame
        rcases Prod.mk.injEq _ _ _ _ ▸ hSame with
          ⟨hColumn, hHost⟩
        exact ⟨hColumn, collation.key_injective hHost⟩
      · intro a b
        exact Prod.Lex.toLex_lt_toLex
  | asc =>
      refine
        ⟨_, inferInstance, _, ?_, ?_, fun rows => rfl⟩
      · intro a b hSame
        rcases Prod.mk.injEq _ _ _ _ ▸ hSame with
          ⟨hColumn, hHost⟩
        exact ⟨hColumn, collation.key_injective hHost⟩
      · intro a b
        exact Prod.Lex.toLex_lt_toLex

/- Rows of different hosts are sorted in one way only. -/
theorem orderBy_perm_pairwise
    {κ β : Type}
    [LinearOrder κ]
    [LinearOrder β]
    (collation : Collation κ)
    (order : SortOrder)
    (column : ForecastRow 𝕜 → β)
    {rows : List (ForecastRow 𝕜)}
    (hDistinct :
      ∀ {γ : Type} (key : ForecastRow 𝕜 → γ),
        (∀ a b, key a = key b →
          column a = column b ∧ a.hostId = b.hostId) →
          (rows.map key).Nodup) :
    (orderBy collation order column rows).Perm rows ∧
      (orderBy collation order column rows).Pairwise
        (Before collation order column) := by
  rcases orderBy_eq_sortByKey collation order column with
    ⟨γ, hLinear, key, hKey, hBefore, hSort⟩
  rw [hSort]
  refine ⟨sortByKey_perm key rows, ?_⟩
  apply (sortByKey_pairwise_lt (hDistinct key hKey)).imp
  intro a b hLt
  exact (hBefore a b).mp hLt

/- What tells host and time apart tells rows of a tenant apart. -/
theorem nodup_map_of_tenant
    {γ : Type}
    {key : ForecastRow 𝕜 → γ}
    (hKey :
      ∀ a b, key a = key b →
        a.originTs = b.originTs ∧ a.hostId = b.hostId)
    {rows : List (ForecastRow 𝕜)}
    (hRows : (rows.map rowKey).Nodup)
    {tenant : Uuid}
    (hTenant : ∀ row ∈ rows, row.tenantId = tenant) :
    (rows.map key).Nodup := by
  apply List.Nodup.map_on _ hRows.of_map
  intro a hA b hB hSame
  apply List.inj_on_of_nodup_map hRows hA hB
  rcases hKey a b hSame with ⟨hTs, hHost⟩
  unfold rowKey
  rw [hTenant a hA, hTenant b hB, hHost, hTs]

theorem tenantId_of_selects
    {query : ListQuery}
    {tenant : Uuid}
    {row : ForecastRow 𝕜}
    (hSelects : query.selects tenant row = true) :
    row.tenantId = tenant := by
  unfold ListQuery.selects at hSelects
  simp only [Bool.and_eq_true] at hSelects
  exact of_decide_eq_true hSelects.1.1.1

/- The items of a page, by the key that they are sorted by. -/
theorem items_listForecasts
    {κ γ : Type}
    [LinearOrder κ]
    [LinearOrder γ]
    {collation : Collation κ}
    {key : ForecastRow 𝕜 → γ}
    (pages : PageConfig)
    (counted selected : List (ForecastRow 𝕜))
    (tenant : Uuid)
    (query : ListQuery)
    (hSort :
      ∀ rows,
        orderBy collation query.order ForecastRow.originTs rows =
          sortByKey key rows) :
    (listForecasts collation pages counted selected tenant
        query).items =
      (page key (resolvedLimit pages query.limit) query.offset
        (selected.filter (query.selects tenant))).map fields :=
  by
  dsimp only [listForecasts, page]
  rw [hSort]

section Reading

variable {κ : Type}
variable [LinearOrder κ]
variable [Zero 𝕜] [One 𝕜] [LinearOrder 𝕜]

/- The persister's world at each read, with pauses between. -/
def worldAt
    (cfg : PersisterConfig 𝕜)
    (messages : List (Forecast 𝕜))
    (start : Persister.World 𝕜)
    (pauses : ℕ → List Persister.Event) :
    ℕ → Persister.World 𝕜
  | 0 => start.runEvents cfg messages (pauses 0)
  | i + 1 =>
      (worldAt cfg messages start pauses i).runEvents cfg
        messages (pauses (i + 1))

theorem stored_worldAt
    {cfg : PersisterConfig 𝕜}
    {messages : List (Forecast 𝕜)}
    {start : Persister.World 𝕜}
    (hStart : Stored cfg messages start)
    (pauses : ℕ → List Persister.Event)
    (i : ℕ) :
    Stored cfg messages
        (worldAt cfg messages start pauses i) ∧
      (worldAt cfg messages start pauses i).forecasts <+:
        (worldAt cfg messages start pauses (i + 1)).forecasts :=
  by
  induction i with
  | zero =>
      have hFirst := (stored_run hStart (pauses 0)).1
      exact ⟨hFirst, (stored_run hFirst (pauses 1)).2⟩
  | succ i ih =>
      have hNext :
          Stored cfg messages
            (worldAt cfg messages start pauses (i + 1)) :=
        (stored_run ih.1 (pauses (i + 1))).1
      exact ⟨hNext, (stored_run hNext (pauses (i + 2))).2⟩

/-
  A client that asks for page after page of the history until
  one is not full is shown every forecast that was stored when
  it began and that its filter selects, whatever the persister
  writes, repeats or leaves undone in between; and nothing is
  shown that is not stored and selected.
-/
theorem no_forecast_missed
    (collation : Collation κ)
    (pages : PageConfig)
    (cfg : PersisterConfig 𝕜)
    (messages : List (Forecast 𝕜))
    (now : ℚ)
    (pauses : ℕ → List Persister.Event)
    (counted : ℕ → List (ForecastRow 𝕜))
    (tenant : Uuid)
    (query : ListQuery)
    (last : ℕ) :
    let table := fun i =>
      (worldAt cfg messages (Persister.World.start now) pauses
        i).forecasts
    let answer := fun i =>
      listForecasts collation pages (counted i) (table i) tenant
        { query with
          offset := i * resolvedLimit pages query.limit }
    (answer last).items.length <
        resolvedLimit pages query.limit →
      (∀ row ∈ table 0, query.selects tenant row = true →
        ∃ i ≤ last, fields row ∈ (answer i).items) ∧
      ∀ i, ∀ item ∈ (answer i).items,
        ∃ row ∈ table i,
          query.selects tenant row = true ∧
            item = fields row := by
  intro table answer hShort
  rcases orderBy_eq_sortByKey collation query.order
      (fun row : ForecastRow 𝕜 => row.originTs) with
    ⟨γ, hLinear, key, hKey, _, hSort⟩
  have hStored :
      ∀ i, Stored cfg messages
          (worldAt cfg messages (Persister.World.start now)
            pauses i) ∧
        table i <+: table (i + 1) :=
    stored_worldAt (stored_start now) pauses
  let selected := fun i =>
    (table i).filter (query.selects tenant)
  have hItems :
      ∀ i, (answer i).items =
        (page key (resolvedLimit pages query.limit)
          (i * resolvedLimit pages query.limit)
          (selected i)).map fields :=
    fun i => items_listForecasts pages _ _ tenant _ hSort
  have hGrown :
      ∀ i, (selected i).Sublist (selected (i + 1)) :=
    fun i => (hStored i).2.sublist.filter _
  have hDistinct : ∀ i, ((selected i).map key).Nodup := by
    intro i
    apply nodup_map_of_tenant hKey
    · exact
        (hStored i).1.keys_nodup.sublist
          (List.filter_sublist.map _)
    · intro row hRow
      exact tenantId_of_selects (List.mem_filter.mp hRow).2
  constructor
  · intro row hRow hSelects
    rw [hItems, List.length_map] at hShort
    rcases exists_page_of_short hGrown hDistinct hShort
        (List.mem_filter.mpr ⟨hRow, hSelects⟩) with
      ⟨i, hI, hSeen⟩
    refine ⟨i, hI, ?_⟩
    rw [hItems]
    exact List.mem_map_of_mem hSeen
  · intro i item hItem
    rw [hItems] at hItem
    rcases List.mem_map.mp hItem with ⟨row, hSeen, rfl⟩
    rcases List.mem_filter.mp (mem_of_mem_page hSeen) with
      ⟨hRow, hSelects⟩
    exact ⟨row, hRow, hSelects, rfl⟩

def plainCollation : Collation String where
  key := id
  key_injective := Function.injective_id

/- The second forecast is written between two pages. -/
def busyPauses : ℕ → List Persister.Event
  | 0 => [.attempt 0 5]
  | 1 => [.attempt 1 5]
  | _ => []

theorem no_forecast_missed_busy :
    let table := fun i =>
      (worldAt Persister.quickRules Persister.riseAndFall
        (Persister.World.start 0) busyPauses i).forecasts
    let query : ListQuery := { limit := some 1 }
    let answer := fun i =>
      listForecasts plainCollation {} [] (table i) 1
        { query with
          offset := i * resolvedLimit {} query.limit }
    (∀ row ∈ table 0, query.selects 1 row = true →
      ∃ i ≤ 2, fields row ∈ (answer i).items) ∧
      ∀ i, ∀ item ∈ (answer i).items,
        ∃ row ∈ table i,
          query.selects 1 row = true ∧ item = fields row :=
  no_forecast_missed plainCollation {} Persister.quickRules
    Persister.riseAndFall 0 busyPauses (fun _ => []) 1
    { limit := some 1 } 2 (by decide +kernel)

/-
  While nothing is written, the pages are all the stored
  forecasts that the filter selects, each one once, in order
  of time and then of host; the total of each page is their
  number, and as many pages as it takes show them all.
-/
theorem pages_of_quiet_table
    (collation : Collation κ)
    (pages : PageConfig)
    (cfg : PersisterConfig 𝕜)
    (messages : List (Forecast 𝕜))
    (now : ℚ)
    (events : List Persister.Event)
    (tenant : Uuid)
    (query : ListQuery)
    (count : ℕ) :
    let table :=
      ((Persister.World.start now).runEvents cfg messages
        events).forecasts
    let size := resolvedLimit pages query.limit
    let answer := fun i =>
      listForecasts collation pages table table tenant
        { query with offset := i * size }
    ∃ rows : List (ForecastRow 𝕜),
      rows.Perm (table.filter (query.selects tenant)) ∧
      (rows.map rowKey).Nodup ∧
      rows.Pairwise
        (Before collation query.order ForecastRow.originTs) ∧
      (∀ i, (answer i).total = rows.length) ∧
      (List.range count).flatMap
          (fun i => (answer i).items) =
        (rows.take (count * size)).map fields := by
  intro table size answer
  rcases orderBy_eq_sortByKey collation query.order
      (fun row : ForecastRow 𝕜 => row.originTs) with
    ⟨γ, hLinear, key, hKey, hBefore, hSort⟩
  have hStart :
      Stored cfg messages (Persister.World.start now) :=
    stored_start now
  have hStored := (stored_run hStart events).1
  let selected := table.filter (query.selects tenant)
  have hKeys : (selected.map rowKey).Nodup :=
    hStored.keys_nodup.sublist (List.filter_sublist.map _)
  have hDistinct : (selected.map key).Nodup := by
    apply nodup_map_of_tenant hKey hKeys
    intro row hRow
    exact tenantId_of_selects (List.mem_filter.mp hRow).2
  have hPerm : (sortByKey key selected).Perm selected :=
    sortByKey_perm key selected
  refine ⟨sortByKey key selected, hPerm, ?_, ?_, ?_, ?_⟩
  · exact (hPerm.map rowKey).nodup_iff.mpr hKeys
  · apply (sortByKey_pairwise_lt hDistinct).imp
    intro a b hLt
    exact (hBefore a b).mp hLt
  · intro i
    rw [hPerm.length_eq]
    exact List.countP_eq_length_filter
  · rw [← flatMap_page key size count selected,
      List.map_flatMap]
    apply List.flatMap_congr
    intro i _
    exact items_listForecasts pages _ _ tenant _ hSort

------------------------------------------------------------
-- The latest of each host
------------------------------------------------------------

/- A host comes before another by the column that was chosen. -/
def HostSort.Before
    (collation : Collation κ)
    (sort : HostSort)
    (order : SortOrder)
    (a b : ForecastRow 𝕜) : Prop :=
  match sort with
  | .risk =>
      Forecasts.Before collation order ForecastRow.maxPCompromise
        a b
  | .observedRisk =>
      Forecasts.Before collation order ForecastRow.observedRisk
        a b
  | .host =>
      Forecasts.Before collation order
        (fun row => collation.key row.hostId) a b
  | .lastSeen =>
      Forecasts.Before collation order ForecastRow.originTs a b

omit [Zero 𝕜] [One 𝕜] in
theorem sorted_perm_pairwise
    (collation : Collation κ)
    (sort : HostSort)
    (order : SortOrder)
    {rows : List (ForecastRow 𝕜)}
    (hHosts : (rows.map ForecastRow.hostId).Nodup) :
    (sort.sorted collation order rows).Perm rows ∧
      (sort.sorted collation order rows).Pairwise
        (sort.Before collation order) := by
  have hDistinct :
      ∀ {β γ : Type} (column : ForecastRow 𝕜 → β)
        (key : ForecastRow 𝕜 → γ),
        (∀ a b, key a = key b →
          column a = column b ∧ a.hostId = b.hostId) →
          (rows.map key).Nodup := by
    intro β γ column key hKey
    apply List.Nodup.map_on _ hHosts.of_map
    intro a hA b hB hSame
    exact
      List.inj_on_of_nodup_map hHosts hA hB (hKey a b hSame).2
  cases sort with
  | risk =>
      exact orderBy_perm_pairwise collation order _
        (hDistinct _)
  | observedRisk =>
      exact orderBy_perm_pairwise collation order _
        (hDistinct _)
  | host =>
      exact orderBy_perm_pairwise collation order _
        (hDistinct _)
  | lastSeen =>
      exact orderBy_perm_pairwise collation order _
        (hDistinct _)

/-
  In one group, the least row by host and time is the latest.
-/
theorem mem_latestRows
    (collation : Collation κ)
    {cfg : PersisterConfig 𝕜}
    {messages : List (Forecast 𝕜)}
    {w : Persister.World 𝕜}
    (hStored : Stored cfg messages w)
    {tenant : Uuid}
    {row : ForecastRow 𝕜} :
    row ∈ latestRows collation w.forecasts tenant ↔
      row ∈ w.forecasts ∧ row.tenantId = tenant ∧
        ∀ r ∈ w.forecasts,
          r.tenantId = tenant → r.hostId = row.hostId →
            r.originTs ≤ row.originTs := by
  let ours :=
    w.forecasts.filter (fun row => row.tenantId = tenant)
  have hOurs :
      ∀ row, row ∈ ours ↔
        row ∈ w.forecasts ∧ row.tenantId = tenant := by
    intro row
    simp [ours]
  let key : ForecastRow 𝕜 → κ ×ₗ ℚᵒᵈ := fun row =>
    toLex (collation.key row.hostId, OrderDual.toDual row.originTs)
  have hRows : (ours.map rowKey).Nodup :=
    hStored.keys_nodup.sublist (List.filter_sublist.map _)
  have hTenants : ∀ row ∈ ours, row.tenantId = tenant :=
    fun row hRow => ((hOurs row).mp hRow).2
  have hDistinct : (ours.map key).Nodup := by
    refine nodup_map_of_tenant ?_ hRows hTenants
    intro a b hSame
    rcases Prod.mk.injEq _ _ _ _ ▸ hSame with ⟨hHost, hTs⟩
    exact ⟨hTs, collation.key_injective hHost⟩
  unfold latestRows
  rw [mem_distinctOn_sortByKey hDistinct, hOurs, and_assoc]
  refine and_congr_right (fun _ => and_congr_right ?_)
  intro _
  constructor
  · intro hLeast r hR hTenant hHost
    have hLe := hLeast r ((hOurs r).mpr ⟨hR, hTenant⟩) hHost
    rcases Prod.Lex.toLex_le_toLex.mp hLe with hLt | hLe
    · rw [hHost] at hLt
      exact absurd hLt (lt_irrefl _)
    · exact OrderDual.toDual_le_toDual.mp hLe.2
  · intro hLeast r hR hHost
    rcases (hOurs r).mp hR with ⟨hMem, hTenant⟩
    apply Prod.Lex.toLex_le_toLex.mpr
    exact
      Or.inr ⟨by rw [hHost], hLeast r hMem hTenant hHost⟩

omit [Zero 𝕜] [One 𝕜] [LinearOrder 𝕜] in
/- A host that has a row has a latest row. -/
theorem exists_mem_latestRows
    (collation : Collation κ)
    {rows : List (ForecastRow 𝕜)}
    {row : ForecastRow 𝕜}
    (hRow : row ∈ rows) :
    ∃ latest ∈ latestRows collation rows row.tenantId,
      latest.hostId = row.hostId := by
  unfold latestRows
  apply exists_mem_distinctOn ForecastRow.hostId
  apply mem_sortByKey.mpr
  simp [hRow]

/-
  The host view shows, as far as its limit goes and in the
  order that was asked for, the latest stored forecast of each
  host of the tenant, every host once. A host whose forecast
  was acknowledged is among them, at that forecast or a later
  one.
-/
theorem hosts_are_latest
    (collation : Collation κ)
    (pages : PageConfig)
    (cfg : PersisterConfig 𝕜)
    (messages : List (Forecast 𝕜))
    (now : ℚ)
    (events : List Persister.Event)
    (tenant : Uuid)
    (sort : HostSort)
    (order : SortOrder)
    (limit : Option ℕ) :
    let w :=
      (Persister.World.start now).runEvents cfg messages events
    ∃ latest : List (ForecastRow 𝕜),
      (∀ row, row ∈ latest ↔
        row ∈ w.forecasts ∧ row.tenantId = tenant ∧
          ∀ r ∈ w.forecasts,
            r.tenantId = tenant → r.hostId = row.hostId →
              r.originTs ≤ row.originTs) ∧
      (latest.map ForecastRow.hostId).Nodup ∧
      latest.Pairwise (sort.Before collation order) ∧
      (listHosts collation pages w.forecasts tenant sort order
          limit).hosts =
        (latest.take (resolvedLimit pages limit)).map fields ∧
      ∀ m ∈ w.acked, ∀ payload ∈ messages[m]?, ∀ peak,
        accepted cfg payload = some (tenant, peak) →
          ∃ row ∈ latest,
            row.hostId = payload.hostId ∧
              payload.originTs ≤ row.originTs := by
  intro w
  have hStart :
      Stored cfg messages (Persister.World.start now) :=
    stored_start now
  have hStored : Stored cfg messages w :=
    (stored_run hStart events).1
  have hHosts :
      ((latestRows collation w.forecasts tenant).map
        ForecastRow.hostId).Nodup :=
    nodup_map_distinctOn _ _
  rcases sorted_perm_pairwise collation sort order hHosts with
    ⟨hPerm, hSorted⟩
  refine
    ⟨sort.sorted collation order
        (latestRows collation w.forecasts tenant),
      ?_, ?_, hSorted, rfl, ?_⟩
  · intro row
    rw [hPerm.mem_iff]
    exact mem_latestRows collation hStored
  · exact (hPerm.map _).nodup_iff.mpr hHosts
  · intro m hM payload hPayload peak hAccepted
    rcases hStored.acked m hM payload hPayload tenant peak
        hAccepted with
      ⟨row, hRow, hKey⟩
    have hTenant : row.tenantId = tenant :=
      congrArg Prod.fst hKey
    have hHost : row.hostId = payload.hostId :=
      congrArg (fun k => k.2.1) hKey
    have hTs : row.originTs = payload.originTs :=
      congrArg (fun k => k.2.2) hKey
    rcases exists_mem_latestRows collation hRow with
      ⟨shown, hShown, hSame⟩
    rw [hTenant] at hShown
    have hLatest :=
      ((mem_latestRows collation hStored).mp hShown).2.2
    refine
      ⟨shown, hPerm.mem_iff.mpr hShown, hSame.trans hHost, ?_⟩
    rw [← hTs]
    exact hLatest row hRow hTenant hSame.symm

------------------------------------------------------------
-- One forecast in full
------------------------------------------------------------

theorem check_of_accepted
    {cfg : PersisterConfig 𝕜}
    {payload : Forecast 𝕜}
    {entry : Uuid × 𝕜}
    (hAccepted : accepted cfg payload = some entry) :
    payload.check cfg.horizonK = none := by
  unfold accepted at hAccepted
  cases hCheck : payload.check cfg.horizonK with
  | none => rfl
  | some error =>
      rw [hCheck] at hAccepted
      cases hAccepted

/- The forecast of a row is shown for the key of the row. -/
theorem getForecast_of_mem
    {cfg : PersisterConfig 𝕜}
    {messages : List (Forecast 𝕜)}
    {w : Persister.World 𝕜}
    (hStored : Stored cfg messages w)
    {row : ForecastRow 𝕜}
    (hRow : row ∈ w.forecasts) :
    getForecast cfg.horizonK w.forecasts row.tenantId
        row.hostId row.originTs =
      .ok row.payload := by
  have hFind :
      w.forecasts.find? (fun r =>
          r.tenantId = row.tenantId ∧ r.hostId = row.hostId ∧
            r.originTs = row.originTs) =
        some row := by
    have hKey :=
      List.find?_of_nodup_map hStored.keys_nodup hRow
    simpa [rowKey, Prod.mk.injEq] using hKey
  rcases hStored.written row hRow with
    ⟨payload, _, peak, hAccepted, hSame⟩
  have hPayload : row.payload = payload := by
    rw [hSame]
    rfl
  unfold getForecast
  rw [hFind]
  dsimp only
  rw [hPayload, check_of_accepted hAccepted]

/-
  What is shown for a host and a time is a message that was
  accepted for them, and once it is shown it is shown ever
  after. It never fails the check on the way out, and whoever
  asks for a message that was acknowledged is shown one.
-/
theorem forecast_kept
    (cfg : PersisterConfig 𝕜)
    (messages : List (Forecast 𝕜))
    (now : ℚ)
    (events later : List Persister.Event) :
    let w :=
      (Persister.World.start now).runEvents cfg messages events
    let w' := w.runEvents cfg messages later
    (∀ tenant host ts,
      getForecast cfg.horizonK w.forecasts tenant host ts =
          .error .notFound ∨
        ∃ payload ∈ messages, ∃ peak,
          accepted cfg payload = some (tenant, peak) ∧
            payload.hostId = host ∧
            payload.originTs = ts ∧
            getForecast cfg.horizonK w.forecasts tenant host
                ts =
              .ok payload ∧
            getForecast cfg.horizonK w'.forecasts tenant host
                ts =
              .ok payload) ∧
      ∀ m ∈ w.acked, ∀ payload ∈ messages[m]?,
        ∀ tenant peak,
          accepted cfg payload = some (tenant, peak) →
            getForecast cfg.horizonK w.forecasts tenant
                payload.hostId payload.originTs ≠
              .error .notFound := by
  intro w w'
  have hStart :
      Stored cfg messages (Persister.World.start now) :=
    stored_start now
  have hStored : Stored cfg messages w :=
    (stored_run hStart events).1
  rcases stored_run hStored later with ⟨hLater, hPrefix⟩
  constructor
  · intro tenant host ts
    cases hFind :
        w.forecasts.find? (fun row =>
          row.tenantId = tenant ∧ row.hostId = host ∧
            row.originTs = ts) with
    | none =>
        left
        unfold getForecast
        rw [hFind]
    | some row =>
        right
        have hRow := List.mem_of_find?_eq_some hFind
        have hKey := List.find?_some hFind
        rcases of_decide_eq_true hKey with ⟨rfl, rfl, rfl⟩
        rcases hStored.written row hRow with
          ⟨payload, hMessage, peak, hAccepted, hSame⟩
        have hShown := getForecast_of_mem hStored hRow
        have hShown' :=
          getForecast_of_mem hLater (hPrefix.subset hRow)
        have hPayload : row.payload = payload := by
          rw [hSame]
          rfl
        rw [hPayload] at hShown hShown'
        refine
          ⟨payload, hMessage, peak, hAccepted, ?_, ?_, hShown,
            hShown'⟩
        · rw [hSame]
          rfl
        · rw [hSame]
          rfl
  · intro m hM payload hPayload tenant peak hAccepted hNone
    rcases hStored.acked m hM payload hPayload tenant peak
        hAccepted with
      ⟨row, hRow, hKey⟩
    have hShown := getForecast_of_mem hStored hRow
    unfold rowKey keyOf at hKey
    simp only [Prod.mk.injEq] at hKey
    rw [hKey.1, hKey.2.1, hKey.2.2, hNone] at hShown
    cases hShown

end Reading

end Forecasts

end Api

end Nidra
