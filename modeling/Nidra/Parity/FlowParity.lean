import Nidra.Lib.Words
import Nidra.Parity.Clocks
import Nidra.Parity.FlowStats
import Nidra.Training.FlowLoad

/-
  This file compares the flow features that are served for
  some rows of a published table with the ones that training
  computes for them. Ingest turns microseconds into seconds
  and training does not, so the features of durations and of
  times between packets differ unless these are all zero.

  Key definitions include:
    * `printed`, `inSeconds`
    * `exactEvent`, `servedFlows`
    * `Published`, `Parseable`
    * `FlowParity`, `Timeless`

  Main declarations:
    * `rowToEvent_exact`
    * `mem_sources_of_mem_renamed`
    * `flowStats_served_iff`
    * `flowParity_iff`
-/

namespace Nidra

namespace Parity

open Features Ingest Training

variable {ι : Type}

------------------------------------------------------------
-- What is served for a row
------------------------------------------------------------

section Rows

variable (pd : Pandas)
variable (frame : Frame ι)

/- The numbers of a row as the table prints them. -/
def printed (row : Row ι) : FlowNumbers ℚ :=
  fun field => (frame.numericCell pd field row).value

/- Numbers in seconds where the table has microseconds. -/
def inSeconds (x : FlowNumbers ℚ) : FlowNumbers ℚ :=
  fun field =>
    if field ∈ csvMicroseconds then
      x field / microsecondsPerSecond
    else x field

/- The number that a port or protocol cell is read as. -/
def readInt (text : Option String) : Option ℤ :=
  match optionalInt text with
  | .ok value => value
  | .error _ => none

theorem measurements_nonempty (x : FlowNumbers ℚ) :
    x.measurements.Nonempty :=
  ⟨.duration, nofun⟩

/-
  The event of a row in exact arithmetic: its seconds are not
  rounded to a float.
-/
def exactEvent
    (tenantId jobId : String)
    (timed : TimedRow ι) : RawEvent ℚ :=
  let row := timed.row
  { tenantId := tenantId
    jobId := jobId
    ts := ofMicroseconds (timed.ns / 1000)
    srcIp := frame.address pd .srcIp row
    dstIp := frame.address pd .dstIp row
    srcPort := readInt (frame.cellOf .srcPort row)
    dstPort := readInt (frame.cellOf .dstPort row)
    protocol := readInt (frame.cellOf .protocol row)
    measurements :=
      (inSeconds (printed pd frame row)).measurements
    label := frame.labelOf row
    nonempty := measurements_nonempty _ }

/- The numbers of a row with its seconds rounded. -/
def nearestSeconds (x : FlowNumbers ℚ) : FlowNumbers ℚ :=
  fun field =>
    if field ∈ csvMicroseconds then
      PyFloat.nearest (inSeconds x field)
    else x field

/- The features that are served for the events of rows. -/
def servedFlows
    (tenantId jobId : String)
    (rows : List (TimedRow ι)) : FlowFeature → ℚ :=
  flowFeatures
    (WindowAccumulator.fromHash
      (windowHash
        (rows.map (exactEvent pd frame tenantId jobId))))

end Rows

section Events

variable {pd : Pandas}
variable {frame : Frame ι}

theorem nearest_zero : PyFloat.nearest 0 = 0 := by
  simp [PyFloat.nearest, PyFloat.nearestMultiple,
    roundHalfEven]

theorem value_flowValue
    (row : Row ι)
    (field : FlowField) :
    (frame.flowValue pd row field).value =
      nearestSeconds (printed pd frame row) field := by
  unfold Frame.flowValue nearestSeconds inSeconds printed
  split
  · cases frame.numericCell pd field row with
    | finite value => rfl
    | inf negative =>
        simp [PyFloat.div, PyFloat.value, nearest_zero]
    | nan => simp [PyFloat.div, PyFloat.value, nearest_zero]
  · rfl

theorem readInt_of_ok
    {text : Option String}
    {value : Option ℤ}
    (hOk : optionalInt text = .ok value) :
    readInt text = value := by
  rw [readInt, hOk]

/-
  The event that ingest makes of a row is the exact one, but
  for the rounding of its seconds.
-/
theorem rowToEvent_exact
    [DecidableEq ι]
    {kept : List (TimedRow ι)}
    {tenantId jobId : String}
    {timed : TimedRow ι}
    {event : RawEvent ℚ}
    (hOk :
      rowToEvent pd frame kept tenantId jobId timed =
        .ok event) :
    event =
      { exactEvent pd frame tenantId jobId timed with
        measurements :=
          (nearestSeconds
            (printed pd frame timed.row)).measurements
        nonempty := measurements_nonempty _ } := by
  simp only [rowToEvent, Except.bind_eq_ok_iff] at hOk
  rcases hOk with
    ⟨_, _, srcPort, hSrc, dstPort, hDst, protocol, hProtocol,
      hEvent⟩
  have hNumbers :
      flowMeasurements (frame.flowValue pd timed.row) =
        (nearestSeconds
          (printed pd frame timed.row)).measurements := by
    unfold flowMeasurements FlowNumbers.measurements
    simp only [value_flowValue]
  unfold flowEvent at hEvent
  dsimp only at hEvent
  split at hEvent
  · cases hEvent
    simp only [exactEvent, readInt_of_ok hSrc,
      readInt_of_ok hDst, readInt_of_ok hProtocol, hNumbers]
  · cases hEvent

end Events

------------------------------------------------------------
-- Columns of both
------------------------------------------------------------

section Columns

variable {pd : Pandas}
variable {frame : Frame ι}

/- White space around a column name does not matter. -/
theorem normaliseColumn_strip (name : String) :
    normaliseColumn (PyText.strip name) =
      normaliseColumn name := by
  have hSpace :
      ∀ c, PyText.isSpace c = true →
        PyText.isSpace (if c = '_' then ' ' else c) = true := by
    intro c hC
    split
    · rfl
    · exact hC
  unfold normaliseColumn
  rw [PyText.words_map_strip hSpace]

/- Every published name is one that ingest knows. -/
theorem lookup_renameMap :
    ∀ entry ∈ renameMap,
      cicColumns.lookup (normaliseColumn entry.1) =
        some (.flow (columnField entry.2)) := by
  decide +kernel

/- A column that training reads is one that ingest reads. -/
theorem mem_sources_of_mem_renamed
    {column : FlowColumn}
    {name : String}
    (hName : name ∈ renamed frame column) :
    name ∈ frame.sources (.flow (columnField column)) := by
  rcases List.mem_filter.mp hName with ⟨hColumn, hLookup⟩
  rw [decide_eq_true_eq] at hLookup
  rcases List.lookup_eq_some_iff.mp hLookup with
    ⟨before, after, hSplit, _⟩
  have hEntry : (PyText.strip name, column) ∈ renameMap := by
    rw [hSplit]
    simp
  have hKnown := lookup_renameMap _ hEntry
  rw [normaliseColumn_strip] at hKnown
  exact
    List.mem_filter.mpr ⟨hColumn, decide_eq_true hKnown⟩

/-
  A table with every column of numbers, and with one column
  only that ingest takes for each.
-/
structure Published (frame : Frame ι) : Prop where
  named : ∀ column, renamed frame column ≠ []
  once :
    ∀ column,
      (frame.sources
        (.flow (columnField column))).length ≤ 1

/- A row with a number in each of the columns. -/
def Parseable
    (pd : Pandas)
    (frame : Frame ι)
    (row : Row ι) : Prop :=
  ∀ column,
    ∀ name ∈ renamed frame column,
      (pd.toNumeric (row.cell name)).isFinite = true

theorem eq_singleton_of_mem
    {names : List String}
    (hLength : names.length ≤ 1)
    {name : String}
    (hName : name ∈ names) :
    names = [name] := by
  cases names with
  | nil => cases hName
  | cons first rest =>
      have hRest : rest = [] := by
        rw [List.length_cons] at hLength
        exact List.length_eq_zero_iff.mp (by omega)
      rw [hRest, List.mem_singleton] at hName
      rw [hRest, hName]

/- Both pipelines read a number from the same column. -/
theorem Published.columns
    (hPublished : Published frame)
    (column : FlowColumn) :
    ∃ name,
      renamed frame column = [name] ∧
        frame.sources (.flow (columnField column)) = [name] := by
  have hOnce := hPublished.once column
  have hSub :
      renamed frame column ⊆
        frame.sources (.flow (columnField column)) :=
    fun _ hName => mem_sources_of_mem_renamed hName
  have hFewer :=
    ((frame.distinct.filter _).subperm hSub).length_le
  rcases List.exists_mem_of_ne_nil _
      (hPublished.named column) with
    ⟨name, hName⟩
  exact
    ⟨name, eq_singleton_of_mem (hFewer.trans hOnce) hName,
      eq_singleton_of_mem hOnce (hSub hName)⟩

/- Training loads the numbers that the table prints. -/
theorem loadedColumns_printed
    (hPublished : Published frame)
    {row : Row ι}
    (hParseable : Parseable pd frame row)
    (column : FlowColumn) :
    loadedColumns pd frame row column =
      some (printed pd frame row (columnField column)) := by
  rcases hPublished.columns column with
    ⟨name, hRenamed, hSource⟩
  have hFinite :
      (pd.toNumeric (row.cell name)).isFinite = true :=
    hParseable column name (by rw [hRenamed]; simp)
  unfold printed Frame.numericCell
  rw [hSource]
  cases hNumber : pd.toNumeric (row.cell name) with
  | finite value =>
      have hCell :
          cellNumber pd frame row column =
            some (.finite value) := by
        rw [cellNumber, hRenamed, List.head?_cons,
          Option.map_some, hNumber]
      rw [loadedColumns_eq hCell]
      simp only [hNumber]
      rfl
  | inf negative =>
      rw [hNumber] at hFinite
      cases hFinite
  | nan =>
      rw [hNumber] at hFinite
      cases hFinite

/- A row of a table as it is loaded for training. -/
def LoadedAs
    (pd : Pandas)
    (frame : Frame ι)
    (timed : TimedRow ι)
    (row : FlowRow ℚ) : Prop :=
  loadRow pd frame timed.row = some row.columns

theorem carries_of_loadedAs
    (hPublished : Published frame)
    {timed : TimedRow ι}
    (hParseable : Parseable pd frame timed.row)
    {row : FlowRow ℚ}
    (hLoaded : LoadedAs pd frame timed row) :
    Carries row (printed pd frame timed.row) := by
  intro column
  unfold LoadedAs loadRow at hLoaded
  split at hLoaded
  · cases hLoaded
  · rw [← Option.some.inj hLoaded]
    exact
      loadedColumns_printed hPublished hParseable column

end Columns

------------------------------------------------------------
-- Numbers in another unit
------------------------------------------------------------

section Units

variable {flows : List (FlowNumbers ℚ)}

/- What is served of some numbers. -/
def servedNumbers (x : FlowNumbers ℚ) : FlowNumbers ℚ :=
  bucketed (inSeconds x)

theorem microseconds_ne_one :
    microsecondsPerSecond ≠ 1 := by
  norm_num [microsecondsPerSecond]

theorem microseconds_pos :
    0 < microsecondsPerSecond := by
  norm_num [microsecondsPerSecond]

/- Only zero is the same number in another unit. -/
theorem div_eq_iff_zero
    {x c : ℚ}
    (hPos : 0 < c)
    (hOne : c ≠ 1) :
    x / c = x ↔ x = 0 := by
  rw [div_eq_iff hPos.ne']
  constructor
  · intro hSame
    have hProduct : x * (c - 1) = 0 := by
      rw [mul_sub, mul_one, ← hSame, sub_self]
    rcases mul_eq_zero.mp hProduct with hZero | hUnit
    · exact hZero
    · exact absurd (sub_eq_zero.mp hUnit) hOne
  · rintro rfl
    rw [zero_mul]

/- The bucket of microseconds that are taken for seconds. -/
theorem bucket_eq_iff
    (x : ℚ) :
    roundTo 6 (x / microsecondsPerSecond) = x ↔ x = 0 := by
  have hScaled :
      roundTo 6 (x / microsecondsPerSecond) =
        (roundHalfEven x : ℚ) / 1000000 := by
    unfold roundTo microsecondsPerSecond
    norm_num
  rw [hScaled, div_eq_iff (by norm_num)]
  constructor
  · intro hSame
    -- The integer is at once near the number and far larger.
    have hNear := abs_roundHalfEven_sub_le x
    rw [hSame, abs_le] at hNear
    have hAbove : (roundHalfEven x : ℚ) < (1 : ℤ) := by
      rw [hSame]
      push_cast
      linarith
    have hBelow : ((-1 : ℤ) : ℚ) < roundHalfEven x := by
      rw [hSame]
      push_cast
      linarith
    have hZero : roundHalfEven x = 0 := by
      have hLt : roundHalfEven x < 1 := by
        exact_mod_cast hAbove
      have hGt : -1 < roundHalfEven x := by
        exact_mod_cast hBelow
      omega
    rw [hZero, Int.cast_zero] at hSame
    linarith
  · rintro rfl
    simp [roundHalfEven]

theorem bucket_mono :
    Monotone
      (fun x : ℚ => roundTo 6 (x / microsecondsPerSecond)) := by
  intro x y hLe
  exact
    roundTo_mono 6
      (div_le_div_of_nonneg_right hLe microseconds_pos.le)

theorem numbersOf_duration :
    numbersOf .duration (flows.map servedNumbers) =
      (numbersOf .duration flows).map
        (fun v => v / microsecondsPerSecond) := by
  unfold numbersOf
  rw [List.map_map, List.map_map]
  rfl

theorem numbersOf_iatMean :
    numbersOf .iatMean (flows.map servedNumbers) =
      (numbersOf .iatMean flows).map
        (fun v => v / microsecondsPerSecond) := by
  unfold numbersOf
  rw [List.map_map, List.map_map]
  rfl

theorem numbersOf_iatMax :
    numbersOf .iatMax (flows.map servedNumbers) =
      (numbersOf .iatMax flows).map
        (fun v => roundTo 6 (v / microsecondsPerSecond)) := by
  unfold numbersOf
  rw [List.map_map, List.map_map]
  rfl

/- Whether a feature is of a duration or time between. -/
def IsTime : FlowFeature → Prop
  | .flowDurationMean => True
  | .flowDurationVar => True
  | .iatMean => True
  | .iatVar => True
  | .iatMax => True
  | _ => False

/- The ten features without a unit of time are the same. -/
theorem flowStats_served
    {name : FlowFeature}
    (hCounts : ¬ IsTime name) :
    flowStats (flows.map servedNumbers) name =
      flowStats flows name := by
  have hSame :
      ∀ field,
        (∀ x, servedNumbers x field = x field) →
        numbersOf field (flows.map servedNumbers) =
          numbersOf field flows := by
    intro field hField
    unfold numbersOf
    rw [List.map_map]
    exact List.map_congr_left (fun x _ => hField x)
  have hPackets :
      (flows.map servedNumbers).map FlowNumbers.packets =
        flows.map FlowNumbers.packets := by
    rw [List.map_map]
    rfl
  have hShare :
      ∀ flag,
        flagShare (flows.map servedNumbers) flag =
          flagShare flows flag := by
    intro flag
    unfold flagShare
    rw [hPackets, hSame (.flagCount flag)]
    intro x
    cases flag <;> rfl
  cases name with
  | synRatio => exact hShare .syn
  | ackRatio => exact hShare .ack
  | rstRatio => exact hShare .rst
  | finRatio => exact hShare .fin
  | pshRatio => exact hShare .psh
  | urgRatio => exact hShare .urg
  | bytesTotal =>
      unfold flowStats
      rw [hSame .bytesFwd (fun _ => rfl),
        hSame .bytesBwd (fun _ => rfl)]
  | bytesUpDownRatio =>
      unfold flowStats
      rw [hSame .bytesFwd (fun _ => rfl),
        hSame .bytesBwd (fun _ => rfl)]
  | pktsPerFlowMean => exact congrArg average hPackets
  | activeFlowCount =>
      exact congrArg Nat.cast (List.length_map _)
  | flowDurationMean => exact absurd trivial hCounts
  | flowDurationVar => exact absurd trivial hCounts
  | iatMean => exact absurd trivial hCounts
  | iatVar => exact absurd trivial hCounts
  | iatMax => exact absurd trivial hCounts

/-
  A mean and a variance are the same in another unit exactly
  if all values are zero.
-/
theorem sameMoments_iff
    {values : List ℚ}
    (hSome : values ≠ []) :
    average
          (values.map (fun v => v / microsecondsPerSecond)) =
        average values ∧
      Series.populationVariance
          (values.map (fun v => v / microsecondsPerSecond)) =
        Series.populationVariance values ↔
      ∀ v ∈ values, v = 0 := by
  rw [Series.average_map_div, Series.populationVariance_map_div,
    div_eq_iff_zero microseconds_pos microseconds_ne_one,
    div_eq_iff_zero (pow_pos microseconds_pos 2)
      (by norm_num [microsecondsPerSecond]),
    Series.forall_eq_zero_iff hSome]

/-
  All durations and mean times between packets are zero, and
  so is the largest of the longest times.
-/
structure Timeless (flows : List (FlowNumbers ℚ)) : Prop where
  duration : ∀ v ∈ numbersOf .duration flows, v = 0
  iatMean : ∀ v ∈ numbersOf .iatMean flows, v = 0
  iatMax : largest (numbersOf .iatMax flows) = 0

theorem flowStats_served_iff
    (hSome : flows ≠ []) :
    flowStats (flows.map servedNumbers) = flowStats flows ↔
      Timeless flows := by
  have hValues : ∀ field, numbersOf field flows ≠ [] := by
    intro field
    simpa [numbersOf] using hSome
  have hDuration := sameMoments_iff (hValues .duration)
  have hIat := sameMoments_iff (hValues .iatMean)
  rw [← numbersOf_duration] at hDuration
  rw [← numbersOf_iatMean] at hIat
  have hMax :
      largest
          (numbersOf .iatMax (flows.map servedNumbers)) =
        largest (numbersOf .iatMax flows) ↔
      largest (numbersOf .iatMax flows) = 0 := by
    rw [numbersOf_iatMax,
      largest_map bucket_mono (hValues .iatMax),
      bucket_eq_iff]
  constructor
  · intro hSame
    have hName := congrFun hSame
    exact
      { duration :=
          hDuration.mp
            ⟨hName .flowDurationMean, hName .flowDurationVar⟩
        iatMean := hIat.mp ⟨hName .iatMean, hName .iatVar⟩
        iatMax := hMax.mp (hName .iatMax) }
  · intro hZero
    have hDurations := hDuration.mpr hZero.duration
    have hIats := hIat.mpr hZero.iatMean
    funext name
    cases name with
    | flowDurationMean => exact hDurations.1
    | flowDurationVar => exact hDurations.2
    | iatMean => exact hIats.1
    | iatVar => exact hIats.2
    | iatMax => exact hMax.mpr hZero.iatMax
    | _ => exact flowStats_served id

end Units

------------------------------------------------------------
-- Parity
------------------------------------------------------------

/- The features that are served are those of training. -/
def FlowParity
    (served : FlowFeature → ℚ)
    (trained : Option (FlowFeature → Option ℚ)) : Prop :=
  trained = some (fun name => some (served name))

section Table

variable {pd : Pandas}
variable {frame : Frame ι}

/- The order in which rows are served does not matter. -/
theorem servedFlows_perm
    {rows served : List (TimedRow ι)}
    (hServed : served.Perm rows)
    (tenantId jobId : String) :
    servedFlows pd frame tenantId jobId served =
      servedFlows pd frame tenantId jobId rows := by
  apply flowFeatures_congr
  apply sameAccumulator_fromHash
  exact
    Tally.same_foldl_merge (fun _ => rfl)
      ((hServed.map _).map _)

/- What is served of rows, from the numbers they print. -/
theorem servedFlows_eq_flowStats
    (rows : List (TimedRow ι))
    (tenantId jobId : String) :
    servedFlows pd frame tenantId jobId rows =
      flowStats
        ((rows.map
          (fun timed => printed pd frame timed.row)).map
            servedNumbers) := by
  have hNumbers :
      List.Forall₂
        (fun (event : RawEvent ℚ) x =>
          event.measurements = FlowNumbers.measurements x)
        (rows.map (exactEvent pd frame tenantId jobId))
        (rows.map
          (fun timed =>
            inSeconds (printed pd frame timed.row))) := by
    rw [List.forall₂_map_left_iff, List.forall₂_map_right_iff]
    exact List.forall₂_same.mpr (fun _ _ => rfl)
  unfold servedFlows
  rw [flowFeatures_eq_flowStats hNumbers, List.map_map,
    List.map_map]
  rfl

/-
  The features that are served for the rows of one host and
  window of a published table are the ones that training
  computes exactly if the rows print no time but zero.
-/
theorem flowParity_iff
    (hPublished : Published frame)
    {rows : List (TimedRow ι)}
    (hSome : rows ≠ [])
    (hParseable :
      ∀ timed ∈ rows, Parseable pd frame timed.row)
    {served : List (TimedRow ι)}
    (hServed : served.Perm rows)
    {table : List (FlowRow ℚ)}
    {key : HostWindow}
    (hTable :
      List.Forall₂ (LoadedAs pd frame) rows
        (table.filter (fun row => row.key = key)))
    (tenantId jobId : String) :
    FlowParity
        (servedFlows pd frame tenantId jobId served)
        (lookupKey (aggregateFlows table) key) ↔
      Timeless
        (rows.map
          (fun timed => printed pd frame timed.row)) := by
  have hFlows :
      rows.map (fun timed => printed pd frame timed.row) ≠
        [] := by
    simpa using hSome
  have hGroup :
      List.Forall₂ Carries
        (table.filter (fun row => row.key = key))
        (rows.map
          (fun timed => printed pd frame timed.row)) := by
    have hBoth :=
      (List.forall₂_and_left _ _).mpr ⟨hParseable, hTable⟩
    rw [List.forall₂_map_right_iff]
    exact
      (hBoth.imp (fun _ _ hRow =>
        carries_of_loadedAs hPublished hRow.1 hRow.2)).flip
  rw [FlowParity, aggregateFlows_eq_flowStats hFlows hGroup,
    servedFlows_perm hServed, servedFlows_eq_flowStats,
    ← flowStats_served_iff hFlows]
  constructor
  · intro hSame
    funext name
    have hName := congrFun (Option.some.inj hSame) name
    exact (Option.some.inj hName).symm
  · intro hSame
    rw [hSame]

end Table

------------------------------------------------------------
-- A flow of one and a half seconds
------------------------------------------------------------

def flowColumns : List String :=
  [" Source IP", " Destination IP", " Timestamp",
    " Flow Duration", " Total Fwd Packets",
    " Total Backward Packets", "Total Length of Fwd Packets",
    " Total Length of Bwd Packets", " Flow IAT Mean",
    " Flow IAT Max", " SYN Flag Count", " ACK Flag Count",
    " RST Flag Count", "FIN Flag Count", " PSH Flag Count",
    " URG Flag Count"]

/- A flow of two packets, 1500000 microseconds apart. -/
def slowCells : List (String × String) :=
  [(" Source IP", "10.0.0.5"),
    (" Destination IP", "10.0.0.9"),
    (" Timestamp", "7/7/2017 8:59"),
    (" Flow Duration", "1500000"),
    (" Total Fwd Packets", "2"),
    (" Flow IAT Mean", "1500000"),
    (" Flow IAT Max", "1500000")]

def slowRow : Row ℕ :=
  { label := 0
    cell := fun name =>
      some ((slowCells.lookup name).getD "0") }

def slowFrame : Frame ℕ :=
  { columns := flowColumns
    distinct := by decide
    rows := [slowRow] }

def slowTimed : TimedRow ℕ :=
  { row := slowRow
    ns := 1499417940 * nsPerSecond }

/- The row as training loads it. -/
def slowFlow : FlowRow ℚ :=
  { srcIp := "10.0.0.5"
    dstIp := "10.0.0.9"
    dstPort := 80
    windowTs := 1499428740
    label := "BENIGN"
    columns :=
      loadedColumns printedPandas slowFrame slowRow }

theorem mem_renameMap (column : FlowColumn) :
    ∃ entry ∈ renameMap, entry.2 = column := by
  cases column with
  | flagCount flag => cases flag <;> decide
  | _ => decide

theorem published_slowFrame : Published slowFrame := by
  have hAll :
      ∀ entry ∈ renameMap,
        (renamed slowFrame entry.2).length = 1 ∧
          (slowFrame.sources
            (.flow (columnField entry.2))).length = 1 := by
    decide +kernel
  constructor
  · intro column hNone
    rcases mem_renameMap column with ⟨entry, hEntry, rfl⟩
    have hOne := (hAll entry hEntry).1
    rw [hNone] at hOne
    cases hOne
  · intro column
    rcases mem_renameMap column with ⟨entry, hEntry, rfl⟩
    exact (hAll entry hEntry).2.le

theorem parseable_slowRow :
    Parseable printedPandas slowFrame slowRow := by
  have hAll :
      ∀ entry ∈ renameMap,
        ∀ name ∈ renamed slowFrame entry.2,
          (printedPandas.toNumeric
            (slowRow.cell name)).isFinite = true := by
    decide +kernel
  intro column
  rcases mem_renameMap column with ⟨entry, hEntry, rfl⟩
  exact hAll entry hEntry

theorem loadedAs_slowFlow :
    LoadedAs printedPandas slowFrame slowTimed slowFlow := by
  have hNumbers :
      badNumeric printedPandas slowFrame slowRow = false := by
    decide +kernel
  unfold LoadedAs loadRow
  exact if_neg (Bool.eq_false_iff.mp hNumbers)

/- It is the one flow of its host and window. -/
theorem tableOf_slowFlow :
    List.Forall₂ (LoadedAs printedPandas slowFrame)
      [slowTimed]
      ([slowFlow].filter (fun row =>
        row.key = ("10.0.0.5", 1499428740))) :=
  .cons loadedAs_slowFlow .nil

theorem flowParity_iff_slowFlow :
    FlowParity
        (servedFlows printedPandas slowFrame "tenant" "job"
          [slowTimed])
        (lookupKey (aggregateFlows [slowFlow])
          ("10.0.0.5", 1499428740)) ↔
      Timeless [printed printedPandas slowFrame slowRow] :=
  flowParity_iff published_slowFrame
    (List.cons_ne_nil _ _)
    (List.forall_mem_singleton.mpr parseable_slowRow)
    (List.Perm.refl _)
    tableOf_slowFlow
    "tenant" "job"

/- It is served as 1.5 long and was 1500000 in training. -/
theorem not_flowParity_slowFlow :
    servedFlows printedPandas slowFrame "tenant" "job"
          [slowTimed] .flowDurationMean = 3 / 2 ∧
      (lookupKey (aggregateFlows [slowFlow])
          ("10.0.0.5", 1499428740)).map
            (fun features => features .flowDurationMean) =
        some (some 1500000) ∧
      ¬ FlowParity
          (servedFlows printedPandas slowFrame "tenant" "job"
            [slowTimed])
          (lookupKey (aggregateFlows [slowFlow])
            ("10.0.0.5", 1499428740)) := by
  have hServed :
      servedFlows printedPandas slowFrame "tenant" "job"
        [slowTimed] .flowDurationMean = 3 / 2 := by
    decide +kernel
  have hTrained :
      (lookupKey (aggregateFlows [slowFlow])
          ("10.0.0.5", 1499428740)).map
            (fun features => features .flowDurationMean) =
        some (some 1500000) := by
    decide +kernel
  refine ⟨hServed, hTrained, ?_⟩
  intro hParity
  rw [hParity, Option.map_some] at hTrained
  beta_reduce at hTrained
  rw [hServed] at hTrained
  norm_num at hTrained

end Parity

end Nidra
