import Nidra.Data.DayTable
import Nidra.Ingest.Chunks
import Nidra.Lib.WallClock
import Nidra.Training.Timebase

/-
  This file compares the times that the ingest parser gives
  to the rows of a published table with the ones that they
  have in training. Only training takes the afternoon for
  what it is, so the rows of a morning and of an afternoon
  are twelve hours off.

  Key definitions include:
    * `ReadsDayFirst`
    * `servedTimes`
    * `BothRead`

  Main declarations:
    * `event_servedTs`
    * `rowsAgree_of_lift`
    * `clocksAgree_iff`
-/

namespace Nidra

namespace Parity

open Data Ingest Training

------------------------------------------------------------
-- What is read
------------------------------------------------------------

/- The clock of a text in nanoseconds. -/
def printedNs (text : String) : Option ℤ :=
  (WallClock.ofDayFirst text).map
    (fun t => t.seconds * nsPerSecond)

/- A time read from a text is the one that the text shows. -/
def Shows
    (cell : Option String)
    (time : Option ℤ) : Prop :=
  ∀ text ns printed,
    cell = some text → time = some ns →
      printedNs text = some printed → ns = printed

/-
  A reader of times with the day first: there is one time for
  each text, and what it accepts of a text that shows such a
  clock is that clock.
-/
def ReadsDayFirst
    (reader :
      List (Option String) → Option (List (Option ℤ))) :
    Prop :=
  ∀ cells times,
    reader cells = some times → List.Forall₂ Shows cells times

variable {ι : Type}

/- The texts of the times of a chunk. -/
def timeCells (frame : Frame ι) : List (Option String) :=
  match frame.sources .ts with
  | [name] => frame.rows.map (fun row => row.cell name)
  | _ => []

/- The time that the event of a row has. -/
def servedTs (ns : ℤ) : ℚ :=
  ofMicroseconds (ns / 1000)

/- The times of all rows of a table that comes in chunks. -/
def servedTimes
    (pd : Pandas)
    (frames : List (Frame ι)) :
    Except Raised (List (Option ℚ)) := do
  let times ← frames.mapM (readTimes pd)
  return times.flatten.map (Option.map servedTs)

/- The events of a chunk have the times of its rows. -/
theorem event_servedTs
    [DecidableEq ι]
    {pd : Pandas}
    {tenantId jobId : String}
    {frame : Frame ι}
    {events : List (RawEvent ℚ)}
    {dropped : ℕ}
    (hOk :
      csvChunkToEvents pd tenantId jobId frame =
        .ok (events, dropped)) :
    ∃ times,
      readTimes pd frame = .ok times ∧
        ∀ event ∈ events,
          ∃ ns, some ns ∈ times ∧ event.ts = servedTs ns := by
  rcases csvChunkToEvents_eq_ok_iff.mp hOk with
    ⟨_, times, hTimes, _, hRead, _⟩
  refine ⟨times, hTimes, ?_⟩
  intro event hEvent
  have hTs :
      events.map RawEvent.ts =
        (sortByKey TimedRow.ns (frame.kept times)).map
          (fun timed => servedTs timed.ns) :=
    List.map_eq_of_mapM (fun _ _ => rowToEvent_ts) hRead
  have hMem : event.ts ∈ events.map RawEvent.ts :=
    List.mem_map_of_mem hEvent
  rw [hTs, List.mem_map] at hMem
  rcases hMem with ⟨timed, hTimed, hSame⟩
  rw [mem_sortByKey] at hTimed
  rcases List.mem_filterMap.mp hTimed with
    ⟨⟨row, time⟩, hZip, hKept⟩
  refine ⟨timed.ns, ?_, hSame.symm⟩
  have hTime := (List.of_mem_zip hZip).2
  dsimp only at hKept hTime
  split at hKept
  · rcases Option.map_eq_some_iff.mp hKept with
      ⟨ns, rfl, rfl⟩
    exact hTime
  · cases hKept

/- The times of all chunks are those that the texts show. -/
theorem shows_of_mapM
    {pd : Pandas}
    (hReads : ReadsDayFirst pd.toDatetime)
    {frames : List (Frame ι)}
    {times : List (List (Option ℤ))}
    (hTimes : frames.mapM (readTimes pd) = .ok times) :
    List.Forall₂ Shows (frames.flatMap timeCells)
      times.flatten := by
  have hEach := List.forall₂_of_mapM hTimes
  clear hTimes
  induction hEach with
  | nil => exact .nil
  | @cons frame time frames times hFrame hRest ih =>
      rw [List.flatMap_cons, List.flatten_cons]
      refine List.rel_append ?_ ih
      rcases readTimes_eq_ok_iff.mp hFrame with
        ⟨name, hName, hParsed⟩
      unfold timeCells
      rw [hName]
      exact hReads _ _ hParsed

------------------------------------------------------------
-- Two rows
------------------------------------------------------------

/-
  A row of which both pipelines have read the time, and the
  clock that it shows.
-/
structure BothRead
    (cells : List (Option String))
    (served : List (Option ℚ))
    (trained : List (Option ℤ))
    (i : ℕ)
    (t : TimeFields)
    (servedAt : ℚ)
    (trainedAt : ℤ) : Prop where
  printed :
    ∃ text,
      cells[i]? = some (some text) ∧
        WallClock.ofDayFirst text = some t
  served : served[i]? = some (some servedAt)
  trained : trained[i]? = some (some trainedAt)

/- Hours that training takes to be past noon. -/
def IsPm (t : TimeFields) : Prop :=
  t.hour ≤ cic2017PmHourMax

theorem servedTs_seconds (s : ℤ) :
    servedTs (s * nsPerSecond) = s := by
  unfold servedTs ofMicroseconds nsPerSecond
    microsecondsPerSecond
  have hUs : s * 1000000000 / 1000 = s * 1000000 := by omega
  rw [hUs]
  push_cast
  field_simp

/-
  Training lifts a clock by its offset, and in the afternoon
  by twelve hours more.
-/
theorem liftClock_seconds
    {t : TimeFields}
    (hValid : t.Valid) :
    liftClock true cic2017UtcOffsetHours
        (t.seconds * nsPerSecond) / nsPerSecond =
      t.seconds + 10800 +
        if (t.hour : ℤ) ≤ cic2017PmHourMax then 43200
        else 0 := by
  have hHour := TimeFields.hour_seconds hValid
  have hSame :
      hourOf (t.seconds * nsPerSecond) = t.hour := by
    rw [← hHour]
    unfold hourOf nsPerHour nsPerSecond
      TimeFields.secondsPerHour
    omega
  unfold liftClock
  rw [hSame, Bool.true_and]
  unfold cic2017UtcOffsetHours nsPerHour nsPerSecond
  by_cases hPm : (t.hour : ℤ) ≤ cic2017PmHourMax
  · rw [if_pos hPm, decide_eq_true hPm, if_pos rfl]
    dsimp only
    omega
  · rw [if_neg hPm, decide_eq_false hPm,
      if_neg Bool.false_ne_true]
    dsimp only
    omega

theorem forall₂_getElem?
    {α β : Type}
    {R : α → β → Prop}
    {l : List α}
    {l' : List β}
    (hAll : List.Forall₂ R l l')
    {i : ℕ}
    {a : α}
    {b : β}
    (hA : l[i]? = some a)
    (hB : l'[i]? = some b) :
    R a b := by
  rcases List.getElem?_eq_some_iff.mp hA with ⟨hI, rfl⟩
  rcases List.getElem?_eq_some_iff.mp hB with ⟨hJ, rfl⟩
  exact hAll.get hI hJ

/- What both read of one row, from the clock that it shows. -/
theorem BothRead.times
    {pd : Pandas}
    (hServing : ReadsDayFirst pd.toDatetime)
    {reader :
      List (Option String) → Option (List (Option ℤ))}
    (hTraining : ReadsDayFirst reader)
    {frames : List (Frame ι)}
    {served : List (Option ℚ)}
    (hServed : servedTimes pd frames = .ok served)
    {trained : List (Option ℤ)}
    (hTrained :
      cicTimestamps reader (frames.flatMap timeCells) =
        some trained)
    {i : ℕ}
    {t : TimeFields}
    {servedAt : ℚ}
    {trainedAt : ℤ}
    (hBoth :
      BothRead (frames.flatMap timeCells) served trained i t
        servedAt trainedAt) :
    servedAt = t.seconds ∧
      trainedAt =
        t.seconds + 10800 +
          if (t.hour : ℤ) ≤ cic2017PmHourMax then 43200
          else 0 := by
  rcases hBoth.printed with ⟨text, hCell, hText⟩
  have hPrinted :
      printedNs text = some (t.seconds * nsPerSecond) := by
    unfold printedNs
    rw [hText]
    rfl
  constructor
  · rcases Except.bind_eq_ok_iff.mp hServed with
      ⟨times, hTimes, hMap⟩
    have hAt := hBoth.served
    cases hMap
    rw [List.getElem?_map, Option.map_eq_some_iff] at hAt
    rcases hAt with ⟨time, hTime, hSome⟩
    rcases Option.map_eq_some_iff.mp hSome with
      ⟨ns, rfl, rfl⟩
    have hShows :=
      forall₂_getElem? (shows_of_mapM hServing hTimes) hCell
        hTime
    rw [hShows text ns _ rfl rfl hPrinted,
      servedTs_seconds]
  · rcases Option.map_eq_some_iff.mp hTrained with
      ⟨times, hTimes, rfl⟩
    have hAt := hBoth.trained
    rw [List.getElem?_map, Option.map_eq_some_iff] at hAt
    rcases hAt with ⟨time, hTime, hSome⟩
    rcases Option.map_eq_some_iff.mp hSome with
      ⟨ns, rfl, rfl⟩
    have hShows :=
      forall₂_getElem? (hTraining _ _ hTimes) hCell hTime
    rw [hShows text ns _ rfl rfl hPrinted]
    exact
      liftClock_seconds (WallClock.valid_of_ofDayFirst hText)

/- Times that are moved by whole windows stay in theirs. -/
theorem alignWindow_add
    {windowSeconds : ℤ}
    (hPos : 0 < windowSeconds)
    (x : ℚ)
    {c : ℤ}
    (hWhole : windowSeconds ∣ c) :
    alignWindow (x + c) windowSeconds =
      alignWindow x windowSeconds + c := by
  rcases hWhole with ⟨k, rfl⟩
  have hNe : (windowSeconds : ℚ) ≠ 0 := by
    exact_mod_cast hPos.ne'
  have hShift :
      (x + ((windowSeconds * k : ℤ) : ℚ)) / windowSeconds =
        x / windowSeconds + (k : ℤ) := by
    push_cast
    field_simp
  unfold alignWindow
  rw [hShift, Int.floor_add_intCast]
  ring

/-
  Two rows are as far apart in both pipelines, are in the
  same order, and are as many windows apart, for windows of
  which the offset of the clock is a whole number.
-/
structure RowsAgree
    (servedT servedU : ℚ)
    (trainedT trainedU : ℤ) : Prop where
  apart : servedU - servedT = ((trainedU - trainedT : ℤ) : ℚ)
  order : servedT ≤ servedU ↔ trainedT ≤ trainedU
  windows :
    ∀ windowSeconds, 0 < windowSeconds →
      windowSeconds ∣ cic2017UtcOffsetHours * 3600 →
        alignWindow servedU windowSeconds -
            alignWindow servedT windowSeconds =
          alignWindow trainedU windowSeconds -
            alignWindow trainedT windowSeconds

/- Rows that are lifted by the same whole hours agree. -/
theorem rowsAgree_of_lift
    {s s' lift : ℤ}
    (hWhole : cic2017UtcOffsetHours * 3600 ∣ lift) :
    RowsAgree s s' (s + lift) (s' + lift) := by
  refine { apart := ?_, order := ?_, windows := ?_ }
  · push_cast
    ring
  · rw [Int.cast_le]
    omega
  · intro windowSeconds hPos hDvd
    have hLift := hDvd.trans hWhole
    rw [Int.cast_add, Int.cast_add,
      alignWindow_add hPos _ hLift,
      alignWindow_add hPos _ hLift]
    ring

/-
  Two rows of a table agree in both pipelines exactly if both
  or none of their clocks show an hour that training takes to
  be past noon.
-/
theorem clocksAgree_iff
    {pd : Pandas}
    (hServing : ReadsDayFirst pd.toDatetime)
    {reader :
      List (Option String) → Option (List (Option ℤ))}
    (hTraining : ReadsDayFirst reader)
    {frames : List (Frame ι)}
    {served : List (Option ℚ)}
    (hServed : servedTimes pd frames = .ok served)
    {trained : List (Option ℤ)}
    (hTrained :
      cicTimestamps reader (frames.flatMap timeCells) =
        some trained)
    {i j : ℕ}
    {t u : TimeFields}
    {servedT servedU : ℚ}
    {trainedT trainedU : ℤ}
    (hT :
      BothRead (frames.flatMap timeCells) served trained i t
        servedT trainedT)
    (hU :
      BothRead (frames.flatMap timeCells) served trained j u
        servedU trainedU) :
    RowsAgree servedT servedU trainedT trainedU ↔
      (IsPm t ↔ IsPm u) := by
  rcases hT.times hServing hTraining hServed hTrained with
    ⟨rfl, rfl⟩
  rcases hU.times hServing hTraining hServed hTrained with
    ⟨rfl, rfl⟩
  unfold IsPm
  constructor
  · intro hAgree
    have hApart := hAgree.apart
    norm_cast at hApart
    by_cases hPmT : (t.hour : ℤ) ≤ cic2017PmHourMax
    · by_cases hPmU : (u.hour : ℤ) ≤ cic2017PmHourMax
      · exact iff_of_true hPmT hPmU
      · rw [if_pos hPmT, if_neg hPmU] at hApart
        omega
    · by_cases hPmU : (u.hour : ℤ) ≤ cic2017PmHourMax
      · rw [if_neg hPmT, if_pos hPmU] at hApart
        omega
      · exact iff_of_false hPmT hPmU
  · intro hSame
    rw [add_assoc, add_assoc, if_congr hSame rfl rfl]
    apply rowsAgree_of_lift
    unfold cic2017UtcOffsetHours
    split
    · decide
    · decide

------------------------------------------------------------
-- A morning and an afternoon
------------------------------------------------------------

/- A reader of exactly the clocks that are shown. -/
def readPrinted
    (cells : List (Option String)) :
    Option (List (Option ℤ)) :=
  some (cells.map (fun cell => cell.bind printedNs))

theorem readsDayFirst_readPrinted :
    ReadsDayFirst readPrinted := by
  intro cells times hTimes
  cases hTimes
  rw [List.forall₂_map_right_iff]
  apply List.forall₂_same.mpr
  intro cell _ text ns printed hCell hTime hPrinted
  subst hCell
  have hBoth : some ns = some printed :=
    hTime.symm.trans hPrinted
  exact Option.some.inj hBoth

def printedPandas : Pandas :=
  { toDatetime := readPrinted
    toDatetime_length := by
      intro cells times hTimes
      cases hTimes
      exact List.length_map _
    toNumeric := fun cell =>
      (cell.bind PyFloat.ofText).getD .nan
    seriesText := fun _ => "" }

/- A chunk of rows with their times. -/
def timesFrame (times : List String) : Frame ℕ :=
  { columns := ["Timestamp"]
    distinct := by decide
    rows :=
      times.map (fun time =>
        { label := 0
          cell := fun _ => some time }) }

/- A row of the morning and a row of the afternoon. -/
def fridayTimes : List (Frame ℕ) :=
  [timesFrame ["7/7/2017 8:59", "7/7/2017 1:05"]]

def clockOf (hour minute : ℕ) : TimeFields :=
  { year := 2017
    month := 7
    day := 7
    hour := hour
    minute := minute
    second := 0
    microsecond := 0 }

theorem servedTimes_friday :
    servedTimes printedPandas fridayTimes =
      .ok [some 1499417940, some 1499389500] := by
  decide +kernel

theorem cicTimestamps_friday :
    cicTimestamps readPrinted (fridayTimes.flatMap timeCells) =
      some [some 1499428740, some 1499443500] := by
  decide +kernel

theorem clocksAgree_iff_friday :
    RowsAgree 1499417940 1499389500 1499428740 1499443500 ↔
      (IsPm (clockOf 8 59) ↔ IsPm (clockOf 1 5)) :=
  clocksAgree_iff readsDayFirst_readPrinted
    readsDayFirst_readPrinted servedTimes_friday
    cicTimestamps_friday
    (i := 0) (j := 1)
    { printed :=
        ⟨"7/7/2017 8:59", by decide +kernel,
          by decide +kernel⟩
      served := rfl
      trained := rfl }
    { printed :=
        ⟨"7/7/2017 1:05", by decide +kernel,
          by decide +kernel⟩
      served := rfl
      trained := rfl }

/- The afternoon is served before the morning. -/
theorem not_clocksAgree_friday :
    servedTimes printedPandas fridayTimes =
        .ok [some 1499417940, some 1499389500] ∧
      cicTimestamps readPrinted
          (fridayTimes.flatMap timeCells) =
        some [some 1499428740, some 1499443500] ∧
      ¬ RowsAgree 1499417940 1499389500 1499428740
        1499443500 := by
  refine ⟨servedTimes_friday, cicTimestamps_friday, ?_⟩
  intro hAgree
  have hOrder := hAgree.order
  norm_num at hOrder

end Parity

end Nidra
