import Nidra.Lib.PyTime

/-
  This file defines the seconds of a wall clock since the
  beginning of 1970, and reads a clock from a text that has
  its date with the day first.

  Key definitions include:
    * `TimeFields.seconds`
    * `WallClock.ofDayFirst`

  Main declarations:
    * `TimeFields.hour_seconds`
-/

namespace TimeFields

/- Days of the years before a year, from the year 1 on. -/
def daysBeforeYear (year : ℕ) : ℤ :=
  let y : ℤ := (year : ℤ) - 1
  365 * y + y / 4 - y / 100 + y / 400

/- Days of the months before a month. -/
def daysBeforeMonth (year month : ℕ) : ℕ :=
  ((List.range (month - 1)).map
    (fun m => daysInMonth year (m + 1))).sum

/- Days since the beginning of 1970. -/
def days (t : TimeFields) : ℤ :=
  daysBeforeYear t.year - daysBeforeYear 1970 +
    daysBeforeMonth t.year t.month + (t.day - 1)

def secondsPerHour : ℤ := 3600

/- Seconds since the beginning of 1970, without a fraction. -/
def seconds (t : TimeFields) : ℤ :=
  (t.days * 24 + t.hour) * secondsPerHour +
    (t.minute * 60 + t.second)

/- The hour of a clock is the hour of its seconds. -/
theorem hour_seconds
    {t : TimeFields}
    (hValid : t.Valid) :
    t.seconds / secondsPerHour % 24 = t.hour := by
  have hHour := hValid.hour_lt
  have hMinute := hValid.minute_lt
  have hSecond := hValid.second_lt
  have hDiv :
      t.seconds / secondsPerHour = t.days * 24 + t.hour := by
    unfold seconds secondsPerHour
    omega
  rw [hDiv]
  omega

end TimeFields

namespace WallClock

/- A number that is written in digits alone. -/
def natOf (text : String) : Option ℕ :=
  if text.toList.all PyText.isDigit then
    PyText.digitsValue 10 text.toList
  else none

/- The numbers of a date and a time of day. -/
def fieldsOf : List ℕ → List ℕ → Option TimeFields
  | [day, month, year], [hour, minute] =>
      some
        { year := year
          month := month
          day := day
          hour := hour
          minute := minute
          second := 0
          microsecond := 0 }
  | [day, month, year], [hour, minute, second] =>
      some
        { year := year
          month := month
          day := day
          hour := hour
          minute := minute
          second := second
          microsecond := 0 }
  | _, _ => none

/- The clock that a text like `7/7/2017 8:59` shows. -/
def ofDayFirst (text : String) : Option TimeFields := do
  match PyText.splitOn ' ' text with
  | [date, time] =>
      let date ← (PyText.splitOn '/' date).mapM natOf
      let time ← (PyText.splitOn ':' time).mapM natOf
      let fields ← fieldsOf date time
      if fields.Valid then some fields else none
  | _ => none

theorem valid_of_ofDayFirst
    {text : String}
    {t : TimeFields}
    (hRead : ofDayFirst text = some t) :
    t.Valid := by
  unfold ofDayFirst at hRead
  split at hRead
  · simp only [Option.bind_eq_bind, Option.bind_eq_some_iff]
      at hRead
    rcases hRead with ⟨date, _, time, _, fields, _, hFields⟩
    split at hFields
    · rename_i hValid
      cases hFields
      exact hValid
    · cases hFields
  · cases hRead

example :
    (ofDayFirst "15/06/2017 08:00:01").map
        TimeFields.seconds = some 1497513601 := by
  decide +kernel

end WallClock
