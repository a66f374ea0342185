import Nidra.Lib.PyDigits

/-
  This file writes times in UTC as ISO 8601 text and reads
  them back.

  Key definitions include:
    * `TimeFields`, `UtcTime`
    * `UtcTime.isoformat`, `UtcTime.ofText`

  Main declarations:
    * `UtcTime.ofText_isoformat`
-/

------------------------------------------------------------
-- Times
------------------------------------------------------------

/- What a time is made of. -/
structure TimeFields where
  year : ℕ
  month : ℕ
  day : ℕ
  hour : ℕ
  minute : ℕ
  second : ℕ
  microsecond : ℕ
deriving DecidableEq

def isLeap (year : ℕ) : Bool :=
  year % 4 = 0 && (year % 100 ≠ 0 || year % 400 = 0)

def daysInMonth (year month : ℕ) : ℕ :=
  if month = 2 then (if isLeap year then 29 else 28)
  else if month = 4 ∨ month = 6 ∨ month = 9 ∨ month = 11 then 30
  else 31

/- The fields are those of a time. -/
@[mk_iff]
structure TimeFields.Valid (t : TimeFields) : Prop where
  year_pos : 1 ≤ t.year
  year_le : t.year ≤ 9999
  month_pos : 1 ≤ t.month
  month_le : t.month ≤ 12
  day_pos : 1 ≤ t.day
  day_le : t.day ≤ daysInMonth t.year t.month
  hour_lt : t.hour < 24
  minute_lt : t.minute < 60
  second_lt : t.second < 60
  microsecond_lt : t.microsecond < 1000000

instance (t : TimeFields) : Decidable t.Valid :=
  decidable_of_iff' _ (TimeFields.valid_iff t)

/- A time that is aware of being in UTC. -/
abbrev UtcTime :=
  { t : TimeFields // t.Valid }

namespace UtcTime

------------------------------------------------------------
-- Text
------------------------------------------------------------

/- The fraction of a second, if there is one. -/
def fraction (microsecond : ℕ) : List Char :=
  if microsecond = 0 then []
  else '.' :: PyText.padded 10 6 microsecond

def utcOffset : List Char :=
  "+00:00".toList

def isoformat (t : UtcTime) : String :=
  let t := t.val
  String.ofList
    (PyText.padded 10 4 t.year ++ '-' ::
      (PyText.padded 10 2 t.month ++ '-' ::
        (PyText.padded 10 2 t.day ++ 'T' ::
          (PyText.padded 10 2 t.hour ++ ':' ::
            (PyText.padded 10 2 t.minute ++ ':' ::
              (PyText.padded 10 2 t.second ++
                (fraction t.microsecond ++ utcOffset)))))))

/- A number of some width, and what follows it. -/
def readNumber
    (width : ℕ)
    (text : List Char) : Option (ℕ × List Char) :=
  let digits := text.take width
  if digits.length = width ∧ digits.all PyText.isDigit then
    (PyText.digitsValue 10 digits).map
      (fun value => (value, text.drop width))
  else none

/- A character that has to be there. -/
def expect
    (c : Char)
    (text : List Char) : Option (List Char) :=
  match text with
  | [] => none
  | d :: rest => if d = c then some rest else none

/- The microseconds, if there is a fraction. -/
def readFraction : List Char → Option (ℕ × List Char)
  | '.' :: rest => readNumber 6 rest
  | text => some (0, text)

/- A time without an offset is taken to be in UTC. -/
def inUtc (offset : List Char) : Bool :=
  offset = [] || offset = utcOffset || offset = ['Z']

/-
  The time of a text as it is written here, in UTC or without
  an offset. Another offset is never written.
-/
def ofText (text : String) : Option UtcTime := do
  let (year, rest) ← readNumber 4 text.toList
  let rest ← expect '-' rest
  let (month, rest) ← readNumber 2 rest
  let rest ← expect '-' rest
  let (day, rest) ← readNumber 2 rest
  let rest ← expect 'T' rest
  let (hour, rest) ← readNumber 2 rest
  let rest ← expect ':' rest
  let (minute, rest) ← readNumber 2 rest
  let rest ← expect ':' rest
  let (second, rest) ← readNumber 2 rest
  let (microsecond, offset) ← readFraction rest
  let t : TimeFields :=
    { year := year
      month := month
      day := day
      hour := hour
      minute := minute
      second := second
      microsecond := microsecond }
  if hValid : t.Valid ∧ inUtc offset then some ⟨t, hValid.1⟩
  else none

------------------------------------------------------------
-- Reading what was written
------------------------------------------------------------

theorem readNumber_padded
    {width n : ℕ}
    (hWidth : 0 < width)
    (hFits : n < 10 ^ width)
    (rest : List Char) :
    readNumber width (PyText.padded 10 width n ++ rest) =
      some (n, rest) := by
  have hTake :
      (PyText.padded 10 width n ++ rest).take width =
        PyText.padded 10 width n :=
    List.take_left' (PyText.length_padded 10 width n)
  have hDrop :
      (PyText.padded 10 width n ++ rest).drop width = rest :=
    List.drop_left' (PyText.length_padded 10 width n)
  have hDigits :
      (PyText.padded 10 width n).all PyText.isDigit = true := by
    rw [List.all_eq_true]
    intro c hMem
    rcases PyText.mem_padded (by decide) hMem with
      ⟨d, hDigit, rfl⟩
    exact PyText.isDigit_digitChar hDigit
  unfold readNumber
  dsimp only
  rw [hTake, hDrop,
    if_pos ⟨PyText.length_padded 10 width n, hDigits⟩,
    PyText.digitsValue_padded (by decide) hWidth hFits]
  rfl

@[simp] theorem expect_cons
    (c : Char)
    (rest : List Char) :
    expect c (c :: rest) = some rest :=
  if_pos rfl

/- A fraction that was written is read back. -/
theorem readFraction_fraction
    {microsecond : ℕ}
    (hFits : microsecond < 1000000) :
    readFraction (fraction microsecond ++ utcOffset) =
      some (microsecond, utcOffset) := by
  unfold fraction
  split_ifs with hZero
  · rw [hZero]
    rfl
  · exact
      readNumber_padded (by decide)
        (lt_of_lt_of_eq hFits (by norm_num)) utcOffset

/- A time that was written is read back. -/
theorem ofText_isoformat (t : UtcTime) :
    ofText t.isoformat = some t := by
  rcases t with ⟨t, hValid⟩
  have hDay : t.day < 10 ^ 2 := by
    have hDays : daysInMonth t.year t.month ≤ 31 := by
      unfold daysInMonth
      split_ifs <;> decide
    have hLe := hValid.day_le
    omega
  have hYear : t.year < 10 ^ 4 := by
    have hLe := hValid.year_le
    omega
  have hMonth : t.month < 10 ^ 2 := by
    have hLe := hValid.month_le
    omega
  have hHour : t.hour < 10 ^ 2 := by
    have hLt := hValid.hour_lt
    omega
  have hMinute : t.minute < 10 ^ 2 := by
    have hLt := hValid.minute_lt
    omega
  have hSecond : t.second < 10 ^ 2 := by
    have hLt := hValid.second_lt
    omega
  have hUtc : inUtc utcOffset = true := by decide +kernel
  unfold ofText isoformat
  simp only [String.toList_ofList, Option.bind_eq_bind,
    readNumber_padded (by decide) hYear,
    readNumber_padded (by decide) hMonth,
    readNumber_padded (by decide) hDay,
    readNumber_padded (by decide) hHour,
    readNumber_padded (by decide) hMinute,
    readNumber_padded (by decide) hSecond, expect_cons,
    readFraction_fraction hValid.microsecond_lt,
    Option.bind_some]
  rw [dif_pos ⟨hValid, hUtc⟩]

end UtcTime
