import Mathlib
import Nidra.Lib.Numerals

/-
  This file defines the timebase of the published flow
  tables: the local wall clock of twelve hours that they
  print is read and lifted to the epochs that the captures
  carry.

  Key definitions include:
    * `liftClock`
    * `parseCicTimestamp`, `cicTimestamps`
-/

namespace Nidra

namespace Training

def cic2017UtcOffsetHours : ℤ := 3

/- The captures end at five, so such an hour is past noon. -/
def cic2017PmHourMax : ℤ := 7

def nsPerSecond : ℤ := 1000000000

def nsPerHour : ℤ := 3600 * nsPerSecond

def hourOf (ns : ℤ) : ℤ :=
  ns / nsPerHour % 24

/- A time that was read, with the two corrections. -/
def liftClock
    (twelveHour : Bool)
    (utcOffsetHours : ℤ)
    (ns : ℤ) : ℤ :=
  let parsed :=
    if twelveHour && decide (hourOf ns ≤ cic2017PmHourMax) then
      ns + 12 * nsPerHour
    else ns
  parsed + utcOffsetHours * nsPerHour

/-
  Parse a column of times to epoch seconds. What is read of
  the texts, as nanoseconds, is given by the table library.
-/
def parseCicTimestamp
    (toDatetime :
      List (Option String) → Option (List (Option ℤ)))
    (twelveHour : Bool)
    (utcOffsetHours : ℤ)
    (ts : List (Option String)) :
    Option (List (Option ℤ)) :=
  (toDatetime ts).map (fun times =>
    times.map (Option.map (fun ns =>
      liftClock twelveHour utcOffsetHours ns / nsPerSecond)))

/- With the corrections that are made by default. -/
def cicTimestamps
    (toDatetime :
      List (Option String) → Option (List (Option ℤ)))
    (ts : List (Option String)) :
    Option (List (Option ℤ)) :=
  parseCicTimestamp toDatetime true cic2017UtcOffsetHours ts

end Training

end Nidra
