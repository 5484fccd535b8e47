import CodeHabits.Fault
import CodeHabits.Time.Calendar

/-!
# `CodeHabits.Time.Timestamp`: points in time with an offset

A timestamp is a local date and time together with how far local time is
ahead of universal time, all in microseconds. What is compared and
subtracted is the instant, local time less the offset. The written form
keeps the local time and the offset.
-/

set_option autoImplicit false

namespace CodeHabits.Time

/-- Microseconds in a second. -/
def oneSecond : Int := 1000000

/-- Microseconds in a day. -/
def oneDay : Int := 86400 * oneSecond

/-- A local date and time and its offset from universal time. -/
structure Timestamp where
  /-- Microseconds of local time since the first day of the year 1. -/
  localTime : Int
  /-- Microseconds that local time is ahead of universal time. -/
  offset : Int
  deriving DecidableEq, Repr

namespace Timestamp

/-- Microseconds of universal time since the first day of the year 1. -/
def instant (t : Timestamp) : Int :=
  t.localTime - t.offset

/-- The instant from which seconds are counted: the start of 1970. -/
def epochInstant : Int :=
  719162 * oneDay

/-- Microseconds since the start of 1970. -/
def sinceEpoch (t : Timestamp) : Int :=
  t.instant - epochInstant

/-- Seconds since the start of 1970, as the nearest floating-point
number. -/
def epoch (t : Timestamp) : Float :=
  Binary64.nearest (t.sinceEpoch < 0) t.sinceEpoch.natAbs 1000000

/-- The end of the calendar: the first instant of the year 10000. -/
def calendarEnd : Int :=
  3652059 * oneDay

/-- The timestamp a duration later, inside the calendar. -/
def later (t : Timestamp) (duration : Int) : Except Fault Timestamp :=
  let moved := t.localTime + duration
  if 0 ≤ moved ∧ moved < calendarEnd then .ok ⟨moved, t.offset⟩ else .error .overflow

/-- A natural number in at least `width` digits. -/
def padded (width n : Nat) : String :=
  String.ofList (Decimal.padLeft width (Decimal.digits n))

/-- Hours, minutes, seconds and microseconds of a duration of no more than
a day. Seconds are left out of a short form when they are zero, and
microseconds always. -/
def clockText (short : Bool) (microseconds : Nat) : String :=
  let fraction := microseconds % 1000000
  let seconds := microseconds / 1000000
  let tail := if fraction = 0 then "" else "." ++ padded 6 fraction
  let minutesText := padded 2 (seconds / 3600) ++ ":" ++ padded 2 (seconds / 60 % 60)
  if short && seconds % 60 == 0 && fraction == 0 then minutesText
  else minutesText ++ ":" ++ padded 2 (seconds % 60) ++ tail

/-- A date as text. -/
def dateText (d : Date) : String :=
  padded 4 d.year ++ "-" ++ padded 2 d.month ++ "-" ++ padded 2 d.day

/-- The local date and time: date, `T` and time. -/
def localText (t : Timestamp) : String :=
  dateText (Date.ofDayNumber (t.localTime / oneDay).toNat) ++ "T"
    ++ clockText false (t.localTime % oneDay).toNat

/-- The written form: the local date and time, and the offset with its
sign. -/
def isoformat (t : Timestamp) : String :=
  t.localText ++ (if t.offset < 0 then "-" else "+") ++ clockText true t.offset.natAbs

end Timestamp

end CodeHabits.Time
