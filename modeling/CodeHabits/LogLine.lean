import CodeHabits.Text.Template
import CodeHabits.Time.Timestamp

/-!
# `CodeHabits.LogLine`: records of a log as documents

A log has one document a line. A record has a level, the name of who wrote
it, a message and the values for the places in it. Without values a message
is taken as it is. The time of a record may lie in any year that has a
number, before the year 1 as well.
-/

set_option autoImplicit false

namespace CodeHabits

/-- A record of a log. -/
structure LogRecord where
  name : Value
  level : Label
  message : Value
  values : List Value
  /-- Seconds since the start of 1970. -/
  created : Value

namespace LogRecord

/-- The levels that have a name. -/
def levelNames : List (Int × String) :=
  [(50, "CRITICAL"), (40, "ERROR"), (30, "WARNING"), (20, "INFO"), (10, "DEBUG"), (0, "NOTSET")]

/-- The levels that names stand for; two of them have a second name. -/
def namedLevels : Table String Int :=
  (levelNames.map fun entry => (entry.2, entry.1)) ++ [("WARN", 30), ("FATAL", 50)]

/-- What a level is called. A name is called by its level in turn, and what
is neither by itself. -/
def levelName (level : Label) : Value :=
  match levelNames.find? fun entry => Label.int entry.1 == level with
  | some (_, name) => .text name
  | none =>
    match level.value.text?.bind namedLevels.get? with
    | some number => .int number
    | none => .text ("Level " ++ level.display)

/-- The message with its values. -/
def text (r : LogRecord) : Except Fault String :=
  if r.values.isEmpty then .ok r.message.display
  else Text.fillTemplate r.message.display r.values

/-- The number of seconds that cannot be counted any more. -/
def secondBound : Int := pow2 63

/-- The greatest number of a year, whether years are counted from 1900 or
from the year 0. -/
def lastYear : Int := pow2 31 - 1

/-- The seconds that a value counts, without what follows its point. -/
def secondsOf (created : Value) : Except Fault Int := do
  let seconds ← match ← created.toNumber with
    | .int n => pure n
    | .real x => match Binary64.decode x, Binary64.toRat? x with
      | .nan, _ => throw (.refused .unreadable)
      | _, some q => pure q.floor
      | _, none => throw .overflow
  if -secondBound ≤ seconds && seconds < secondBound then return seconds else throw .overflow

/-- The days of four centuries, after which the calendar repeats itself. -/
def cycleDays : Int := 146097

/-- A second since the start of 1970 in universal time: date, `T` and time.
The year has to have a number both when it is counted from 1900 and as it is
written. -/
def timeText (seconds : Int) : Except Fault String := do
  let day := Int.fdiv seconds 86400 + 719162
  let cycle := Int.fdiv day cycleDays
  let date := Time.Date.ofDayNumber (day - cycle * cycleDays).toNat
  let year := date.year + 400 * cycle
  if year - 1900 < -lastYear - 1 || lastYear < year - 1900 then throw .beyondYears
  if lastYear < year then throw .overflow
  let clock := (seconds - Int.fdiv seconds 86400 * 86400).toNat
  return toString year ++ "-" ++ Time.Timestamp.padded 2 date.month ++ "-"
    ++ Time.Timestamp.padded 2 date.day ++ "T" ++ Time.Timestamp.clockText false (clock * 1000000)

/-- The record as a document. -/
def document (r : LogRecord) : Except Fault Value := do
  let time ← timeText (← secondsOf r.created)
  let text ← r.text
  return .object
    [("time", .text time), ("level", levelName r.level), ("name", r.name),
     ("message", .text text)]

end LogRecord

end CodeHabits
