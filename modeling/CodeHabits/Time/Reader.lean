import CodeHabits.Text.Utf8
import CodeHabits.Time.Timestamp

/-!
# `CodeHabits.Time.Reader`: timestamps read from text

The text is a date, any one character, and a time with or without an
offset. Dates come as year, month and day or as year, week and weekday,
times as hours, minutes, seconds and a fraction, each with or without the
usual separators. A fraction is cut to microseconds, and no offset means
universal time.

Positions count bytes of UTF-8. The separator may be any character, however
many bytes it has; everywhere else a character beyond ASCII is as many
characters that fit nowhere.
-/

set_option autoImplicit false

namespace CodeHabits.Time

/-- The value of so many ASCII digits at the front, and what follows. -/
def takeDigits? : Nat → Nat → List Char → Option (Nat × List Char)
  | 0, value, cs => some (value, cs)
  | count + 1, value, c :: rest =>
    if c.isDigit then takeDigits? count (10 * value + (c.toNat - 0x30)) rest else none
  | _ + 1, _, [] => none

/-- The character at a position, and a null character past the end. -/
def charAt (cs : List Char) (i : Nat) : Char :=
  (cs[i]?).getD '\x00'

/-- Where the date ends. Characters four and five tell the ways of writing
a date apart. Where a week is followed by a hyphen and two digits, the
hyphen is taken for the separator; where a week in the compact form is
followed by digits, an even position after them means that they are the
time. -/
def dateLength (cs : List Char) (size : Nat) : Nat :=
  if size = 7 then 7
  else if charAt cs 4 == '-' then
    if charAt cs 5 == 'W' then
      if 8 < size && charAt cs 8 == '-' then
        if 10 < size && (charAt cs 10).isDigit then 8 else 10
      else 8
    else 10
  else if charAt cs 4 == 'W' then
    let stop := 7 + ((cs.drop 7).takeWhile Char.isDigit).length
    if stop < 9 then stop else if stop % 2 == 0 then 7 else 8
  else 8

/-- The date in the first `length` characters. -/
def readDate? (cs : List Char) (length : Nat) : Option Date := do
  let (year, rest) ← takeDigits? 4 0 cs
  let separated := charAt rest 0 == '-'
  let rest := if separated then rest.drop 1 else rest
  if charAt rest 0 == 'W' then
    let (week, rest) ← takeDigits? 2 0 (rest.drop 1)
    if cs.length - rest.length < length then
      if separated && charAt rest 0 != '-' then none
      else
        let (weekDay, _) ← takeDigits? 1 0 (if separated then rest.drop 1 else rest)
        ofWeek? year week weekDay
    else ofWeek? year week 1
  else
    let (month, rest) ← takeDigits? 2 0 rest
    if separated && charAt rest 0 != '-' then none
    else
      let (dayOfMonth, rest) ← takeDigits? 2 0 (if separated then rest.drop 1 else rest)
      if cs.length - rest.length == length then some ⟨year, month, dayOfMonth⟩ else none

/-- Hours, minutes, seconds and microseconds. -/
structure Clock where
  hour : Nat
  minute : Nat
  second : Nat
  microsecond : Nat

/-- The fraction of a second: up to six digits count, further digits are
passed over. `limit` is how many characters belong to the time. Answers
the microseconds and whether anything follows. -/
def readFraction? (cs : List Char) (limit : Nat) : Option (Nat × Bool) := do
  let count := min limit 6
  let (value, rest) ← takeDigits? count 0 cs
  let rest := rest.dropWhile Char.isDigit
  some (value * pow10 (6 - count), charAt rest 0 != '\x00')

/-- Reads up to three pairs of digits and a fraction from `cs`, of which the
first `limit` characters belong to the time. `values` holds the pairs read
so far, last first. Answers the pairs, the microseconds, and whether
anything is left over. -/
def readPairs? : Nat → Bool → List Nat → List Char → Nat → Option (List Nat × Nat × Bool)
  | 0, _, values, cs, limit => do
    let (micros, more) ← readFraction? cs limit
    some (values.reverse, micros, more)
  | left + 1, separated, values, cs, limit => do
    let (value, rest) ← takeDigits? 2 0 cs
    let c := charAt rest 0
    let separated := if values.isEmpty then c == ':' else separated
    let values := value :: values
    if limit ≤ 3 then some (values.reverse, 0, c != '\x00')
    else if separated && c == ':' then readPairs? left separated values (rest.drop 1) (limit - 3)
    else if c == '.' || c == ',' then
      let (micros, more) ← readFraction? (rest.drop 1) (limit - 3)
      some (values.reverse, micros, more)
    else if !separated then readPairs? left separated values rest (limit - 2)
    else none

/-- The clock time in the first `limit` characters, and whether anything is
left over. -/
def readClock? (cs : List Char) (limit : Nat) : Option (Clock × Bool) := do
  let (values, micros, more) ← readPairs? 3 true [] cs limit
  some (⟨values[0]?.getD 0, values[1]?.getD 0, values[2]?.getD 0, micros⟩, more)

/-- Whether a character starts an offset. -/
def startsOffset (c : Char) : Bool :=
  c == '+' || c == '-' || c == 'Z'

/-- The offset that stands after the time. An offset of less than a second
counts as none. -/
def readOffset? : List Char → Option Int
  | [] => some 0
  | 'Z' :: rest => if charAt rest 0 == '\x00' then some 0 else none
  | sign :: rest => do
    let (clock, more) ← readClock? rest rest.length
    if more then none
    let seconds : Int := clock.hour * 3600 + clock.minute * 60 + clock.second
    let offset := seconds * oneSecond + clock.microsecond
    if seconds = 0 then some 0
    else if oneDay ≤ offset then none
    else some (if sign == '-' then -offset else offset)

/-- A clock time and an offset. -/
def readTime? (cs : List Char) : Option (Clock × Int) := do
  let limit := (cs.takeWhile fun c => !startsOffset c).length
  let (clock, more) ← readClock? cs limit
  let zone := cs.drop limit
  if zone.isEmpty && more then none
  else some (clock, ← readOffset? zone)

/-- Microseconds since midnight, of a time that exists. -/
def Clock.microseconds? (c : Clock) : Option Int :=
  if c.hour < 24 && c.minute < 60 && c.second < 60 then
    some ((c.hour * 3600 + c.minute * 60 + c.second : Nat) * oneSecond + c.microsecond)
  else none

/-- The bytes of a text, each as the character of that number. -/
def byteChars (text : String) : List Char :=
  (Text.encode text).map fun b => Char.ofNat b.toNat

/-- How many bytes a character has, by the first of them. -/
def bytesFrom (first : Char) : Nat :=
  if first.toNat < 0x80 then 1
  else if first.toNat < 0xE0 then 2
  else if first.toNat < 0xF0 then 3
  else 4

/-- The timestamp that a text is. A date that nothing follows stands for its
first instant. -/
def readTimestamp? (text : String) : Option Timestamp := do
  let cs := byteChars text
  if cs.length < 7 then none
  let length := dateLength cs cs.length
  let date ← readDate? cs length
  let after := cs.drop length
  let (clock, offset) ←
    if after.isEmpty then some (⟨0, 0, 0, 0⟩, 0)
    else readTime? (after.drop (bytesFrom (charAt after 0)))
  if !date.isValid then none
  let time ← clock.microseconds?
  some ⟨date.dayNumber * oneDay + time, offset⟩

/-- The timestamp that a value is. -/
def readTimestamp (value : Value) : Except Fault Timestamp :=
  match value with
  | .text s => match readTimestamp? s with
    | some t => .ok t
    | none => .error (.refused .unreadable)
  | _ => .error .wrongKind

end CodeHabits.Time
