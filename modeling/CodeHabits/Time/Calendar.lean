/-!
# `CodeHabits.Time.Calendar`: dates of the common calendar

Days are counted from the first of January of the year 1, which is day 0
and a Monday. `dayNumber` and `ofDayNumber` are inverse to each other on the
dates of the calendar.
-/

set_option autoImplicit false

namespace CodeHabits.Time

/-- A date. -/
structure Date where
  year : Nat
  month : Nat
  day : Nat
  deriving DecidableEq, Repr

/-- Whether a year has a 29th of February. -/
def isLeap (year : Nat) : Bool :=
  year % 4 == 0 && (year % 100 != 0 || year % 400 == 0)

/-- The number of days in a month. -/
def daysInMonth (year month : Nat) : Nat :=
  match month with
  | 2 => if isLeap year then 29 else 28
  | 4 | 6 | 9 | 11 => 30
  | _ => 31

/-- The number of days in the years before a year. -/
def daysBeforeYear (year : Nat) : Nat :=
  let y := year - 1
  365 * y + y / 4 - y / 100 + y / 400

/-- The number of days in the months of a year before a month. -/
def daysBeforeMonth (year month : Nat) : Nat :=
  (List.range (month - 1)).foldl (fun days m => days + daysInMonth year (m + 1)) 0

namespace Date

/-- Whether a date exists in the years 1 to 9999. -/
def isValid (d : Date) : Bool :=
  1 ≤ d.year && d.year ≤ 9999 && 1 ≤ d.month && d.month ≤ 12
    && 1 ≤ d.day && d.day ≤ daysInMonth d.year d.month

/-- The number of days from the first day of the year 1. -/
def dayNumber (d : Date) : Nat :=
  daysBeforeYear d.year + daysBeforeMonth d.year d.month + (d.day - 1)

/-- The month and day of a day of a year, `months` months after the first
having gone by. -/
def ofDayOfYear (year : Nat) : Nat → Nat → Nat → Date
  | 0, month, day => ⟨year, month, day + 1⟩
  | left + 1, month, day =>
    if day < daysInMonth year month then ⟨year, month, day + 1⟩
    else ofDayOfYear year left (month + 1) (day - daysInMonth year month)

/-- The date of a day number. Of the four centuries of a cycle, and of the
four years between leap days, the last is one day longer than the count
suggests. -/
def ofDayNumber (n : Nat) : Date :=
  let cycles := n / 146097
  let inCycle := n % 146097
  let centuries := min 3 (inCycle / 36524)
  let inCentury := inCycle - centuries * 36524
  let fours := inCentury / 1461
  let inFour := inCentury % 1461
  let years := min 3 (inFour / 365)
  ofDayOfYear (400 * cycles + 100 * centuries + 4 * fours + years + 1) 11 1
    (inFour - years * 365)

end Date

/-- The weekday of a day number, Monday being 0. -/
def weekday (n : Nat) : Nat :=
  n % 7

/-- The day number of the Monday of a year's first week, the week that
holds the year's first Thursday. Counted from the Monday before day 0. -/
def firstWeek (year : Nat) : Int :=
  let newYear := daysBeforeYear year
  let w := weekday newYear
  if 3 < w then (newYear : Int) + 7 - w else (newYear : Int) - w

/-- Whether a year has 53 weeks: those that begin on a Thursday, and leap
years that begin on a Wednesday. -/
def hasLongYear (year : Nat) : Bool :=
  let w := weekday (daysBeforeYear year)
  w == 3 || (w == 2 && isLeap year)

/-- The date of a day of a week of a year. -/
def ofWeek? (year week day : Nat) : Option Date :=
  if year < 1 || 9999 < year then none
  else if week < 1 || 53 < week || (week == 53 && !hasLongYear year) then none
  else if day < 1 || 7 < day then none
  else
    let n := firstWeek year + 7 * (week - 1 : Nat) + (day - 1 : Nat)
    if n < 0 then none else some (Date.ofDayNumber n.toNat)

end CodeHabits.Time
