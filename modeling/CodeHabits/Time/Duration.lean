import CodeHabits.Fault

/-!
# `CodeHabits.Time.Duration`: durations in microseconds

A number of hours or seconds is turned into whole microseconds. The part
before the point is exact; the part after it is multiplied as a
floating-point number, and the sum goes to the nearest microsecond, a half
to the even one. Durations of a billion days or more do not exist.
-/

set_option autoImplicit false

namespace CodeHabits.Time

/-- A rational number rounded to the nearest integer, a half going to the
even neighbour. -/
def roundHalfEven (q : Rat) : Int :=
  let below := q.floor
  let rest := q - below
  if rest < 1 / 2 then below
  else if 1 / 2 < rest then below + 1
  else below + below % 2

/-- The number of microseconds, if a duration can be that long. -/
def checkDuration (microseconds : Int) : Except Fault Int :=
  if (microseconds / (86400 * 1000000)).natAbs ≤ 999999999 then .ok microseconds
  else .error .overflow

/-- A count of units of `unit` microseconds each as a duration. -/
def durationOf (unit : Nat) : Number → Except Fault Int
  | .int n => checkDuration (n * unit)
  | .real x =>
    match Binary64.decode x, Binary64.toRat? x, Binary64.truncate? x with
    | .nan, _, _ => .error (.refused .unreadable)
    | _, some exact, some whole =>
      let fraction := Binary64.ofRat (exact - whole)
      let product := Number.realOfInt unit * fraction
      checkDuration (roundHalfEven (whole * (unit : Int) + (Binary64.toRat? product).getD 0))
    | _, _, _ => .error .overflow

/-- A number of hours as a duration. -/
def hours : Number → Except Fault Int :=
  durationOf 3600000000

/-- A number of seconds as a duration. -/
def seconds : Number → Except Fault Int :=
  durationOf 1000000

end CodeHabits.Time
