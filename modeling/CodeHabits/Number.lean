import CodeHabits.Value

/-!
# `CodeHabits.Number`: whole and floating-point numbers

A number may have been written as a whole number, and it stays one until
arithmetic mixes it with a floating-point number. The whole number then
counts as the nearest floating-point number, and there is no result if it is
too large for that. Comparisons turn nothing into anything, so they are
exact and always have an answer.
-/

set_option autoImplicit false

namespace CodeHabits

/-- A whole number or a floating-point number. -/
inductive Number where
  | int (n : Int)
  | real (x : Float)

namespace Number

/-- The number as a value. -/
def value : Number → Value
  | .int n => .int n
  | .real x => .real x

/-- The number as a label. -/
def label : Number → Label
  | .int n => .int n
  | .real x => .real x

/-- The floating-point number nearest to a whole number. -/
def realOfInt (n : Int) : Float :=
  Binary64.nearest (n < 0) n.natAbs 1

/-- A floating-point number, unless it stands for a number that is too
large. -/
def unlessTooLarge (x : Float) : Option Float :=
  if (Binary64.toRat? x).isSome then some x else none

/-- The number as a floating-point number, unless it is too large. -/
def toReal? : Number → Option Float
  | .int n => unlessTooLarge (realOfInt n)
  | .real x => some x

/-- Applies an operation; whole numbers stay whole. -/
def lift (whole : Int → Int → Int) (other : Float → Float → Float) :
    Number → Number → Option Number
  | .int a, .int b => some (.int (whole a b))
  | a, b => do return .real (other (← a.toReal?) (← b.toReal?))

/-- The sum. -/
def add? : Number → Number → Option Number :=
  lift (· + ·) (· + ·)

/-- The difference. -/
def sub? : Number → Number → Option Number :=
  lift (· - ·) (· - ·)

/-- The product. -/
def mul? : Number → Number → Option Number :=
  lift (· * ·) (· * ·)

/-- The number with the other sign. -/
def neg : Number → Number
  | .int n => .int (-n)
  | .real x => .real (-x)

/-- The quotient by a count of more than zero. That of a whole number is
rounded once. -/
def over? (count : Nat) : Number → Option Float
  | .int n => unlessTooLarge (Binary64.nearest (n < 0) n.natAbs count)
  | .real x => some (x / realOfInt count)

/-- Strictly less. -/
def lt : Number → Number → Bool
  | .int a, .int b => a < b
  | .real a, .real b => a < b
  | a, b => (a.label.key.before? b.label.key).getD false

/-- Less or equal; false of what is no number. -/
def le : Number → Number → Bool
  | .int a, .int b => a ≤ b
  | .real a, .real b => a ≤ b
  | a, b => lt a b || (a.label.key == b.label.key)

end Number

/-- The number that a value is; a truth value counts as zero or one. -/
def Value.number? : Value → Option Number
  | .bool b => some (.int (if b then 1 else 0))
  | .int n => some (.int n)
  | .real x => some (.real x)
  | _ => none

end CodeHabits
