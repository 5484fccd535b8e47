import CodeHabits.Fault

/-!
# `CodeHabits.Magnitude`: the arithmetic of confidences and weights

Confidences, weights and factors come from documents and configurations, so
arithmetic on them may fail: a value may be no number, or a whole number may
be too large to be mixed with a floating-point number. The rules of learning
are stated for every kind of number that has the operations of `Magnitude`,
each of which answers a result or a fault.

Programs run with values as they were given. Rational numbers are the kind
in which the rules are exact and nothing fails.
-/

set_option autoImplicit false

namespace CodeHabits

/-- The arithmetic and the comparisons that the rules of learning use. -/
class Magnitude (ν : Type) where
  /-- Nothing. -/
  zero : ν
  /-- The whole. -/
  one : ν
  /-- A whole number. -/
  ofInt : Int → ν
  add : ν → ν → Except Fault ν
  sub : ν → ν → Except Fault ν
  mul : ν → ν → Except Fault ν
  neg : ν → Except Fault ν
  /-- Strictly less. -/
  lt : ν → ν → Except Fault Bool
  /-- Less or equal; false of what is no number. -/
  le : ν → ν → Except Fault Bool

/-- A result of arithmetic, which is missing if a number is too large. -/
def Number.orOverflow {α : Type} : Option α → Except Fault α
  | some result => .ok result
  | none => .error .overflow

instance : Magnitude Number where
  zero := .real 0.0
  one := .real 1.0
  ofInt := .int
  add a b := Number.orOverflow (a.add? b)
  sub a b := Number.orOverflow (a.sub? b)
  mul a b := Number.orOverflow (a.mul? b)
  neg a := .ok a.neg
  lt a b := .ok (a.lt b)
  le a b := .ok (a.le b)

namespace Value

/-- An operation on the numbers that two values must be. -/
def onNumbers (operation : Number → Number → Except Fault Number) (a b : Value) :
    Except Fault Value := do
  return (← operation (← a.toNumber) (← b.toNumber)).value

/-- A comparison of two numbers or of two texts. -/
def compareBy (numbers : Number → Number → Bool) (texts : String → String → Bool) :
    Value → Value → Except Fault Bool
  | .text s, .text t => .ok (texts s t)
  | a, b => do return numbers (← a.toNumber) (← b.toNumber)

end Value

instance : Magnitude Value where
  zero := .real 0.0
  one := .real 1.0
  ofInt := .int
  add := Value.onNumbers Magnitude.add
  sub := Value.onNumbers Magnitude.sub
  mul := Value.onNumbers Magnitude.mul
  neg a := do return (← a.toNumber).neg.value
  lt := Value.compareBy Number.lt fun s t => s < t
  le := Value.compareBy Number.le fun s t => !(t < s)

instance : Magnitude Rat where
  zero := 0
  one := 1
  ofInt n := n
  add a b := .ok (a + b)
  sub a b := .ok (a - b)
  mul a b := .ok (a * b)
  neg a := .ok (-a)
  lt a b := .ok (a < b)
  le a b := .ok (a ≤ b)

section

variable {ν : Type} [Magnitude ν]

/-- The larger of two numbers, the first if neither is. -/
def larger (a b : ν) : Except Fault ν := do
  return if ← Magnitude.lt a b then b else a

/-- The smaller of two numbers, the first if neither is. -/
def smaller (a b : ν) : Except Fault ν := do
  return if ← Magnitude.lt b a then b else a

/-- A confidence forced into the unit interval. What is no number becomes
zero. -/
def clampConfidence (value : ν) : Except Fault ν := do
  smaller Magnitude.one (← larger Magnitude.zero value)

/-- The sum of several numbers, from the left. -/
def total (numbers : List ν) : Except Fault ν :=
  numbers.foldlM Magnitude.add (Magnitude.ofInt 0)

end

end CodeHabits
