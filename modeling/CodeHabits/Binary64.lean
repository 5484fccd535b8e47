/-!
# `CodeHabits.Binary64`: the exact value of a floating-point number

A finite floating-point number is `m * 2 ^ q` for integers `m` and `q`.
This module reads `m` and `q` off the bits and finds the number nearest to
a fraction, a fraction halfway between two numbers going to the one with an
even `m`. Both directions are exact integer arithmetic.
-/

set_option autoImplicit false

namespace CodeHabits

/-- A power of two. -/
def pow2 (n : Nat) : Nat :=
  Nat.pow 2 n

/-- A power of ten. -/
def pow10 (n : Nat) : Nat :=
  Nat.pow 10 n

namespace Binary64

/-- What the 64 bits stand for. -/
inductive Decoded where
  | nan
  | infinite (negative : Bool)
  | finite (negative : Bool) (m : Nat) (q : Int)
  deriving DecidableEq, Repr

/-- Reads sign, exponent and fraction. The exponent field `0` holds the
numbers below the smallest normal one, and `2047` the infinities and the
numbers that are none. -/
def decode (x : Float) : Decoded :=
  let bits := x.toBits.toNat
  let negative := decide (pow2 63 ≤ bits)
  let exponent : Nat := bits / pow2 52 % 2048
  let fraction : Nat := bits % pow2 52
  if exponent = 2047 then
    if fraction = 0 then .infinite negative else .nan
  else if exponent = 0 then .finite negative fraction (-1074)
  else .finite negative (fraction + pow2 52) ((exponent : Int) - 1075)

/-- The quotient rounded to the nearest integer, a half going to the even
neighbour. -/
def roundDiv (num den : Nat) : Nat :=
  let quotient := num / den
  let twice := 2 * (num % den)
  if twice < den then quotient
  else if den < twice then quotient + 1
  else quotient + quotient % 2

/-- `num / den` in units of `2 ^ q`, rounded. -/
def scaled (num den : Nat) (q : Int) : Nat :=
  if 0 ≤ q then roundDiv num (den * pow2 q.toNat) else roundDiv (num * pow2 (-q).toNat) den

/-- The exponent that leaves 53 binary digits before the point, or the
least exponent there is. -/
def fittingExponent (num den : Nat) : Int :=
  let q := max (-1074) ((num.log2 : Int) - den.log2 - 53)
  let whole := if 0 ≤ q then num / (den * pow2 q.toNat) else num * pow2 (-q).toNat / den
  if pow2 53 ≤ whole then q + 1 else q

/-- The bits of the number nearest to `num / den`, without the sign. The
exponent field and the fraction run into each other, so a fraction that is
rounded up to the next power of two carries into the exponent by itself. -/
def magnitudeBits (num den : Nat) : Nat :=
  if num = 0 then 0
  else
    let q := fittingExponent num den
    min ((q + 1074).toNat * pow2 52 + scaled num den q) (2047 * pow2 52)

/-- The number nearest to `num / den`; too large a fraction becomes an
infinity. -/
def nearest (negative : Bool) (num den : Nat) : Float :=
  Float.ofBits (UInt64.ofNat ((if negative then pow2 63 else 0) + magnitudeBits num den))

/-- The number nearest to a rational number. -/
def ofRat (q : Rat) : Float :=
  nearest (q < 0) q.num.natAbs q.den

/-- The exact value of a finite number. -/
def toRat? (x : Float) : Option Rat :=
  match decode x with
  | .finite negative m q =>
    let magnitude : Rat := m * (2 : Rat) ^ q
    some (if negative then -magnitude else magnitude)
  | _ => none

/-- Whether the bits stand for no number. -/
def isNan (x : Float) : Bool :=
  decode x == .nan

/-- The part of a finite number before the point, towards zero. -/
def truncate? (x : Float) : Option Int :=
  match decode x with
  | .finite negative m q =>
    let whole : Nat := if 0 ≤ q then m * pow2 q.toNat else m / pow2 (-q).toNat
    some (if negative then -(whole : Int) else whole)
  | _ => none

example : roundDiv 5 2 = 2 ∧ roundDiv 7 2 = 4 ∧ roundDiv 8 3 = 3 := by decide

end Binary64

end CodeHabits
