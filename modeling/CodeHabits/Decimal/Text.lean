import CodeHabits.Binary64

/-!
# `CodeHabits.Decimal.Text`: floating-point numbers as decimal text

Two ways of writing a number are used. `shortest` takes the fewest digits
that read back as the same number, and of those the nearest to its exact
value. `fixed` takes a given number of places after the point, rounding the
exact value, with a half going to the even neighbour. `roundPlaces` is the
number that the text of `fixed` reads back as.

Two more ways write an exponent. `exponential` writes one digit before the
point, a given count of places behind it and the exponent. `general` takes a
count of digits in all and writes an exponent only where the point would be
far from them. They round as `fixed` does.
-/

set_option autoImplicit false

namespace CodeHabits.Decimal

open Binary64

/-- Decimal digits of a natural number. -/
def digits (n : Nat) : List Char :=
  Nat.toDigits 10 n

/-- `num / den` counted in units of `10 ^ place`, as a fraction. -/
def atPlace (num den : Nat) (place : Int) : Nat × Nat :=
  if 0 ≤ place then (num, den * pow10 place.toNat) else (num * pow10 (-place).toNat, den)

/-- Climbs from a place that is not too high to the place of the first
digit of `num / den`. -/
def climbPlace (num den : Nat) : Nat → Int → Int
  | 0, place => place
  | fuel + 1, place =>
    let (n, d) := atPlace num den (place + 1)
    if d ≤ n then climbPlace num den fuel (place + 1) else place

/-- The place of the first digit of a positive fraction. The binary
logarithms give a place at most three too low. -/
def leadingPlace (num den : Nat) : Int :=
  climbPlace num den 4 (((num.log2 : Int) - den.log2 - 1) * 30103 / 100000 - 1)

/-- Digits and the place of the last of them. -/
structure Digits where
  value : Nat
  place : Int
  deriving DecidableEq, Repr

/-- The number that digits read as. -/
def Digits.read (d : Digits) : Nat :=
  if 0 ≤ d.place then magnitudeBits (d.value * pow10 d.place.toNat) 1
  else magnitudeBits d.value (pow10 (-d.place).toNat)

/-- Of the two decimals with digits down to `place` that enclose
`num / den`, the one that reads back as the same number, and the nearer
one if both do. -/
def readingBack? (num den : Nat) (place : Int) : Option Digits :=
  let (n, d) := atPlace num den place
  let low : Digits := ⟨n / d, place⟩
  let high : Digits := ⟨n / d + 1, place⟩
  let target := magnitudeBits num den
  match low.read == target, high.read == target with
  | true, true => some ⟨roundDiv n d, place⟩
  | true, false => some low
  | false, true => some high
  | false, false => none

/-- The first count of digits, from `count` on, with which the number can
be read back. Seventeen digits always do. -/
def fewest (num den : Nat) (first : Int) : Nat → Nat → Digits
  | 0, count => (readingBack? num den (first + 1 - count)).getD ⟨0, 0⟩
  | fuel + 1, count =>
    match readingBack? num den (first + 1 - count) with
    | some found => found
    | none => fewest num den first fuel (count + 1)

/-- A finite magnitude `m * 2 ^ q` as a fraction. -/
def fraction (m : Nat) (q : Int) : Nat × Nat :=
  if 0 ≤ q then (m * pow2 q.toNat, 1) else (m, pow2 (-q).toNat)

/-- The fewest digits of a finite positive magnitude. -/
def shortestDigits (m : Nat) (q : Int) : Digits :=
  let (num, den) := fraction m q
  fewest num den (leadingPlace num den) 16 1

/-- How digits are laid out. -/
structure Layout where
  /-- Below this many digits before the point an exponent is written. -/
  leastPoint : Int
  /-- Above this many digits before the point an exponent is written. -/
  mostPoint : Int
  /-- What follows a whole number written without an exponent. -/
  wholeEnd : String
  /-- The least number of digits of an exponent. -/
  exponentWidth : Nat

/-- Digits without the zeros at their end. -/
def trimZeros (ds : List Char) : List Char :=
  (ds.reverse.dropWhile (· == '0')).reverse

/-- Pads with zeros on the left. -/
def padLeft (width : Nat) (ds : List Char) : List Char :=
  List.replicate (width - ds.length) '0' ++ ds

/-- Lays out the digits `ds` with the point after the first `point` of
them. -/
def Layout.arrange (layout : Layout) (ds : List Char) (point : Int) : List Char :=
  if layout.leastPoint ≤ point && point ≤ layout.mostPoint then
    if point ≤ 0 then '0' :: '.' :: List.replicate (-point).toNat '0' ++ ds
    else if ds.length ≤ point.toNat then
      ds ++ List.replicate (point.toNat - ds.length) '0' ++ layout.wholeEnd.toList
    else ds.take point.toNat ++ '.' :: ds.drop point.toNat
  else
    let exponent := point - 1
    let sign := if exponent < 0 then '-' else '+'
    let mantissa := match ds with
      | [] => []
      | [d] => [d]
      | d :: rest => d :: '.' :: rest
    mantissa ++ 'e' :: sign :: padLeft layout.exponentWidth (digits exponent.natAbs)

/-- Numbers in documents and messages: positional notation from a
ten-thousandth up to sixteen digits before the point, `.0` after a whole
number, and exponents of at least two digits. -/
def plainLayout : Layout := ⟨-3, 16, ".0", 2⟩

/-- The fewest digits that read back, laid out. `nan` and `infinity` are the
texts of what is no finite number. -/
def shortest (layout : Layout) (nan infinity : String) (x : Float) : String :=
  match decode x with
  | .nan => nan
  | .infinite negative => (if negative then "-" else "") ++ infinity
  | .finite negative m q =>
    let sign := if negative then ['-'] else []
    if m = 0 then String.ofList (sign ++ layout.arrange ['0'] 1)
    else
      let found := shortestDigits m q
      let ds := digits found.value
      String.ofList (sign ++ layout.arrange (trimZeros ds) (ds.length + found.place))

/-- The exact value counted in units of the last of `places` places,
rounded. -/
def countAt (places m : Nat) (q : Int) : Nat :=
  let (num, den) := fraction m q
  roundDiv (num * pow10 places) den

/-- The number with a given count of places after the point. -/
def fixed (places : Nat) (x : Float) : String :=
  match decode x with
  | .nan => "nan"
  | .infinite negative => if negative then "-inf" else "inf"
  | .finite negative m q =>
    let ds := padLeft (places + 1) (digits (countAt places m q))
    let whole := ds.take (ds.length - places)
    let rest := ds.drop (ds.length - places)
    let sign := if negative then ['-'] else []
    String.ofList (sign ++ whole ++ if places = 0 then [] else '.' :: rest)

/-- The number rounded to a count of places after the point. -/
def roundPlaces (places : Nat) (x : Float) : Float :=
  match decode x with
  | .finite negative m q => nearest negative (countAt places m q) (pow10 places)
  | _ => x

/-! ### Numbers with an exponent -/

/-- A positive fraction rounded to `count` digits. A value that rounds up to
the next power of ten has its digits one place higher. -/
def significant (num den count : Nat) : Digits :=
  let first := leadingPlace num den
  let place := first + 1 - count
  let (n, d) := atPlace num den place
  let value := roundDiv n d
  if pow10 count ≤ value then ⟨value / 10, place + 1⟩ else ⟨value, place⟩

/-- The digits of a finite magnitude `m * 2 ^ q`, and the exponent of the
first of them. -/
def leading (m : Nat) (q : Int) (count : Nat) : List Char × Int :=
  if m = 0 then (List.replicate count '0', 0)
  else
    let (num, den) := fraction m q
    let found := significant num den count
    (digits found.value, found.place + count - 1)

/-- Digits with the point behind the first of them and an exponent. -/
def withExponent (ds : List Char) (exponent : Int) (pointed : Bool) : List Char :=
  let tail := ds.drop 1
  ds.take 1 ++ (if tail.isEmpty && !pointed then [] else '.' :: tail)
    ++ 'e' :: (if exponent < 0 then '-' else '+') :: padLeft 2 (digits exponent.natAbs)

/-- A number that is finite, written by `write` behind its sign, or the text
of what is not. -/
def signed (x : Float) (write : Nat → Int → List Char) : String :=
  match decode x with
  | .nan => "nan"
  | .infinite negative => if negative then "-inf" else "inf"
  | .finite negative m q => String.ofList ((if negative then ['-'] else []) ++ write m q)

/-- The number with one digit before the point and `places` behind it. A
point that nothing follows is written if `pointed`. -/
def exponential (places : Nat) (pointed : Bool) (x : Float) : String :=
  signed x fun m q =>
    let (ds, exponent) := leading m q (places + 1)
    withExponent ds exponent pointed

/-- The number with `places` behind the point. A point that nothing follows
is written if `pointed`. -/
def positional (places : Nat) (pointed : Bool) (x : Float) : String :=
  if places = 0 && pointed && (toRat? x).isSome then fixed 0 x ++ "." else fixed places x

/-- A count of digits that no number reaches. -/
def everyDigit : Nat := 1100

/-- The number with `count` digits in all. Unless `pointed`, zeros at the
end of the places are left out, and with them all digits beyond those that
the number has. -/
def general (count : Nat) (pointed : Bool) (x : Float) : String :=
  signed x fun m q =>
    let count := max (if pointed then count else min count everyDigit) 1
    let (ds, exponent) := leading m q count
    if exponent < -4 || (count : Int) ≤ exponent then
      let kept := if pointed then ds else ds.take 1 ++ trimZeros (ds.drop 1)
      withExponent kept exponent pointed
    else
      let before := if exponent < 0 then ['0'] else ds.take (exponent.toNat + 1)
      let behind :=
        if exponent < 0 then List.replicate (-exponent - 1).toNat '0' ++ ds
        else ds.drop (exponent.toNat + 1)
      let behind := if pointed then behind else trimZeros behind
      before ++ if behind.isEmpty && !pointed then [] else '.' :: behind

end CodeHabits.Decimal
