import CodeHabits.Binary64
import CodeHabits.Text.Classes

/-!
# `CodeHabits.Decimal.Reader`: numbers read from text

Text of a number may stand between white space, may use the decimal digits
of any script, and may set single underscores between digits. A whole
number has a sign and digits; any other number may have a point, an
exponent, or be one of the words for infinity and for no number.
-/

set_option autoImplicit false

namespace CodeHabits.Decimal

open Binary64

/-- The number nearest to `value * 10 ^ place`. Exponents far beyond the
range of numbers are not computed. -/
def scientific (negative : Bool) (value : Nat) (place : Int) : Float :=
  let reach : Int := place + (Nat.toDigits 10 value).length
  if value = 0 ∨ reach < -400 then nearest negative 0 1
  else if 400 < reach then nearest negative (pow10 400) 1
  else if 0 ≤ place then nearest negative (value * pow10 place.toNat) 1
  else nearest negative value (pow10 (-place).toNat)

/-- ASCII in place of the other scripts' blanks and decimal digits. -/
def plainDigits (cs : List Char) : List Char :=
  cs.map fun c =>
    if c.toNat < 0x80 then c
    else if Text.isBlank c then ' '
    else match Text.digitValue? c with
      | some d => Char.ofNat (0x30 + d)
      | none => c

/-- The blanks that may stand around a number in ASCII text. -/
def isPadding (c : Char) : Bool :=
  c == ' ' || (0x09 ≤ c.toNat && c.toNat ≤ 0x0d)

/-- Text without the blanks around it. -/
def unpad (cs : List Char) : List Char :=
  ((cs.dropWhile isPadding).reverse.dropWhile isPadding).reverse

/-- Drops the underscores, each of which must stand between two digits.
`before` is the character in front. -/
def dropUnderscores? : Char → List Char → Option (List Char)
  | before, [] => if before == '_' then none else some []
  | before, c :: rest =>
    if c == '_' then
      if before.isDigit then dropUnderscores? c rest else none
    else if before == '_' && !c.isDigit then none
    else (dropUnderscores? c rest).map (c :: ·)

/-- A sign, if there is one, and what follows it. -/
def splitSign : List Char → Bool × List Char
  | '-' :: rest => (true, rest)
  | '+' :: rest => (false, rest)
  | cs => (false, cs)

/-- The value of a run of ASCII digits. -/
def valueOfDigits (cs : List Char) : Nat :=
  cs.foldl (fun n c => 10 * n + (c.toNat - 0x30)) 0

/-- The most digits a whole number may have. -/
def mostDigits : Nat := 4300

/-- A whole number. -/
def readInt? (text : String) : Option Int := do
  let (negative, body) := splitSign (unpad (plainDigits text.toList))
  let ds ← dropUnderscores? ' ' body
  if ds.isEmpty || !ds.all Char.isDigit || mostDigits < ds.length then none
  else
    let n : Int := valueOfDigits ds
    some (if negative then -n else n)

/-- The exponent at the end of a number: nothing, or a mark, a sign and
digits. -/
def readExponent? : List Char → Option Int
  | [] => some 0
  | mark :: rest =>
    if mark == 'e' || mark == 'E' then
      let (negative, ds) := splitSign rest
      if ds.isEmpty || !ds.all Char.isDigit then none
      else
        let n : Int := valueOfDigits ds
        some (if negative then -n else n)
    else none

/-- Digits, a point and digits, at least one digit in all, and an
exponent. -/
def readUnsigned? (negative : Bool) (cs : List Char) : Option Float := do
  let whole := cs.takeWhile Char.isDigit
  let rest := cs.dropWhile Char.isDigit
  let (places, tail) := match rest with
    | '.' :: after => (after.takeWhile Char.isDigit, after.dropWhile Char.isDigit)
    | _ => ([], rest)
  if whole.isEmpty && places.isEmpty then none
  let exponent ← readExponent? tail
  some (scientific negative (valueOfDigits (whole ++ places)) (exponent - places.length))

/-- A number without blanks or underscores. -/
def readPlain? (cs : List Char) : Option Float :=
  let (negative, body) := splitSign cs
  match String.ofList (body.map Char.toLower) with
  | "inf" | "infinity" => some (nearest negative (pow10 400) 1)
  | "nan" => some (Float.ofBits 0x7ff8000000000000)
  | _ => readUnsigned? negative body

/-- Any number. -/
def readFloat? (text : String) : Option Float := do
  let cs := unpad (plainDigits text.toList)
  readPlain? (← dropUnderscores? ' ' cs)

end CodeHabits.Decimal
