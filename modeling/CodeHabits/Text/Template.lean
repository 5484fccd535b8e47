import CodeHabits.Decimal.Text
import CodeHabits.Fault

/-!
# `CodeHabits.Text.Template`: texts with places for values

A template is a text in which a percent sign begins a place for a value, and
two of them stand for one. A place may name a member, and has marks, a
width, a precision and a letter for the form in which the value is written.
`pieces` reads a template, and `fillTemplate` writes it with its values.
Values are handed out in order; none may be missing or left over. If the
values are the members of one object, none has to be used.

A place that the template ends in is a fault, but only after its name, its
width and its precision were looked up, which may fail in ways of their own.
-/

set_option autoImplicit false

namespace CodeHabits.Text

/-- A width or a precision: as it stands, or taken from the values. -/
inductive Extent where
  | fixed (n : Nat)
  | given
  deriving DecidableEq, Repr

/-- A place for a value. -/
structure Place where
  /-- The member that is meant. -/
  name? : Option String
  /-- Fill on the right instead of on the left. -/
  leftmost : Bool
  /-- Write a sign before a number that is not negative. -/
  plus : Bool
  /-- Write a blank in place of that sign. -/
  blank : Bool
  /-- Mark the base of a number, and keep the point and its zeros. -/
  marked : Bool
  /-- Fill a number with zeros. -/
  zeros : Bool
  width? : Option Extent
  precision? : Option Extent
  deriving Repr

namespace Place

/-- A place without any particulars. -/
def plain : Place :=
  ⟨none, false, false, false, false, false, none, none⟩

/-- The place with one more mark; `none` if the character is none. -/
def mark? (p : Place) : Char → Option Place
  | '-' => some { p with leftmost := true }
  | '+' => some { p with plus := true }
  | ' ' => some { p with blank := true }
  | '#' => some { p with marked := true }
  | '0' => some { p with zeros := true }
  | _ => none

/-- An extent with one more character; `none` if the character is not of
it. -/
def extend? (extent? : Option Extent) (c : Char) : Option Extent :=
  match extent? with
  | some .given => none
  | some (.fixed n) => if c.isDigit then some (.fixed (10 * n + (c.toNat - 48))) else none
  | none =>
    if c == '*' then some .given
    else if c.isDigit then some (.fixed (c.toNat - 48))
    else none

end Place

/-- A piece of a template. -/
inductive Piece where
  | literal (c : Char)
  | value (place : Place) (form : Char)
  /-- A place that the template ends in, as far as it goes; `none` if that is
  in the name of a member. -/
  | unfinished (place? : Option Place)

/-- How far the reading of a template is. -/
inductive Reading where
  | outside
  /-- Behind a percent sign. -/
  | opened
  /-- In the name of a member, last character first, behind brackets that
  are still open. -/
  | name (depth : Nat) (read : List Char)
  | marks (p : Place)
  | width (p : Place)
  /-- Directly behind the point before a precision. -/
  | point (p : Place)
  | precision (p : Place)
  /-- Behind a letter for the size of a number, which means nothing. -/
  | sized (p : Place)

namespace Reading

/-- Takes the letter of the form. -/
def close (p : Place) (c : Char) : Reading × List Piece :=
  (.outside, [.value p c])

/-- Takes a letter for a size or for the form. -/
def size (p : Place) (c : Char) : Reading × List Piece :=
  if c == 'h' || c == 'l' || c == 'L' then (.sized p, []) else close p c

/-- Takes a character that may be of a precision; `before?` is the precision
so far. -/
def takePrecision (before? : Option Extent) (p : Place) (c : Char) : Reading × List Piece :=
  match Place.extend? before? c with
  | some extent => (.precision { p with precision? := some extent }, [])
  | none => size p c

/-- Takes a character that may be of a width. Nothing behind a point is a
precision of zero. -/
def takeWidth (p : Place) (c : Char) : Reading × List Piece :=
  match Place.extend? p.width? c with
  | some extent => (.width { p with width? := some extent }, [])
  | none => if c == '.' then (.point { p with precision? := some (.fixed 0) }, []) else size p c

/-- Takes a character that may be a mark. -/
def takeMark (p : Place) (c : Char) : Reading × List Piece :=
  match p.mark? c with
  | some p => (.marks p, [])
  | none => takeWidth p c

/-- Takes one character; answers the pieces that it completes. -/
def step (c : Char) : Reading → Reading × List Piece
  | outside => if c == '%' then (.opened, []) else (.outside, [.literal c])
  | opened =>
    if c == '%' then (.outside, [.literal c])
    else if c == '(' then (.name 1 [], [])
    else takeMark .plain c
  | name depth read =>
    if c == ')' && depth ≤ 1 then
      (.marks { Place.plain with name? := some (String.ofList read.reverse) }, [])
    else
      let depth := if c == '(' then depth + 1 else if c == ')' then depth - 1 else depth
      (.name depth (c :: read), [])
  | marks p => takeMark p c
  | width p => takeWidth p c
  | point p => takePrecision none p c
  | precision p => takePrecision p.precision? p c
  | sized p => close p c

/-- The piece that is left when the template ends. -/
def leftover : Reading → List Piece
  | outside => []
  | opened => [.unfinished (some .plain)]
  | name .. => [.unfinished none]
  | marks p | width p | point p | precision p | sized p => [.unfinished (some p)]

end Reading

/-- The pieces of the rest of a template. -/
def piecesFrom (reading : Reading) : List Char → List Piece
  | [] => reading.leftover
  | c :: rest =>
    let (reading, done) := reading.step c
    done ++ piecesFrom reading rest

/-- The pieces of a template. -/
def pieces (template : List Char) : List Piece :=
  piecesFrom .outside template

/-- The values for a template. -/
structure Supply where
  /-- The members that places may name. -/
  members? : Option (Table String Value)
  /-- The values still to be handed out. -/
  pending : List Value

namespace Supply

/-- The values of a list. One object that is not empty stands for its
members. -/
def ofList : List Value → Supply
  | [.object (entry :: rest)] => ⟨some (entry :: rest), [.object (entry :: rest)]⟩
  | values => ⟨none, values⟩

/-- Hands out the next value. -/
def next (s : Supply) : Except Fault (Value × Supply) :=
  match s.pending with
  | value :: rest => .ok (value, { s with pending := rest })
  | [] => .error .wrongKind

/-- The supply at a place: the named member alone, if one is named. -/
def narrowed (s : Supply) : (name? : Option String) → Except Fault Supply
  | none => .ok s
  | some name =>
    match s.members? with
    | none => .error .wrongKind
    | some members =>
      match members.get? name with
      | some value => .ok { s with pending := [value] }
      | none => .error (.missingMember name)

/-- A width or a precision, of less than `2 ^ bits`. One that is taken from the
values may also be negative, down to `-2 ^ bits`. -/
def extent (s : Supply) (bits : Nat) : Option Extent → Except Fault (Option Int × Supply)
  | none => .ok (none, s)
  | some (.fixed n) =>
    if n < pow2 bits then .ok (some n, s) else .error (.refused .unreadable)
  | some .given => do
    match ← s.next with
    | (.int n, s) =>
      if -(pow2 bits : Int) ≤ n && n < pow2 bits then return (some n, s) else throw .overflow
    | (.bool b, s) => return (some (if b then 1 else 0), s)
    | _ => throw .wrongKind

/-- Whether no value is left over. -/
def isSpent (s : Supply) : Bool :=
  s.members?.isSome || s.pending.isEmpty

end Supply

/-- The text of a value in a place, with the sign and the mark of the base
apart, which zeros go behind. -/
structure Filling where
  lead : List Char
  body : List Char

/-- A filling and the width that it is to be brought to. -/
structure Padded where
  filling : Filling
  leftmost : Bool
  zeros : Bool
  width : Nat

namespace Padded

/-- One character as it is. -/
def ofChar (c : Char) : Padded :=
  ⟨⟨[], [c]⟩, false, false, 0⟩

/-- The filling brought to its width. -/
def chars (p : Padded) : List Char :=
  let missing := p.width - (p.filling.lead.length + p.filling.body.length)
  if p.leftmost then p.filling.lead ++ p.filling.body ++ List.replicate missing ' '
  else if p.zeros then p.filling.lead ++ List.replicate missing '0' ++ p.filling.body
  else List.replicate missing ' ' ++ p.filling.lead ++ p.filling.body

end Padded

namespace Place

/-- The sign before a number. -/
def sign (p : Place) (negative : Bool) : List Char :=
  if negative then ['-'] else if p.plus then ['+'] else if p.blank then [' '] else []

/-- The width from which on no room is found for a text. -/
def roomBound : Nat := pow2 36

/-- The width, and the number of places, from which on a text is too long to
be written. -/
def lengthBound : Nat := pow2 24

/-- How many characters a width asks for. The least of all widths has no
opposite and asks for none. -/
def breadth (width : Int) : Nat :=
  if width = -(pow2 63 : Int) then 0 else width.natAbs

/-- The number of digits from which on no whole number is written. -/
def digitBound : Nat := pow2 31 - 4

/-- A whole number in a base, with at least `least` digits. -/
def whole (p : Place) (base : Nat) (mark : List Char) (capital : Bool) (least : Nat) (n : Int) :
    Filling :=
  let ds := Decimal.padLeft least (Nat.toDigits base n.natAbs)
  ⟨p.sign (n < 0) ++ (if p.marked then mark else []),
    if capital then ds.map Char.toUpper else ds⟩

/-- The text of a floating-point number, with its sign apart. -/
def realText (p : Place) (capital : Bool) (text : String) : Filling :=
  let cs := if capital then text.toList.map Char.toUpper else text.toList
  match cs with
  | '-' :: rest => ⟨p.sign true, rest⟩
  | cs => ⟨p.sign false, cs⟩

/-- A text, of which at most `most?` characters are kept. -/
def cut (most? : Option Nat) (text : String) : Filling :=
  ⟨[], match most? with
    | some most => text.toList.take most
    | none => text.toList⟩

/-- The whole number that a place for one takes: of other numbers what comes
before the point. -/
def wholeOf : Value → Except Fault Int
  | .bool b => .ok (if b then 1 else 0)
  | .int n => .ok n
  | .real x => (Value.real x).toWhole
  | _ => .error .wrongKind

/-- The whole number that a place for one in another base takes. -/
def integerOf : Value → Except Fault Int
  | .real _ => .error .wrongKind
  | value => wholeOf value

/-- The floating-point number that a place for one takes. -/
def realOf (value : Value) : Except Fault Float :=
  if value.number?.isSome then value.toReal else .error .wrongKind

/-- The character that a place for one takes. -/
def characterOf : Value → Except Fault Char
  | .text s => match s.toList with
    | [c] => .ok c
    | _ => .error .wrongKind
  | .real _ => .error .wrongKind
  | value => do
    let n ← wholeOf value
    if 0 ≤ n && n < 0x110000 then return Char.ofNat n.toNat else throw .overflow

/-- A text without what is not ASCII, which is escaped. -/
def asciiOnly (text : String) : String :=
  String.ofList (text.toList.flatMap fun c => if c.toNat < 128 then [c] else Text.escapeCode c)

/-- A value in a place, and whether it is a number. -/
def write (p : Place) (precision? : Option Nat) (form : Char) (value : Value) :
    Except Fault (Filling × Bool) := do
  let places := precision?.getD 6
  let least := precision?.getD 0
  let real (capital : Bool) (text : Float → String) : Except Fault (Filling × Bool) := do
    let x ← realOf value
    if lengthBound ≤ places then throw .tooLong
    return (p.realText capital (text x), true)
  let whole (base : Nat) (mark : List Char) (capital : Bool) (n : Int) :
      Except Fault (Filling × Bool) :=
    if digitBound < least then .error .overflow
    else .ok (p.whole base mark capital least n, true)
  match form with
  | 's' => return (cut precision? value.display, false)
  | 'r' => return (cut precision? value.inner, false)
  | 'a' => return (cut precision? (asciiOnly value.inner), false)
  | 'c' => return (⟨[], [← characterOf value]⟩, false)
  | 'd' | 'i' | 'u' => whole 10 [] false (← wholeOf value)
  | 'o' => whole 8 ['0', 'o'] false (← integerOf value)
  | 'x' => whole 16 ['0', 'x'] false (← integerOf value)
  | 'X' => whole 16 ['0', 'X'] true (← integerOf value)
  | 'f' => real false (Decimal.positional places p.marked)
  | 'F' => real true (Decimal.positional places p.marked)
  | 'e' => real false (Decimal.exponential places p.marked)
  | 'E' => real true (Decimal.exponential places p.marked)
  | 'g' => real false (Decimal.general places p.marked)
  | 'G' => real true (Decimal.general places p.marked)
  | _ => throw (.refused .unreadable)

/-- The width and the precision of a place, and the values from which its
own is taken. -/
def extents (p : Place) (s : Supply) : Except Fault (Option Int × Option Int × Supply) := do
  let s ← s.narrowed p.name?
  let (width?, s) ← s.extent 63 p.width?
  let (precision?, s) ← s.extent 31 p.precision?
  return (width?, precision?, s)

/-- Fills a place; answers its text and what is left of the values. A
negative width fills on the right, and a negative precision counts as
none of it. -/
def fill (p : Place) (form : Char) (s : Supply) : Except Fault (Padded × Supply) := do
  let (width?, precision?, s) ← p.extents s
  let (value, s) ← s.next
  let width := width?.getD 0
  let (filling, isNumber) ← p.write (precision?.map Int.toNat) form value
  if roomBound ≤ breadth width then throw .tooLong
  return (⟨filling, p.leftmost || width < 0, p.zeros && isNumber, breadth width⟩, s)

/-- What is wrong with a place that the template ends in. Its name, width and
precision are looked up first. -/
def unfinished (place? : Option Place) (s : Supply) : Fault :=
  match place? with
  | none => if s.members?.isNone then .wrongKind else .refused .unreadable
  | some p =>
    match p.extents s with
    | .error fault => fault
    | .ok _ => .refused .unreadable

end Place

/-- Fills the pieces of a template, one after the other. -/
def fillPieces (s : Supply) : List Piece → Except Fault (List Padded × Supply)
  | [] => .ok ([], s)
  | .literal c :: rest => do
    let (texts, s) ← fillPieces s rest
    return (.ofChar c :: texts, s)
  | .value place form :: rest => do
    let (here, s) ← place.fill form s
    let (texts, s) ← fillPieces s rest
    return (here :: texts, s)
  | .unfinished place? :: _ => .error (Place.unfinished place? s)

/-- A template with its values. Nothing is written before all places are
filled and all values are used. -/
def fillTemplate (template : String) (values : List Value) : Except Fault String := do
  let (texts, s) ← fillPieces (.ofList values) (pieces template.toList)
  if !s.isSpent then throw .wrongKind
  if texts.any fun t => Place.lengthBound ≤ t.width then throw .tooLong
  return String.ofList (texts.flatMap Padded.chars)

end CodeHabits.Text
