import CodeHabits.Decimal.Reader
import CodeHabits.Value

/-!
# `CodeHabits.Json.Reader`: documents read from JSON text

Reading has two steps. `scan` runs over the characters once and cuts the
text into tokens; `build` runs over the tokens once with the stack of open
lists and objects. Beyond the JSON grammar the three words `NaN`,
`Infinity` and `-Infinity` are numbers, the last of several members of one
name counts, and a whole number has at most 4300 digits.
-/

set_option autoImplicit false

namespace CodeHabits.Json

/-- A piece of JSON text. -/
inductive Token where
  | openList | closeList | openObject | closeObject | comma | colon
  | text (s : String)
  | atom (value : Value)
  /-- A whole number of too many digits. -/
  | tooLong
  /-- Text that is no token. -/
  | malformed

/-- Why text is no document. -/
inductive Problem where
  | malformed
  | tooLong
  deriving DecidableEq, Repr

/-- Digits, with no zero in front of others. -/
def isWhole (ds : List Char) : Bool :=
  ds.all Char.isDigit && match ds with
    | [] => false
    | ['0'] => true
    | d :: _ => d != '0'

/-- The number that a word is. -/
def number? (word : List Char) : Option Token :=
  let (negative, body) := match word with
    | '-' :: rest => (true, rest)
    | _ => (false, word)
  let whole := body.takeWhile Char.isDigit
  let rest := body.dropWhile Char.isDigit
  if !isWhole whole then none
  else if rest.isEmpty then
    if Decimal.mostDigits < whole.length then some .tooLong
    else
      let n : Int := Decimal.valueOfDigits whole
      some (.atom (.int (if negative then -n else n)))
  else if rest == ['.'] then none
  else match rest with
    | '.' :: d :: _ =>
      if d.isDigit then (Decimal.readUnsigned? negative body).map fun x => .atom (.real x)
      else none
    | _ => (Decimal.readUnsigned? negative body).map fun x => .atom (.real x)

/-- The token that a word is. -/
def ofWord (word : List Char) : Token :=
  match String.ofList word with
  | "null" => .atom .null
  | "true" => .atom (.bool true)
  | "false" => .atom (.bool false)
  | "NaN" => .atom (.real (Float.ofBits 0x7ff8000000000000))
  | "Infinity" => .atom (.real (Float.ofBits 0x7ff0000000000000))
  | "-Infinity" => .atom (.real (Float.ofBits 0xfff0000000000000))
  | _ => (number? word).getD .malformed

/-- The value of a hexadecimal digit. -/
def hexValue? (c : Char) : Option Nat :=
  if c.isDigit then some (c.toNat - 0x30)
  else if 'a' ≤ c && c ≤ 'f' then some (c.toNat - 0x57)
  else if 'A' ≤ c && c ≤ 'F' then some (c.toNat - 0x37)
  else none

/-- The characters that code units stand for: a high and a low surrogate
next to each other make one character. -/
def joinUnits : List Nat → List Char
  | [] => []
  | high :: low :: rest =>
    if 0xd800 ≤ high && high < 0xdc00 && 0xdc00 ≤ low && low < 0xe000 then
      Char.ofNat (0x10000 + (high - 0xd800) * 0x400 + (low - 0xdc00)) :: joinUnits rest
    else Char.ofNat high :: joinUnits (low :: rest)
  | [unit] => [Char.ofNat unit]

/-- Where the scanner stands. Texts and words are collected last character
first. -/
inductive Place where
  | between
  | word (letters : List Char)
  | inText (units : List Nat)
  | escape (units : List Nat)
  | hex (units : List Nat) (count value : Nat)
  | stopped

/-- Characters that words and numbers are made of. -/
def isWordChar (c : Char) : Bool :=
  c.isAlphanum || c == '+' || c == '-' || c == '.'

/-- What a letter after a backslash stands for. -/
def escaped? (c : Char) : Option Nat :=
  if c == '"' || c == '\\' || c == '/' then some c.toNat
  else if c == 'b' then some 8
  else if c == 'f' then some 12
  else if c == 'n' then some 10
  else if c == 'r' then some 13
  else if c == 't' then some 9
  else none

/-- One character between tokens. -/
def startToken (c : Char) (tokens : List Token) : Place × List Token :=
  if c == ' ' || c == '\t' || c == '\n' || c == '\r' then (.between, tokens)
  else if c == '[' then (.between, .openList :: tokens)
  else if c == ']' then (.between, .closeList :: tokens)
  else if c == '\x7b' then (.between, .openObject :: tokens)
  else if c == '\x7d' then (.between, .closeObject :: tokens)
  else if c == ',' then (.between, .comma :: tokens)
  else if c == ':' then (.between, .colon :: tokens)
  else if c == '"' then (.inText [], tokens)
  else if isWordChar c then (.word [c], tokens)
  else (.stopped, .malformed :: tokens)

/-- One character. Tokens are collected last first. -/
def scanChar : Place × List Token → Char → Place × List Token
  | (.between, tokens), c => startToken c tokens
  | (.word letters, tokens), c =>
    if isWordChar c then (.word (c :: letters), tokens)
    else startToken c (ofWord letters.reverse :: tokens)
  | (.inText units, tokens), c =>
    if c == '"' then (.between, .text (String.ofList (joinUnits units.reverse)) :: tokens)
    else if c == '\\' then (.escape units, tokens)
    else if c.toNat < 0x20 then (.stopped, .malformed :: tokens)
    else (.inText (c.toNat :: units), tokens)
  | (.escape units, tokens), c =>
    if c == 'u' then (.hex units 4 0, tokens)
    else match escaped? c with
      | some unit => (.inText (unit :: units), tokens)
      | none => (.stopped, .malformed :: tokens)
  | (.hex units count value, tokens), c =>
    match hexValue? c with
    | none => (.stopped, .malformed :: tokens)
    | some d =>
      if count ≤ 1 then (.inText ((16 * value + d) :: units), tokens)
      else (.hex units (count - 1) (16 * value + d), tokens)
  | (.stopped, tokens), _ => (.stopped, tokens)

/-- The tokens of a text. -/
def scan (cs : List Char) : List Token :=
  match cs.foldl scanChar (.between, []) with
  | (.between, tokens) | (.stopped, tokens) => tokens.reverse
  | (.word letters, tokens) => (ofWord letters.reverse :: tokens).reverse
  | (_, tokens) => (.malformed :: tokens).reverse

/-- An open list or object, its entries last first. -/
inductive Open where
  | list (items : List Value)
  | object (members : List (String × Value)) (name : String)

/-- What may come next. -/
inductive Expect where
  | value
  | itemOrEnd
  | nameOrEnd
  | name
  | colon
  | commaOrEnd
  | nothing

/-- The open lists and objects, innermost first, and the finished
document. -/
structure Build where
  opened : List Open
  expect : Expect
  done : Option Value

/-- Puts a finished value where it belongs. -/
def Build.finish (opened : List Open) (value : Value) : Build :=
  match opened with
  | [] => ⟨[], .nothing, some value⟩
  | .list items :: rest => ⟨.list (value :: items) :: rest, .commaOrEnd, none⟩
  | .object members name :: rest =>
    ⟨.object ((name, value) :: members) name :: rest, .commaOrEnd, none⟩

/-- Takes a token where a value is expected. -/
def Build.begin (opened : List Open) : Token → Except Problem Build
  | .openList => .ok ⟨.list [] :: opened, .itemOrEnd, none⟩
  | .openObject => .ok ⟨.object [] "" :: opened, .nameOrEnd, none⟩
  | .text s => .ok (Build.finish opened (.text s))
  | .atom value => .ok (Build.finish opened value)
  | .tooLong => .error .tooLong
  | _ => .error .malformed

/-- Takes the next token. -/
def Build.step (b : Build) (token : Token) : Except Problem Build :=
  match b.expect, b.opened, token with
  | .value, opened, token => Build.begin opened token
  | .itemOrEnd, .list items :: rest, .closeList =>
    .ok (Build.finish rest (.list items.reverse))
  | .itemOrEnd, opened, token => Build.begin opened token
  | .nameOrEnd, .object _ _ :: rest, .closeObject => .ok (Build.finish rest (.object []))
  | .nameOrEnd, .object members _ :: rest, .text name
  | .name, .object members _ :: rest, .text name =>
    .ok ⟨.object members name :: rest, .colon, none⟩
  | .colon, opened, .colon => .ok ⟨opened, .value, none⟩
  | .commaOrEnd, .list items :: rest, .comma => .ok ⟨.list items :: rest, .value, none⟩
  | .commaOrEnd, .list items :: rest, .closeList =>
    .ok (Build.finish rest (.list items.reverse))
  | .commaOrEnd, .object members name :: rest, .comma =>
    .ok ⟨.object members name :: rest, .name, none⟩
  | .commaOrEnd, .object members _ :: rest, .closeObject =>
    .ok (Build.finish rest (.object (Table.ofEntries members.reverse)))
  | _, _, _ => .error .malformed

/-- The document that tokens make. -/
def build (tokens : List Token) : Except Problem Value := do
  match (← tokens.foldlM Build.step ⟨[], .value, none⟩).done with
  | some value => .ok value
  | none => .error .malformed

/-- The document that a text is. -/
def read (text : String) : Except Problem Value :=
  build (scan text.toList)

end CodeHabits.Json
