import CodeHabits.Decimal.Text
import CodeHabits.Text.Quoted
import CodeHabits.Value

/-!
# `CodeHabits.Json.Printer`: documents as JSON text

Saved documents have one entry a line, two more blanks of indentation for
each level, and every character beyond ASCII as it is. A line form without
any blanks is there for exchanging documents line by line.
-/

set_option autoImplicit false

namespace CodeHabits.Json

/-- One character of a text. -/
def writeChar (c : Char) : List Char :=
  if c == '"' || c == '\\' then ['\\', c]
  else if c == '\n' then ['\\', 'n']
  else if c == '\r' then ['\\', 'r']
  else if c == '\t' then ['\\', 't']
  else if c.toNat == 8 then ['\\', 'b']
  else if c.toNat == 12 then ['\\', 'f']
  else if c.toNat < 0x20 then '\\' :: 'u' :: Text.hexDigits 4 c.toNat
  else [c]

/-- A text in double quotes. -/
def writeText (s : String) : String :=
  String.ofList ('"' :: s.toList.flatMap writeChar ++ ['"'])

/-- A floating-point number. -/
def writeReal (x : Float) : String :=
  Decimal.shortest Decimal.plainLayout "NaN" "Infinity" x

/-- A label as the name of a member. -/
def memberName : Label → String
  | .null => "null"
  | .bool b => if b then "true" else "false"
  | .int n => toString n
  | .real x => writeReal x
  | .text s => s

/-- How entries are set apart. -/
structure Style where
  /-- What comes before an entry, or before the closing bracket, at a
  depth. -/
  lineBreak : Nat → String
  /-- What comes between the name of a member and its value. -/
  colon : String

/-- One entry a line. -/
def Style.saved : Style :=
  ⟨fun depth => "\n" ++ String.ofList (List.replicate (2 * depth) ' '), ": "⟩

/-- All on one line. -/
def Style.line : Style := ⟨fun _ => "", ":"⟩

/-- Entries between brackets. -/
def Style.bracket (style : Style) (opening closing : String) (depth : Nat)
    (entries : List String) : String :=
  if entries.isEmpty then opening ++ closing
  else
    let lead := style.lineBreak (depth + 1)
    opening ++ lead ++ ("," ++ lead).intercalate entries ++ style.lineBreak depth ++ closing

mutual

/-- A value at a depth. -/
def Style.write (style : Style) (depth : Nat) : Value → String
  | .null => "null"
  | .bool b => if b then "true" else "false"
  | .int n => toString n
  | .real x => writeReal x
  | .text s => writeText s
  | .list items => style.bracket "[" "]" depth (style.writeItems (depth + 1) items)
  | .object members =>
    style.bracket "\x7b" "\x7d" depth (style.writeMembers (depth + 1) members)

/-- The items of a list. -/
def Style.writeItems (style : Style) (depth : Nat) : List Value → List String
  | [] => []
  | item :: rest => style.write depth item :: style.writeItems depth rest

/-- The members of an object. -/
def Style.writeMembers (style : Style) (depth : Nat) : List (String × Value) → List String
  | [] => []
  | (name, item) :: rest =>
    (writeText name ++ style.colon ++ style.write depth item) :: style.writeMembers depth rest

end

/-- A document as it is saved. -/
def saved (document : Value) : String :=
  Style.saved.write 0 document

/-- A document on one line. -/
def line (document : Value) : String :=
  Style.line.write 0 document

end CodeHabits.Json
