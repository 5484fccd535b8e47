/-!
# `CodeHabits.Text.Lines`: lines of a text

There are two ways of cutting a text into lines. `splitLines` cuts after
every kind of line break and makes no line of what follows the last one if
that is nothing. `List.splitOn` at the line feed keeps every part.
-/

set_option autoImplicit false

namespace CodeHabits.Text

/-- A character that ends a line. -/
def isLineEnd (c : Char) : Bool :=
  (0x0a ≤ c.toNat && c.toNat ≤ 0x0d) || (0x1c ≤ c.toNat && c.toNat ≤ 0x1e) || c.toNat == 0x85
    || c.toNat == 0x2028 || c.toNat == 0x2029

/-- The lines of a text whose first line has begun with `line`, last
character first. A carriage return and the line feed after it end one line
together. -/
def splitLinesFrom (line : List Char) : List Char → List (List Char)
  | [] => if line.isEmpty then [] else [line.reverse]
  | '\r' :: '\n' :: rest => line.reverse :: splitLinesFrom [] rest
  | c :: rest =>
    if isLineEnd c then line.reverse :: splitLinesFrom [] rest
    else splitLinesFrom (c :: line) rest

/-- The lines of a text. -/
def splitLines (cs : List Char) : List (List Char) :=
  splitLinesFrom [] cs

/-- The parts of a text between line feeds. -/
def feedLines (cs : List Char) : List (List Char) :=
  cs.splitOn '\n'

end CodeHabits.Text
