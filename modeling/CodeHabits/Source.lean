import CodeHabits.Text.Lines
import CodeHabits.Text.Utf8

/-!
# `CodeHabits.Source`: places in source text given by bytes

Concrete trees give their places as numbers of bytes. Here they become
lines, counted from one, and columns, counted in characters from zero, and
pieces of text.
-/

set_option autoImplicit false

namespace CodeHabits

/-- Source text as bytes. -/
structure Source where
  bytes : List UInt8

namespace Source

/-- The bytes of a text. -/
def ofString (text : String) : Source :=
  ⟨Text.encode text⟩

/-- The number of bytes. -/
def size (s : Source) : Nat :=
  s.bytes.length

/-- The text between two offsets. -/
def slice (s : Source) (start stop : Nat) : List Char :=
  Text.decode ((s.bytes.drop start).take (stop - start))

/-- The bytes from the start of its line to an offset. -/
def lineBefore (s : Source) (offset : Nat) : List UInt8 :=
  ((s.bytes.take offset).reverse.takeWhile (· != 10)).reverse

/-- The number of line feeds before an offset. -/
def row (s : Source) (offset : Nat) : Nat :=
  (s.bytes.take offset).count 10

/-- The line of an offset. -/
def line (s : Source) (offset : Nat) : Nat :=
  s.row offset + 1

/-- The column of an offset. -/
def column (s : Source) (offset : Nat) : Nat :=
  (Text.decode (s.lineBefore offset)).length

end Source

end CodeHabits
