import CodeHabits.Decimal.Text
import CodeHabits.Text.Quoted
import CodeHabits.Value

/-!
# `CodeHabits.Value.Display`: values in messages and signatures

A text by itself is shown as it is, and in quotes inside a list or an
object.
-/

set_option autoImplicit false

namespace CodeHabits

/-- A floating-point number as messages show it. -/
def showReal (x : Float) : String :=
  Decimal.shortest Decimal.plainLayout "nan" "inf" x

/-- A truth value as messages show it. -/
def showBool (b : Bool) : String :=
  if b then "True" else "False"

namespace Value

mutual

/-- A value inside another one. -/
def inner : Value → String
  | .null => "None"
  | .bool b => showBool b
  | .int n => toString n
  | .real x => showReal x
  | .text s => Text.quoted s
  | .list items => "[" ++ ", ".intercalate (innerList items) ++ "]"
  | .object members => "\x7b" ++ ", ".intercalate (innerMembers members) ++ "\x7d"

/-- The items of a list. -/
def innerList : List Value → List String
  | [] => []
  | item :: rest => inner item :: innerList rest

/-- The members of an object, each after its name. -/
def innerMembers : List (String × Value) → List String
  | [] => []
  | (name, item) :: rest => (Text.quoted name ++ ": " ++ inner item) :: innerMembers rest

end

/-- A value by itself. -/
def display : Value → String
  | .text s => s
  | value => value.inner

end Value

/-- A label by itself. -/
def Label.display (l : Label) : String :=
  l.value.display

end CodeHabits
