import CodeHabits.Tree
import CodeHabits.Value.Display

/-!
# `CodeHabits.Signature`: the shape that patterns are recognised by

A signature writes down the tag of a node, those of its attributes that are
part of its identity, its height, and the tags of the two levels below it.
Names and literals never reach it, so code that differs only in them has the
same signature.
-/

set_option autoImplicit false

namespace CodeHabits

/-- The attributes that are part of a pattern's identity. -/
def identityAttributes : List String :=
  ["param_count", "arg_count", "kind", "is_async", "has_else"]

/-- An attribute's value in a signature. -/
def canonicalText : Value → String
  | .bool b => if b then "true" else "false"
  | .null => "none"
  | value => value.display

/-- The tags of trees, and behind each in parentheses those of the trees
below it, down to so many further levels. -/
def shapeText : Nat → List Tree → String
  | 0, trees => ",".intercalate (trees.map (·.tag.name))
  | levels + 1, trees =>
    ",".intercalate (trees.map fun t =>
      if t.children.isEmpty then t.tag.name
      else t.tag.name ++ "(" ++ shapeText levels t.children ++ ")")

/-- The signature of a node of a given height. -/
def structuralSignature (t : Tree) (height : Nat) : String :=
  let identity := identityAttributes.filterMap fun name =>
    (t.attribute? name).map fun value => name ++ "=" ++ canonicalText value
  "|".intercalate
    (t.tag.name :: identity ++ ["depth=" ++ toString height, "shape=" ++ shapeText 1 t.children])

end CodeHabits
