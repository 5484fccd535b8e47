import CodeHabits.Fault
import CodeHabits.Text.Lowercase

/-!
# `CodeHabits.Naming`: naming conventions

A name is classified by its spelling, in ASCII letters, digits and
underscores, and the name of a function also by the verb that it starts
with.
-/

set_option autoImplicit false

namespace CodeHabits.Naming

/-- A small letter. -/
def isSmall (c : Char) : Bool := 'a' ≤ c && c ≤ 'z'

/-- A capital letter. -/
def isCapital (c : Char) : Bool := 'A' ≤ c && c ≤ 'Z'

/-- Whether a word starts with a character of the first kind and goes on
with characters of the second. -/
def startsAndGoesOn (first rest : Char → Bool) : List Char → Bool
  | [] => false
  | c :: cs => first c && cs.all rest

/-- The parts between underscores. -/
def underscoreParts (cs : List Char) : List (List Char) :=
  cs.splitOn '_'

/-- A small letter, then small letters and digits. -/
def isLowercase (cs : List Char) : Bool :=
  startsAndGoesOn isSmall (fun c => isSmall c || c.isDigit) cs

/-- A small letter, then letters and digits. -/
def isCamel (cs : List Char) : Bool :=
  startsAndGoesOn isSmall Char.isAlphanum cs

/-- A capital letter, then letters and digits. -/
def isPascal (cs : List Char) : Bool :=
  startsAndGoesOn isCapital Char.isAlphanum cs

/-- Whether the first part is a word that starts with `first`, and every
further part is not empty and made of `rest`. -/
def isJoined (first rest : Char → Bool) (parts : List (List Char)) : Bool :=
  match parts with
  | [] => false
  | head :: tail =>
    startsAndGoesOn first rest head && tail.all fun part => !part.isEmpty && part.all rest

/-- Lower case words joined by underscores, at least two of them. -/
def isSnake (cs : List Char) : Bool :=
  let parts := underscoreParts cs
  2 ≤ parts.length && isJoined isSmall (fun c => isSmall c || c.isDigit) parts

/-- Capital words joined by underscores. -/
def isUpperSnake (cs : List Char) : Bool :=
  isJoined isCapital (fun c => isCapital c || c.isDigit) (underscoreParts cs)

/-- A name without one line break at its end, which does not count. -/
def dropLineBreak (cs : List Char) : List Char :=
  match cs.reverse with
  | '\n' :: rest => rest.reverse
  | _ => cs

/-- The name that a value is, as far as there is one to classify. What is no
text has no spelling. -/
def nameOf (value : Value) : Except Fault (Option String) :=
  match value with
  | .text s => .ok (some s)
  | value => if value.truthy then .error .noSuchOperation else .ok none

/-- The part of a name that is classified: without the marks in front, the
underscores behind, and the mark of a raw name. -/
def core (name : String) : List Char :=
  let cs := name.toList.dropWhile fun c => c == '_' || c == '#' || c == '$' || c == '@'
  let cs := (cs.reverse.dropWhile (· == '_')).reverse
  match cs with
  | 'r' :: '#' :: rest => rest
  | _ => cs

/-- The convention of a name; `none` when there is nothing to classify. -/
def convention? (name : String) : Option String :=
  let whole := core name
  let cs := dropLineBreak whole
  if whole.isEmpty then none
  else if isLowercase cs then some "lowercase"
  else if 1 < whole.length && isUpperSnake cs then some "UPPER_SNAKE"
  else if isSnake cs then some "snake_case"
  else if isCamel cs then some "camelCase"
  else if isPascal cs then some "PascalCase"
  else some "mixed"

/-- Leading verbs, by the role that they give a function. -/
def verbGroups : Table String (List String) :=
  [("getter", ["get", "fetch", "retrieve", "load", "find", "read", "query", "select", "obtain"]),
   ("setter", ["set", "update", "modify", "change", "save", "write", "store", "put", "assign"]),
   ("predicate", ["is", "has", "can", "should", "will", "must", "needs", "allows"]),
   ("action",
    ["create", "make", "build", "add", "insert", "remove", "delete", "process", "handle",
     "execute", "run", "perform", "parse", "validate", "render", "init", "initialize", "compute",
     "calculate", "convert", "format", "send", "register", "reset", "clear"])]

/-- The first word of a name: after underscores a letter, and the small
letters and digits that follow it. -/
def leadingWord? (name : String) : Option String :=
  match name.toList.dropWhile (· == '_') with
  | [] => none
  | c :: rest =>
    if c.isAlpha then
      some (String.ofList (c.toLower :: rest.takeWhile fun d => isSmall d || d.isDigit))
    else none

/-- The role that the first word of a function's name gives it. -/
def verbRole? (name : String) : Option String := do
  let word ← leadingWord? name
  let group ← verbGroups.find? fun group => group.2.contains word
  some group.1

end CodeHabits.Naming
