import CodeHabits.Fault
import CodeHabits.Tree

/-!
# `CodeHabits.Pattern.Kind`: kinds of patterns, and sightings

A pattern is learned from a node, and the node's tag says of which kind it
is. Nodes with other tags give no pattern.

A sighting says what kind of pattern was seen, by what it is recognised, in
which file, and which habits of style showed. A store learns from sightings,
whether they come from a tree or from a document.
-/

set_option autoImplicit false

namespace CodeHabits

/-- Kinds of patterns. -/
inductive PatternKind where
  | functionDefinition
  | classDefinition
  | variableDeclaration
  | loopConstruct
  | conditionalStatement
  | functionCall
  | importStatement
  | exceptionHandling
  deriving DecidableEq, Repr

namespace PatternKind

/-- The name of a kind. -/
def name : PatternKind → String
  | functionDefinition => "function_definition"
  | classDefinition => "class_definition"
  | variableDeclaration => "variable_declaration"
  | loopConstruct => "loop_construct"
  | conditionalStatement => "conditional_statement"
  | functionCall => "function_call"
  | importStatement => "import_statement"
  | exceptionHandling => "exception_handling"

/-- Every kind. -/
def all : List PatternKind :=
  [functionDefinition, classDefinition, variableDeclaration, loopConstruct, conditionalStatement,
   functionCall, importStatement, exceptionHandling]

theorem mem_all (kind : PatternKind) : kind ∈ all := by
  cases kind <;> decide

/-- The kind of a name. -/
def ofName? (s : String) : Option PatternKind :=
  all.find? fun kind => kind.name == s

/-- The kind that a value names. -/
def ofValue (value : Value) : Except Fault PatternKind :=
  match value.text?.bind ofName? with
  | some kind => .ok kind
  | none => .error (.refused (.notOneOf value "PatternType"))

/-- The kind of pattern that nodes with a tag give. -/
def ofTag? : Tag → Option PatternKind
  | .functionDef => some functionDefinition
  | .classDef => some classDefinition
  | .varDecl => some variableDeclaration
  | .loop => some loopConstruct
  | .conditional => some conditionalStatement
  | .call => some functionCall
  | .importing => some importStatement
  | .trying => some exceptionHandling
  | _ => none

end PatternKind

/-- A sighting of a pattern: what a store learns from. -/
structure Sighting where
  kind : PatternKind
  language : Label
  signature : Label
  sourceFile : Value
  sample : Value
  /-- The habits of style, which have to be the members of an object. -/
  style : Value

/-- A sighting out of a document. -/
def Sighting.read (document : Value) : Except Fault Sighting := do
  let kind ← PatternKind.ofValue (← document.needMember "pattern_type")
  let language ← document.needMember "language"
  let signature ← document.needMember "signature"
  let sourceFile ← document.needMember "source_file"
  let sample ← document.needMember "example"
  return ⟨kind, ← language.toLabel, ← signature.toLabel, sourceFile, sample,
    (document.member? "style").getD (.object [])⟩

end CodeHabits
