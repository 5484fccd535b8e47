import CodeHabits.Formatting
import CodeHabits.Metrics
import CodeHabits.Naming
import CodeHabits.Pattern.Kind
import CodeHabits.Signature

/-!
# `CodeHabits.Candidate`: sightings of patterns in a tree

Every node with the tag of a pattern gives one candidate, in pre-order. A
candidate carries the signature that it is recognised by, the habits of
style that show in it, and a short label for people.
-/

set_option autoImplicit false

namespace CodeHabits

/-- A pattern found in a tree, with its place and measures. -/
structure Candidate where
  kind : PatternKind
  language : String
  signature : String
  sourceFile : String
  sample : String
  style : Table String Value
  span : Span
  metrics : Table String Number

namespace Candidate

/-- Whether nodes with a tag show the naming habits of their author. -/
def isNamed : Tag → Bool
  | .functionDef | .classDef | .varDecl => true
  | _ => false

/-- How far the first child on a later line is indented, if it is. -/
def indentation? (t : Tree) : Option Int := do
  let nested ← t.children.find? fun child => t.span.startLine < child.span.startLine
  let depth := nested.span.startColumn - t.span.startColumn
  if 0 < depth then some depth else none

/-- Yes or no. -/
def yesNo (value : Value) : Value :=
  .text (if value.truthy then "yes" else "no")

/-- The habits that the head of a function shows: the role of its name,
default values and a return type. -/
def signatureStyle (t : Tree) (name : Option String) : Table String Value :=
  let verb := name.bind Naming.verbRole?
  let defaults :=
    if (t.attribute? "param_count").any Value.truthy then
      (t.attribute? "default_param_count").map yesNo
    else none
  let returns :=
    if Metrics.isKind t "signature" then none else (t.attribute? "has_return_type").map yesNo
  (verb.map fun role => ("verb_prefix", Value.text role)).toList
    ++ (defaults.map fun answer => ("default_params", answer)).toList
    ++ (returns.map fun answer => ("return_annotation", answer)).toList

/-- The habits of style that show in a node. -/
def nodeStyle (t : Tree) : Except Fault (Table String Value) := do
  let indent := (indentation? t).map fun depth => ("indentation", Value.text (toString depth))
  let braces := match t.attribute? "brace_style" with
    | some value => if value.truthy then [("brace_style", value)] else []
    | none => []
  if isNamed t.tag then
    let name ← Naming.nameOf ((t.attribute? "name").getD .null)
    let naming := (name.bind Naming.convention?).map fun c => ("naming_convention", Value.text c)
    let signature := if t.tag = .functionDef then signatureStyle t name else []
    return indent.toList ++ braces ++ naming.toList ++ signature
  else return indent.toList ++ braces

/-- The complexity of a function and its nesting depth. -/
def nodeMetrics (t : Tree) : Except Fault (Table String Number) := do
  if t.tag = .functionDef then
    return [("cyclomatic_complexity", ← Metrics.complexity t),
      ("nesting_depth", .int (Metrics.nestingDepth t))]
  else return []

/-- The text of an attribute, or another text if there is no such
attribute. -/
def attributeText (t : Tree) (name otherwise : String) : String :=
  ((t.attribute? name).map Value.display).getD otherwise

/-- Whether an attribute is there and more than nothing. -/
def has (t : Tree) (name : String) : Bool :=
  (t.attribute? name).any Value.truthy

/-- A short label for a node. -/
def label (t : Tree) : String :=
  let name? := (t.attribute? "name").filter Value.truthy
  let kind := ((t.attribute? "kind").filter Value.truthy).elim t.tag.name Value.display
  match t.tag with
  | .functionDef =>
    (if has t "is_async" then "async " else "") ++ kind ++ " "
      ++ name?.elim "<anonymous>" Value.display ++ "(" ++ attributeText t "param_count" "0"
      ++ " params)"
  | .call =>
    attributeText t "callee" "<expression>" ++ "(" ++ attributeText t "arg_count" "0" ++ " args)"
  | .importing => name?.elim "import" fun name => "import " ++ name.display
  | .trying => if has t "has_finally" then "try/catch/finally" else "try/catch"
  | tag =>
    if tag = .conditional && has t "has_else" then kind ++ "/else"
    else name?.elim kind fun name => kind ++ " " ++ name.display

/-- The candidate that a node of a given height gives, if any. The habits of
the file stand below those of the node. -/
def ofNode (language sourceFile : String) (fileStyle : Table String Value) (t : Tree)
    (height : Nat) : Except Fault (Option Candidate) :=
  match PatternKind.ofTag? t.tag with
  | none => .ok none
  | some kind => do
    let style ← nodeStyle t
    let metrics ← nodeMetrics t
    return some
      { kind, language, signature := structuralSignature t height, sourceFile, span := t.span
        sample := label t, style := Table.overlay style fileStyle, metrics }

/-- The candidates of a tree, in pre-order. -/
def extract (t : Tree) (language : String) (sourceFile : Option String)
    (formatting : Option Formatting) : Except Fault (List Candidate) := do
  let file := match sourceFile with
    | some name => if name.isEmpty then t.span.file else name
    | none => t.span.file
  let fileStyle := (formatting.elim [] Formatting.style).map fun entry =>
    (entry.1, Value.text entry.2)
  let nodes := t.walk
  let found ← (nodes.zip (Tree.heights nodes)).mapM fun (node, height) =>
    ofNode language file fileStyle node height
  return found.filterMap id

/-- The sighting that a candidate is. -/
def sighting (c : Candidate) : Sighting :=
  ⟨c.kind, .text c.language, .text c.signature, .text c.sourceFile, .text c.sample,
    .object c.style⟩

/-- The candidate as a document. -/
def document (c : Candidate) : Value :=
  .object
    [("pattern_type", .text c.kind.name), ("language", .text c.language),
     ("signature", .text c.signature), ("source_file", .text c.sourceFile),
     ("span", c.span.document), ("example", .text c.sample), ("style", .object c.style),
     ("metrics", .object (c.metrics.map fun entry => (entry.1, entry.2.value)))]

end Candidate

end CodeHabits
