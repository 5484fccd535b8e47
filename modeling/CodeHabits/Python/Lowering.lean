import CodeHabits.Parsed
import CodeHabits.Python.Chunks
import CodeHabits.Python.Syntax

/-!
# `CodeHabits.Python.Lowering`: trees of Python source

Statements become trees of their own kinds. An expression gives only the
calls, lambdas, comprehensions and conditional expressions in it; what calls
the target of a call comes before the call, and its arguments are inside it.
The first statement of a body gives nothing if it is a docstring. A function
right inside a class is a method, also if conditionals, loops or other
blocks lie in between. Lowering keeps count of the classes that it is in.

If the source as a whole breaks the grammar, its chunks are read one by one.
Each chunk that breaks it becomes an error node.

The budget is looked at before reading, after it or once per chunk, and at
every 128th node made.
-/

set_option autoImplicit false

namespace CodeHabits.Python

/-- A place as a span in a file. -/
def Place.span (file : String) (p : Place) : Span :=
  ⟨file, p.line, p.column, p.endLine, p.endColumn⟩

/-- A tree at a place of a file. -/
def treeAt (file : String) (tag : Tag) (p : Place) (attributes : Attributes)
    (children : List Tree) : Tree :=
  .node tag (p.span file) attributes children

/-- The name of a call's target: names joined by dots, behind a mark if they
start with anything but a name. -/
def dottedName : Expr → String
  | .name _ id => id
  | .member _ value name => dottedName value ++ "." ++ name
  | .call _ target _ _ => dottedName target
  | _ => "<expression>"

/-- What a comprehension is called. -/
def Collected.kind : Collected → String
  | list => "list_comprehension"
  | set => "set_comprehension"
  | dict => "dict_comprehension"
  | generator => "generator"

/-- What a loop is called. -/
def LoopWord.kind : LoopWord → String
  | each => "for"
  | asyncEach => "async_for"
  | whileTrue => "while"

section

variable (file : String)

mutual

/-- The trees in an expression. -/
def expression : Expr → List Tree
  | .name _ _ => []
  | .member _ value _ => expression value
  | .constant _ _ => []
  | .sequence _ elements => expressions elements
  | .call p target arguments keywords =>
    expression target ++
      [treeAt file .call p
        [("callee", .text (dottedName target)),
         ("arg_count", .ofNat (arguments.length + keywords.length))]
        (expressions arguments ++ expressions keywords)]
  | .lambda p parameters _ body =>
    [treeAt file .functionDef p
      [("name", .null), ("param_count", .ofNat parameters), ("is_async", .bool false),
       ("kind", .text "lambda"), ("expression_body", .bool true)]
      [treeAt file .returning body.place [("has_value", .bool true)] (expression body)]]
  | .comprehension p collected results loops =>
    [treeAt file .loop p [("kind", .text collected.kind)] (sources loops ++ expressions results)]
  | .ternary p test body orelse =>
    [treeAt file .conditional p [("kind", .text "ternary"), ("has_else", .bool true)]
      (expression test ++ expression body ++ expression orelse)]
  | .other _ parts => expressions parts

/-- The trees in several expressions. -/
def expressions : List Expr → List Tree
  | [] => []
  | e :: rest => expression e ++ expressions rest

/-- The trees in what the loops of a comprehension run over. -/
def sources : List CompLoop → List Tree
  | [] => []
  | .mk _ source _ :: rest => expression source ++ sources rest

end

/-- The trees in an expression that may be absent. -/
def expressionOf : Option Expr → List Tree
  | some e => expression file e
  | none => []

/-- A count that is only noted if it is not zero. -/
def countNoted (name : String) (count : Nat) : Attributes :=
  if count == 0 then [] else [(name, .ofNat count)]

/-- What is noted of a function. -/
def FunctionHead.attributes (head : FunctionHead) (inClass : Bool) : Attributes :=
  let kind :=
    if !inClass then "function" else if head.name == "__init__" then "constructor" else "method"
  [("name", .text head.name), ("param_count", .ofNat head.parameters),
   ("is_async", .bool head.isAsync), ("kind", .text kind),
   ("default_param_count", .ofNat head.defaults), ("has_return_type", .bool head.returns)]
  ++ countNoted "decorator_count" head.decorators

/-- What is noted of a class. -/
def ClassHead.attributes (head : ClassHead) : Attributes :=
  [("name", .text head.name), ("kind", .text "class"), ("base_count", .ofNat head.bases)]
  ++ countNoted "decorator_count" head.decorators

/-- Whether an expression is a name. -/
def Expr.isName : Expr → Bool
  | name _ _ => true
  | _ => false

/-- Whether an expression can take values apart into names. -/
def Expr.isUnpacking : Expr → Bool
  | name _ _ | sequence _ _ => true
  | _ => false

/-- The tree for an assignment: a declaration if it only sets names. -/
def assignment (p : Place) (annotated : Bool) (targets : List Expr) (value? : Option Expr) : Tree :=
  let children := expressionOf file value?
  if targets.all Expr.isName then
    let first := match targets with
      | .name _ id :: _ => Value.text id
      | _ => .null
    treeAt file .varDecl p
      [("name", first), ("kind", .text (if annotated then "annotated" else "assign")),
       ("declarator_count", .ofNat targets.length), ("has_initializer", .bool value?.isSome)]
      children
  else if targets.all Expr.isUnpacking then
    treeAt file .varDecl p
      [("name", .null), ("kind", .text "unpack"), ("declarator_count", .ofNat targets.length),
       ("has_initializer", .bool true)]
      children
  else treeAt file .assignment p [("operator", .text "=")] children

/-- The tree for an import. -/
def importTree (p : Place) (name kind : String) (count : Nat) : Tree :=
  treeAt file .importing p
    [("name", .text name), ("kind", .text kind), ("name_count", .ofNat count)] []

/-- Lowering statements counts the classes around the statement at hand, up to the nearest
function around it. -/
abbrev Scoped := StateM Nat

/-- Lowers what is inside a function: there it is in no class at first. -/
def insideFunction {α : Type} (x : Scoped α) : Scoped α := do
  let depth ← get
  set 0
  let a ← x
  set depth
  return a

/-- Lowers what is inside a class. -/
def insideClass {α : Type} (x : Scoped α) : Scoped α := do
  modify (· + 1)
  let a ← x
  modify (· - 1)
  return a

mutual

/-- The tree for a statement. -/
def statement : Stmt → Scoped Tree
  | .function p head body => do
    let depth ← get
    let inside ← insideFunction (block body)
    return treeAt file .functionDef p (head.attributes (depth != 0)) inside
  | .classDef p head body => do
    let inside ← insideClass (block body)
    return treeAt file .classDef p head.attributes inside
  | .importing p first count => return importTree file p first "import" count
  | .importFrom p level module names =>
    return importTree file p (String.ofList (List.replicate level '.') ++ module)
      (if names.contains "*" then "star_import" else "from_import") names.length
  | .loop p word head body orelse => do
    let inside ← block body
    let after ← block orelse
    return treeAt file .loop p
      (("kind", .text word.kind) :: if orelse.isEmpty then [] else [("has_else", .bool true)])
      (expression file head ++ inside ++ after)
  | .conditional p test body orelse => do
    let inside ← block body
    let after ← block orelse
    return treeAt file .conditional p [("kind", .text "if"), ("has_else", .bool !orelse.isEmpty)]
      (expression file test ++ inside ++ after)
  | .matching p subject cases => do
    let inside ← caseBlocks cases
    return treeAt file .conditional p
      [("kind", .text "match"), ("has_else", .bool (cases.any fun c => c.1)),
       ("arm_count", .ofNat cases.length)]
      (expression file subject ++ inside)
  | .trying p body handlers orelse final => do
    let inside ← block body
    let handled ← blocks handlers
    let after ← block orelse
    let last ← block final
    return treeAt file .trying p
      [("has_catch", .bool !handlers.isEmpty), ("has_finally", .bool !final.isEmpty),
       ("handler_count", .ofNat handlers.length)]
      (inside ++ handled ++ after ++ last)
  | .returning p value? =>
    return treeAt file .returning p [("has_value", .bool value?.isSome)]
      (expressionOf file value?)
  | .assign p annotated targets value? => return assignment file p annotated targets value?
  | .augmented p operator value =>
    return treeAt file .assignment p [("operator", .text operator)] (expression file value)
  | .withBlock p isAsync items body => do
    let inside ← block body
    return treeAt file .block p [("kind", .text (if isAsync then "async_with" else "with"))]
      (expressions file items ++ inside)
  | .expression p value => return treeAt file .expression p [] (expression file value)
  | .other p kind parts =>
    return treeAt file .statement p [("kind", .text kind)] (expressions file parts)

/-- The trees for the statements of a body, without its docstring. -/
def block : List Stmt → Scoped (List Tree)
  | [] => return []
  | first :: rest => do
    if first.isDocstring then statements rest
    else
      let tree ← statement first
      let trees ← statements rest
      return tree :: trees

/-- The trees for statements. -/
def statements : List Stmt → Scoped (List Tree)
  | [] => return []
  | t :: rest => do
    let tree ← statement t
    let trees ← statements rest
    return tree :: trees

/-- The trees for several bodies. -/
def blocks : List (List Stmt) → Scoped (List Tree)
  | [] => return []
  | body :: rest => do
    let trees ← block body
    let others ← blocks rest
    return trees ++ others

/-- The trees for the bodies of a match. -/
def caseBlocks : List (Bool × List Stmt) → Scoped (List Tree)
  | [] => return []
  | (_, body) :: rest => do
    let trees ← block body
    let others ← caseBlocks rest
    return trees ++ others

end

/-- The trees for the statements of a chunk. Only the first statement of a file can be its
docstring. -/
def chunkStatements (atStart : Bool) (body : List Stmt) : Scoped (List Tree) :=
  if atStart then block file body else statements file body

end

/-- How many nodes are made between looks at the budget. -/
def nodesPerLook : Nat :=
  128

/-- The looks at the budget that go with making so many nodes after others. -/
def looks (before more : Nat) : Nat :=
  (before + more) / nodesPerLook - before / nodesPerLook

/-- A line or a column of a problem, one if it is not known. -/
def knownOrOne (n? : Option Int) : Int :=
  if n?.getD 0 == 0 then 1 else n?.getD 0

/-- The problem of a chunk that breaks the grammar. The line is counted in the chunk. -/
def Chunk.problem (chunk : Chunk) (message : String) (line? column? : Option Int) : Diagnostic :=
  ⟨message, chunk.firstLine + knownOrOne line? - 1, max (knownOrOne column? - 1) 0⟩

/-- The node for a chunk with a problem: it ends with the chunk. -/
def Chunk.errorTree (file : String) (chunk : Chunk) (problem : Diagnostic) : Tree :=
  Parsed.errorTree file problem (chunk.firstLine + chunk.lines.length - 1)
    (chunk.lines.getLast?.getD []).length

/-- What the chunks of a source text have given so far. -/
structure Pieces where
  trees : List Tree
  problems : List Diagnostic
  /-- The number of nodes made. -/
  made : Nat
  /-- The number of classes that lowering has entered and not left. -/
  depth : Nat
  /-- Whether no chunk has been read. -/
  atStart : Bool

/-- Takes in a chunk. -/
def Pieces.add (read : String → Reading) (file : String) (ps : Pieces) (chunk : Chunk) :
    Timed Pieces := do
  Timed.check
  if chunk.isBlank then return ps
  match read chunk.text with
  | .refused => throw (.refused .unreadable)
  | .broken message line? column? =>
    let problem := chunk.problem message line? column?
    return ⟨ps.trees ++ [chunk.errorTree file problem], ps.problems ++ [problem], ps.made, ps.depth,
      false⟩
  | .statements body =>
    let body := Stmt.downAll (chunk.firstLine - 1) body
    let (trees, depth) := (chunkStatements file ps.atStart body).run ps.depth
    Timed.checkTimes (looks ps.made (Tree.sizeList trees))
    return ⟨ps.trees ++ trees, ps.problems, ps.made + Tree.sizeList trees, depth, false⟩

/-- The tree of a Python source, given how texts read. -/
def build (read : String → Reading) (source file language : String) : Timed Parsed := do
  match read source with
  | .refused => throw (.refused .unreadable)
  | .statements body =>
    Timed.check
    let (trees, _) := (block file body).run 0
    Timed.checkTimes (looks 0 (Tree.sizeList trees))
    return ⟨Parsed.moduleTree source file trees, language, []⟩
  | .broken _ _ _ =>
    let pieces ← (splitTopLevel source).foldlM (Pieces.add read file) ⟨[], [], 0, 0, true⟩
    return ⟨Parsed.moduleTree source file pieces.trees, language, pieces.problems⟩

end CodeHabits.Python
