import CodeHabits.Python.Syntax
import CodeHabits.Text.Lowercase

/-!
# `CodeHabits.Python.Reader`: syntax trees out of documents

A syntax tree may come as a document: an object per node with the kind `t`,
the place `p` and the fields of the grammar. `Part.read` turns a document
into what it stands for, from the leaves up; what stands for nothing that
matters becomes `Part.blank`.
-/

set_option autoImplicit false

namespace CodeHabits.Python

/-- What a part of a document stands for. -/
inductive Part where
  | blank
  | fact (value : Value)
  | many (parts : List Part)
  | expr (e : Expr)
  | stmt (s : Stmt)
  | compLoop (l : CompLoop)
  | parameters (count : Nat) (defaults : List Expr)
  | keyword (value : Expr)
  | alias (name : String)
  | handler (body : List Stmt)
  | pattern (catchesAll : Bool)
  | matchCase (catchesAll : Bool) (body : List Stmt)
  | operator (kind : String)
  | body (statements : List Stmt)

/-- The parts of a node, by field. -/
abbrev Parts := Table String Part

namespace Parts

variable (ps : Parts)

/-- The parts in a list field. -/
def many (field : String) : List Part :=
  match ps.get? field with
  | some (.many parts) => parts
  | _ => []

/-- The expression in a field. -/
def expr? (field : String) : Option Expr :=
  match ps.get? field with
  | some (.expr e) => some e
  | _ => none

/-- The expressions in a field, be it one or a list. -/
def exprs (field : String) : List Expr :=
  (ps.expr? field).toList ++ (ps.many field).filterMap fun
    | .expr e => some e
    | _ => none

/-- The statements in a list field. -/
def stmts (field : String) : List Stmt :=
  (ps.many field).filterMap fun
    | .stmt s => some s
    | _ => none

/-- The text in a field. -/
def text? (field : String) : Option String :=
  match ps.get? field with
  | some (.fact v) => v.text?
  | _ => none

/-- Whether a field is filled. -/
def filled (field : String) : Bool :=
  match ps.get? field with
  | some (.fact .null) | none => false
  | _ => true

/-- The place of a node. -/
def place : Place :=
  match ps.get? "p" with
  | some (.many [.fact (.int l), .fact (.int c), .fact (.int el), .fact (.int ec)]) => ⟨l, c, el, ec⟩
  | _ => .nowhere

/-- The parameters of a function: their number and the defaults. -/
def signature : Nat × List Expr :=
  match ps.get? "args" with
  | some (.parameters count defaults) => (count, defaults)
  | _ => (0, [])

end Parts

/-- The fields with expressions of the expressions and statements that have
no case of their own, in the order of the grammar. -/
def partFields : Table String (List String) :=
  [("Await", ["value"]), ("BinOp", ["left", "right"]), ("BoolOp", ["values"]),
   ("Compare", ["left", "comparators"]), ("Dict", ["keys", "values"]),
   ("FormattedValue", ["value", "format_spec"]), ("JoinedStr", ["values"]), ("Set", ["elts"]),
   ("NamedExpr", ["target", "value"]), ("Slice", ["lower", "upper", "step"]),
   ("Starred", ["value"]), ("Subscript", ["value", "slice"]), ("UnaryOp", ["operand"]),
   ("Yield", ["value"]), ("YieldFrom", ["value"])]

/-- The statements without a case of their own and their fields with
expressions. -/
def plainStatements : Table String (List String) :=
  [("Assert", ["test", "msg"]), ("Break", []), ("Continue", []), ("Delete", ["targets"]),
   ("Global", []), ("Nonlocal", []), ("Pass", []), ("Raise", ["exc", "cause"])]

/-- The comprehensions. -/
def comprehensions : Table String Collected :=
  [("ListComp", .list), ("SetComp", .set), ("DictComp", .dict), ("GeneratorExp", .generator)]

/-- The expression of a kind from its parts. -/
def readExpr? (kind : String) (ps : Parts) : Option Expr :=
  match kind with
  | "Name" => some (.name ps.place ((ps.text? "id").getD ""))
  | "Attribute" => do
    return .member ps.place (← ps.expr? "value") ((ps.text? "attr").getD "")
  | "Constant" => some (.constant ps.place (ps.text? "v" == some "str"))
  | "List" | "Tuple" => some (.sequence ps.place (ps.exprs "elts"))
  | "Call" => do
    let keywords := (ps.many "keywords").filterMap fun
      | .keyword e => some e
      | _ => none
    return .call ps.place (← ps.expr? "func") (ps.exprs "args") keywords
  | "Lambda" => do
    return .lambda ps.place ps.signature.1 ps.signature.2 (← ps.expr? "body")
  | "IfExp" => do
    return .ternary ps.place (← ps.expr? "test") (← ps.expr? "body") (← ps.expr? "orelse")
  | _ =>
    match comprehensions.get? kind with
    | some collected =>
      let loops := (ps.many "generators").filterMap fun
        | .compLoop l => some l
        | _ => none
      let results := if collected = .dict then ps.exprs "key" ++ ps.exprs "value" else ps.exprs "elt"
      some (.comprehension ps.place collected results loops)
    | none => (partFields.get? kind).map fun fields => .other ps.place (fields.flatMap ps.exprs)

/-- The head of a function from its parts. -/
def readFunctionHead (isAsync : Bool) (ps : Parts) : FunctionHead :=
  ⟨(ps.text? "name").getD "", isAsync, ps.signature.1, ps.signature.2.length, ps.filled "returns",
    (ps.many "decorator_list").length⟩

/-- The names in the aliases of an import. -/
def aliasNames (ps : Parts) : List String :=
  (ps.many "names").filterMap fun
    | .alias name => some name
    | _ => none

/-- The level of an import: the number of dots in front. -/
def importLevel (ps : Parts) : Nat :=
  match ps.get? "level" with
  | some (.fact (.int n)) => n.toNat
  | _ => 0

/-- The signs of the operators that assignments may carry. -/
def operatorSigns : Table String String :=
  [("Add", "+"), ("Sub", "-"), ("Mult", "*"), ("Div", "/"), ("FloorDiv", "//"), ("Mod", "%"),
   ("Pow", "**"), ("LShift", "<<"), ("RShift", ">>"), ("BitOr", "|"), ("BitAnd", "&"),
   ("BitXor", "^"), ("MatMult", "@")]

/-- The statement of a kind from its parts. -/
def readStmt? (kind : String) (ps : Parts) : Option Stmt :=
  let place := ps.place
  match kind with
  | "FunctionDef" => some (.function place (readFunctionHead false ps) (ps.stmts "body"))
  | "AsyncFunctionDef" => some (.function place (readFunctionHead true ps) (ps.stmts "body"))
  | "ClassDef" =>
    some (.classDef place ⟨(ps.text? "name").getD "", (ps.many "bases").length,
      (ps.many "decorator_list").length⟩ (ps.stmts "body"))
  | "Import" =>
    let names := aliasNames ps
    some (.importing place (names.head?.getD "") names.length)
  | "ImportFrom" =>
    some (.importFrom place (importLevel ps) ((ps.text? "module").getD "") (aliasNames ps))
  | "For" => do
    return .loop place .each (← ps.expr? "iter") (ps.stmts "body") (ps.stmts "orelse")
  | "AsyncFor" => do
    return .loop place .asyncEach (← ps.expr? "iter") (ps.stmts "body") (ps.stmts "orelse")
  | "While" => do
    return .loop place .whileTrue (← ps.expr? "test") (ps.stmts "body") (ps.stmts "orelse")
  | "If" => do
    return .conditional place (← ps.expr? "test") (ps.stmts "body") (ps.stmts "orelse")
  | "Match" => do
    let cases := (ps.many "cases").filterMap fun
      | .matchCase catchesAll body => some (catchesAll, body)
      | _ => none
    return .matching place (← ps.expr? "subject") cases
  | "Try" | "TryStar" =>
    let handlers := (ps.many "handlers").filterMap fun
      | .handler body => some body
      | _ => none
    some (.trying place (ps.stmts "body") handlers (ps.stmts "orelse") (ps.stmts "finalbody"))
  | "Return" => some (.returning place (ps.expr? "value"))
  | "Assign" => some (.assign place false (ps.exprs "targets") (ps.expr? "value"))
  | "AnnAssign" => some (.assign place true (ps.exprs "target") (ps.expr? "value"))
  | "AugAssign" => do
    let sign := match ps.get? "op" with
      | some (.operator kind) => (operatorSigns.get? kind).getD "?"
      | _ => "?"
    return .augmented place (sign ++ "=") (← ps.expr? "value")
  | "With" => some (.withBlock place false (ps.exprs "items") (ps.stmts "body"))
  | "AsyncWith" => some (.withBlock place true (ps.exprs "items") (ps.stmts "body"))
  | "Expr" => do return .expression place (← ps.expr? "value")
  | _ => (plainStatements.get? kind).map fun fields =>
      .other place (Text.lower kind) (fields.flatMap ps.exprs)

/-- Whether a part is a pattern that catches all. -/
def Part.catchesAll : Part → Bool
  | pattern b => b
  | _ => false

/-- What a node of neither an expression nor a statement stands for. -/
def readOther (kind : String) (ps : Parts) : Part :=
  match kind with
  | "Module" => .body (ps.stmts "body")
  | "comprehension" =>
    match ps.expr? "target", ps.expr? "iter" with
    | some target, some source => .compLoop (.mk target source (ps.exprs "ifs"))
    | _, _ => .blank
  | "arguments" =>
    let count := (ps.many "posonlyargs").length + (ps.many "args").length
      + (ps.many "kwonlyargs").length + (if ps.filled "vararg" then 1 else 0)
      + if ps.filled "kwarg" then 1 else 0
    .parameters count (ps.exprs "defaults" ++ ps.exprs "kw_defaults")
  | "keyword" => ((ps.expr? "value").map Part.keyword).getD .blank
  | "withitem" => ((ps.expr? "context_expr").map Part.expr).getD .blank
  | "alias" => .alias ((ps.text? "name").getD "")
  | "ExceptHandler" => .handler (ps.stmts "body")
  | "MatchAs" => .pattern !ps.filled "pattern"
  | "match_case" =>
    let all := ((ps.get? "pattern").map Part.catchesAll).getD false
    .matchCase (all && !ps.filled "guard") (ps.stmts "body")
  | _ => .operator kind

namespace Part

mutual

/-- What a document stands for. -/
def read : Value → Part
  | .object members =>
    let ps : Parts := readMembers members
    let kind := (ps.text? "t").getD ""
    match readStmt? kind ps with
    | some s => .stmt s
    | none =>
      match readExpr? kind ps with
      | some e => .expr e
      | none => readOther kind ps
  | .list items => .many (readList items)
  | .null => .fact .null
  | .bool b => .fact (.bool b)
  | .int n => .fact (.int n)
  | .real x => .fact (.real x)
  | .text s => .fact (.text s)

/-- What the documents of a list stand for. -/
def readList : List Value → List Part
  | [] => []
  | v :: rest => read v :: readList rest

/-- What the members of an object stand for. -/
def readMembers : List (String × Value) → List (String × Part)
  | [] => []
  | (field, v) :: rest => (field, read v) :: readMembers rest

end

end Part

/-- The statements of a document for a whole text. -/
def readModule (document : Value) : List Stmt :=
  match Part.read document with
  | .body statements => statements
  | _ => []

end CodeHabits.Python
