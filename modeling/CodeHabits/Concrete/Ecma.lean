import CodeHabits.Concrete.Lowering

/-!
# `CodeHabits.Concrete.Ecma`: plans for JavaScript and TypeScript

Functions, methods, arrows and signatures become function definitions;
classes, interfaces and enums class definitions; `var`, `let`, `const` and
fields variable declarations. Loops, `if` and `switch`, `try`, `return` and
statements of one word keep their own tags. `import`, re-exports,
`require` and dynamic imports become imports. An exported declaration
spans its export. Of the types of TypeScript only the presence of a return
type is noted.
-/

set_option autoImplicit false

namespace CodeHabits.Concrete.Ecma

/-- The kinds of nodes that define functions, and what they are called. -/
def functionKinds : Table String String :=
  [("function_declaration", "function"),
   ("generator_function_declaration", "function"),
   ("function_expression", "expression"),
   ("function", "expression"),
   ("generator_function", "expression"),
   ("arrow_function", "arrow"),
   ("method_definition", "method"),
   ("function_signature", "signature"),
   ("method_signature", "signature"),
   ("abstract_method_signature", "signature")]

/-- The kinds of loops, and what they are called. -/
def loopKinds : Table String String :=
  [("for_statement", "for"),
   ("for_in_statement", "for_in"),
   ("while_statement", "while"),
   ("do_statement", "do_while")]

/-- The kinds of other statements, and what they are called. -/
def statementKinds : Table String String :=
  [("throw_statement", "throw"),
   ("break_statement", "break"),
   ("continue_statement", "continue"),
   ("debugger_statement", "debugger"),
   ("type_alias_declaration", "type_alias")]

/-- Whether a node defines a class. -/
def isClass (kind : String) : Bool :=
  ["class_declaration", "class", "abstract_class_declaration"].contains kind

/-- Whether a node is a block of statements. -/
def isBlock (kind : String) : Bool :=
  kind == "statement_block"

/-- The name of a call's target: the whole chain for plain members, and the
last member if the chain starts with something else. -/
def calleeName (f : SourceFile) (c : Cursor) : String :=
  if ["identifier", "this", "super"].contains c.kind then f.text c
  else if c.kind == "member_expression" then
    let base :=
      match inField? c.below "object" with
      | some m => calleeName f m.val
      | none => "<expression>"
    let name := f.textOf (inField? c.below "property")
    if base == "<expression>" then (if name.isEmpty then base else name)
    else base ++ "." ++ name
  else "<expression>"
termination_by c.height
decreasing_by exact m.property

/-- The text of a node without the quotes at its two ends. -/
def unquoted (f : SourceFile) {bound : Nat} (m? : Option (Inside bound)) : Value :=
  match m? with
  | none => .null
  | some m =>
    let isQuote := fun c => c == '\'' || c == '"' || c == '\x60'
    let cs := (f.text m.val).toList.dropWhile isQuote
    .text (String.ofList (cs.reverse.dropWhile isQuote).reverse)

/-- A fact that is only noted if it holds. -/
def noted (name : String) (holds : Bool) : Attributes :=
  if holds then [(name, .bool true)] else []

section

variable (f : SourceFile) (typed : Bool) (c : Cursor)

/-- The node right below that fills a field. -/
abbrev child? (field : String) : Option (Inside c.height) :=
  inField? c.below field

/-- The nodes right below, blocks opened. -/
abbrev flattened : List (Inside c.height) :=
  opened isBlock c.below

/-- The plan for a function. -/
def functionPlan (kind : String) : Plan c.height :=
  let name := match child? c "name" with
    | some m => if m.kind == "computed_property_name" then Value.null else .text (f.text m.val)
    | none => .null
  let kind := if c.kind == "method_definition" && name.same (.text "constructor") then "constructor"
    else kind
  let parameters := child? c "parameters"
  let params := match parameters with
    | some m => meaningful m.below
    | none => (child? c "parameter").toList
  let hasDefault := fun (m : Inside c.height) =>
    m.kind == "assignment_pattern" || (inField? m.below "value").isSome
  let body := child? c "body"
  let attributes : Attributes :=
    [("name", name), ("param_count", .ofNat params.length),
     ("is_async", .bool (hasToken c.below "async")),
     ("kind", .text (if body.isNone then "signature" else kind)),
     ("default_param_count", .ofNat (params.countP hasDefault))]
    ++ (if typed && c.kind != "arrow_function" then
          [("has_return_type", .bool (child? c "return_type").isSome)]
        else [])
    ++ noted "generator" (hasToken c.below "*")
    ++ noted "static" (hasToken c.below "static")
  match body with
  | none => .leaf (f.tree .functionDef c attributes [])
  | some m =>
    if isBlock m.kind then
      .single m.below (f.tree .functionDef c (attributes ++ [("brace_style", f.braceStyle body)]))
    else
      .single [m] fun inner =>
        f.tree .functionDef c (attributes ++ [("expression_body", .bool true)])
          [f.tree .returning m.val [("has_value", .bool true)] inner]

/-- The plan for a class. -/
def classPlan : Plan c.height :=
  let extending := match ofKind? (namedOnes c.below) "class_heritage" with
    | some h => hasToken h.below "extends" || (ofKind? (namedOnes h.below) "extends_clause").isSome
    | none => false
  let body := child? c "body"
  .single (belowOf body) (f.tree .classDef c
    [("name", f.nameOf (child? c "name")), ("kind", .text "class"),
     ("base_count", .int (if extending then 1 else 0)),
     ("brace_style", f.braceStyle body)])

/-- The plan for an interface. -/
def interfacePlan : Plan c.height :=
  .leaf (f.tree .classDef c
    [("name", f.nameOf (child? c "name")), ("kind", .text "interface"), ("base_count", .int 0),
     ("brace_style", f.braceStyle (child? c "body"))] [])

/-- The plan for an enum. -/
def enumPlan : Plan c.height :=
  .leaf (f.tree .classDef c
    [("name", f.nameOf (child? c "name")), ("kind", .text "enum"),
     ("member_count", .ofNat (meaningful (belowOf (child? c "body"))).length)] [])

/-- Whether a value is a call of `require`. -/
def isRequire (m? : Option (Inside c.height)) : Bool :=
  match m? with
  | some m =>
    m.kind == "call_expression" && f.textOf (inField? m.below "function") == "require"
  | none => false

/-- The plan for a declaration of variables. It has to tell how it declares
them. -/
def variablePlan : Except Fault (Plan c.height) := do
  let kind ←
    if c.kind == "variable_declaration" then pure "var"
    else match (child? c "kind").or c.below.head? with
      | some m => pure (f.text m.val)
      | none => throw .outOfRange
  let declarators := (namedOnes c.below).filter fun m => m.kind == "variable_declarator"
  let values := declarators.map fun m => inField? m.below "value"
  let name := match declarators with
    | first :: _ =>
      match inField? first.below "name" with
      | some m => if m.kind == "identifier" then Value.text (f.text m.val) else .null
      | none => .null
    | [] => .null
  if declarators.length == 1 && values.any (isRequire f c) then
    return .leaf (f.tree .importing c
      [("name", name), ("kind", .text "require"), ("name_count", .int 1)] [])
  return .single (values.filterMap id) (f.tree .varDecl c
    [("name", name), ("kind", .text kind), ("declarator_count", .ofNat declarators.length),
     ("has_initializer", .bool (values.any Option.isSome))])

/-- The plan for a field of a class. -/
def fieldPlan : Plan c.height :=
  let value := child? c "value"
  .single value.toList (f.tree .varDecl c
    [("name", f.nameOf ((child? c "property").or (child? c "name"))), ("kind", .text "field"),
     ("declarator_count", .int 1), ("has_initializer", .bool value.isSome)])

/-- How a block that a statement owns opens; noted only of a block. -/
def ownedBrace (block? : Option (Inside c.height)) : Attributes :=
  match block? with
  | some m => if isBlock m.kind then [("brace_style", f.braceStyle block?)] else []
  | none => []

/-- The plan for an `if`. -/
def conditionalPlan : Plan c.height :=
  .single (flattened c) (f.tree .conditional c
    ([("kind", .text "if"), ("has_else", .bool (child? c "alternative").isSome)]
      ++ ownedBrace f c (child? c "consequence")))

/-- The plan for a loop. -/
def loopPlan (kind : String) : Plan c.height :=
  let kind := if c.kind == "for_in_statement" && hasToken c.below "of" then "for_of" else kind
  .single (flattened c) (f.tree .loop c
    (("kind", .text kind) :: ownedBrace f c (child? c "body")))

/-- The plan for a `switch`. -/
def switchPlan : Plan c.height :=
  let body := child? c "body"
  let cases := meaningful (belowOf body)
  .single ((child? c "value").toList ++ cases.flatMap fun m => opened isBlock m.below)
    (f.tree .conditional c
      [("kind", .text "switch"),
       ("has_else", .bool (cases.any fun m => m.kind == "switch_default")),
       ("case_count", .ofNat (cases.countP fun m => m.kind == "switch_case")),
       ("brace_style", f.braceStyle body)])

/-- The plan for a `try`. -/
def tryPlan : Plan c.height :=
  let body := child? c "body"
  let handler := child? c "handler"
  let finalizer := child? c "finalizer"
  .single (opened isBlock body.toList ++ opened isBlock (belowOf handler)
      ++ opened isBlock (belowOf finalizer))
    (f.tree .trying c
      [("has_catch", .bool handler.isSome), ("has_finally", .bool finalizer.isSome),
       ("brace_style", f.braceStyle body)])

/-- The plan for a `return`. -/
def returnPlan : Plan c.height :=
  let values := meaningful c.below
  .single values (f.tree .returning c [("has_value", .bool !values.isEmpty)])

/-- The plan for another statement. -/
def statementPlan (kind : String) : Plan c.height :=
  .single (meaningful c.below) (f.tree .statement c [("kind", .text kind)])

/-- The plan for a block that stands alone. -/
def blockPlan : Plan c.height :=
  .single c.below (f.tree .block c [("brace_style", f.braceAt c)])

/-- The plan for the static block of a class. -/
def staticBlockPlan : Plan c.height :=
  .single (flattened c) (f.tree .block c
    [("kind", .text "static_init"), ("brace_style", f.braceStyle (child? c "body"))])

/-- The plan for an import. -/
def importPlan : Plan c.height :=
  let (kind, count) := match ofKind? (namedOnes c.below) "import_clause" with
    | none => ("side_effect", 0)
    | some clause =>
      let parts := (namedOnes clause.below).reverse
      let named := ofKind? parts "named_imports"
      let all := ofKind? parts "namespace_import"
      let one := ofKind? parts "identifier"
      (if named.isSome then "named" else if all.isSome then "namespace" else "default",
        (meaningful (belowOf named)).length + one.toList.length + all.toList.length)
  .leaf (f.tree .importing c
    [("name", unquoted f (child? c "source")), ("kind", .text kind), ("name_count", .ofNat count)]
    [])

/-- Marks the first tree as exported; it takes the place of the export. -/
def markExported (c : Cursor) : List Tree → List Tree
  | [] => []
  | t :: rest => (t.withAttribute "exported" (.bool true)).withSpan (f.span c) :: rest

/-- The plan for an export. -/
def exportPlan : Plan c.height :=
  match child? c "declaration", child? c "value", child? c "source" with
  | some declaration, _, _ => ⟨[declaration], markExported f c⟩
  | none, some value, _ =>
    if functionKinds.has value.kind || isClass value.kind then ⟨[value], markExported f c⟩
    else .single [value] (f.tree .expression c [("exported", .bool true)])
  | none, none, some source =>
    let clause := ofKind? (namedOnes c.below) "export_clause"
    .leaf (f.tree .importing c
      [("name", unquoted f (some source)), ("kind", .text "re_export"),
       ("name_count", .ofNat (meaningful (belowOf clause)).length)] [])
  | none, none, none => .leaf (f.tree .statement c [("kind", .text "export_list")] [])

/-- The plan for an expression that stands as a statement. -/
def expressionPlan : Plan c.height :=
  match meaningful c.below with
  | [] => .splice []
  | first :: rest =>
    if ["assignment_expression", "augmented_assignment_expression"].contains first.kind then
      let operator := f.textOf (inField? first.below "operator")
      .single first.below (f.tree .assignment c
        [("operator", .text (if operator.isEmpty then "=" else operator))])
    else .single (first :: rest) (f.tree .expression c [])

/-- The plan for a call or a `new`. -/
def callPlan : Plan c.height :=
  let target := (child? c "function").or (child? c "constructor")
  let arguments := child? c "arguments"
  let isImport := match target with
    | some m => m.kind == "import"
    | none => false
  if isImport then
    .single arguments.toList (f.tree .importing c
      [("name", .null), ("kind", .text "dynamic"), ("name_count", .int 0)])
  else
    let callee := match target with
      | some m => calleeName f m.val
      | none => "<expression>"
    let count := match arguments with
      | none => 0
      | some m => if m.kind == "arguments" then (meaningful m.below).length else 1
    .single (target.toList ++ arguments.toList) (f.tree .call c
      [("callee", .text callee), ("arg_count", .ofNat count)])

/-- The plan for a node, `typed` for TypeScript. -/
def plan? : Option (Except Fault (Plan c.height)) :=
  match functionKinds.get? c.kind, loopKinds.get? c.kind, statementKinds.get? c.kind with
  | some kind, _, _ => some (.ok (functionPlan f typed c kind))
  | none, some kind, _ => some (.ok (loopPlan f c kind))
  | none, none, some kind => some (.ok (statementPlan f c kind))
  | none, none, none =>
    if isClass c.kind then some (.ok (classPlan f c))
    else match c.kind with
      | "interface_declaration" => some (.ok (interfacePlan f c))
      | "enum_declaration" => some (.ok (enumPlan f c))
      | "lexical_declaration" | "variable_declaration" => some (variablePlan f c)
      | "field_definition" | "public_field_definition" => some (.ok (fieldPlan f c))
      | "if_statement" => some (.ok (conditionalPlan f c))
      | "else_clause" => some (.ok (.splice (flattened c)))
      | "switch_statement" => some (.ok (switchPlan f c))
      | "try_statement" => some (.ok (tryPlan f c))
      | "return_statement" => some (.ok (returnPlan f c))
      | "import_statement" => some (.ok (importPlan f c))
      | "export_statement" => some (.ok (exportPlan f c))
      | "expression_statement" => some (.ok (expressionPlan f c))
      | "call_expression" | "new_expression" => some (.ok (callPlan f c))
      | "statement_block" => some (.ok (blockPlan f c))
      | "class_static_block" => some (.ok (staticBlockPlan f c))
      | _ => none

end

/-- The dialect of a file. -/
def dialect (typed : Bool) (f : SourceFile) : Dialect :=
  ⟨f, plan? f typed⟩

/-- The grammar for a file in JavaScript or TypeScript. -/
def grammar (typed : Bool) (file : String) : String :=
  if typed then (if file.endsWith ".tsx" then "tsx" else "typescript") else "javascript"

end CodeHabits.Concrete.Ecma
