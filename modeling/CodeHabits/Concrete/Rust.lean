import CodeHabits.Concrete.Lowering

/-!
# `CodeHabits.Concrete.Rust`: plans for Rust

Functions and closures become function definitions; structs, enums, unions,
traits and implementations class definitions; `let`, `const` and `static`
variable declarations; `use` and `mod` without a body imports. `if`,
`match` and the loops keep their own tags. Macro calls are calls whose
arguments are counted and not looked into.
-/

set_option autoImplicit false

namespace CodeHabits.Concrete.Rust

/-- The kinds of nodes that define types, and what they are called. -/
def classKinds : Table String String :=
  [("struct_item", "struct"),
   ("enum_item", "enum"),
   ("union_item", "union"),
   ("trait_item", "trait")]

/-- The kinds of loops, and what they are called. -/
def loopKinds : Table String String :=
  [("for_expression", "for_in"),
   ("while_expression", "while"),
   ("while_let_expression", "while_let"),
   ("loop_expression", "loop")]

/-- The kinds of other statements, and what they are called. -/
def statementKinds : Table String String :=
  [("type_item", "type_alias"),
   ("macro_definition", "macro_rules"),
   ("break_expression", "break"),
   ("continue_expression", "continue")]

/-- Whether a node is a plain block. -/
def isBlock (kind : String) : Bool :=
  kind == "block"

/-- Whether a node steers the flow of control, so that a statement made of
it is the node itself. -/
def isFlow (kind : String) : Bool :=
  loopKinds.has kind ||
    ["if_expression", "if_let_expression", "match_expression", "return_expression",
     "break_expression", "continue_expression", "unsafe_block", "async_block", "block"].contains kind

/-- The name of a call's target: the whole chain for plain fields, and the
last field if the chain starts with something else. -/
def calleeName (f : SourceFile) (c : Cursor) : String :=
  if ["identifier", "scoped_identifier", "self"].contains c.kind then f.text c
  else if c.kind == "generic_function" then
    match inField? c.below "function" with
    | some m => calleeName f m.val
    | none => "<expression>"
  else if c.kind == "field_expression" then
    let base :=
      match inField? c.below "value" with
      | some m => calleeName f m.val
      | none => "<expression>"
    let name := f.textOf (inField? c.below "field")
    if base == "<expression>" then (if name.isEmpty then base else name)
    else base ++ "." ++ name
  else "<expression>"
termination_by c.height
decreasing_by
  all_goals exact m.property

/-- The short name of a type: without its arguments and its path. -/
def typeName (f : SourceFile) (c : Cursor) : String :=
  if c.kind == "generic_type" then
    match inField? c.below "type" with
    | some m => typeName f m.val
    | none => ""
  else if c.kind == "scoped_type_identifier" then
    match inField? c.below "name" with
    | some m => typeName f m.val
    | none => ""
  else f.text c
termination_by c.height
decreasing_by
  all_goals exact m.property

/-- A name, or null if it is empty. -/
def orNull (name : String) : Value :=
  if name.isEmpty then .null else .text name

/-- The part of a path before its last `::`, empty if there is none. -/
def pathFront (path : List Char) : List Char :=
  (behindSeparator path.reverse).reverse
where
  /-- What follows the first `::` of a reversed path. -/
  behindSeparator : List Char → List Char
    | ':' :: ':' :: rest => rest
    | _ :: rest => behindSeparator rest
    | [] => []

/-- The number of arguments between the delimiters of a macro call. -/
def macroArguments {bound : Nat} (tokens : Option (Inside bound)) : Nat :=
  let inner := (belowOf tokens).tail.dropLast
  match inner.getLast? with
  | none => 0
  | some last =>
    let commas := inner.countP fun m => m.kind == ","
    if last.kind == "," then commas else commas + 1

section

variable (f : SourceFile) (c : Cursor)

/-- The node right below that fills a field. -/
abbrev child? (field : String) : Option (Inside c.height) :=
  inField? c.below field

/-- The nodes right below, blocks opened. -/
abbrev flattened : List (Inside c.height) :=
  opened isBlock c.below

/-- The short name of a type that may be absent. -/
def typeNameOf (m? : Option (Inside c.height)) : Value :=
  orNull ((m?.map fun m => typeName f m.val).getD "")

/-- The plan for a function. -/
def functionPlan : Plan c.height :=
  let modifiers := ofKind? c.below "function_modifiers"
  let params := (meaningful (belowOf (child? c "parameters"))).filter fun m =>
    m.kind != "attribute_item"
  let body := child? c "body"
  let attributes : Attributes :=
    [("name", f.nameOf (child? c "name")), ("param_count", .ofNat params.length),
     ("is_async", .bool (hasToken (belowOf modifiers) "async")),
     ("kind", .text (if body.isNone then "signature" else "function")),
     ("has_return_type", .bool (child? c "return_type").isSome)]
    ++ (if (ofKind? c.below "visibility_modifier").isSome then [("visibility", .text "pub")]
        else [])
  match body with
  | none => .leaf (f.tree .functionDef c attributes [])
  | some m =>
    .single m.below (f.tree .functionDef c (attributes ++ [("brace_style", f.braceStyle body)]))

/-- The plan for a closure. -/
def closurePlan : Plan c.height :=
  let body := child? c "body"
  let attributes : Attributes :=
    [("name", .null),
     ("param_count", .ofNat (meaningful (belowOf (child? c "parameters"))).length),
     ("is_async", .bool (hasToken c.below "async")), ("kind", .text "closure")]
  let expression : Attributes := [("expression_body", .bool true)]
  match body with
  | none => .leaf (f.tree .functionDef c (attributes ++ expression) [])
  | some m =>
    if isBlock m.kind then
      .single m.below (f.tree .functionDef c (attributes ++ [("brace_style", f.braceStyle body)]))
    else
      .single [m] fun inner =>
        f.tree .functionDef c (attributes ++ expression)
          [f.tree .returning m.val [("has_value", .bool true)] inner]

/-- The plan for a struct, an enum, a union or a trait. -/
def classPlan (kind : String) : Plan c.height :=
  let body := child? c "body"
  let members := (meaningful (belowOf body)).filter fun m =>
    !(["attribute_item", "visibility_modifier"].contains m.kind)
  let braced := match body with
    | some m =>
      ["field_declaration_list", "enum_variant_list", "declaration_list"].contains m.kind
    | none => false
  .single (if c.kind == "trait_item" then belowOf body else []) (f.tree .classDef c
    ([("name", f.nameOf (child? c "name")), ("kind", .text kind),
      ("member_count", .ofNat members.length)]
      ++ if braced then [("brace_style", f.braceStyle body)] else []))

/-- The plan for an implementation. -/
def implPlan : Plan c.height :=
  let implemented := child? c "trait"
  let body := child? c "body"
  .single (belowOf body) (f.tree .classDef c
    ([("name", typeNameOf f c (child? c "type")),
      ("kind", .text (if implemented.isSome then "trait_impl" else "impl")),
      ("brace_style", f.braceStyle body)]
      ++ if implemented.isSome then [("trait", typeNameOf f c implemented)] else []))

/-- The plan for a module. -/
def modulePlan : Plan c.height :=
  let name := f.nameOf (child? c "name")
  let body := child? c "body"
  match body with
  | none =>
    .leaf (f.tree .importing c [("name", name), ("kind", .text "mod"), ("name_count", .int 1)] [])
  | some m =>
    .single m.below (f.tree .block c
      [("kind", .text "module"), ("name", name), ("brace_style", f.braceStyle body)])

/-- The plan for a `use`. -/
def usePlan : Plan c.height :=
  let (name, kind, count) := match child? c "argument" with
    | none => ("", "path", 1)
    | some m =>
      let path := f.textOf (inField? m.below "path")
      match m.kind with
      | "use_as_clause" => (path, "path", 1)
      | "scoped_use_list" =>
        (path, "group", (meaningful (belowOf (inField? m.below "list"))).length)
      | "use_list" => (path, "group", (meaningful m.below).length)
      | "use_wildcard" => (String.ofList (pathFront (f.text m.val).toList), "glob", 0)
      | _ => (f.text m.val, "path", 1)
  .leaf (f.tree .importing c
    [("name", orNull name), ("kind", .text kind), ("name_count", .ofNat count)] [])

/-- The plan for a `let`. -/
def letPlan : Plan c.height :=
  let value := child? c "value"
  let alternative := child? c "alternative"
  let name := match child? c "pattern" with
    | some m => if m.kind == "identifier" then Value.text (f.text m.val) else .null
    | none => .null
  let mutable := (ofKind? c.below "mutable_specifier").isSome
  .single (value.toList ++ opened isBlock alternative.toList) (f.tree .varDecl c
    ([("name", name), ("kind", .text (if mutable then "let_mut" else "let")),
      ("declarator_count", .int 1), ("has_initializer", .bool value.isSome)]
      ++ if alternative.isSome then [("has_else", .bool true)] else []))

/-- The plan for a constant or a static. -/
def itemPlan : Plan c.height :=
  let value := child? c "value"
  let kind := if c.kind == "const_item" then "const" else "static"
  let mutable := (ofKind? c.below "mutable_specifier").isSome
  .single value.toList (f.tree .varDecl c
    [("name", f.nameOf (child? c "name")),
     ("kind", .text (if mutable then kind ++ "_mut" else kind)),
     ("declarator_count", .int 1), ("has_initializer", .bool value.isSome)])

/-- The plan for an `if`. -/
def conditionalPlan : Plan c.height :=
  let consequence := child? c "consequence"
  .single (flattened c) (f.tree .conditional c
    ([("kind", .text "if"), ("has_else", .bool (child? c "alternative").isSome)]
      ++ if consequence.isSome then [("brace_style", f.braceStyle consequence)] else []))

/-- The plan for a `match`. -/
def matchPlan : Plan c.height :=
  let body := child? c "body"
  let arms := (meaningful (belowOf body)).filter fun m => m.kind == "match_arm"
  let catchesAll := fun (m : Inside c.height) =>
    Text.strip (f.textOf (inField? m.below "pattern")) == "_"
  .single ((child? c "value").toList ++ arms.flatMap fun m => opened isBlock m.below)
    (f.tree .conditional c
      [("kind", .text "match"), ("arm_count", .ofNat arms.length),
       ("has_else", .bool (arms.any catchesAll)), ("brace_style", f.braceStyle body)])

/-- The plan for a loop. -/
def loopPlan (kind : String) : Plan c.height :=
  let binds := match child? c "condition" with
    | some m => m.kind == "let_condition"
    | none => false
  let kind := if c.kind == "while_expression" && binds then "while_let" else kind
  .single (flattened c) (f.tree .loop c
    [("kind", .text kind), ("brace_style", f.braceStyle (child? c "body"))])

/-- The plan for a `return`. -/
def returnPlan : Plan c.height :=
  let values := meaningful c.below
  .single values (f.tree .returning c [("has_value", .bool !values.isEmpty)])

/-- The plan for another statement. -/
def statementPlan (kind : String) : Plan c.height :=
  .single (if c.kind == "macro_definition" then [] else meaningful c.below)
    (f.tree .statement c [("kind", .text kind)])

/-- The plan for a block that stands alone. -/
def blockPlan : Plan c.height :=
  .single c.below (f.tree .block c [("brace_style", f.braceAt c)])

/-- The plan for a block with a keyword in front. -/
def markedBlockPlan (kind : String) : Plan c.height :=
  .single (flattened c) (f.tree .block c
    [("kind", .text kind), ("brace_style", f.braceStyle (ofKind? (namedOnes c.below) "block"))])

/-- The plan for an expression that stands as a statement. -/
def expressionPlan : Plan c.height :=
  match meaningful c.below with
  | [] => .splice []
  | first :: _ =>
    if isFlow first.kind then .splice [first]
    else if ["assignment_expression", "compound_assignment_expr"].contains first.kind then
      let operator := f.textOf (inField? first.below "operator")
      .single first.below (f.tree .assignment c
        [("operator", .text (if operator.isEmpty then "=" else operator))])
    else .single [first] (f.tree .expression c [])

/-- The plan for a call. -/
def callPlan : Plan c.height :=
  let target := child? c "function"
  let arguments := child? c "arguments"
  let callee := match target with
    | some m => calleeName f m.val
    | none => "<expression>"
  .single (target.toList ++ arguments.toList) (f.tree .call c
    [("callee", .text callee), ("arg_count", .ofNat (meaningful (belowOf arguments)).length)])

/-- The plan for a macro call. -/
def macroPlan : Plan c.height :=
  let name := f.textOf (child? c "macro")
  .leaf (f.tree .call c
    [("callee", .text (if name.isEmpty then "<macro>" else name)),
     ("arg_count", .ofNat (macroArguments (ofKind? c.below "token_tree"))),
     ("macro", .bool true)] [])

/-- The plan for a node. -/
def plan? : Option (Plan c.height) :=
  match classKinds.get? c.kind, loopKinds.get? c.kind, statementKinds.get? c.kind with
  | some kind, _, _ => some (classPlan f c kind)
  | none, some kind, _ => some (loopPlan f c kind)
  | none, none, some kind => some (statementPlan f c kind)
  | none, none, none =>
    match c.kind with
    | "block" => some (blockPlan f c)
    | "unsafe_block" => some (markedBlockPlan f c "unsafe")
    | "async_block" => some (markedBlockPlan f c "async")
    | "function_item" | "function_signature_item" => some (functionPlan f c)
    | "closure_expression" => some (closurePlan f c)
    | "impl_item" => some (implPlan f c)
    | "mod_item" => some (modulePlan f c)
    | "use_declaration" => some (usePlan f c)
    | "let_declaration" => some (letPlan f c)
    | "const_item" | "static_item" => some (itemPlan f c)
    | "if_expression" | "if_let_expression" => some (conditionalPlan f c)
    | "else_clause" => some (.splice (flattened c))
    | "match_expression" => some (matchPlan f c)
    | "call_expression" => some (callPlan f c)
    | "macro_invocation" => some (macroPlan f c)
    | "return_expression" => some (returnPlan f c)
    | "expression_statement" => some (expressionPlan f c)
    | _ => none

end

/-- The dialect of a file. -/
def dialect (f : SourceFile) : Dialect :=
  ⟨f, fun c => (plan? f c).map .ok⟩

end CodeHabits.Concrete.Rust
