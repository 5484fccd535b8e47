import CodeHabits.Token.Lexer
import CodeHabits.Tree

/-!
# `CodeHabits.Outline.Statement`: what a statement is, by its words

Where a language has no grammar of its own, a statement is a run of tokens
and perhaps a block behind it. Its first word that is no modifier tells what
it is. Without such a word, a block behind a closing parenthesis makes it a
function, a name and a parenthesis make it a call, and an equals sign makes
it an assignment.
-/

set_option autoImplicit false

namespace CodeHabits.Outline

/-- The words that tell what a statement is. -/
def keywordTags : Table String Tag :=
  [("func", .functionDef), ("function", .functionDef), ("def", .functionDef), ("fn", .functionDef),
   ("fun", .functionDef), ("sub", .functionDef), ("proc", .functionDef),
   ("class", .classDef), ("struct", .classDef), ("interface", .classDef),
   ("for", .loop), ("while", .loop), ("foreach", .loop), ("loop", .loop), ("repeat", .loop),
   ("if", .conditional), ("switch", .conditional), ("case", .conditional),
   ("match", .conditional), ("unless", .conditional),
   ("import", .importing), ("include", .importing), ("use", .importing), ("require", .importing),
   ("using", .importing),
   ("var", .varDecl), ("let", .varDecl), ("const", .varDecl), ("val", .varDecl), ("my", .varDecl),
   ("local", .varDecl),
   ("return", .returning),
   ("try", .trying)]

/-- Words that may come first and do not tell what a statement is. -/
def modifiers : List String :=
  ["public", "private", "protected", "static", "final", "abstract", "export", "pub", "async",
   "override", "virtual", "inline", "extern", "open", "internal", "sealed", "readonly", "unsafe"]

/-- Words that continue the statement whose block was just closed. -/
def clauseWords : List String :=
  ["else", "elif", "elsif", "catch", "except", "finally"]

/-- The surface of a language of which nothing is known. -/
def surface : Lexer.Surface :=
  { Lexer.Surface.default with
    keywords := keywordTags.map (·.1) ++ modifiers ++ clauseWords
    lineComments := [['/', '/'], ['#']]
    identifier := .usual ['@'] }

/-- How far counting the items in parentheses has come. -/
structure ItemCount where
  depth : Int
  count : Nat
  /-- Whether the item at hand has a token. -/
  pending : Bool
  /-- Whether the parentheses are closed again. -/
  finished : Bool

/-- Takes in a token. -/
def ItemCount.add (c : ItemCount) (t : Token) : ItemCount :=
  if c.finished then c
  else if t.text == "(" && c.depth == 0 then { c with depth := 1 }
  else
    let depth := if t.text == "(" then c.depth + 1 else if t.text == ")" then c.depth - 1
      else c.depth
    if t.text == ")" && depth == 0 then { c with finished := true }
    else if depth == 1 && t.text == "," then
      ⟨depth, if c.pending then c.count + 1 else c.count, false, false⟩
    else ⟨depth, c.count, c.pending || decide (1 ≤ depth), false⟩

/-- The number of items between commas in the first group of
parentheses. -/
def itemCount (tokens : List Token) : Nat :=
  let c := tokens.foldl ItemCount.add ⟨0, 0, false, false⟩
  if c.pending then c.count + 1 else c.count

/-- The name behind a word: the first identifier, with only keywords in
between. -/
def nameIn (behind : List Token) : Value :=
  match behind.dropWhile fun t => t.kind == .keyword with
  | t :: _ => if t.kind == .ident then .text t.text else .null
  | [] => .null

/-- The token in front of the first opening parenthesis, if that is not the
first token. -/
def beforeParenthesis? : List Token → Option Token
  | t :: u :: rest =>
    if t.kind == .punct && t.text == "(" then none
    else if u.kind == .punct && u.text == "(" then some t
    else beforeParenthesis? (u :: rest)
  | _ => none

/-- Whether a token is a word that tells what a statement is, or would if
it were known. -/
def isLead (t : Token) : Bool :=
  (t.kind == .ident || t.kind == .keyword) && !modifiers.contains t.text

/-- The first such word of a statement and the tokens behind it. -/
def lead? (tokens : List Token) : Option (Token × List Token) :=
  match tokens.dropWhile fun t => !isLead t with
  | t :: behind => some (t, behind)
  | [] => none

/-- The tag of a statement that begins with a known word, and what is noted
of it. -/
def describeKeyword (tag : Tag) (word : String) (tokens behind : List Token)
    (brace : Attributes) : Attributes :=
  let kind : Attributes := brace ++ [("kind", .text word)]
  let name : Attributes := [("name", nameIn behind)]
  match tag with
  | .functionDef =>
    kind ++ name ++
      [("param_count", .ofNat (itemCount tokens)),
       ("is_async", .bool (tokens.any fun t => t.text == "async"))]
  | .classDef | .varDecl | .importing => kind ++ name
  | .conditional => kind ++ [("has_else", .bool false)]
  | .trying => kind ++ [("has_catch", .bool false), ("has_finally", .bool false)]
  | .returning => [("has_value", .bool (decide (1 < tokens.length)))]
  | _ => kind

/-- The name that makes a statement with a block a function although no
word says so: the token in front of its parentheses, if they end it. -/
def plainFunction? (tokens : List Token) (children : List Tree) : Option Token :=
  match tokens.getLast? with
  | some last =>
    if !children.isEmpty && last.text == ")" then beforeParenthesis? tokens else none
  | none => none

/-- The name that makes a statement a call: its first token, with a
parenthesis behind. -/
def callee? : List Token → Option Token
  | t :: u :: _ => if t.kind == .ident && u.text == "(" then some t else none
  | _ => none

/-- The tag of a statement without a known word, and what is noted of it. -/
def describePlain (tokens : List Token) (brace : Attributes) (children : List Tree) :
    Tag × Attributes :=
  match plainFunction? tokens children, callee? tokens with
  | some name, _ =>
    (.functionDef, brace ++
      [("kind", .text "function"), ("name", .text name.text),
       ("param_count", .ofNat (itemCount tokens)), ("is_async", .bool false)])
  | none, some callee =>
    (.call, brace ++ [("callee", .text callee.text), ("arg_count", .ofNat (itemCount tokens))])
  | none, none =>
    if tokens.any fun t => t.kind == .operator && t.text == "=" then
      (.assignment, brace ++ [("operator", .text "=")])
    else (if children.isEmpty then .statement else .block, brace)

/-- The tag of a statement and what is noted of it. -/
def describe (tokens : List Token) (brace : Attributes) (children : List Tree) :
    Tag × Attributes :=
  match lead? tokens with
  | none => describePlain tokens brace children
  | some (word, behind) =>
    match keywordTags.get? word.text with
    | some tag => (tag, describeKeyword tag word.text tokens behind brace)
    | none => describePlain tokens brace children

/-- The tree for a statement that begins with a token and ends with
another. -/
def statementTree (file : String) (first : Token) (rest : List Token) (brace : Attributes)
    (stop : Token) (children : List Tree) : Tree :=
  let (tag, attributes) := describe (first :: rest) brace children
  .node tag ⟨file, first.line, first.column, stop.endLine, stop.endColumn⟩ attributes children

end CodeHabits.Outline
