import CodeHabits.Outline.Statement
import CodeHabits.Parsed

/-!
# `CodeHabits.Outline.Builder`: a tree from tokens and braces

Statements end at semicolons, at line breaks that no operator or bracket
carries over, and at braces. What stands between braces goes below the
statement in front of them. A clause such as `else` continues the statement
whose block was closed last: what follows goes below that statement too.

The builder takes in one token after the other. While braces are open, what
has been built outside of each waits in a `Frame`. Where the next statement
goes is a `Path` from the trees of the innermost open brace; the empty path
is these trees themselves. Braces that do not match are reported, and the
builder always gets to the end.
-/

set_option autoImplicit false

namespace CodeHabits.Outline

/-- The way to a tree among trees: its position, then its position among
the children of that one, and so on. -/
abbrev Path := List Nat

/-- Trees with a change to those below the end of a path. -/
def changeBelow (change : List Tree → List Tree) : Path → List Tree → List Tree
  | [], trees => change trees
  | i :: path, trees =>
    trees.modify i fun t =>
      .node t.tag t.span t.attributes (changeBelow change path t.children)

/-- Trees with a change to the one at the end of a path. -/
def changeAt (change : Tree → Tree) : Path → List Tree → List Tree
  | [], trees => trees
  | [i], trees => trees.modify i change
  | i :: j :: path, trees =>
    trees.modify i fun t =>
      .node t.tag t.span t.attributes (changeAt change (j :: path) t.children)

/-- The number of trees below the end of a path. -/
def countBelow : Path → List Tree → Nat
  | [], trees => trees.length
  | i :: path, trees =>
    match trees[i]? with
    | some t => countBelow path t.children
    | none => 0

/-- A path with its first position moved on. -/
def Path.moved (path : Path) (offset : Nat) : Path :=
  match path with
  | [] => []
  | i :: rest => (i + offset) :: rest

/-- The tokens in front of a brace that own its block. -/
structure Owner where
  first : Token
  rest : List Token
  /-- Whether the brace is on the line on which they end. -/
  sameLine : Bool

/-- How the opening brace of an owned block is noted. -/
def Owner.brace (o : Owner) : Attributes :=
  [("brace_style", .text (if o.sameLine then "same_line" else "next_line"))]

/-- An open brace. -/
structure Frame where
  brace : Token
  owner? : Option Owner
  /-- What has been built outside of the brace. -/
  outer : List Tree
  /-- Where the block goes in it. It is not empty if the brace opens the
  block of a clause, and then leads to the statement that the clause
  continues. -/
  destination : Path

/-- How far the tokens have been taken in. -/
structure State where
  /-- What has been built inside the innermost open brace. -/
  trees : List Tree
  frames : List Frame
  /-- The tokens of the statement at hand. -/
  current : List Token
  /-- The statement that a clause would continue; empty for none. -/
  lastClosed : Path
  /-- The statement that a clause continues; empty for none. -/
  clause : Path
  diagnostics : List Diagnostic

namespace State

/-- Nothing taken in. -/
def start : State :=
  ⟨[], [], [], [], [], []⟩

variable (file : String)

/-- Ends the statement at hand. -/
def flush (s : State) : State :=
  match s.current with
  | [] => s
  | first :: rest =>
    let tree := statementTree file first rest [] ((first :: rest).getLast (by simp)) []
    { s with
      trees := changeBelow (· ++ [tree]) s.clause s.trees
      current := []
      lastClosed := []
      clause := [] }

/-- Opens a brace. The head of a clause in parentheses is left out. -/
def openBrace (s : State) (brace : Token) : State :=
  let owner? := match s.current with
    | [] => none
    | first :: rest =>
      if !s.clause.isEmpty && first.text == "(" then none
      else some ⟨first, rest, ((first :: rest).getLast (by simp)).endLine == brace.line⟩
  { s with
    trees := []
    frames := ⟨brace, owner?, s.trees, s.clause⟩ :: s.frames
    current := []
    lastClosed := []
    clause := [] }

/-- Closes a brace: its block goes to its destination, by itself, below its
owner, or as further parts of the statement that a clause continues. -/
def closeFrame (s : State) (f : Frame) (frames : List Frame) (close : Token) : State :=
  let count := countBelow f.destination f.outer
  let place (new : List Tree) := changeBelow (· ++ new) f.destination f.outer
  let inside := if s.clause.isEmpty then [] else f.destination ++ count :: s.clause
  match f.owner? with
  | some o =>
    let tree := statementTree file o.first o.rest o.brace close s.trees
    { s with
      trees := place [tree]
      frames
      lastClosed := f.destination ++ [count]
      clause := inside }
  | none =>
    if f.destination.isEmpty then
      let span : Span := ⟨file, f.brace.line, f.brace.column, close.endLine, close.endColumn⟩
      { s with
        trees := place [.node .block span [] s.trees]
        frames
        lastClosed := []
        clause := inside }
    else
      { s with
        trees := place s.trees
        frames
        lastClosed := f.destination
        clause := if s.clause.isEmpty then [] else f.destination ++ Path.moved s.clause count }

/-- Takes in a closing brace. -/
def closeBrace (s : State) (close : Token) : State :=
  let s := s.flush file
  match s.frames with
  | f :: frames => s.closeFrame file f frames close
  | [] =>
    let problem : Diagnostic := ⟨"Unexpected '\x7d'", close.line, close.column⟩
    { s with
      trees := s.trees ++ [Parsed.errorTree file problem close.endLine close.endColumn]
      diagnostics := s.diagnostics ++ [problem] }

/-- Notes a clause on the statement that it continues. -/
def markClause (word : String) (t : Tree) : Tree :=
  if ["else", "elif", "elsif"].contains word then
    if t.tag == .conditional || t.tag == .loop then t.withAttribute "has_else" (.bool true) else t
  else if ["catch", "except"].contains word then t.withAttribute "has_catch" (.bool true)
  else if word == "finally" then t.withAttribute "has_finally" (.bool true)
  else t

/-- Whether a statement goes on over a line break between two tokens. -/
def continues (before after : Token) : Bool :=
  (before.kind == .operator && before.text != "++" && before.text != "--")
    || [".", "?.", ")", "]", ","].contains after.text
    || ["(", "[", ","].contains before.text

/-- Ends the statement at hand if a token begins another one. -/
def breakLine (s : State) (t : Token) : State :=
  match s.current.getLast? with
  | some last =>
    if last.endLine < t.line && !continues last t then s.flush file else s
  | none => s

/-- Takes in a token that is neither a brace nor a semicolon. -/
def addToken (s : State) (t : Token) : State :=
  if s.current.isEmpty && !s.lastClosed.isEmpty && clauseWords.contains t.text then
    { s with
      trees := changeAt (markClause t.text) s.lastClosed s.trees
      lastClosed := []
      clause := s.lastClosed }
  else { s with current := s.current ++ [t] }

/-- Takes in a token. -/
def add (s : State) (t : Token) : State :=
  let s := s.breakLine file t
  if t.kind == .punct && t.text == ";" then s.flush file
  else if t.kind == .punct && t.text == "\x7b" then s.openBrace t
  else if t.kind == .punct && t.text == "\x7d" then s.closeBrace file t
  else s.addToken t

/-- Closes the braces that are still open, inner ones first, where the last
token ends. -/
def closeAll (last : Token) (s : State) : List Frame → State
  | [] => s
  | f :: frames =>
    let problem : Diagnostic := ⟨"Unterminated block", f.brace.line, f.brace.column⟩
    closeAll last
      (({ s with diagnostics := s.diagnostics ++ [problem] }).closeFrame file f frames last) frames

/-- Takes in tokens and what is left at the end. -/
def ofTokens (tokens : List Token) : State :=
  let s := (tokens.foldl (add file) start).flush file
  match tokens.getLast? with
  | some last => closeAll file last s s.frames
  | none => s

end State

/-- How many tokens are taken in between looks at the budget. -/
def tokensPerLook : Nat :=
  256

/-- The looks at the budget that go with a source text. -/
def looks (source : String) : Nat :=
  Lexer.pauses surface 0 (Lexer.lexemes surface source.toList)
    + ((Lexer.tokens surface source).length + (tokensPerLook - 1)) / tokensPerLook

/-- The tree of a source text. -/
def outline (source file language : String) : Parsed :=
  let s := State.ofTokens file (Lexer.tokens surface source)
  ⟨Parsed.moduleTree source file s.trees, language, s.diagnostics⟩

/-- The tree of a source text under a budget. -/
def build (source file language : String) : Timed Parsed := do
  Timed.checkTimes (looks source)
  return outline source file language

end CodeHabits.Outline
