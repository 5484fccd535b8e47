import CodeHabits.Value

/-!
# `CodeHabits.Python.Syntax`: syntax trees of Python

Expressions and statements as far as they matter for what is learned from
them. Expressions that only hold other expressions share one case, which
lists what they hold in the order in which it is written down in the
grammar. Of annotations, decorators, base classes and patterns only the
presence or the number is kept.

The place of a tree counts lines from the text that was read. If that is a
piece of a longer text, the tree has to be moved down (`Stmt.down`).
-/

set_option autoImplicit false

namespace CodeHabits.Python

/-- The lines, counted from one, and columns where something begins and
ends. -/
structure Place where
  line : Int
  column : Int
  endLine : Int
  endColumn : Int
  deriving DecidableEq, Repr

/-- Where something is that has no place of its own. -/
def Place.nowhere : Place :=
  ⟨1, 0, 1, 0⟩

/-- The place so many lines further down. Where there is no place of its own,
nothing changes. -/
def Place.down (lines : Int) (p : Place) : Place :=
  if p = .nowhere then p
  else { p with line := p.line + lines, endLine := p.endLine + lines }

/-- What a comprehension builds. -/
inductive Collected where
  | list
  | set
  | dict
  | generator
  deriving DecidableEq, Repr

mutual

/-- An expression. -/
inductive Expr where
  | name (place : Place) (id : String)
  | member (place : Place) (value : Expr) (name : String)
  | constant (place : Place) (isText : Bool)
  | sequence (place : Place) (elements : List Expr)
  | call (place : Place) (target : Expr) (arguments keywords : List Expr)
  | lambda (place : Place) (parameters : Nat) (defaults : List Expr) (body : Expr)
  | comprehension (place : Place) (collected : Collected) (results : List Expr)
      (loops : List CompLoop)
  | ternary (place : Place) (test body orelse : Expr)
  | other (place : Place) (parts : List Expr)

/-- A `for` of a comprehension with its conditions. -/
inductive CompLoop where
  | mk (target source : Expr) (conditions : List Expr)

end

/-- Where an expression is. -/
def Expr.place : Expr → Place
  | name p _ | member p _ _ | constant p _ | sequence p _ | call p _ _ _ | lambda p _ _ _
  | comprehension p _ _ _ | ternary p _ _ _ | other p _ => p

mutual

/-- The expression so many lines further down. -/
def Expr.down (lines : Int) : Expr → Expr
  | .name p id => .name (p.down lines) id
  | .member p value name => .member (p.down lines) (value.down lines) name
  | .constant p isText => .constant (p.down lines) isText
  | .sequence p elements => .sequence (p.down lines) (Expr.downAll lines elements)
  | .call p target arguments keywords =>
    .call (p.down lines) (target.down lines) (Expr.downAll lines arguments)
      (Expr.downAll lines keywords)
  | .lambda p parameters defaults body =>
    .lambda (p.down lines) parameters (Expr.downAll lines defaults) (body.down lines)
  | .comprehension p collected results loops =>
    .comprehension (p.down lines) collected (Expr.downAll lines results)
      (CompLoop.downAll lines loops)
  | .ternary p test body orelse =>
    .ternary (p.down lines) (test.down lines) (body.down lines) (orelse.down lines)
  | .other p parts => .other (p.down lines) (Expr.downAll lines parts)

/-- Several expressions so many lines further down. -/
def Expr.downAll (lines : Int) : List Expr → List Expr
  | [] => []
  | e :: rest => e.down lines :: Expr.downAll lines rest

/-- The loop so many lines further down. -/
def CompLoop.down (lines : Int) : CompLoop → CompLoop
  | .mk target source conditions =>
    .mk (target.down lines) (source.down lines) (Expr.downAll lines conditions)

/-- The loops of a comprehension so many lines further down. -/
def CompLoop.downAll (lines : Int) : List CompLoop → List CompLoop
  | [] => []
  | l :: rest => l.down lines :: CompLoop.downAll lines rest

end

/-- Which word begins a loop. -/
inductive LoopWord where
  | each
  | asyncEach
  | whileTrue
  deriving DecidableEq, Repr

/-- What is known of a function before its body. -/
structure FunctionHead where
  name : String
  isAsync : Bool
  parameters : Nat
  defaults : Nat
  returns : Bool
  decorators : Nat
  deriving DecidableEq, Repr

/-- What is known of a class before its body. -/
structure ClassHead where
  name : String
  bases : Nat
  decorators : Nat
  deriving DecidableEq, Repr

/-- A statement. -/
inductive Stmt where
  | function (place : Place) (head : FunctionHead) (body : List Stmt)
  | classDef (place : Place) (head : ClassHead) (body : List Stmt)
  | importing (place : Place) (first : String) (count : Nat)
  | importFrom (place : Place) (level : Nat) (module : String) (names : List String)
  | loop (place : Place) (word : LoopWord) (head : Expr) (body orelse : List Stmt)
  | conditional (place : Place) (test : Expr) (body orelse : List Stmt)
  | matching (place : Place) (subject : Expr) (cases : List (Bool × List Stmt))
  | trying (place : Place) (body : List Stmt) (handlers : List (List Stmt))
      (orelse final : List Stmt)
  | returning (place : Place) (value? : Option Expr)
  | assign (place : Place) (annotated : Bool) (targets : List Expr) (value? : Option Expr)
  | augmented (place : Place) (operator : String) (value : Expr)
  | withBlock (place : Place) (isAsync : Bool) (items : List Expr) (body : List Stmt)
  | expression (place : Place) (value : Expr)
  | other (place : Place) (kind : String) (parts : List Expr)

mutual

/-- The statement so many lines further down. -/
def Stmt.down (lines : Int) : Stmt → Stmt
  | .function p head body => .function (p.down lines) head (Stmt.downAll lines body)
  | .classDef p head body => .classDef (p.down lines) head (Stmt.downAll lines body)
  | .importing p first count => .importing (p.down lines) first count
  | .importFrom p level module names => .importFrom (p.down lines) level module names
  | .loop p word head body orelse =>
    .loop (p.down lines) word (head.down lines) (Stmt.downAll lines body)
      (Stmt.downAll lines orelse)
  | .conditional p test body orelse =>
    .conditional (p.down lines) (test.down lines) (Stmt.downAll lines body)
      (Stmt.downAll lines orelse)
  | .matching p subject cases =>
    .matching (p.down lines) (subject.down lines) (Stmt.casesDown lines cases)
  | .trying p body handlers orelse final =>
    .trying (p.down lines) (Stmt.downAll lines body) (Stmt.bodiesDown lines handlers)
      (Stmt.downAll lines orelse) (Stmt.downAll lines final)
  | .returning p value? => .returning (p.down lines) (value?.map (Expr.down lines))
  | .assign p annotated targets value? =>
    .assign (p.down lines) annotated (Expr.downAll lines targets) (value?.map (Expr.down lines))
  | .augmented p operator value => .augmented (p.down lines) operator (value.down lines)
  | .withBlock p isAsync items body =>
    .withBlock (p.down lines) isAsync (Expr.downAll lines items) (Stmt.downAll lines body)
  | .expression p value => .expression (p.down lines) (value.down lines)
  | .other p kind parts => .other (p.down lines) kind (Expr.downAll lines parts)

/-- Several statements so many lines further down. -/
def Stmt.downAll (lines : Int) : List Stmt → List Stmt
  | [] => []
  | t :: rest => t.down lines :: Stmt.downAll lines rest

/-- Several bodies so many lines further down. -/
def Stmt.bodiesDown (lines : Int) : List (List Stmt) → List (List Stmt)
  | [] => []
  | body :: rest => Stmt.downAll lines body :: Stmt.bodiesDown lines rest

/-- The cases of a match so many lines further down. -/
def Stmt.casesDown (lines : Int) : List (Bool × List Stmt) → List (Bool × List Stmt)
  | [] => []
  | (catchesAll, body) :: rest => (catchesAll, Stmt.downAll lines body) :: Stmt.casesDown lines rest

end

/-- Whether a statement is a text that stands alone. -/
def Stmt.isDocstring : Stmt → Bool
  | expression _ (.constant _ isText) => isText
  | _ => false

/-- What reading a Python text can answer. -/
inductive Reading where
  /-- The statements of the text. -/
  | statements (body : List Stmt)
  /-- The text breaks the grammar: the message, the line and the column,
  counted from one, if they are known. -/
  | broken (message : String) (line? column? : Option Int)
  /-- The text cannot be read at all. -/
  | refused

end CodeHabits.Python
