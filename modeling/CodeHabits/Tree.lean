import CodeHabits.Number

/-!
# `CodeHabits.Tree`: the tree that every language is turned into

A tree describes source of any language in one vocabulary of tags. Its
attributes are values, since trees may come from outside.

`walk` visits the nodes in pre-order with a stack of nodes still to visit.
`heights` runs over a pre-order list backwards with a stack of the heights
of the subtrees to the right; a node finds the heights of its children on
top of the stack.
-/

set_option autoImplicit false

namespace CodeHabits

/-- What a node is. -/
inductive Tag where
  | module
  | functionDef
  | classDef
  | varDecl
  | loop
  | conditional
  | call
  | importing
  | returning
  | trying
  | block
  | assignment
  | expression
  | statement
  | error
  deriving DecidableEq, Repr

namespace Tag

/-- The name of a tag. -/
def name : Tag → String
  | module => "Module"
  | functionDef => "FunctionDef"
  | classDef => "ClassDef"
  | varDecl => "VarDecl"
  | loop => "Loop"
  | conditional => "Conditional"
  | call => "Call"
  | importing => "Import"
  | returning => "Return"
  | trying => "Try"
  | block => "Block"
  | assignment => "Assignment"
  | expression => "Expression"
  | statement => "Statement"
  | error => "Error"

/-- Every tag. -/
def all : List Tag :=
  [module, functionDef, classDef, varDecl, loop, conditional, call, importing, returning, trying,
   block, assignment, expression, statement, error]

theorem mem_all (tag : Tag) : tag ∈ all := by
  cases tag <;> decide

/-- The tag of a name. -/
def ofName? (s : String) : Option Tag :=
  all.find? fun tag => tag.name == s

/-- Whether a node steers the flow of control: a loop, a conditional or a
try block. -/
def isControl : Tag → Bool
  | loop | conditional | trying => true
  | _ => false

end Tag

/-- Where a node is in its file, from the line and column of its first
character to those behind its last one. -/
structure Span where
  file : String
  startLine : Int
  startColumn : Int
  endLine : Int
  endColumn : Int
  deriving DecidableEq, Repr

/-- The span as a document. -/
def Span.document (s : Span) : Value :=
  .object
    [("file", .text s.file), ("start_line", .int s.startLine), ("start_column", .int s.startColumn),
     ("end_line", .int s.endLine), ("end_column", .int s.endColumn)]

/-- Facts about a node, by name. -/
abbrev Attributes := Table String Value

/-- A tree. -/
inductive Tree where
  | node (tag : Tag) (span : Span) (attributes : List (String × Value)) (children : List Tree)

namespace Tree

/-- What the root is. -/
def tag : Tree → Tag
  | node t _ _ _ => t

/-- Where the root is. -/
def span : Tree → Span
  | node _ s _ _ => s

/-- What is known of the root. -/
def attributes : Tree → Attributes
  | node _ _ a _ => a

/-- The trees below the root. -/
def children : Tree → List Tree
  | node _ _ _ cs => cs

/-- A fact about the root. -/
def attribute? (t : Tree) (name : String) : Option Value :=
  t.attributes.get? name

/-- The tree with a further fact about its root. -/
def withAttribute (t : Tree) (name : String) (value : Value) : Tree :=
  node t.tag t.span (t.attributes.put name value) t.children

/-- The tree with its root in another place. -/
def withSpan (t : Tree) (s : Span) : Tree :=
  node t.tag s t.attributes t.children

mutual

/-- The number of nodes of a tree. -/
def size : Tree → Nat
  | node _ _ _ cs => sizeList cs + 1

/-- The number of nodes of several trees. -/
def sizeList : List Tree → Nat
  | [] => 0
  | t :: rest => size t + sizeList rest

end

theorem sizeList_append (ts us : List Tree) :
    sizeList (ts ++ us) = sizeList ts + sizeList us := by
  induction ts with
  | nil => simp [sizeList]
  | cons t rest ih => simp only [List.cons_append, sizeList, ih]; omega

theorem size_eq (t : Tree) : t.size = sizeList t.children + 1 := by
  cases t; rfl

/-- The nodes of the trees on a stack, each before the nodes below it. -/
def walkFrom : List Tree → List Tree
  | [] => []
  | t :: rest => t :: walkFrom (t.children ++ rest)
termination_by stack => sizeList stack
decreasing_by
  rw [sizeList_append, sizeList, size_eq]
  omega

/-- The nodes of a tree in pre-order. -/
def walk (t : Tree) : List Tree :=
  walkFrom [t]

/-- The heights of the subtrees still to be used, nearest first, and the
heights of all nodes seen. -/
structure Heights where
  pending : List Nat
  found : List Nat
  deriving Repr

/-- One more than the greatest of the heights below, and zero for a
leaf. -/
def above (below : List Nat) : Nat :=
  below.foldl (fun height child => max height (child + 1)) 0

/-- Adds the node in front of the nodes seen. -/
def Heights.add (t : Tree) (h : Heights) : Heights :=
  let count := t.children.length
  let height := above (h.pending.take count)
  ⟨height :: h.pending.drop count, height :: h.found⟩

/-- The height of every node of a pre-order list. -/
def heights (nodes : List Tree) : List Nat :=
  (nodes.foldr Heights.add ⟨[], []⟩).found

mutual

/-- The tree as a document. -/
def document : Tree → Value
  | node t s a cs =>
    .object
      [("tag", .text t.name), ("attributes", .object a), ("span", s.document),
       ("children", .list (documents cs))]

/-- Trees as documents. -/
def documents : List Tree → List Value
  | [] => []
  | t :: rest => document t :: documents rest

end

end Tree

end CodeHabits
