import CodeHabits.Concrete.Node
import CodeHabits.Fault
import CodeHabits.Source
import CodeHabits.Tree

/-!
# `CodeHabits.Concrete.Plan`: what becomes of a concrete node

A `Plan` for a node names nodes inside it that are to be lowered first, and
tells what trees the node gives once the trees of those are known. The
helpers here are shared by the plans of all grammars: the text and the place
of a node, the style of its opening brace, and the children of a node with
its blocks opened.
-/

set_option autoImplicit false

namespace CodeHabits.Concrete

/-- A source text and the name of its file. -/
structure SourceFile where
  name : String
  source : Source

namespace SourceFile

variable (f : SourceFile)

/-- The text of a node. -/
def text (c : Cursor) : String :=
  String.ofList (f.source.slice c.node.start c.node.stop)

/-- Where a node is. -/
def span (c : Cursor) : Span :=
  ⟨f.name, f.source.line c.node.start, f.source.column c.node.start,
    f.source.line c.node.stop, f.source.column c.node.stop⟩

/-- A tree in the place of a node. -/
def tree (tag : Tag) (c : Cursor) (attributes : Attributes) (children : List Tree) : Tree :=
  .node tag (f.span c) attributes children

/-- How a block opens: on the line on which the sibling before it ends, or
further down. -/
def braceAt (block : Cursor) : Value :=
  match block.before with
  | none => .null
  | some stop =>
    if f.source.row stop == f.source.row block.node.start then .text "same_line"
    else .text "next_line"

section

variable {bound : Nat}

/-- The text of a node that may be absent; empty if it is. -/
def textOf (m? : Option (Inside bound)) : String :=
  match m? with
  | some m => f.text m.val
  | none => ""

/-- The text of a node as a name; null if there is none. -/
def nameOf (m? : Option (Inside bound)) : Value :=
  let name := f.textOf m?
  if name.isEmpty then .null else .text name

/-- How a block that may be absent opens. -/
def braceStyle (block? : Option (Inside bound)) : Value :=
  match block? with
  | some m => f.braceAt m.val
  | none => .null

end

end SourceFile

/-- What is to be lowered for a node of height `bound`, and what is made of
it. -/
structure Plan (bound : Nat) where
  inner : List (Inside bound)
  wrap : List Tree → List Tree

namespace Plan

variable {bound : Nat}

/-- The cursors that a plan names. -/
def cursors (plan : Plan bound) : List Cursor :=
  plan.inner.map (·.val)

/-- A plan that makes one tree of the trees inside. -/
def single (inner : List (Inside bound)) (make : List Tree → Tree) : Plan bound :=
  ⟨inner, fun trees => [make trees]⟩

/-- A plan that gives a tree without looking further. -/
def leaf (tree : Tree) : Plan bound :=
  ⟨[], fun _ => [tree]⟩

/-- A plan that gives the trees inside and nothing else. -/
def splice (inner : List (Inside bound)) : Plan bound :=
  ⟨inner, id⟩

end Plan

section

variable {bound : Nat}

/-- Nodes with those of some kinds opened: their children take their
place. -/
def opened (isBlock : String → Bool) (ms : List (Inside bound)) : List (Inside bound) :=
  ms.flatMap fun m => if isBlock m.kind then m.below else [m]

/-- The nodes below one that may be absent. -/
def belowOf (m? : Option (Inside bound)) : List (Inside bound) :=
  match m? with
  | some m => m.below
  | none => []

/-- The first node of a kind. -/
def ofKind? (ms : List (Inside bound)) (kind : String) : Option (Inside bound) :=
  ms.find? fun m => m.kind == kind

end

end CodeHabits.Concrete
