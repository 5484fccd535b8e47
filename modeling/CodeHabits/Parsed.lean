import CodeHabits.Budget
import CodeHabits.Text.Lines
import CodeHabits.Tree

/-!
# `CodeHabits.Parsed`: what parsing answers

A front-end turns source text into a tree and a list of problems that it
got past. A tree with problems is partial. If problems are all there is, the
source counts as not understood at all.
-/

set_option autoImplicit false

namespace CodeHabits

/-- A problem in a source text that parsing got past. -/
structure Diagnostic where
  message : String
  line : Int
  column : Int
  deriving DecidableEq, Repr

/-- The problem as a document. -/
def Diagnostic.document (d : Diagnostic) : Value :=
  .object [("message", .text d.message), ("line", .int d.line), ("column", .int d.column)]

/-- A tree and the problems met on the way. -/
structure Parsed where
  tree : Tree
  language : String
  diagnostics : List Diagnostic

namespace Parsed

/-- Whether there were problems. -/
def partly (p : Parsed) : Bool :=
  !p.diagnostics.isEmpty

/-- The root of a file: it spans all lines. -/
def moduleTree (source file : String) (children : List Tree) : Tree :=
  let lines := Text.feedLines source.toList
  .node .module ⟨file, 1, 0, lines.length, (lines.getLast?.getD []).length⟩ [] children

/-- The node for a problem, from its place to an end. -/
def errorTree (file : String) (d : Diagnostic) (endLine endColumn : Int) : Tree :=
  .node .error ⟨file, d.line, d.column, endLine, endColumn⟩ [("message", .text d.message)] []

/-- Refuses a result in which problems are all there is. -/
def accept (p : Parsed) : Except Fault Parsed :=
  match p.diagnostics with
  | [] => .ok p
  | first :: _ =>
    if p.tree.children.all fun t => t.tag = .error then
      .error (.unparsable first.message (some (first.line, first.column)))
    else .ok p

end Parsed

end CodeHabits
