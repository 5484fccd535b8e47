import CodeHabits.Concrete.Plan
import CodeHabits.Parsed
import CodeHabits.Text.Classes

/-!
# `CodeHabits.Concrete.Lowering`: from concrete trees to trees

A `Dialect` gives a node its plan. A node without a plan is
transparent, its children take its place, so an expression gives only the
calls and functions in it. Tokens give nothing. A missing node or one for
text that fits nowhere becomes an error node and is reported, once for its
range of bytes, and what is below the latter is lifted next to it.

`lower` works on a stack of nodes, so that long chains of operators do
not nest. It ends because a plan only names nodes of less height.
-/

set_option autoImplicit false

namespace CodeHabits.Concrete

/-- A source file and the plans for its nodes. -/
structure Dialect where
  file : SourceFile
  plan? : (c : Cursor) → Option (Except Fault (Plan c.height))

/-- The message for a missing node. -/
def Cursor.missingMessage (c : Cursor) : String :=
  "Missing '" ++ c.kind ++ "'"

/-- What has been reported, in order, and for which ranges of bytes. -/
structure Reports where
  diagnostics : List Diagnostic
  ranges : List (Nat × Nat)

/-- A computation under a budget that reports problems. -/
abbrev Reporting (α : Type) := StateT Reports (ReaderT Budget (ExceptT Fault (StateM Nat))) α

namespace Dialect

variable (d : Dialect)

/-- The message for text that fits nowhere: the first characters of its
first line. -/
def errorMessage (c : Cursor) : String :=
  let shown := Text.trim (d.file.text c).toList
  let shown := (shown.takeWhile (· != '\n')).take 24
  if shown.isEmpty then "Syntax error" else "Unexpected '" ++ String.ofList shown ++ "'"

/-- Takes in a problem at a node unless its range has been reported. -/
def add (r : Reports) (c : Cursor) (message : String) : Reports :=
  let range := (c.node.start, c.node.stop)
  if r.ranges.contains range then r
  else
    ⟨r.diagnostics ++ [⟨message, d.file.source.line c.node.start, d.file.source.column c.node.start⟩],
      range :: r.ranges⟩

/-- Reports a problem at a node and makes the error node for it. -/
def reportAt (c : Cursor) (message : String) : Reporting Tree := do
  modify fun r => d.add r c message
  return d.file.tree .error c [("message", .text message)] []

end Dialect

/-- Whether a node gives nothing: a token that is in place. -/
def Cursor.isToken (c : Cursor) : Bool :=
  !c.node.isError && !c.node.named && !c.node.missing

/-- The nodes under cursors. -/
def nodesOf (stack : List Cursor) : List Node :=
  stack.map (·.node)

/-- The cursors right below one, as such. -/
def Cursor.cursorsBelow (c : Cursor) : List Cursor :=
  c.below.map (·.val)

theorem nodesOf_siblings (bound : Nat) (before : Option Nat) (nodes : List Node)
    (h : Node.levels nodes ≤ bound) :
    nodesOf ((siblings bound before nodes h).map (·.val)) = nodes := by
  induction nodes generalizing before with
  | nil => rfl
  | cons n rest ih => simp [siblings, nodesOf] at ih ⊢; exact ih _ _

theorem nodesOf_cursorsBelow (c : Cursor) : nodesOf c.cursorsBelow = c.node.children :=
  nodesOf_siblings _ _ _ _

theorem levels_nodesOf_append (cs ds : List Cursor) :
    Node.levels (nodesOf (cs ++ ds)) = max (Node.levels (nodesOf cs)) (Node.levels (nodesOf ds)) := by
  induction cs with
  | nil => simp [nodesOf, Node.levels]
  | cons c rest ih =>
    simp only [nodesOf, List.cons_append, List.map_cons, Node.levels] at ih ⊢
    omega

theorem levels_inside_le {bound : Nat} (ms : List (Inside bound)) :
    Node.levels (nodesOf (ms.map (·.val))) ≤ bound := by
  induction ms with
  | nil => simp [nodesOf, Node.levels]
  | cons m rest ih =>
    have h : m.val.node.height < bound := m.property
    simp only [nodesOf, List.map_cons, Node.levels] at ih ⊢
    omega

theorem sizeList_nodesOf_append (cs ds : List Cursor) :
    Node.sizeList (nodesOf (cs ++ ds))
      = Node.sizeList (nodesOf cs) + Node.sizeList (nodesOf ds) := by
  simp [nodesOf, Node.sizeList_append]

/-- The trees that the nodes on a stack give, first node first. -/
def lower (d : Dialect) (stack : List Cursor) : Reporting (List Tree) :=
  match stack with
  | [] => pure []
  | c :: rest =>
    if c.isToken then lower d rest
    else do
      Timed.check
      if c.node.missing then
        let found ← d.reportAt c (c.missingMessage)
        return found :: (← lower d rest)
      else if c.node.isError then
        let found ← d.reportAt c (d.errorMessage c)
        return found :: (← lower d (c.cursorsBelow ++ rest))
      else
        match d.plan? c with
        | none => lower d (c.cursorsBelow ++ rest)
        | some (.error fault) => throw fault
        | some (.ok plan) =>
          let inner ← lower d plan.cursors
          return plan.wrap inner ++ (← lower d rest)
termination_by (Node.levels (nodesOf stack), Node.sizeList (nodesOf stack))
decreasing_by
  all_goals
    first
    | -- The rest of the stack: no higher, and smaller.
      have hl : Node.levels (nodesOf rest) ≤ Node.levels (nodesOf (c :: rest)) := by
        simp only [nodesOf, List.map_cons, Node.levels]; omega
      have hs : Node.sizeList (nodesOf rest) < Node.sizeList (nodesOf (c :: rest)) := by
        simp only [nodesOf, List.map_cons, Node.sizeList, Node.size_eq]; omega
      exact Prod.Lex.right' _ hl hs
    | -- The children in place of the node: no higher, and smaller.
      have hl : Node.levels (nodesOf (c.cursorsBelow ++ rest))
          ≤ Node.levels (nodesOf (c :: rest)) := by
        rw [levels_nodesOf_append, nodesOf_cursorsBelow]
        simp only [nodesOf, List.map_cons, Node.levels, Node.height_eq]; omega
      have hs : Node.sizeList (nodesOf (c.cursorsBelow ++ rest))
          < Node.sizeList (nodesOf (c :: rest)) := by
        rw [sizeList_nodesOf_append, nodesOf_cursorsBelow]
        simp only [nodesOf, List.map_cons, Node.sizeList, Node.size_eq]; omega
      exact Prod.Lex.right' _ hl hs
    | -- The nodes of a plan: less high.
      have hl : Node.levels (nodesOf plan.cursors) < Node.levels (nodesOf (c :: rest)) := by
        have h : Node.levels (nodesOf plan.cursors) ≤ c.height := levels_inside_le plan.inner
        have hc : c.height = c.node.height := rfl
        simp only [nodesOf, List.map_cons, Node.levels] at h ⊢; omega
      exact Prod.Lex.left _ _ hl

/-- Reports the problems at and below nodes of a stack, as far as the marks
lead to them. Of the children of a node the last is looked at first. -/
def reportMarked (d : Dialect) (r : Reports) : List Node → Reports
  | [] => r
  | n :: rest =>
    let c : Cursor := ⟨n, none⟩
    let r :=
      if n.missing then d.add r c (c.missingMessage)
      else if n.isError then d.add r c (d.errorMessage c)
      else r
    reportMarked d r ((n.children.filter fun k => k.faulty || k.missing).reverse ++ rest)
termination_by stack => Node.sizeList stack
decreasing_by
  rw [Node.sizeList_append, Node.sizeList_reverse]
  have := Node.sizeList_filter_le (fun k => k.faulty || k.missing) n.children
  simp only [Node.sizeList, Node.size_eq]
  omega

/-- The order of diagnostics: by line and then by column. -/
def diagnosticLe (a b : Diagnostic) : Bool :=
  a.line < b.line || (a.line == b.line && a.column ≤ b.column)

/-- The tree that a whole concrete tree gives. Problems below nodes that no
plan looks into are reported as well. -/
def build (d : Dialect) (text language : String) (root : Node) : Timed Parsed := do
  Timed.check
  let top : Cursor := ⟨root, none⟩
  let (children, reports) ←
    (lower d (if root.isError then [top] else top.cursorsBelow)).run ⟨[], []⟩
  let reports := if root.faulty then reportMarked d reports [root] else reports
  return ⟨Parsed.moduleTree text d.file.name children, language,
    reports.diagnostics.mergeSort diagnosticLe⟩

mutual

/-- The tokens of a concrete tree that have text, with their kinds. -/
def leaves (source : Source) : Node → List (String × String)
  | .mk kind start stop _ _ _ _ [] =>
    if start < stop then [(kind, String.ofList (source.slice start stop))] else []
  | .mk _ _ _ _ _ _ _ (c :: cs) => leavesOf source (c :: cs)

/-- The tokens of several concrete trees. -/
def leavesOf (source : Source) : List Node → List (String × String)
  | [] => []
  | n :: rest => leaves source n ++ leavesOf source rest

end

end CodeHabits.Concrete
