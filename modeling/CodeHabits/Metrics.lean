import CodeHabits.Magnitude
import CodeHabits.Tree

/-!
# `CodeHabits.Metrics`: complexity and nesting

A function is measured on the nodes that belong to it: those below it that
are in no function inside it. Its complexity is one more than the number of
branches there, and its nesting depth is the longest chain of control nodes.
The module as a whole counts the branches of every function.
-/

set_option autoImplicit false

namespace CodeHabits.Metrics

/-- The number of a kind of branch that a node says it has. -/
def branchCount (t : Tree) (name : String) : Except Fault Number :=
  ((t.attribute? name).getD (.int 0)).toNumber

/-- Whether a node's kind is a given text. -/
def isKind (t : Tree) (kind : String) : Bool :=
  match t.attribute? "kind" with
  | some (.text s) => s == kind
  | _ => false

/-- The branches that a node adds to the flow of control: one for a loop,
one for a conditional or as many as it has cases, one less than it has arms
for a match, and one for a try block that catches. -/
def decisionPoints (t : Tree) : Except Fault Number :=
  match t.tag with
  | .loop => .ok (.int 1)
  | .conditional =>
    if isKind t "switch" then do
      larger (← branchCount t "case_count") (.int 1)
    else if isKind t "match" then do
      larger (← Magnitude.sub (← branchCount t "arm_count") (.int 1)) (.int 1)
    else .ok (.int 1)
  | .trying => .ok (.int (if (t.attribute? "has_catch").any Value.truthy then 1 else 0))
  | _ => .ok (.int 0)

/-- The number of nodes of the trees on a stack of trees with levels. -/
def stackSize (stack : List (Tree × Nat)) : Nat :=
  Tree.sizeList (stack.map (·.1))

/-- The level below a node: one more below a control node. -/
def levelBelow (t : Tree) (level : Nat) : Nat :=
  if t.tag.isControl then level + 1 else level

/-- The nodes of the trees on a stack in pre-order, with their levels.
Functions are left out with all that is below them. -/
def scopeFrom : List (Tree × Nat) → List (Tree × Nat)
  | [] => []
  | (t, level) :: rest =>
    if t.tag = .functionDef then scopeFrom rest
    else (t, level) :: scopeFrom (t.children.map (·, levelBelow t level) ++ rest)
termination_by stack => stackSize stack
decreasing_by
  all_goals
    simp only [stackSize, List.map_cons, List.map_append, List.map_map, Function.comp_def,
      List.map_id', Tree.sizeList, Tree.sizeList_append, Tree.size_eq]
    omega

/-- The nodes that belong to an owner, with the number of control nodes
between the two. -/
def scope (owner : Tree) : List (Tree × Nat) :=
  scopeFrom (owner.children.map (·, 0))

/-- One more than the number of branches that belong to an owner. -/
def complexity (owner : Tree) : Except Fault Number := do
  let branches ← (scope owner).foldlM
    (fun sum entry => do Magnitude.add sum (← decisionPoints entry.1)) (Number.int 0)
  Magnitude.add (.int 1) branches

/-- The longest chain of control nodes that belong to an owner. -/
def nestingDepth (owner : Tree) : Nat :=
  (scope owner).foldl (fun depth entry =>
    if entry.1.tag.isControl then max depth (entry.2 + 1) else depth) 0

/-- The band that a complexity falls in. -/
def band (complexity : Number) : String :=
  if complexity.le (.int 5) then "low"
  else if complexity.le (.int 10) then "medium"
  else "high"

/-- The measurements of one function. -/
structure FunctionMetrics where
  name : Value
  line : Int
  complexity : Number
  nestingDepth : Nat

/-- Measures a function. -/
def ofFunction (t : Tree) : Except Fault FunctionMetrics := do
  return ⟨(t.attribute? "name").getD .null, t.span.startLine, ← complexity t, nestingDepth t⟩

/-- The measurements of a module. -/
structure StructureMetrics where
  classCount : Nat
  complexity : Number
  maxNestingDepth : Nat
  functions : List FunctionMetrics

/-- What a walk over the nodes of a module has found so far. -/
structure Survey where
  decisions : Number
  classCount : Nat
  functions : List FunctionMetrics

/-- Takes in the next node. -/
def Survey.visit (s : Survey) (t : Tree) : Except Fault Survey := do
  let decisions ← Magnitude.add s.decisions (← decisionPoints t)
  match t.tag with
  | .functionDef => return { s with decisions, functions := s.functions ++ [← ofFunction t] }
  | .classDef => return { s with decisions, classCount := s.classCount + 1 }
  | _ => return { s with decisions }

/-- Measures every function of a tree and the tree as a whole. -/
def analyze (t : Tree) : Except Fault StructureMetrics := do
  let s ← t.walk.foldlM Survey.visit ⟨.int 0, 0, []⟩
  let deepest := s.functions.foldl (fun depth f => max depth f.nestingDepth) 0
  return ⟨s.classCount, ← Magnitude.add (.int 1) s.decisions, max deepest (nestingDepth t),
    s.functions⟩

/-- The mean of the functions' complexities, zero without functions. -/
def StructureMetrics.average (m : StructureMetrics) : Except Fault Float := do
  if m.functions.isEmpty then return 0.0
  Number.orOverflow ((← total (m.functions.map (·.complexity))).over? m.functions.length)

/-- The number of functions in a band. -/
def StructureMetrics.countIn (m : StructureMetrics) (name : String) : Nat :=
  m.functions.countP fun f => band f.complexity == name

/-- The measurements of a function as a document. -/
def FunctionMetrics.document (f : FunctionMetrics) : Value :=
  .object
    [("name", f.name), ("line", .int f.line), ("cyclomatic_complexity", f.complexity.value),
     ("nesting_depth", .ofNat f.nestingDepth)]

/-- The measurements of a module as a document. -/
def StructureMetrics.document (m : StructureMetrics) : Except Fault Value := do
  return .object
    [("function_count", .ofNat m.functions.length),
     ("class_count", .ofNat m.classCount),
     ("cyclomatic_complexity", m.complexity.value),
     ("max_nesting_depth", .ofNat m.maxNestingDepth),
     ("average_complexity", .real (Decimal.roundPlaces 2 (← m.average))),
     ("complexity_distribution",
       .object (["low", "medium", "high"].map fun name => (name, .ofNat (m.countIn name)))),
     ("functions", .list (m.functions.map (·.document)))]

end CodeHabits.Metrics
