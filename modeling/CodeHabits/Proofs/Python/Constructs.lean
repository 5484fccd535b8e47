import CodeHabits.Metrics
import CodeHabits.Proofs.Metrics.Ownership
import CodeHabits.Proofs.Python.Lowering
import Mathlib.Data.List.Perm.Basic

/-!
# `CodeHabits.Proofs.Python.Constructs`: what is kept of an expression

Calls, lambdas, comprehensions and conditional expressions have nodes of their own, and no
other expression has one. `exists_adds` says for each kind of expression which nodes it adds
to those of the expressions in it that are followed. All that is said of the nodes in
expressions comes from there by induction.

Not all expressions are followed: the defaults of a lambda, the conditions of a
comprehension and what its loops assign to are passed over. `constructs_kept_or_skipped` says
that what has a node of its own is found once, in the trees or in what was passed over.
-/

set_option autoImplicit false

namespace CodeHabits.Python

open scoped List

/-- The kinds of expressions that have a node of their own. -/
inductive Construct where
  | call
  | lambda
  | comprehension
  | ternary
  deriving DecidableEq, Repr

/-- Which of these an expression is. -/
def Expr.construct? : Expr → Option Construct
  | .call _ _ _ _ => some .call
  | .lambda _ _ _ _ => some .lambda
  | .comprehension _ _ _ _ => some .comprehension
  | .ternary _ _ _ _ => some .ternary
  | .name _ _ | .member _ _ _ | .constant _ _ | .sequence _ _ | .other _ _ => none

/-- Which of these a node stands for. -/
def nodeConstruct? (t : Tree) : Option Construct :=
  match t.tag with
  | .call => some .call
  | .functionDef => if Metrics.isKind t "lambda" then some .lambda else none
  | .loop => some .comprehension
  | .conditional => some .ternary
  | _ => none

/-- What the loop of a comprehension runs over. -/
def CompLoop.source : CompLoop → Expr
  | .mk _ source _ => source

/-- What else is in the loop of a comprehension. -/
def CompLoop.passedOver : CompLoop → List Expr
  | .mk target _ conditions => target :: conditions

/-- The expressions right inside an expression that are lowered with it. -/
def Expr.followed : Expr → List Expr
  | .lambda _ _ _ body => [body]
  | .comprehension _ _ results loops => loops.map CompLoop.source ++ results
  | e => e.parts

/-- The expressions right inside an expression that are not lowered: the defaults of a
lambda, and of a comprehension what its loops assign to and on what conditions. -/
def Expr.passedOver : Expr → List Expr
  | .lambda _ _ defaults _ => defaults
  | .comprehension _ _ _ loops => loops.flatMap CompLoop.passedOver
  | _ => []

theorem perm_loop_parts (loops : List CompLoop) :
    (loops.flatMap CompLoop.parts).Perm
      (loops.map CompLoop.source ++ loops.flatMap CompLoop.passedOver) := by
  rw [List.map_eq_flatMap]
  refine (List.Perm.flatMap_left loops fun l _ => ?_).trans (List.flatMap_append_perm loops _ _).symm
  cases l with
  | mk target source conditions => exact List.Perm.swap source target conditions

/-- An expression right inside is followed or passed over. -/
theorem Expr.perm_parts (e : Expr) : e.parts.Perm (e.followed ++ e.passedOver) := by
  cases e with
  | lambda p parameters defaults body => exact List.perm_append_comm
  | comprehension p collected results loops =>
    show (results ++ loops.flatMap CompLoop.parts).Perm
      (loops.map CompLoop.source ++ results ++ loops.flatMap CompLoop.passedOver)
    rw [List.append_assoc]
    exact ((perm_loop_parts loops).append_left results).trans (List.perm_append_comm_assoc _ _ _)
  | _ => exact .of_eq (List.append_nil _).symm

theorem Expr.mem_parts_of_mem_followed {e x : Expr} (h : x ∈ e.followed) : x ∈ e.parts :=
  e.perm_parts.mem_iff.2 (List.mem_append_left _ h)

/-! ### The nodes of an expression -/

section

variable (file : String)

/-- The nodes that an expression gives. -/
def nodesOf (e : Expr) : List Tree :=
  (expression file e).flatMap Tree.nodes

/-- Nodes that are there for an expression itself, beside those of the expressions in it. -/
structure Adds (e : Expr) (own : List Tree) : Prop where
  nodes : (nodesOf file e).Perm (own ++ e.followed.flatMap (nodesOf file))
  /-- There is one for the expression if it has a node of its own. -/
  once : own.filterMap (fun t => (nodeConstruct? t).map fun c => (c, t.span))
    = (e.construct?.map fun c => (c, e.place.span file)).toList
  /-- A lambda also returns its body. -/
  known : ∀ t ∈ own, t.tag = .returning ∨ (nodeConstruct? t).isSome
  spans : ∀ t ∈ own, ∃ x ∈ e :: e.followed, t.span = x.place.span file

theorem nodesOf_expressions (es : List Expr) :
    (expressions file es).flatMap Tree.nodes = es.flatMap (nodesOf file) := by
  rw [expressions_eq, List.flatMap_assoc]
  rfl

theorem sources_eq (loops : List CompLoop) :
    sources file loops = (loops.map CompLoop.source).flatMap (expression file) := by
  induction loops with
  | nil => rw [sources, List.map_nil, List.flatMap_nil]
  | cons l rest ih =>
    cases l with
    | mk target source conditions =>
      rw [sources, ih, List.map_cons, List.flatMap_cons, CompLoop.source]

theorem nodes_treeAt (tag : Tag) (p : Place) (attributes : Attributes) (children : List Tree) :
    (treeAt file tag p attributes children).nodes
      = treeAt file tag p attributes children :: children.flatMap Tree.nodes := by
  rw [Tree.nodes_eq]
  rfl

/-- An expression that gives a node with the trees for some of its parts, behind those for
the others. -/
theorem adds_node {e : Expr} {tag : Tag} {attributes : Attributes} {before children : List Tree}
    (hexpression : expression file e = before ++ [treeAt file tag e.place attributes children])
    (hnodes : (before ++ children).flatMap Tree.nodes = e.followed.flatMap (nodesOf file))
    (hconstruct : nodeConstruct? (treeAt file tag e.place attributes children) = e.construct?)
    (hsome : e.construct?.isSome) :
    Adds file e [treeAt file tag e.place attributes children] where
  nodes := by
    rw [nodesOf, hexpression, ← hnodes, List.flatMap_append, List.flatMap_singleton, nodes_treeAt,
      List.flatMap_append]
    exact List.perm_middle
  once := by
    obtain ⟨c, hc⟩ := Option.isSome_iff_exists.1 hsome
    rw [List.filterMap_cons_some (by rw [hconstruct, hc]; rfl), hc]
    rfl
  known t ht := by
    rw [List.mem_singleton.1 ht, hconstruct]
    exact .inr hsome
  spans t ht := ⟨e, List.mem_cons_self, by rw [List.mem_singleton.1 ht]; rfl⟩

theorem adds_nil {e : Expr} (hconstruct : e.construct? = none)
    (hnodes : nodesOf file e = e.followed.flatMap (nodesOf file)) : Adds file e [] where
  nodes := .of_eq hnodes
  once := by rw [hconstruct]; rfl
  known := by simp
  spans := by simp

theorem exists_adds (e : Expr) : ∃ own, Adds file e own := by
  cases e with
  | name p id => exact ⟨[], adds_nil file rfl (by rw [nodesOf, expression]; rfl)⟩
  | constant p isText => exact ⟨[], adds_nil file rfl (by rw [nodesOf, expression]; rfl)⟩
  | member p value name =>
    refine ⟨[], adds_nil file rfl ?_⟩
    show _ = [value].flatMap (nodesOf file)
    rw [nodesOf, expression, List.flatMap_singleton, nodesOf]
  | sequence p elements =>
    exact ⟨[], adds_nil file rfl (by rw [nodesOf, expression, nodesOf_expressions]; rfl)⟩
  | other p parts =>
    exact ⟨[], adds_nil file rfl (by rw [nodesOf, expression, nodesOf_expressions]; rfl)⟩
  | call p target arguments keywords =>
    refine ⟨_, adds_node file (by rw [expression]; rfl) ?_ rfl rfl⟩
    show _ = (target :: (arguments ++ keywords)).flatMap (nodesOf file)
    rw [List.flatMap_append, List.flatMap_append, nodesOf_expressions, nodesOf_expressions,
      List.flatMap_cons, List.flatMap_append]
    rfl
  | comprehension p collected results loops =>
    refine ⟨_, adds_node file (by rw [expression]; exact (List.nil_append _).symm) ?_ rfl rfl⟩
    rw [List.nil_append, List.flatMap_append, nodesOf_expressions, sources_eq, List.flatMap_assoc,
      Expr.followed, List.flatMap_append]
    rfl
  | ternary p test body orelse =>
    refine ⟨_, adds_node file (by rw [expression]; exact (List.nil_append _).symm) ?_ rfl rfl⟩
    simp [Expr.followed, Expr.parts, nodesOf]
  | lambda p parameters defaults body =>
    -- The body of a lambda stands in a node that returns it.
    refine ⟨[treeAt file .functionDef p
        [("name", .null), ("param_count", .ofNat parameters), ("is_async", .bool false),
         ("kind", .text "lambda"), ("expression_body", .bool true)]
        [treeAt file .returning body.place [("has_value", .bool true)] (expression file body)],
      treeAt file .returning body.place [("has_value", .bool true)] (expression file body)], ?_⟩
    constructor
    · refine .of_eq ?_
      rw [nodesOf, expression, List.flatMap_singleton, nodes_treeAt, List.flatMap_singleton,
        nodes_treeAt, Expr.followed, List.flatMap_singleton]
      rfl
    · rfl
    · intro t ht
      rcases List.mem_pair.1 ht with rfl | rfl
      · exact .inr rfl
      · exact .inl rfl
    · intro t ht
      rcases List.mem_pair.1 ht with rfl | rfl
      · exact ⟨_, List.mem_cons_self, rfl⟩
      · exact ⟨body, by simp [Expr.followed], rfl⟩

/-! ### Kept or skipped -/

/-- What has a node of its own in an expression, with where it is. -/
def constructsIn (e : Expr) : List (Construct × Span) :=
  e.within.filterMap fun x => x.construct?.map fun c => (c, x.place.span file)

/-- What the nodes of trees stand for, with where they are. -/
def constructsMade (ts : List Tree) : List (Construct × Span) :=
  (ts.flatMap Tree.walk).filterMap fun t => (nodeConstruct? t).map fun c => (c, t.span)

/-- The expressions in an expression that are passed over, but for those inside of them. -/
def Expr.skipped (e : Expr) : List Expr :=
  e.passedOver ++ e.followed.attach.flatMap fun x => x.1.skipped
termination_by sizeOf e
decreasing_by exact Expr.sizeOf_lt_of_mem_parts (Expr.mem_parts_of_mem_followed x.2)

theorem Expr.skipped_eq (e : Expr) :
    e.skipped = e.passedOver ++ e.followed.flatMap Expr.skipped := by
  rw [Expr.skipped, List.flatMap_subtype fun _ _ => rfl, List.unattach_attach]

theorem constructsIn_eq (e : Expr) :
    constructsIn file e = (e.construct?.map fun c => (c, e.place.span file)).toList
      ++ e.parts.flatMap (constructsIn file) := by
  rw [constructsIn, Expr.within_eq, ← List.singleton_append, List.filterMap_append,
    List.filterMap_flatMap]
  rfl

theorem constructsMade_expression (e : Expr) :
    constructsMade (expression file e)
      = (nodesOf file e).filterMap fun t => (nodeConstruct? t).map fun c => (c, t.span) := by
  rw [constructsMade, funext Tree.walk_eq_nodes, nodesOf]

/-- One expression adds what it is itself to what is made of those in it that are followed. -/
theorem perm_constructsMade (e : Expr) :
    (constructsMade (expression file e)).Perm
      ((e.construct?.map fun c => (c, e.place.span file)).toList
        ++ e.followed.flatMap fun x => constructsMade (expression file x)) := by
  obtain ⟨own, hown⟩ := exists_adds file e
  have hnodes := hown.nodes.filterMap fun t => (nodeConstruct? t).map fun c => (c, t.span)
  rw [List.filterMap_append, hown.once, List.filterMap_flatMap] at hnodes
  simpa only [constructsMade_expression] using hnodes

theorem perm_constructsIn (e : Expr) :
    (constructsMade (expression file e) ++ e.skipped.flatMap (constructsIn file)).Perm
      (constructsIn file e) := by
  induction e using Expr.induction with
  | step e ih =>
    have hfollowed : ∀ x ∈ e.followed,
        (constructsMade (expression file x) ++ x.skipped.flatMap (constructsIn file)).Perm
          (constructsIn file x) :=
      fun x hx => ih x (Expr.mem_parts_of_mem_followed hx)
    -- What the expressions in it make and what they pass over is brought together for each of
    -- them, where the induction hypothesis speaks of both.
    let own := (e.construct?.map fun c => (c, e.place.span file)).toList
    let made (x : Expr) := constructsMade (expression file x)
    let left (x : Expr) := x.skipped.flatMap (constructsIn file)
    let passed := e.passedOver.flatMap (constructsIn file)
    have hleft : left e = passed ++ e.followed.flatMap left := by
      show e.skipped.flatMap _ = _
      rw [Expr.skipped_eq, List.flatMap_append, List.flatMap_assoc]
    calc made e ++ left e
      _ ~ own ++ e.followed.flatMap made ++ (passed ++ e.followed.flatMap left) := by
        rw [hleft]
        exact (perm_constructsMade file e).append_right _
      _ ~ own ++ (e.followed.flatMap made ++ e.followed.flatMap left ++ passed) := by
        rw [List.append_assoc, List.append_assoc]
        exact (List.perm_append_comm.append_left _).append_left own
      _ ~ own ++ (e.followed.flatMap (constructsIn file) ++ passed) :=
        (((List.flatMap_append_perm _ made left).trans
          (List.Perm.flatMap_left _ hfollowed)).append_right passed).append_left own
      _ = own ++ (e.followed ++ e.passedOver).flatMap (constructsIn file) := by
        rw [List.flatMap_append]
      _ ~ own ++ e.parts.flatMap (constructsIn file) :=
        (e.perm_parts.symm.flatMap fun _ _ => .refl _).append_left own
      _ = constructsIn file e := (constructsIn_eq file e).symm

/-- Whatever has a node of its own in an expression is found once, with its place: among the
nodes made, or in an expression that was passed over. So of any kind as many are made as
there are exactly if none of the kind is in the defaults of a lambda, or in the conditions or
targets of a comprehension. -/
theorem constructs_kept_or_skipped (e : Expr) :
    (constructsMade (expression file e) ++ e.skipped.flatMap (constructsIn file)).Perm
        (constructsIn file e) ∧
      ∀ c, (constructsMade (expression file e)).countP (fun made => made.1 = c)
          = (constructsIn file e).countP (fun found => found.1 = c) ↔
        ∀ x ∈ e.skipped, ∀ y ∈ x.within, y.construct? ≠ some c := by
  refine ⟨perm_constructsIn file e, fun c => ?_⟩
  -- So what is missing of a kind is what was passed over of it.
  have hcount := (perm_constructsIn file e).countP_eq fun found => found.1 = c
  rw [List.countP_append] at hcount
  have hskipped : (e.skipped.flatMap (constructsIn file)).countP (fun found => found.1 = c) = 0 ↔
      ∀ x ∈ e.skipped, ∀ y ∈ x.within, y.construct? ≠ some c := by
    rw [List.countP_eq_zero]
    simp only [constructsIn, List.mem_flatMap, List.mem_filterMap, Option.map_eq_some_iff,
      decide_eq_true_eq]
    constructor
    · intro h x hx y hy hc
      exact h _ ⟨x, hx, y, hy, c, hc, rfl⟩ rfl
    · rintro h _ ⟨x, hx, y, hy, c', hc, rfl⟩ rfl
      exact h x hx y hy hc
  rw [← hskipped]
  omega

/-- In `[x for x in xs if f(x)]` the call is lost. -/
example (p : Place) :
    let e := Expr.comprehension p .list [.name p "x"]
      [.mk (.name p "x") (.name p "xs") [.call p (.name p "f") [.name p "x"] []]]
    constructsMade (expression file e) = [(.comprehension, p.span file)] ∧
      constructsIn file e = [(.comprehension, p.span file), (.call, p.span file)] := by
  cbv

end

end CodeHabits.Python
