import CodeHabits.Metrics

/-!
# `CodeHabits.Proofs.Metrics.Ownership`: every node has one owner

A function owns itself and the nodes below it that are in no function inside it, and so does
the root of a tree. Walking over a tree and over what belongs to an owner is done with a
stack. Here both are written as recursion over the tree: `Tree.nodes` puts every node before
those below it (`Tree.walk_eq_nodes`), and `members` leaves out functions with all that is
below them (`scope_eq`).

`perm_walk` says that the nodes of a tree are those that the root owns and those that each
function below the root owns, each of them once. So a sum over all nodes is a sum over the
owners of what they own.
-/

set_option autoImplicit false

namespace CodeHabits

namespace Tree

mutual

/-- The nodes of a tree in pre-order. -/
def nodes : Tree → List Tree
  | node tag span attributes cs => node tag span attributes cs :: nodesOfAll cs

/-- The nodes of several trees in pre-order. -/
def nodesOfAll : List Tree → List Tree
  | [] => []
  | t :: rest => nodes t ++ nodesOfAll rest

end

theorem nodesOfAll_eq (ts : List Tree) : nodesOfAll ts = ts.flatMap nodes := by
  induction ts with
  | nil => rfl
  | cons t rest ih => rw [nodesOfAll, ih, List.flatMap_cons]

/-- The nodes of the trees below the root. -/
def nodesBelow (t : Tree) : List Tree :=
  t.children.flatMap nodes

theorem nodes_eq (t : Tree) : t.nodes = t :: t.nodesBelow := by
  cases t with
  | node tag span attributes cs => rw [nodes, nodesOfAll_eq]; rfl

theorem walkFrom_eq (stack : List Tree) : walkFrom stack = stack.flatMap nodes := by
  induction stack using walkFrom.induct with
  | case1 => simp [walkFrom]
  | case2 t rest ih =>
    rw [walkFrom, ih, List.flatMap_append, List.flatMap_cons, nodes_eq]
    rfl

theorem walk_eq_nodes (t : Tree) : t.walk = t.nodes := by
  rw [walk, walkFrom_eq, List.flatMap_singleton]

/-- The functions among trees. -/
def functionsAmong (ts : List Tree) : List Tree :=
  ts.filter fun t => t.tag = .functionDef

/-- The functions in a tree, each before those inside it. -/
def functions (t : Tree) : List Tree :=
  functionsAmong t.nodes

theorem functionsAmong_append (ts us : List Tree) :
    functionsAmong (ts ++ us) = functionsAmong ts ++ functionsAmong us :=
  List.filter_append ts us

theorem functionsAmong_cons_of_tag {t : Tree} (h : t.tag = .functionDef) (ts : List Tree) :
    functionsAmong (t :: ts) = t :: functionsAmong ts := by
  rw [functionsAmong, List.filter_cons_of_pos (by simpa using h), functionsAmong]

theorem functionsAmong_cons_of_ne {t : Tree} (h : t.tag ≠ .functionDef) (ts : List Tree) :
    functionsAmong (t :: ts) = functionsAmong ts := by
  rw [functionsAmong, List.filter_cons_of_neg (by simpa using h), functionsAmong]

end Tree

namespace Metrics

open Tree

mutual

/-- The nodes of a tree with their levels in pre-order, without functions. -/
def members (level : Nat) : Tree → List (Tree × Nat)
  | .node tag span attributes cs =>
    if tag = .functionDef then []
    else
      (.node tag span attributes cs, level)
        :: membersOfAll (levelBelow (.node tag span attributes cs) level) cs

/-- The nodes of several trees in the same way. -/
def membersOfAll (level : Nat) : List Tree → List (Tree × Nat)
  | [] => []
  | t :: rest => members level t ++ membersOfAll level rest

end

theorem membersOfAll_eq (level : Nat) (ts : List Tree) :
    membersOfAll level ts = ts.flatMap (members level) := by
  induction ts with
  | nil => rfl
  | cons t rest ih => rw [membersOfAll, ih, List.flatMap_cons]

theorem members_of_function {t : Tree} (h : t.tag = .functionDef) (level : Nat) :
    members level t = [] := by
  cases t with
  | node tag span attributes cs =>
    rw [members]
    exact if_pos h

theorem members_of_other {t : Tree} (h : t.tag ≠ .functionDef) (level : Nat) :
    members level t = (t, level) :: t.children.flatMap (members (levelBelow t level)) := by
  cases t with
  | node tag span attributes cs =>
    rw [members, membersOfAll_eq]
    exact if_neg h

theorem scopeFrom_eq (stack : List (Tree × Nat)) :
    scopeFrom stack = stack.flatMap fun entry => members entry.2 entry.1 := by
  induction stack using scopeFrom.induct with
  | case1 => simp [scopeFrom]
  | case2 t level rest hfunction ih =>
    rw [scopeFrom, if_pos hfunction, ih, List.flatMap_cons, members_of_function hfunction]
    rfl
  | case3 t level rest hother ih =>
    rw [scopeFrom, if_neg hother, ih, List.flatMap_cons, members_of_other hother,
      List.flatMap_append, List.flatMap_map]
    rfl

theorem scope_eq (owner : Tree) : scope owner = owner.children.flatMap (members 0) := by
  rw [scope, scopeFrom_eq, List.flatMap_map]

/-- What an owner owns: itself and the nodes that belong to it. -/
def owned (owner : Tree) : List Tree :=
  owner :: (scope owner).map Prod.fst

/-- Of two lists in two parts each, the first parts may be put together. -/
theorem append_append_perm {α : Type} (a b c d : List α) :
    ((a ++ b) ++ (c ++ d)).Perm ((a ++ c) ++ (b ++ d)) := by
  rw [List.append_assoc, List.append_assoc]
  refine List.Perm.append_left a ?_
  rw [← List.append_assoc, ← List.append_assoc]
  exact List.perm_append_comm.append_right d

mutual

/-- Each node of a tree is a member, or a function in the tree owns it. The level from which
members are counted does not matter: below a function it starts anew. -/
theorem perm_nodes (t : Tree) (level : Nat) :
    t.nodes.Perm ((members level t).map Prod.fst ++ t.functions.flatMap owned) := by
  cases t with
  | node tag span attributes cs =>
    rw [functions, nodes_eq]
    by_cases hfunction : (Tree.node tag span attributes cs).tag = .functionDef
    · -- The function is no member itself, and it owns the members that are counted from it.
      rw [members_of_function hfunction, functionsAmong_cons_of_tag hfunction, List.flatMap_cons,
        owned, scope_eq, List.map_nil, List.nil_append, List.cons_append]
      exact (perm_nodesBelow cs 0).cons _
    · rw [members_of_other hfunction, functionsAmong_cons_of_ne hfunction, List.map_cons,
        List.cons_append]
      exact (perm_nodesBelow cs _).cons _

/-- The same of several trees. -/
theorem perm_nodesBelow (ts : List Tree) (level : Nat) :
    (ts.flatMap nodes).Perm ((ts.flatMap (members level)).map Prod.fst
      ++ (functionsAmong (ts.flatMap nodes)).flatMap owned) := by
  cases ts with
  | nil => exact .nil
  | cons t rest =>
    rw [List.flatMap_cons, List.flatMap_cons, List.map_append, functionsAmong_append,
      List.flatMap_append]
    exact ((perm_nodes t level).append (perm_nodesBelow rest level)).trans
      (append_append_perm _ _ _ _)

end

/-- Each node of a tree is owned by the root or by one of the functions below it, and only
by one of them. -/
theorem perm_walk (t : Tree) :
    t.walk.Perm (owned t ++ (functionsAmong t.nodesBelow).flatMap owned) := by
  rw [walk_eq_nodes, nodes_eq, owned, scope_eq, List.cons_append]
  exact (perm_nodesBelow t.children 0).cons t

end Metrics

end CodeHabits
