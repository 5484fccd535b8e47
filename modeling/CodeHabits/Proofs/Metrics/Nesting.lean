import CodeHabits.Proofs.Metrics.Complexity
import CodeHabits.Proofs.Tree.Positions
import Mathlib.Data.List.Induction
import Mathlib.Order.Bounds.Basic

/-!
# `CodeHabits.Proofs.Metrics.Nesting`: how deep control nodes nest

The way to a position passes through nodes, and a node belongs to an owner if the way from
there to it passes through no function and ends at none. Its level is the number of control
nodes that the way passes through before it. That is said of positions here, without a stack
(`map_scope`).

So the nesting depth of an owner is the greatest number of control nodes on a way from there
that crosses no function (`isGreatest_nestingDepth`). The greatest depth of a module is that
of its ways from any node to any node: each of them lies behind its nearest function, or
behind the root, and counts for that one (`isGreatest_maxNestingDepth`).
-/

set_option autoImplicit false

namespace CodeHabits

namespace Tree

/-- The nodes on the way from the root of a tree to a position, without the root. -/
def way : Tree → Position → List Tree
  | _, [] => []
  | t, i :: rest => t.children[i]?.elim [] fun child => child :: child.way rest

variable {t s : Tree}

theorem way_cons {i : Nat} {child : Tree} (h : t.children[i]? = some child) (p : Position) :
    t.way (i :: p) = child :: child.way p := by
  rw [way, h, Option.elim_some]

theorem way_append {p : Position} (h : t.at? p = some s) (q : Position) :
    t.way (p ++ q) = t.way p ++ s.way q := by
  induction p generalizing t with
  | nil =>
    cases h
    rfl
  | cons i rest ih =>
    obtain ⟨child, hchild, h⟩ := Option.bind_eq_some_iff.1 h
    rw [List.cons_append, way_cons hchild, way_cons hchild, ih h, List.cons_append]

/-- The way to a child of a node is one node longer. -/
theorem way_append_singleton {p : Position} {i : Nat} (h : t.at? (p ++ [i]) = some s) :
    ∃ parent, t.at? p = some parent ∧ t.way (p ++ [i]) = t.way p ++ [s] := by
  rw [at?_append] at h
  obtain ⟨parent, hparent, h⟩ := Option.bind_eq_some_iff.1 h
  obtain ⟨child, hchild, h⟩ := Option.bind_eq_some_iff.1 h
  cases h
  refine ⟨parent, hparent, ?_⟩
  rw [way_append hparent, way_cons hchild, way]

end Tree

namespace Metrics

open Tree

/-- Whether there is no function among nodes. -/
def crossesNoFunction (nodes : List Tree) : Bool :=
  nodes.all fun node => node.tag != .functionDef

/-- The number of control nodes among nodes. -/
def controls (nodes : List Tree) : Nat :=
  nodes.countP fun node => node.tag.isControl

variable {t s : Tree}

theorem crossesNoFunction_cons (h : t.tag ≠ .functionDef) (nodes : List Tree) :
    crossesNoFunction (t :: nodes) = crossesNoFunction nodes := by
  simp [crossesNoFunction, h]

theorem levelBelow_add_controls (t : Tree) (level : Nat) (nodes : List Tree) :
    levelBelow t level + controls nodes = level + controls (t :: nodes) := by
  rw [levelBelow, controls, controls, List.countP_cons]
  split <;> omega

theorem controls_append_singleton (nodes : List Tree) (t : Tree) :
    controls (nodes ++ [t]) = controls nodes + if t.tag.isControl then 1 else 0 := by
  rw [controls, controls, List.countP_append, List.countP_singleton]

/-! ### The nodes that belong to an owner -/

/-- What is kept of the positions in a tree is kept of the root and then child by child. -/
theorem map_filter_positions {α : Type} (t : Tree) (keep : Position → Bool) (f : Position → α) :
    (t.positions.filter keep).map f
      = (if keep [] then [f []] else []) ++ t.numbered.flatMap fun entry =>
        (entry.1.positions.filter fun p => keep (entry.2 :: p)).map fun p => f (entry.2 :: p) := by
  have hbelow : ((t.numbered.flatMap fun entry =>
        entry.1.positions.map (entry.2 :: ·)).filter keep).map f
      = t.numbered.flatMap fun entry =>
        (entry.1.positions.filter fun p => keep (entry.2 :: p)).map fun p => f (entry.2 :: p) := by
    rw [List.filter_flatMap, List.map_flatMap]
    refine List.flatMap_congr fun entry _ => ?_
    rw [List.filter_map, List.map_map]
    rfl
  rw [positions_eq, List.filter_cons, ← hbelow]
  split <;> rfl

/-- The members of a tree are the nodes to which the way from the root, counted with it,
crosses no function. -/
theorem map_members (level : Nat) (t : Tree) :
    (members level t).map (fun entry => (some entry.1, entry.2))
      = (t.positions.filter fun p => crossesNoFunction (t :: t.way p)).map fun p =>
        (t.at? p, level + controls (t :: t.way p).dropLast) := by
  induction t using childInduction generalizing level with
  | _ t ih =>
    rw [map_filter_positions]
    by_cases hfunction : t.tag = .functionDef
    · have hnone : ∀ nodes, crossesNoFunction (t :: nodes) = false := by
        simp [crossesNoFunction, hfunction]
      rw [members_of_function hfunction]
      simp [hnone]
    · have hroot : crossesNoFunction (t :: t.way []) = true := by
        simp [crossesNoFunction, way, hfunction]
      rw [members_of_other hfunction, if_pos hroot, List.map_cons, flatMap_children,
        List.map_flatMap, List.singleton_append]
      congr 1
      -- Below the root the way begins at a child, at a level that counts the root.
      refine List.flatMap_congr fun entry hentry => ?_
      have hchild := mem_numbered.1 hentry
      rw [ih entry.1 (List.mem_of_getElem? hchild)]
      simp only [way_cons hchild, at?_cons hchild, crossesNoFunction_cons hfunction,
        List.dropLast_cons_cons, levelBelow_add_controls]

/-- The nodes that belong to an owner are, in the order of their positions, those below it to
which the way crosses no function, with the number of control nodes passed before. -/
theorem map_scope (owner : Tree) :
    (scope owner).map (fun entry => (some entry.1, entry.2))
      = (owner.positions.filter fun p => p != [] && crossesNoFunction (owner.way p)).map fun p =>
        (owner.at? p, controls (owner.way p).dropLast) := by
  rw [scope_eq, map_filter_positions, if_neg (by simp), List.nil_append, flatMap_children,
    List.map_flatMap]
  refine List.flatMap_congr fun entry hentry => ?_
  have hchild := mem_numbered.1 hentry
  rw [map_members]
  simp only [way_cons hchild, at?_cons hchild, Nat.zero_add]
  rfl

/-- A node belongs to an owner with a level if a way leads there. -/
theorem mem_scope {owner : Tree} {entry : Tree × Nat} :
    entry ∈ scope owner ↔ ∃ p, p ≠ [] ∧ owner.at? p = some entry.1 ∧
      crossesNoFunction (owner.way p) = true ∧ controls (owner.way p).dropLast = entry.2 := by
  have hmem : entry ∈ scope owner ↔ (some entry.1, entry.2)
      ∈ (scope owner).map fun entry => (some entry.1, entry.2) := by
    simp
  rw [hmem, map_scope]
  simp only [List.mem_map, List.mem_filter, mem_positions, Prod.mk.injEq, Bool.and_eq_true,
    bne_iff_ne]
  constructor
  · rintro ⟨p, ⟨-, hp, hcrosses⟩, hat, hlevel⟩
    exact ⟨p, hp, hat, hcrosses, hlevel⟩
  · rintro ⟨p, hp, hat, hcrosses, hlevel⟩
    exact ⟨p, ⟨⟨entry.1, hat⟩, hp, hcrosses⟩, hat, hlevel⟩

/-! ### The depth of an owner -/

/-- The numbers of control nodes on ways from a node that cross no function. -/
def nestings (owner : Tree) : Set Nat :=
  {n | ∃ p s, owner.at? p = some s ∧ crossesNoFunction (owner.way p) = true ∧
    n = controls (owner.way p)}

theorem isGreatest_foldl_max (numbers : List Nat) (first : Nat) :
    IsGreatest {n | n = first ∨ n ∈ numbers} (numbers.foldl max first) := by
  induction numbers generalizing first with
  | nil => simp
  | cons number rest ih =>
    obtain ⟨hmem, hbound⟩ := ih (max first number)
    rw [List.foldl_cons]
    constructor
    · rcases hmem with hfirst | hrest
      · rw [hfirst]
        rcases Nat.le_total first number with hle | hle
        · exact .inr (by simp [Nat.max_eq_right hle])
        · exact .inl (Nat.max_eq_left hle)
      · exact .inr (List.mem_cons_of_mem _ hrest)
    · have hlarger : max first number ≤ rest.foldl max (max first number) := hbound (.inl rfl)
      rintro n (rfl | hn)
      · omega
      rcases List.mem_cons.1 hn with rfl | hn
      · omega
      · exact hbound (.inr hn)

/-- The nesting depth is the greatest level behind a control node that belongs to the owner. -/
theorem nestingDepth_eq (owner : Tree) :
    nestingDepth owner
      = (((scope owner).filter fun entry => entry.1.tag.isControl).map fun entry =>
          entry.2 + 1).foldl max 0 := by
  rw [List.foldl_map, List.foldl_filter]
  rfl

/-- The nesting depth of an owner is the greatest number of control nodes on a way from there
that crosses no function. -/
theorem isGreatest_nestingDepth (owner : Tree) :
    IsGreatest (nestings owner) (nestingDepth owner) := by
  obtain ⟨hmem, hbound⟩ := isGreatest_foldl_max
    (((scope owner).filter fun entry => entry.1.tag.isControl).map fun entry => entry.2 + 1) 0
  rw [← nestingDepth_eq] at hmem hbound
  constructor
  · -- The depth is reached at the root if it is zero, and at a control node otherwise.
    rcases hmem with hzero | hmem
    · exact ⟨[], owner, rfl, rfl, hzero⟩
    obtain ⟨⟨node, level⟩, hentry, hdepth⟩ := List.mem_map.1 hmem
    obtain ⟨hscope, hcontrol⟩ := List.mem_filter.1 hentry
    obtain ⟨p, hp, hat, hcrosses, rfl⟩ := mem_scope.1 hscope
    obtain ⟨front, i, rfl⟩ := (List.eq_nil_or_concat' p).resolve_left hp
    obtain ⟨parent, -, hway⟩ := way_append_singleton hat
    refine ⟨front ++ [i], node, hat, hcrosses, ?_⟩
    rw [← hdepth, hway, List.dropLast_concat, controls_append_singleton, if_pos hcontrol]
  · rintro n ⟨p, node, hat, hcrosses, rfl⟩
    -- The last control node of a way has its own level; behind it there is nothing to count.
    induction p using List.reverseRecOn generalizing node with
    | nil => exact Nat.zero_le _
    | append_singleton front i ih =>
      obtain ⟨parent, hparent, hway⟩ := way_append_singleton hat
      have hfront : crossesNoFunction (owner.way front) = true := by
        rw [hway, crossesNoFunction, List.all_append, Bool.and_eq_true] at hcrosses
        exact hcrosses.1
      by_cases hcontrol : node.tag.isControl = true
      · have hscope : (node, controls (owner.way front)) ∈ scope owner := by
          refine mem_scope.2 ⟨front ++ [i], by simp, hat, hcrosses, ?_⟩
          rw [hway, List.dropLast_concat]
        rw [hway, controls_append_singleton, if_pos hcontrol]
        exact hbound (.inr (List.mem_map.2 ⟨_, List.mem_filter.2 ⟨hscope, hcontrol⟩, rfl⟩))
      · rw [hway, controls_append_singleton, if_neg hcontrol]
        exact ih parent hparent hfront

/-! ### The depth of a module -/

theorem functions_of_visit {s later : Survey} {t : Tree} (h : s.visit t = .ok later) :
    later.functions.map FunctionMetrics.nestingDepth
      = s.functions.map FunctionMetrics.nestingDepth
        ++ (functionsAmong [t]).map Metrics.nestingDepth := by
  unfold Survey.visit at h
  obtain ⟨points, -, h⟩ := Except.bind_eq_ok.1 h
  obtain ⟨decisions, -, h⟩ := Except.bind_eq_ok.1 h
  split at h
  next hfunction =>
    obtain ⟨f, hf, h⟩ := Except.bind_eq_ok.1 h
    obtain ⟨complexity, -, hf⟩ := Except.bind_eq_ok.1 hf
    cases hf
    cases h
    rw [functionsAmong_cons_of_tag hfunction, List.map_append]
    rfl
  next hclass =>
    cases h
    rw [functionsAmong_cons_of_ne (by simp [hclass])]
    exact (List.append_nil _).symm
  next hother _ =>
    cases h
    rw [functionsAmong_cons_of_ne hother]
    exact (List.append_nil _).symm

theorem functions_of_foldlM {nodes : List Tree} {s later : Survey}
    (h : nodes.foldlM Survey.visit s = .ok later) :
    later.functions.map FunctionMetrics.nestingDepth
      = s.functions.map FunctionMetrics.nestingDepth
        ++ (functionsAmong nodes).map Metrics.nestingDepth := by
  induction nodes generalizing s with
  | nil =>
    cases h
    exact (List.append_nil _).symm
  | cons node rest ih =>
    rw [List.foldlM_cons] at h
    obtain ⟨middle, hmiddle, h⟩ := Except.bind_eq_ok.1 h
    rw [ih h, functions_of_visit hmiddle, List.append_assoc, ← List.map_append,
      ← functionsAmong_append, List.singleton_append]

/-- The greatest depth is that of the functions in the module and of the module itself. -/
theorem maxNestingDepth_eq {m : StructureMetrics} (h : analyze t = .ok m) :
    m.maxNestingDepth
      = max ((t.functions.map Metrics.nestingDepth).foldl max 0) (Metrics.nestingDepth t) := by
  obtain ⟨survey, hsurvey, h⟩ := Except.bind_eq_ok.1 h
  obtain ⟨complexity, -, h⟩ := Except.bind_eq_ok.1 h
  cases h
  have hfunctions := functions_of_foldlM hsurvey
  rw [walk_eq_nodes, List.map_nil, List.nil_append] at hfunctions
  rw [functions, ← hfunctions, List.foldl_map]

/-- The numbers of control nodes on ways from one node of a tree to another that cross no
function, the first node counted too. -/
def nestingsIn (t : Tree) : Set Nat :=
  {n | ∃ p s, t.at? p = some s ∧ ∃ q node, s.at? q = some node ∧
    crossesNoFunction (s.way q) = true ∧ n = controls (s :: s.way q)}

theorem mem_nodes_of_at? {p : Position} (h : t.at? p = some s) : s ∈ t.nodes := by
  have hmem : t.at? p ∈ t.positions.map t.at? := List.mem_map_of_mem (mem_positions.2 ⟨s, h⟩)
  rw [map_at?_positions, h, walk_eq_nodes] at hmem
  simpa using hmem

theorem exists_at?_of_mem_nodes (h : s ∈ t.nodes) : ∃ p, t.at? p = some s := by
  have hmem : some s ∈ t.walk.map some := by
    rw [walk_eq_nodes]
    exact List.mem_map_of_mem h
  rw [← map_at?_positions] at hmem
  obtain ⟨p, -, hp⟩ := List.mem_map.1 hmem
  exact ⟨p, hp⟩

theorem controls_cons_of_not_isControl (h : t.tag.isControl = false) (nodes : List Tree) :
    controls (t :: nodes) = controls nodes := by
  simp [controls, h]

/-- The greatest depth of a module is the greatest number of control nodes on a way in it that
crosses no function. -/
theorem isGreatest_maxNestingDepth (hroot : t.tag = .module) {m : StructureMetrics}
    (h : analyze t = .ok m) : IsGreatest (nestingsIn t) m.maxNestingDepth := by
  have hmodule : t.tag.isControl = false := by
    rw [hroot]
    rfl
  have hfunction : ∀ f ∈ t.functions, f.tag.isControl = false := by
    intro f hf
    have htag : f.tag = .functionDef := by simpa using (List.mem_filter.1 hf).2
    rw [htag]
    rfl
  -- A depth is that of a way from its owner, which counts for nothing itself.
  have hreached : ∀ {owner : Tree} {p : Position}, t.at? p = some owner →
      owner.tag.isControl = false → nestingDepth owner ∈ nestingsIn t := by
    intro owner p hat hcontrol
    obtain ⟨q, node, hnode, hcrosses, hdepth⟩ := (isGreatest_nestingDepth owner).1
    refine ⟨p, owner, hat, q, node, hnode, hcrosses, ?_⟩
    rw [controls_cons_of_not_isControl hcontrol, hdepth]
  have htop : nestingDepth t ∈ nestingsIn t := hreached (p := []) rfl hmodule
  obtain ⟨hdeepest, hbound⟩ := isGreatest_foldl_max (t.functions.map Metrics.nestingDepth) 0
  rw [maxNestingDepth_eq h]
  constructor
  · rcases Nat.le_total ((t.functions.map Metrics.nestingDepth).foldl max 0) (nestingDepth t)
      with hle | hle
    · rw [Nat.max_eq_right hle]
      exact htop
    rw [Nat.max_eq_left hle]
    rcases hdeepest with hzero | hdeepest
    · rw [hzero] at hle ⊢
      rwa [Nat.le_zero.1 hle] at htop
    · obtain ⟨f, hf, hdepth⟩ := List.mem_map.1 hdeepest
      obtain ⟨p, hp⟩ := exists_at?_of_mem_nodes (List.mem_filter.1 hf).1
      rw [← hdepth]
      exact hreached hp (hfunction f hf)
  · rintro n ⟨p, s, hat, q, node, hnode, hcrosses, rfl⟩
    -- A way that begins at an owner is counted there. Any other begins at a child that is no
    -- function, so it may begin one node further up.
    induction p using List.reverseRecOn generalizing s q with
    | nil =>
      cases hat
      rw [controls_cons_of_not_isControl hmodule]
      exact ((isGreatest_nestingDepth t).2 ⟨q, node, hnode, hcrosses, rfl⟩).trans
        (Nat.le_max_right _ _)
    | append_singleton front i ih =>
      by_cases howner : s.tag = .functionDef
      · have hs : s ∈ t.functions :=
          List.mem_filter.2 ⟨mem_nodes_of_at? hat, by simp [howner]⟩
        rw [controls_cons_of_not_isControl (hfunction s hs)]
        have hdepth : nestingDepth s ≤ (t.functions.map Metrics.nestingDepth).foldl max 0 :=
          hbound (.inr (List.mem_map_of_mem hs))
        exact ((isGreatest_nestingDepth s).2 ⟨q, node, hnode, hcrosses, rfl⟩).trans
          (hdepth.trans (Nat.le_max_left _ _))
      · rw [at?_append] at hat
        obtain ⟨parent, hparent, hat⟩ := Option.bind_eq_some_iff.1 hat
        obtain ⟨child, hchild, hat⟩ := Option.bind_eq_some_iff.1 hat
        cases hat
        have hwider := ih parent hparent (i :: q) (by rw [at?_cons hchild, hnode])
          (by rw [way_cons hchild, crossesNoFunction_cons howner, hcrosses])
        rw [way_cons hchild] at hwider
        refine Nat.le_trans ?_ hwider
        exact (List.sublist_cons_self parent _).countP_le

/-! ### Traversals -/

/-- What the traversals of a tree compute, without their stacks. A walk meets every position
once, in pre-order. The heights that are found from the back of a walk, where those of the
nodes below a node are pending when it is reached, and those that are found with marks, where
none is missing, are the heights of the nodes. The nodes that belong to an owner are those
below it to which the way crosses no function, with the control nodes passed before, and the
nesting depth is the greatest number of control nodes on such a way. In a module all ways that
cross no function count, and measuring it gives a result if counts are whole. -/
theorem traversals_recursive (t : Tree) :
    (t.positions.Pairwise (· < ·) ∧ (∀ p, p ∈ t.positions ↔ ∃ s, t.at? p = some s) ∧
      t.walk.map some = t.positions.map t.at? ∧ t.walk = t.nodes) ∧
    ((∀ s : Tree, s.height = (s.children.map height).max?.elim 0 (· + 1)) ∧
      heights t.walk = t.walk.map height ∧
      (∀ front s back, t.walk = front ++ s :: back →
        (back.foldr Heights.add ⟨[], []⟩).pending.take s.children.length
          = s.children.map height) ∧
      ∃ known, t.depths? = some known ∧ ∀ p, known.get? p = (t.at? p).map height) ∧
    ((scope t).map (fun entry => (some entry.1, entry.2))
        = (t.positions.filter fun p => p != [] && crossesNoFunction (t.way p)).map (fun p =>
          (t.at? p, controls (t.way p).dropLast)) ∧
      IsGreatest (nestings t) (nestingDepth t)) ∧
    (t.tag = .module →
      (WholeCounts t → ∃ m, analyze t = .ok m) ∧
      ∀ m, analyze t = .ok m → IsGreatest (nestingsIn t) m.maxNestingDepth) := by
  refine ⟨⟨pairwise_positions t, fun p => mem_positions, (map_at?_positions t).symm,
    walk_eq_nodes t⟩, ⟨height_eq_max?, heights_walk t, ?_, exists_depths t⟩,
    ⟨map_scope t, isGreatest_nestingDepth t⟩, fun hroot => ⟨?_, ?_⟩⟩
  · exact fun front s back h => pending_eq h
  · intro hcounts
    obtain ⟨m, hm, -⟩ := exists_analysis hroot hcounts
    exact ⟨m, hm⟩
  · exact fun m hm => isGreatest_maxNestingDepth hroot hm

section

/-- A loop that holds a call and a function, and in the function a loop in a block that
catches. -/
def loopAround : Tree :=
  .node .loop ⟨"a.js", 1, 0, 8, 1⟩ [("kind", .text "for")]
    [.node .call ⟨"a.js", 2, 2, 2, 8⟩ [] [],
      .node .functionDef ⟨"a.js", 3, 2, 7, 3⟩ [("name", .text "f")]
        [.node .trying ⟨"a.js", 4, 4, 6, 5⟩ [("has_catch", .bool true)]
          [.node .loop ⟨"a.js", 5, 6, 5, 20⟩ [("kind", .text "while")] []]]]

/-- A module with this loop and a conditional behind it. -/
def loopsInModule : Tree :=
  .node .module ⟨"a.js", 1, 0, 10, 0⟩ []
    [loopAround, .node .conditional ⟨"a.js", 9, 0, 9, 12⟩ [("kind", .text "if")] []]

/-- The function is deeper than the module, and what is in it is not counted for the loop
around it. -/
theorem traversals_recursive_loopsInModule :
    loopsInModule.tag = .module ∧ WholeCounts loopsInModule ∧
      loopsInModule.positions = [[], [0], [0, 0], [0, 1], [0, 1, 0], [0, 1, 0, 0], [1]] ∧
      loopsInModule.walk.length = 7 ∧
      (loopsInModule.nodesBelow.foldr Heights.add ⟨[], []⟩).pending.take 2 = [3, 0] ∧
      (∃ known, loopsInModule.depths? = some known ∧ known.get? [0] = some 3) ∧
      (scope loopsInModule).map (·.2) = [0, 1, 0] ∧
      ∃ m, analyze loopsInModule = .ok m ∧ IsGreatest (nestingsIn loopsInModule) m.maxNestingDepth ∧
        m.maxNestingDepth = 2 := by
  obtain ⟨⟨-, -, hwalk, hnodes⟩, ⟨-, -, hpending, known, hknown, hheight⟩, ⟨hscope, -⟩, hmodule⟩ :=
    traversals_recursive loopsInModule
  have hcounts : WholeCounts loopsInModule := by
    intro node hnode name hname value hvalue
    rw [hnodes] at hnode
    simp only [loopsInModule, loopAround, nodes, nodesOfAll, List.append_nil, List.nil_append,
      List.cons_append, List.mem_cons, List.not_mem_nil, or_false] at hnode
    rcases hnode with rfl | rfl | rfl | rfl | rfl | rfl | rfl <;> rcases hname with rfl | rfl <;>
      cases hvalue
  obtain ⟨m, hm⟩ := (hmodule rfl).1 hcounts
  refine ⟨rfl, hcounts, rfl, ?_, ?_, ⟨known, hknown, ?_⟩, ?_, m, hm, (hmodule rfl).2 m hm, ?_⟩
  · rw [hnodes]
    rfl
  · exact hpending [] loopsInModule loopsInModule.nodesBelow (by rw [hnodes, nodes_eq]; rfl)
  · rw [hheight]
    rfl
  · have hlevels := congrArg (List.map Prod.snd) hscope
    rw [List.map_map] at hlevels
    exact hlevels
  · have hdepth : Metrics.nestingDepth = fun owner =>
        (((owner.children.flatMap (members 0)).filter fun entry =>
          entry.1.tag.isControl).map fun entry => entry.2 + 1).foldl max 0 := by
      funext owner
      rw [nestingDepth_eq, scope_eq]
    rw [maxNestingDepth_eq hm, hdepth]
    rfl

end

end Metrics

end CodeHabits
