import CodeHabits.Concrete.Ecma
import CodeHabits.Concrete.Rust
import CodeHabits.Proofs.Concrete.Lowers
import CodeHabits.Proofs.Except
import CodeHabits.Proofs.Tree.Nested

/-!
# `CodeHabits.Proofs.Concrete.Local`: plans that keep to their nodes

A plan for a node names nodes to be lowered and says what becomes of their trees. It is
`Local` if it keeps to its node in two ways: the nodes that it names are at or below the
node, and of nested trees in the places of these it makes nested trees in the place of
the node. The first is needed to know what lowering reports, the second to know where its
trees are.

What places the nodes have is left open here but for their order (`SourceFile.Orders`).
-/

set_option autoImplicit false

namespace CodeHabits.Concrete

/-! ### Nodes below nodes -/

namespace Node

mutual

/-- A node and all nodes below it, each before the nodes below it. -/
def all : Node → List Node
  | mk kind start stop named missing faulty field children =>
    mk kind start stop named missing faulty field children :: allOf children

/-- Several nodes and all nodes below them. -/
def allOf : List Node → List Node
  | [] => []
  | n :: rest => all n ++ allOf rest

end

theorem mem_allOf {k : Node} {ns : List Node} : k ∈ allOf ns ↔ ∃ n ∈ ns, k ∈ n.all := by
  induction ns with
  | nil => simp [allOf]
  | cons n rest ih => simp [allOf, ih]

theorem mem_all {k n : Node} : k ∈ n.all ↔ k = n ∨ ∃ m ∈ n.children, k ∈ m.all := by
  cases n
  simp [all, mem_allOf, children]

theorem mem_all_self (n : Node) : n ∈ n.all :=
  mem_all.2 (.inl rfl)

theorem size_lt_of_mem_children {n k : Node} (h : k ∈ n.children) : k.size < n.size := by
  have hle : ∀ {ns : List Node}, k ∈ ns → k.size ≤ sizeList ns := by
    intro ns hmem
    induction ns with
    | nil => simp at hmem
    | cons m rest ih =>
      rw [sizeList]
      rcases List.mem_cons.1 hmem with rfl | hrest
      · omega
      · have := ih hrest
        omega
  have := hle h
  rw [size_eq n]
  omega

/-- What is below a node below is below. -/
theorem mem_all_trans {n m k : Node} (hm : m ∈ n.all) (hk : k ∈ m.all) : k ∈ n.all := by
  rcases mem_all.1 hm with rfl | ⟨child, hchild, hm⟩
  · exact hk
  · exact mem_all.2 (.inr ⟨child, hchild, mem_all_trans hm hk⟩)
termination_by n.size
decreasing_by exact size_lt_of_mem_children hchild

theorem mem_all_of_mem_children {n k : Node} (h : k ∈ n.children) : k ∈ n.all :=
  mem_all.2 (.inr ⟨k, h, mem_all_self k⟩)

end Node

/-- All of the nodes are at or below `n`. -/
def AllBelow {bound : Nat} (n : Node) (ms : List (Inside bound)) : Prop :=
  ∀ m ∈ ms, m.val.node ∈ n.all

section

variable {bound : Nat} {n : Node} {ms ns : List (Inside bound)} {m? : Option (Inside bound)}

@[simp] theorem allBelow_nil : AllBelow n ([] : List (Inside bound)) := by
  simp [AllBelow]

@[simp] theorem allBelow_cons {m : Inside bound} :
    AllBelow n (m :: ms) ↔ m.val.node ∈ n.all ∧ AllBelow n ms := by
  simp [AllBelow]

@[simp] theorem allBelow_append : AllBelow n (ms ++ ns) ↔ AllBelow n ms ∧ AllBelow n ns := by
  simp [AllBelow, or_imp, forall_and]

theorem AllBelow.subset (h : AllBelow n ms) (hsub : ns ⊆ ms) : AllBelow n ns :=
  fun m hm => h m (hsub hm)

theorem AllBelow.filter (h : AllBelow n ms) (keep : Inside bound → Bool) :
    AllBelow n (ms.filter keep) :=
  h.subset List.filter_sublist.subset

/-- The nodes of cursors on siblings are these. -/
theorem mem_of_mem_siblings {before : Option Nat} {nodes : List Node}
    {h : Node.levels nodes ≤ bound} {m : Inside bound} (hm : m ∈ siblings bound before nodes h) :
    m.val.node ∈ nodes := by
  have hnodes := nodesOf_siblings bound before nodes h
  rw [← hnodes, nodesOf, List.map_map]
  exact List.mem_map.2 ⟨m, hm, rfl⟩

theorem allBelow_below (c : Cursor) : AllBelow c.node c.below :=
  fun _ hm => Node.mem_all_of_mem_children (mem_of_mem_siblings hm)

theorem mem_all_of_mem_cursorsBelow {c k : Cursor} (h : k ∈ c.cursorsBelow) :
    k.node ∈ c.node.all := by
  obtain ⟨m, hm, rfl⟩ := List.mem_map.1 h
  exact allBelow_below c m hm

theorem allBelow_below_inside {m : Inside bound} (h : m.val.node ∈ n.all) : AllBelow n m.below := by
  intro k hk
  obtain ⟨below, hbelow, rfl⟩ := List.mem_map.1 hk
  exact Node.mem_all_trans h (allBelow_below m.val below hbelow)

theorem AllBelow.find? (h : AllBelow n ms) (p : Inside bound → Bool) :
    AllBelow n (ms.find? p).toList := by
  intro m hm
  exact h m (List.mem_of_find?_eq_some (Option.mem_toList.1 hm))

theorem AllBelow.inField? (h : AllBelow n ms) (field : String) :
    AllBelow n (inField? ms field).toList :=
  h.find? _

theorem AllBelow.belowOf (h : AllBelow n m?.toList) : AllBelow n (belowOf m?) := by
  cases m? with
  | none => exact allBelow_nil
  | some m => exact allBelow_below_inside (h m (by simp))

theorem AllBelow.flatMap {f : Inside bound → List (Inside bound)}
    (h : AllBelow n ms) (hf : ∀ m, m.val.node ∈ n.all → AllBelow n (f m)) :
    AllBelow n (ms.flatMap f) := by
  intro k hk
  obtain ⟨m, hm, hkm⟩ := List.mem_flatMap.1 hk
  exact hf m (h m hm) k hkm

theorem AllBelow.opened (h : AllBelow n ms) (isBlock : String → Bool) :
    AllBelow n (opened isBlock ms) := by
  refine h.flatMap fun m hm => ?_
  split
  · exact allBelow_below_inside hm
  · simpa using hm

/-- Only the root and nodes below it are lowered. -/
theorem mem_all_of_mem_tops {root : Node} {c : Cursor} (h : c ∈ root.tops) : c.node ∈ root.all := by
  unfold Node.tops at h
  split at h
  · rw [List.mem_singleton.1 h]
    exact root.mem_all_self
  · exact mem_all_of_mem_cursorsBelow h

end

/-! ### Plans -/

/-- A tree that is nested and lies within a span. -/
structure Lies (outer : Span) (t : Tree) : Prop where
  nested : t.Nested
  within : t.span.Within outer

/-- From `n` down, no node ends before it begins, and each has those below it within its
span. -/
def SourceFile.Orders (f : SourceFile) (n : Node) : Prop :=
  ∀ k ∈ n.all, (f.span ⟨k, none⟩).first ≤ (f.span ⟨k, none⟩).last ∧
    ∀ j ∈ k.all, (f.span ⟨j, none⟩).Within (f.span ⟨k, none⟩)

/-- The plan keeps to its node. -/
structure Plan.Local (f : SourceFile) {c : Cursor} (plan : Plan c.height) : Prop where
  names : AllBelow c.node plan.inner
  /-- Of nested trees, each in the place of a node that is named, it makes nested ones in
  the place of its node. -/
  nests : f.Orders c.node → ∀ trees, (∀ t ∈ trees, ∃ m ∈ plan.inner, Lies (f.span m.val) t) →
    ∀ t ∈ plan.wrap trees, Lies (f.span c) t

variable {f : SourceFile} {c : Cursor}

theorem SourceFile.Orders.span {n : Node} (h : f.Orders n) :
    (f.span ⟨n, none⟩).first ≤ (f.span ⟨n, none⟩).last :=
  (h n n.mem_all_self).1

theorem SourceFile.Orders.within {n k : Node} (h : f.Orders n) (hk : k ∈ n.all) :
    (f.span ⟨k, none⟩).Within (f.span ⟨n, none⟩) :=
  (h n n.mem_all_self).2 k hk

theorem SourceFile.Orders.below {n k : Node} (h : f.Orders n) (hk : k ∈ n.all) : f.Orders k :=
  fun j hj => h j (Node.mem_all_trans hk hj)

theorem Lies.trans {inner outer : Span} {t : Tree} (h : Lies inner t)
    (hwithin : inner.Within outer) : Lies outer t :=
  ⟨h.nested, h.within.trans hwithin⟩

/-- A tree in the place of a node lies there if its children do. -/
theorem lies_tree {tag : Tag} {attributes : Attributes} {children : List Tree}
    (horders : f.Orders c.node) (h : ∀ t ∈ children, Lies (f.span c) t) :
    Lies (f.span c) (f.tree tag c attributes children) := by
  refine ⟨.node horders.span ?_ ?_, Span.Within.refl _⟩
  · exact fun t ht => (h t ht).within
  · exact fun t ht => (h t ht).nested

/-- Trees in the places of nodes below lie in the place of the node. -/
theorem lies_of_below {inner : List (Inside c.height)} {trees : List Tree}
    (hnames : AllBelow c.node inner) (horders : f.Orders c.node)
    (h : ∀ t ∈ trees, ∃ m ∈ inner, Lies (f.span m.val) t) : ∀ t ∈ trees, Lies (f.span c) t := by
  intro t ht
  obtain ⟨m, hm, hlies⟩ := h t ht
  exact hlies.trans (horders.within (hnames m hm))

namespace Plan

variable {inner : List (Inside c.height)}

/-- One tree of everything that is named keeps to its node. -/
theorem local_tree {tag : Tag} {attributes : Attributes} (h : AllBelow c.node inner) :
    Local f (single inner (f.tree tag c attributes)) := by
  refine ⟨h, fun horders trees htrees => ?_⟩
  simp only [single, List.mem_singleton, forall_eq]
  exact lies_tree horders (lies_of_below h horders htrees)

theorem local_leaf {tag : Tag} {attributes : Attributes} :
    Local f (c := c) (leaf (f.tree tag c attributes [])) := by
  refine ⟨allBelow_nil, fun horders trees _ => ?_⟩
  simp only [leaf, List.mem_singleton, forall_eq]
  exact lies_tree horders (by simp)

theorem local_splice (h : AllBelow c.node inner) : Local f (splice inner) :=
  ⟨h, fun horders _ htrees => lies_of_below h horders htrees⟩

/-- The value of an expression body is returned where the body is. -/
theorem local_expressionBody {body : Inside c.height} {attributes : Attributes}
    (h : body.val.node ∈ c.node.all) :
    Local f (single [body] fun trees =>
      f.tree .functionDef c attributes
        [f.tree .returning body.val [("has_value", .bool true)] trees]) := by
  refine ⟨allBelow_cons.2 ⟨h, allBelow_nil⟩, fun horders trees htrees => ?_⟩
  simp only [single, List.mem_singleton, forall_eq]
  have hreturn : Lies (f.span body.val)
      (f.tree .returning body.val [("has_value", .bool true)] trees) := by
    refine lies_tree (horders.below h) fun t ht => ?_
    obtain ⟨m, hm, hlies⟩ := htrees t ht
    rw [List.mem_singleton.1 hm] at hlies
    exact hlies
  refine lies_tree horders fun t ht => ?_
  rw [List.mem_singleton.1 ht]
  exact hreturn.trans (horders.within h)

end Plan

/-- Every plan of the dialect keeps to its node. -/
def Dialect.Local (d : Dialect) : Prop :=
  ∀ c plan, d.plan? c = some (.ok plan) → plan.Local d.file

/-!
## The plans of the grammars

The plans for JavaScript, TypeScript and Rust name the nodes in some fields, their
children, or all children with blocks opened. There is one theorem for each plan, since
each names nodes of its own, and one for each dialect.

Most plans make one tree in the place of the node. An expression body is returned in its
own place, and what an export declares takes the place of the export
(`Ecma.lies_markExported`).
-/

section

variable {field : String} {isBlock : String → Bool}

theorem allBelow_inField? (c : Cursor) (field : String) :
    AllBelow c.node (inField? c.below field).toList :=
  (allBelow_below c).inField? field

theorem mem_all_of_inField? {m : Inside c.height} (h : inField? c.below field = some m) :
    m.val.node ∈ c.node.all :=
  allBelow_inField? c field m (by simp [h])

/-- The children of a field. -/
theorem allBelow_belowOf (c : Cursor) (field : String) :
    AllBelow c.node (belowOf (inField? c.below field)) :=
  (allBelow_inField? c field).belowOf

theorem allBelow_meaningful (c : Cursor) : AllBelow c.node (meaningful c.below) :=
  (allBelow_below c).filter _

/-- The children, with blocks opened. -/
theorem allBelow_flattened (isBlock : String → Bool) (c : Cursor) :
    AllBelow c.node (opened isBlock c.below) :=
  (allBelow_below c).opened isBlock

/-- What some of the children of a field have below them, with blocks opened. -/
theorem allBelow_cases {cases : List (Inside c.height)} (h : AllBelow c.node cases) :
    AllBelow c.node (cases.flatMap fun m => opened isBlock m.below) :=
  h.flatMap fun _ hm => (allBelow_below_inside hm).opened isBlock

end

namespace Ecma

variable {typed : Bool}

theorem local_functionPlan (kind : String) : (functionPlan f typed c kind).Local f := by
  unfold functionPlan
  dsimp only
  cases hbody : child? c "body" with
  | none => exact Plan.local_leaf
  | some body =>
    have hbelow : body.val.node ∈ c.node.all := mem_all_of_inField? hbody
    dsimp only
    by_cases hblock : isBlock body.kind = true
    · rw [if_pos hblock]
      exact Plan.local_tree (allBelow_below_inside hbelow)
    · rw [if_neg hblock]
      exact Plan.local_expressionBody hbelow

theorem local_classPlan : (classPlan f c).Local f :=
  Plan.local_tree (allBelow_belowOf c "body")

theorem local_interfacePlan : (interfacePlan f c).Local f :=
  Plan.local_leaf

theorem local_enumPlan : (enumPlan f c).Local f :=
  Plan.local_leaf

/-- The values of nodes below, where they have one. -/
theorem allBelow_values {ms : List (Inside c.height)} (h : AllBelow c.node ms) :
    AllBelow c.node ((ms.map fun m => inField? m.below "value").filterMap id) := by
  intro m hm
  obtain ⟨value?, hvalue, hsome⟩ := List.mem_filterMap.1 hm
  obtain ⟨declarator, hdeclarator, rfl⟩ := List.mem_map.1 hvalue
  refine (allBelow_below_inside (h declarator hdeclarator)).inField? "value" m ?_
  simpa using hsome

/-- Of the declarators only the values are lowered, in whatever way they are declared. -/
theorem local_variablePlan {plan : Plan c.height} (h : variablePlan f c = .ok plan) :
    plan.Local f := by
  unfold variablePlan at h
  have hdeclarators : AllBelow c.node
      ((namedOnes c.below).filter fun m => m.kind == "variable_declarator") :=
    ((allBelow_below c).filter _).filter _
  have hvalues := allBelow_values hdeclarators
  dsimp only at h
  split at h
  · rw [Except.pure_eq, Except.ok_bind] at h
    split at h
    · cases h
      exact Plan.local_leaf
    · cases h
      exact Plan.local_tree hvalues
  · split at h
    · rw [Except.pure_eq, Except.ok_bind] at h
      split at h
      · cases h
        exact Plan.local_leaf
      · cases h
        exact Plan.local_tree hvalues
    · cases h

theorem local_fieldPlan : (fieldPlan f c).Local f :=
  Plan.local_tree (allBelow_inField? c "value")

theorem local_conditionalPlan : (conditionalPlan f c).Local f :=
  Plan.local_tree (allBelow_flattened isBlock c)

theorem local_loopPlan (kind : String) : (loopPlan f c kind).Local f :=
  Plan.local_tree (allBelow_flattened isBlock c)

theorem local_switchPlan : (switchPlan f c).Local f := by
  refine Plan.local_tree (allBelow_append.2 ⟨allBelow_inField? c "value", ?_⟩)
  exact allBelow_cases ((allBelow_belowOf c "body").filter _)

theorem local_tryPlan : (tryPlan f c).Local f := by
  refine Plan.local_tree (allBelow_append.2 ⟨allBelow_append.2 ⟨?_, ?_⟩, ?_⟩)
  · exact (allBelow_inField? c "body").opened isBlock
  · exact (allBelow_belowOf c "handler").opened isBlock
  · exact (allBelow_belowOf c "finalizer").opened isBlock

theorem local_returnPlan : (returnPlan f c).Local f :=
  Plan.local_tree (allBelow_meaningful c)

theorem local_statementPlan (kind : String) : (statementPlan f c kind).Local f :=
  Plan.local_tree (allBelow_meaningful c)

theorem local_blockPlan : (blockPlan f c).Local f :=
  Plan.local_tree (allBelow_below c)

theorem local_staticBlockPlan : (staticBlockPlan f c).Local f :=
  Plan.local_tree (allBelow_flattened isBlock c)

theorem local_importPlan : (importPlan f c).Local f :=
  Plan.local_leaf

/-- The first tree is widened to the export, which is where all of them are. -/
theorem lies_markExported (horders : f.Orders c.node) {trees : List Tree}
    (h : ∀ t ∈ trees, Lies (f.span c) t) : ∀ t ∈ markExported f c trees, Lies (f.span c) t := by
  cases trees with
  | nil => simp [markExported]
  | cons t rest =>
    have ht : Lies (f.span c) t := h t (by simp)
    have hexported : Lies (f.span c)
        ((t.withAttribute "exported" (.bool true)).withSpan (f.span c)) :=
      ⟨(ht.nested.withAttribute _ _).withSpan horders.span ht.within, Span.Within.refl _⟩
    exact List.forall_mem_cons.2 ⟨hexported, fun other hother => h other (by simp [hother])⟩

theorem local_exported {m : Inside c.height} (h : m.val.node ∈ c.node.all) :
    (⟨[m], markExported f c⟩ : Plan c.height).Local f := by
  have hnames : AllBelow c.node [m] := allBelow_cons.2 ⟨h, allBelow_nil⟩
  exact ⟨hnames, fun horders _ htrees =>
    lies_markExported horders (lies_of_below hnames horders htrees)⟩

theorem local_exportPlan : (exportPlan f c).Local f := by
  unfold exportPlan
  split
  next declaration _ _ hdeclaration =>
    exact local_exported (mem_all_of_inField? hdeclaration)
  next value _ hvalue =>
    have hbelow : value.val.node ∈ c.node.all := mem_all_of_inField? hvalue
    split
    · exact local_exported hbelow
    · exact Plan.local_tree (allBelow_cons.2 ⟨hbelow, allBelow_nil⟩)
  · exact Plan.local_leaf
  · exact Plan.local_leaf

theorem local_expressionPlan : (expressionPlan f c).Local f := by
  unfold expressionPlan
  have hmeaningful := allBelow_meaningful c
  cases hparts : meaningful c.below with
  | nil => exact Plan.local_splice allBelow_nil
  | cons first rest =>
    rw [hparts] at hmeaningful
    dsimp only
    split
    · exact Plan.local_tree (allBelow_below_inside (hmeaningful first (by simp)))
    · exact Plan.local_tree hmeaningful

theorem local_callPlan : (callPlan f c).Local f := by
  have harguments := allBelow_inField? c "arguments"
  have htarget : AllBelow c.node ((child? c "function").or (child? c "constructor")).toList := by
    cases hfunction : child? c "function" with
    | none => exact allBelow_inField? c "constructor"
    | some m => simpa using mem_all_of_inField? hfunction
  unfold callPlan
  dsimp only
  generalize (child? c "function").or (child? c "constructor") = target? at htarget ⊢
  cases target?
  all_goals
    dsimp only
    split
    · exact Plan.local_tree harguments
    · exact Plan.local_tree (allBelow_append.2 ⟨htarget, harguments⟩)

/-- Every plan for JavaScript and TypeScript keeps to its node. -/
theorem local_dialect (typed : Bool) (f : SourceFile) : (dialect typed f).Local := by
  intro c plan h
  change plan? f typed c = some (.ok plan) at h
  unfold plan? at h
  split at h
  · cases h
    exact local_functionPlan _
  · cases h
    exact local_loopPlan _
  · cases h
    exact local_statementPlan _
  · split at h
    · cases h
      exact local_classPlan
    split at h
    · cases h
      exact local_interfacePlan
    · cases h
      exact local_enumPlan
    · exact local_variablePlan (Option.some.inj h)
    · exact local_variablePlan (Option.some.inj h)
    · cases h
      exact local_fieldPlan
    · cases h
      exact local_fieldPlan
    · cases h
      exact local_conditionalPlan
    · cases h
      exact Plan.local_splice (allBelow_flattened isBlock c)
    · cases h
      exact local_switchPlan
    · cases h
      exact local_tryPlan
    · cases h
      exact local_returnPlan
    · cases h
      exact local_importPlan
    · cases h
      exact local_exportPlan
    · cases h
      exact local_expressionPlan
    · cases h
      exact local_callPlan
    · cases h
      exact local_callPlan
    · cases h
      exact local_blockPlan
    · cases h
      exact local_staticBlockPlan
    · cases h

end Ecma

namespace Rust

theorem local_functionPlan : (functionPlan f c).Local f := by
  unfold functionPlan
  dsimp only
  cases hbody : child? c "body" with
  | none => exact Plan.local_leaf
  | some body => exact Plan.local_tree (allBelow_below_inside (mem_all_of_inField? hbody))

theorem local_closurePlan : (closurePlan f c).Local f := by
  unfold closurePlan
  dsimp only
  cases hbody : child? c "body" with
  | none => exact Plan.local_leaf
  | some body =>
    have hbelow : body.val.node ∈ c.node.all := mem_all_of_inField? hbody
    dsimp only
    by_cases hblock : isBlock body.kind = true
    · rw [if_pos hblock]
      exact Plan.local_tree (allBelow_below_inside hbelow)
    · rw [if_neg hblock]
      exact Plan.local_expressionBody hbelow

/-- Only of a trait the members are lowered. -/
theorem local_classPlan (kind : String) : (classPlan f c kind).Local f := by
  refine Plan.local_tree ?_
  split
  · exact allBelow_belowOf c "body"
  · exact allBelow_nil

theorem local_implPlan : (implPlan f c).Local f :=
  Plan.local_tree (allBelow_belowOf c "body")

theorem local_modulePlan : (modulePlan f c).Local f := by
  unfold modulePlan
  dsimp only
  cases hbody : child? c "body" with
  | none => exact Plan.local_leaf
  | some body => exact Plan.local_tree (allBelow_below_inside (mem_all_of_inField? hbody))

theorem local_usePlan : (usePlan f c).Local f :=
  Plan.local_leaf

theorem local_letPlan : (letPlan f c).Local f := by
  refine Plan.local_tree (allBelow_append.2 ⟨allBelow_inField? c "value", ?_⟩)
  exact (allBelow_inField? c "alternative").opened isBlock

theorem local_itemPlan : (itemPlan f c).Local f :=
  Plan.local_tree (allBelow_inField? c "value")

theorem local_conditionalPlan : (conditionalPlan f c).Local f :=
  Plan.local_tree (allBelow_flattened isBlock c)

theorem local_matchPlan : (matchPlan f c).Local f := by
  refine Plan.local_tree (allBelow_append.2 ⟨allBelow_inField? c "value", ?_⟩)
  exact allBelow_cases (((allBelow_belowOf c "body").filter _).filter _)

theorem local_loopPlan (kind : String) : (loopPlan f c kind).Local f :=
  Plan.local_tree (allBelow_flattened isBlock c)

theorem local_returnPlan : (returnPlan f c).Local f :=
  Plan.local_tree (allBelow_meaningful c)

/-- Of the definition of a macro nothing is lowered. -/
theorem local_statementPlan (kind : String) : (statementPlan f c kind).Local f := by
  refine Plan.local_tree ?_
  split
  · exact allBelow_nil
  · exact allBelow_meaningful c

theorem local_blockPlan : (blockPlan f c).Local f :=
  Plan.local_tree (allBelow_below c)

theorem local_markedBlockPlan (kind : String) : (markedBlockPlan f c kind).Local f :=
  Plan.local_tree (allBelow_flattened isBlock c)

/-- Of several expressions only the first is looked at. -/
theorem local_expressionPlan : (expressionPlan f c).Local f := by
  unfold expressionPlan
  have hmeaningful := allBelow_meaningful c
  cases hparts : meaningful c.below with
  | nil => exact Plan.local_splice allBelow_nil
  | cons first rest =>
    rw [hparts] at hmeaningful
    have hfirst : first.val.node ∈ c.node.all := hmeaningful first (by simp)
    have halone : AllBelow c.node [first] := allBelow_cons.2 ⟨hfirst, allBelow_nil⟩
    dsimp only
    split
    · exact Plan.local_splice halone
    · split
      · exact Plan.local_tree (allBelow_below_inside hfirst)
      · exact Plan.local_tree halone

theorem local_callPlan : (callPlan f c).Local f :=
  Plan.local_tree
    (allBelow_append.2 ⟨allBelow_inField? c "function", allBelow_inField? c "arguments"⟩)

theorem local_macroPlan : (macroPlan f c).Local f :=
  Plan.local_leaf

/-- Every plan for Rust keeps to its node. -/
theorem local_dialect (f : SourceFile) : (dialect f).Local := by
  intro c plan h
  obtain ⟨plan, hplan, hsame⟩ := Option.map_eq_some_iff.1 h
  cases hsame
  show plan.Local f
  unfold plan? at hplan
  split at hplan
  · cases hplan
    exact local_classPlan _
  · cases hplan
    exact local_loopPlan _
  · cases hplan
    exact local_statementPlan _
  split at hplan
  · cases hplan
    exact local_blockPlan
  · cases hplan
    exact local_markedBlockPlan _
  · cases hplan
    exact local_markedBlockPlan _
  · cases hplan
    exact local_functionPlan
  · cases hplan
    exact local_functionPlan
  · cases hplan
    exact local_closurePlan
  · cases hplan
    exact local_implPlan
  · cases hplan
    exact local_modulePlan
  · cases hplan
    exact local_usePlan
  · cases hplan
    exact local_letPlan
  · cases hplan
    exact local_itemPlan
  · cases hplan
    exact local_itemPlan
  · cases hplan
    exact local_conditionalPlan
  · cases hplan
    exact local_conditionalPlan
  · cases hplan
    exact Plan.local_splice (allBelow_flattened isBlock c)
  · cases hplan
    exact local_matchPlan
  · cases hplan
    exact local_callPlan
  · cases hplan
    exact local_macroPlan
  · cases hplan
    exact local_returnPlan
  · cases hplan
    exact local_expressionPlan
  · cases hplan

end Rust

end CodeHabits.Concrete
