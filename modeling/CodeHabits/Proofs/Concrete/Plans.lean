import CodeHabits.Concrete.Ecma
import CodeHabits.Concrete.Rust
import CodeHabits.Proofs.Budget
import CodeHabits.Proofs.Tree.Plain

/-!
# `CodeHabits.Proofs.Concrete.Plans`: lowering gives plain trees

The trees that a plan makes note what the plan says, so a dialect whose plans note what
fits only gives plain trees (`ends_lower`, `ends_build`). What a plan notes is a matter of
the plan alone: `Plan.Plain` says that it makes plain trees of plain ones.
-/

set_option autoImplicit false

namespace CodeHabits.Concrete

/-- Of plain trees the plan makes plain ones. -/
def Plan.Plain {bound : Nat} (plan : Plan bound) : Prop :=
  ∀ trees, (∀ t ∈ trees, t.Plain) → ∀ t ∈ plan.wrap trees, t.Plain

namespace Plan

variable {bound : Nat} {inner : List (Inside bound)}

theorem plain_single {make : List Tree → Tree}
    (h : ∀ trees, (∀ t ∈ trees, t.Plain) → (make trees).Plain) : (single inner make).Plain := by
  intro trees htrees t ht
  rw [List.mem_singleton.1 ht]
  exact h trees htrees

theorem plain_leaf {t : Tree} (h : t.Plain) : (leaf t : Plan bound).Plain := by
  intro trees _ other hother
  rw [List.mem_singleton.1 hother]
  exact h

theorem plain_splice : (splice inner).Plain :=
  fun _ htrees => htrees

end Plan

section

variable {f : SourceFile} {tag : Tag} {c : Cursor} {attributes : Attributes} {bound : Nat}

theorem SourceFile.plain_tree (hattributes : attributes.Plain) {children : List Tree}
    (hchildren : ∀ t ∈ children, t.Plain) : (f.tree tag c attributes children).Plain :=
  .node hattributes hchildren

/-- One tree with what the plan notes is plain as soon as that fits. -/
theorem Plan.plain_tree {inner : List (Inside bound)} (hattributes : attributes.Plain) :
    (single inner (f.tree tag c attributes)).Plain :=
  plain_single fun _ htrees => SourceFile.plain_tree hattributes htrees

theorem Plan.plain_leaf_tree (hattributes : attributes.Plain) :
    (leaf (f.tree tag c attributes []) : Plan bound).Plain :=
  plain_leaf (SourceFile.plain_tree hattributes (by simp))

/-! ### Names and braces -/

@[simp] theorem SourceFile.isName_braceAt (c : Cursor) : (f.braceAt c).IsName := by
  unfold braceAt
  cases c.before with
  | none => simp
  | some stop =>
    dsimp only
    split <;> simp

@[simp] theorem SourceFile.isName_braceStyle (block? : Option (Inside bound)) :
    (f.braceStyle block?).IsName := by
  cases block? with
  | none => exact Value.isName_null
  | some m => exact isName_braceAt m.val

@[simp] theorem SourceFile.isName_nameOf (m? : Option (Inside bound)) : (f.nameOf m?).IsName := by
  unfold nameOf
  dsimp only
  split <;> simp

end

/-- There is a plan that makes plain trees, or a fault of reading. -/
def Plan.Sound {bound : Nat} (planned : Except Fault (Plan bound)) : Prop :=
  (∃ plan, planned = .ok plan ∧ plan.Plain) ∨ ∃ fault, planned = .error fault ∧ fault.OfReading

theorem Plan.Plain.sound {bound : Nat} {plan : Plan bound} (h : plan.Plain) :
    Sound (.ok plan) :=
  .inl ⟨plan, rfl, h⟩

/-- Whatever the dialect plans for a node is sound. -/
def Dialect.Plain (d : Dialect) : Prop :=
  ∀ c, ∀ planned ∈ d.plan? c, Plan.Sound planned

variable {d : Dialect}

/-- An error node notes its message. -/
theorem Dialect.ends_reportAt (d : Dialect) (c : Cursor) (message : String) :
    Reporting.Ends Tree.Plain (d.reportAt c message) := by
  have hplain : (d.file.tree .error c [("message", .text message)] []).Plain :=
    SourceFile.plain_tree (by simp [Attributes.Fits]) (by simp)
  exact fun reports => Timed.ends_pure hplain

/-- A dialect with plain plans gives plain trees, whatever stands on the stack. The cases
are those of lowering the first node. -/
theorem ends_lower (h : d.Plain) (stack : List Cursor) :
    Reporting.Ends (fun trees => ∀ t ∈ trees, t.Plain) (lower d stack) := by
  have hcons : ∀ {t : Tree} {trees : List Tree}, t.Plain → (∀ t ∈ trees, t.Plain) →
      ∀ other ∈ t :: trees, other.Plain :=
    fun ht htrees => List.forall_mem_cons.2 ⟨ht, htrees⟩
  induction stack using lower.induct with
  | case1 =>
    rw [lower]
    exact Reporting.ends_pure (by simp)
  | case2 c rest htoken ih =>
    rw [lower, if_pos htoken]
    exact ih
  | case3 c rest htoken ihrest ihbelow ihplan =>
    rw [lower, if_neg htoken]
    refine Reporting.ends_bind Reporting.ends_check fun _ _ => ?_
    by_cases hmissing : c.node.missing = true
    · rw [if_pos hmissing]
      refine Reporting.ends_bind (d.ends_reportAt c _) fun found hfound => ?_
      refine Reporting.ends_bind ihrest fun trees htrees => ?_
      exact Reporting.ends_pure (hcons hfound htrees)
    rw [if_neg hmissing]
    by_cases herror : c.node.isError = true
    · rw [if_pos herror]
      refine Reporting.ends_bind (d.ends_reportAt c _) fun found hfound => ?_
      refine Reporting.ends_bind ihbelow fun trees htrees => ?_
      exact Reporting.ends_pure (hcons hfound htrees)
    rw [if_neg herror]
    cases hplan : d.plan? c with
    | none => exact ihbelow
    | some outcome =>
      rcases h c outcome hplan with ⟨plan, rfl, hplain⟩ | ⟨fault, rfl, hfault⟩
      · refine Reporting.ends_bind (ihplan plan) fun inner hinner => ?_
        refine Reporting.ends_bind ihrest fun trees htrees => Reporting.ends_pure ?_
        intro t ht
        rcases List.mem_append.1 ht with hmade | hother
        · exact hplain inner hinner t hmade
        · exact htrees t hother
      · exact Reporting.ends_throw hfault

/-- The tree of a whole concrete tree is plain: its root notes nothing. -/
theorem ends_build (h : d.Plain) (text language : String) (root : Node) :
    Timed.Ends (fun parsed => parsed.tree.Plain) (build d text language root) := by
  unfold build
  refine Timed.ends_bind Timed.ends_check fun _ _ => ?_
  refine Timed.ends_bind (ends_lower h _ _) fun result hresult => ?_
  exact Timed.ends_pure (.node (by simp) hresult)

end CodeHabits.Concrete

/-!
## The plans of the grammars are plain

The plans for JavaScript, TypeScript and Rust only note what fits: a name is the text of a
node or null, a brace stands on the line before or below, and branches are counted. There
is one theorem for each plan, since each notes facts of its own, and one for each dialect.

One plan may be missing although the node has one: a declaration of variables in
JavaScript that has no parts (`Ecma.plain_dialect`).
-/

namespace CodeHabits.Concrete

open Attributes (Fits)

@[simp] theorem isWhole_ofNat (n : Nat) : ∃ k, Value.ofNat n = .int k :=
  ⟨n, rfl⟩

namespace Ecma

variable {f : SourceFile} {typed : Bool} {c : Cursor}

@[simp] theorem isName_unquoted {bound : Nat} (m? : Option (Inside bound)) :
    (unquoted f m?).IsName := by
  cases m? with
  | none => exact Value.isName_null
  | some m => exact Value.isName_text _

@[simp] theorem plain_noted {name : String} {holds : Bool} :
    (noted name holds).Plain ↔ (holds = true → Fits name (.bool true)) := by
  simp [noted]

theorem plain_functionPlan (kind : String) : (functionPlan f typed c kind).Plain := by
  unfold functionPlan
  -- The name is null or the text of a node.
  rcases child? c "name" with _ | name
  all_goals
    rcases child? c "body" with _ | body
    · exact Plan.plain_leaf_tree (by simp [Fits])
    · dsimp only
      by_cases hblock : isBlock body.kind = true
      · rw [if_pos hblock]
        exact Plan.plain_tree (by simp [Fits])
      · rw [if_neg hblock]
        refine Plan.plain_single fun trees htrees => ?_
        refine SourceFile.plain_tree (by simp [Fits]) ?_
        have hreturn : (f.tree .returning body.val [("has_value", .bool true)] trees).Plain :=
          SourceFile.plain_tree (by simp [Fits]) htrees
        simpa using hreturn

theorem plain_classPlan : (classPlan f c).Plain :=
  Plan.plain_tree (by simp [Fits])

theorem plain_interfacePlan : (interfacePlan f c).Plain :=
  Plan.plain_leaf_tree (by simp [Fits])

theorem plain_enumPlan : (enumPlan f c).Plain :=
  Plan.plain_leaf_tree (by simp [Fits])

theorem plain_fieldPlan : (fieldPlan f c).Plain :=
  Plan.plain_tree (by simp [Fits])

theorem plain_ownedBrace (block? : Option (Inside c.height)) : (ownedBrace f c block?).Plain := by
  cases block? with
  | none => simp [ownedBrace]
  | some m =>
    unfold ownedBrace
    dsimp only
    split <;> simp [Fits]

theorem plain_conditionalPlan : (conditionalPlan f c).Plain :=
  Plan.plain_tree (by simp [Fits, plain_ownedBrace])

theorem plain_loopPlan (kind : String) : (loopPlan f c kind).Plain :=
  Plan.plain_tree (by simp [Fits, plain_ownedBrace])

theorem plain_switchPlan : (switchPlan f c).Plain :=
  Plan.plain_tree (by simp [Fits])

theorem plain_tryPlan : (tryPlan f c).Plain :=
  Plan.plain_tree (by simp [Fits])

theorem plain_returnPlan : (returnPlan f c).Plain :=
  Plan.plain_tree (by simp [Fits])

theorem plain_statementPlan (kind : String) : (statementPlan f c kind).Plain :=
  Plan.plain_tree (by simp [Fits])

theorem plain_blockPlan : (blockPlan f c).Plain :=
  Plan.plain_tree (by simp [Fits])

theorem plain_staticBlockPlan : (staticBlockPlan f c).Plain :=
  Plan.plain_tree (by simp [Fits])

theorem plain_importPlan : (importPlan f c).Plain := by
  unfold importPlan
  split
  all_goals exact Plan.plain_leaf_tree (by simp [Fits])

theorem plain_markExported {trees : List Tree} (h : ∀ t ∈ trees, t.Plain) :
    ∀ t ∈ markExported f c trees, t.Plain := by
  cases trees with
  | nil => simp [markExported]
  | cons t rest =>
    have hexported : (t.withAttribute "exported" (.bool true)).Plain :=
      (h t (by simp)).withAttribute (by simp [Fits])
    exact List.forall_mem_cons.2
      ⟨hexported.withSpan _, fun other hother => h other (by simp [hother])⟩

theorem plain_exportPlan : (exportPlan f c).Plain := by
  unfold exportPlan
  split
  · exact fun _ htrees => plain_markExported htrees
  · split
    · exact fun _ htrees => plain_markExported htrees
    · exact Plan.plain_tree (by simp [Fits])
  · exact Plan.plain_leaf_tree (by simp [Fits])
  · exact Plan.plain_leaf_tree (by simp [Fits])

theorem plain_expressionPlan : (expressionPlan f c).Plain := by
  unfold expressionPlan
  split
  · exact Plan.plain_splice
  · split
    · exact Plan.plain_tree (by simp [Fits])
    · exact Plan.plain_tree (by simp)

theorem plain_callPlan : (callPlan f c).Plain := by
  unfold callPlan
  rcases (child? c "function").or (child? c "constructor") with _ | target
  all_goals
    dsimp only
    split
    · exact Plan.plain_tree (by simp [Fits])
    · exact Plan.plain_tree (by simp [Fits])

/-- A declaration has a plan unless it has no parts to tell how it declares. -/
theorem sound_variablePlan : Plan.Sound (variablePlan f c) := by
  unfold variablePlan
  dsimp only
  generalize (namedOnes c.below).filter (fun m => m.kind == "variable_declarator") = declarators
  -- The name is that of the first declarator, if it is an identifier.
  rcases declarators with _ | ⟨first, rest⟩
  on_goal 2 =>
    dsimp only
    rcases inField? first.below "name" with _ | name
  all_goals
    dsimp only
    split
    · rw [Except.pure_eq, Except.ok_bind]
      split
      · exact (Plan.plain_leaf_tree (by simp [Fits])).sound
      · exact (Plan.plain_tree (by simp [Fits])).sound
    · split
      · rw [Except.pure_eq, Except.ok_bind]
        split
        · exact (Plan.plain_leaf_tree (by simp [Fits])).sound
        · exact (Plan.plain_tree (by simp [Fits])).sound
      · exact .inr ⟨.outOfRange, rfl, .inr (.inr rfl)⟩

/-- Only a declaration without parts has no plan. -/
theorem plain_dialect (typed : Bool) (f : SourceFile) : (dialect typed f).Plain := by
  intro c
  show ∀ planned ∈ plan? f typed c, Plan.Sound planned
  have hplanned : ∀ {planned : Except Fault (Plan c.height)}, Plan.Sound planned →
      ∀ other ∈ some planned, Plan.Sound other := by
    rintro planned h _ ⟨⟩
    exact h
  unfold plan?
  split
  · exact hplanned (plain_functionPlan _).sound
  · exact hplanned (plain_loopPlan _).sound
  · exact hplanned (plain_statementPlan _).sound
  · split
    · exact hplanned plain_classPlan.sound
    split
    · exact hplanned plain_interfacePlan.sound
    · exact hplanned plain_enumPlan.sound
    · exact hplanned sound_variablePlan
    · exact hplanned sound_variablePlan
    · exact hplanned plain_fieldPlan.sound
    · exact hplanned plain_fieldPlan.sound
    · exact hplanned plain_conditionalPlan.sound
    · exact hplanned Plan.plain_splice.sound
    · exact hplanned plain_switchPlan.sound
    · exact hplanned plain_tryPlan.sound
    · exact hplanned plain_returnPlan.sound
    · exact hplanned plain_importPlan.sound
    · exact hplanned plain_exportPlan.sound
    · exact hplanned plain_expressionPlan.sound
    · exact hplanned plain_callPlan.sound
    · exact hplanned plain_callPlan.sound
    · exact hplanned plain_blockPlan.sound
    · exact hplanned plain_staticBlockPlan.sound
    · simp

end Ecma

namespace Rust

variable {f : SourceFile} {c : Cursor}

@[simp] theorem isName_orNull (name : String) : (orNull name).IsName := by
  simp [orNull]

@[simp] theorem isName_typeNameOf (m? : Option (Inside c.height)) : (typeNameOf f c m?).IsName :=
  isName_orNull _

theorem plain_functionPlan : (functionPlan f c).Plain := by
  unfold functionPlan
  cases child? c "body" with
  | none => exact Plan.plain_leaf_tree (by simp [Fits])
  | some m => exact Plan.plain_tree (by simp [Fits])

theorem plain_closurePlan : (closurePlan f c).Plain := by
  unfold closurePlan
  cases child? c "body" with
  | none => exact Plan.plain_leaf_tree (by simp [Fits])
  | some body =>
    dsimp only
    by_cases hblock : isBlock body.kind = true
    · rw [if_pos hblock]
      exact Plan.plain_tree (by simp [Fits])
    · rw [if_neg hblock]
      refine Plan.plain_single fun trees htrees => ?_
      refine SourceFile.plain_tree (by simp [Fits]) ?_
      have hreturn : (f.tree .returning body.val [("has_value", .bool true)] trees).Plain :=
        SourceFile.plain_tree (by simp [Fits]) htrees
      simpa using hreturn

theorem plain_classPlan (kind : String) : (classPlan f c kind).Plain :=
  Plan.plain_tree (by simp [Fits])

theorem plain_implPlan : (implPlan f c).Plain :=
  Plan.plain_tree (by simp [Fits])

theorem plain_modulePlan : (modulePlan f c).Plain := by
  unfold modulePlan
  cases child? c "body" with
  | none => exact Plan.plain_leaf_tree (by simp [Fits])
  | some m => exact Plan.plain_tree (by simp [Fits])

theorem plain_usePlan : (usePlan f c).Plain :=
  Plan.plain_leaf_tree (by simp [Fits])

theorem plain_letPlan : (letPlan f c).Plain := by
  unfold letPlan
  cases child? c "pattern" with
  | none => exact Plan.plain_tree (by simp [Fits])
  | some m => exact Plan.plain_tree (by simp [Fits])

theorem plain_itemPlan : (itemPlan f c).Plain :=
  Plan.plain_tree (by simp [Fits])

theorem plain_conditionalPlan : (conditionalPlan f c).Plain :=
  Plan.plain_tree (by simp [Fits])

theorem plain_matchPlan : (matchPlan f c).Plain :=
  Plan.plain_tree (by simp [Fits])

theorem plain_loopPlan (kind : String) : (loopPlan f c kind).Plain :=
  Plan.plain_tree (by simp [Fits])

theorem plain_returnPlan : (returnPlan f c).Plain :=
  Plan.plain_tree (by simp [Fits])

theorem plain_statementPlan (kind : String) : (statementPlan f c kind).Plain :=
  Plan.plain_tree (by simp [Fits])

theorem plain_blockPlan : (blockPlan f c).Plain :=
  Plan.plain_tree (by simp [Fits])

theorem plain_markedBlockPlan (kind : String) : (markedBlockPlan f c kind).Plain :=
  Plan.plain_tree (by simp [Fits])

theorem plain_expressionPlan : (expressionPlan f c).Plain := by
  unfold expressionPlan
  split
  · exact Plan.plain_splice
  · split
    · exact Plan.plain_splice
    · split
      · exact Plan.plain_tree (by simp [Fits])
      · exact Plan.plain_tree (by simp)

theorem plain_callPlan : (callPlan f c).Plain :=
  Plan.plain_tree (by simp [Fits])

theorem plain_macroPlan : (macroPlan f c).Plain :=
  Plan.plain_leaf_tree (by simp [Fits])

/-- Every node of a kind that is known has a plan. -/
theorem plain_dialect (f : SourceFile) : (dialect f).Plain := by
  intro c
  have hplan : ∀ plan ∈ plan? f c, plan.Plain := by
    have hsome : ∀ {plan : Plan c.height}, plan.Plain → ∀ other ∈ some plan, other.Plain := by
      rintro plan h _ ⟨⟩
      exact h
    unfold plan?
    split
    · exact hsome (plain_classPlan _)
    · exact hsome (plain_loopPlan _)
    · exact hsome (plain_statementPlan _)
    split
    · exact hsome plain_blockPlan
    · exact hsome (plain_markedBlockPlan _)
    · exact hsome (plain_markedBlockPlan _)
    · exact hsome plain_functionPlan
    · exact hsome plain_functionPlan
    · exact hsome plain_closurePlan
    · exact hsome plain_implPlan
    · exact hsome plain_modulePlan
    · exact hsome plain_usePlan
    · exact hsome plain_letPlan
    · exact hsome plain_itemPlan
    · exact hsome plain_itemPlan
    · exact hsome plain_conditionalPlan
    · exact hsome plain_conditionalPlan
    · exact hsome Plan.plain_splice
    · exact hsome plain_matchPlan
    · exact hsome plain_callPlan
    · exact hsome plain_macroPlan
    · exact hsome plain_returnPlan
    · exact hsome plain_expressionPlan
    · simp
  show ∀ planned ∈ (plan? f c).map .ok, Plan.Sound planned
  intro planned hplanned
  obtain ⟨plan, hmem, rfl⟩ := Option.map_eq_some_iff.1 hplanned
  exact (hplan plan hmem).sound

end Rust

end CodeHabits.Concrete
