import CodeHabits.Tree
import Mathlib.Data.Prod.Lex

/-!
# `CodeHabits.Proofs.Tree.Nested`: spans inside spans

Places in a file are ordered by line and then by column. A tree is `Nested` if no node
ends before it begins and every node lies within the span of the node above it. That is
said of a tree by recursion here, and `Nested.walk` says it of all nodes that a walk
meets, as `forall_mem_walkFrom` does of anything that passes to the children of a tree.
-/

set_option autoImplicit false

namespace CodeHabits

namespace Span

/-- Where a span begins, as a line and a column. -/
def first (s : Span) : Int ×ₗ Int :=
  toLex (s.startLine, s.startColumn)

/-- Where a span ends. -/
def last (s : Span) : Int ×ₗ Int :=
  toLex (s.endLine, s.endColumn)

/-- The inner span neither begins before the outer one nor ends after it. -/
structure Within (inner outer : Span) : Prop where
  first : outer.first ≤ inner.first
  last : inner.last ≤ outer.last

instance (inner outer : Span) : Decidable (inner.Within outer) :=
  decidable_of_iff (outer.first ≤ inner.first ∧ inner.last ≤ outer.last)
    ⟨fun h => ⟨h.1, h.2⟩, fun h => ⟨h.first, h.last⟩⟩

theorem Within.refl (s : Span) : s.Within s :=
  ⟨le_refl _, le_refl _⟩

theorem Within.trans {inner middle outer : Span} (h : inner.Within middle)
    (houter : middle.Within outer) : inner.Within outer :=
  ⟨le_trans houter.first h.first, le_trans h.last houter.last⟩

end Span

namespace Tree

/-- No node ends before it begins, and every node lies within the one above it. -/
inductive Nested : Tree → Prop
  | node {tag : Tag} {span : Span} {attributes : Attributes} {children : List Tree}
      (hspan : span.first ≤ span.last) (hwithin : ∀ t ∈ children, t.span.Within span)
      (hchildren : ∀ t ∈ children, t.Nested) : Nested (.node tag span attributes children)

theorem Nested.span {t : Tree} (h : t.Nested) : t.span.first ≤ t.span.last := by
  cases h with
  | node hspan _ _ => exact hspan

theorem Nested.within {t : Tree} (h : t.Nested) : ∀ child ∈ t.children, child.span.Within t.span := by
  cases h with
  | node _ hwithin _ => exact hwithin

theorem Nested.children {t : Tree} (h : t.Nested) : ∀ child ∈ t.children, child.Nested := by
  cases h with
  | node _ _ hchildren => exact hchildren

/-- What is noted of a node does not matter. -/
theorem Nested.withAttribute {t : Tree} (h : t.Nested) (name : String) (value : Value) :
    (t.withAttribute name value).Nested :=
  .node h.span h.within h.children

/-- A span may be widened. -/
theorem Nested.withSpan {t : Tree} (h : t.Nested) {s : Span} (hs : s.first ≤ s.last)
    (hwithin : t.span.Within s) : (t.withSpan s).Nested :=
  .node hs (fun child hchild => (h.within child hchild).trans hwithin) h.children

/-- What passes from a tree to its children holds of all nodes that a walk meets. -/
theorem forall_mem_walkFrom {P : Tree → Prop} (hP : ∀ t, P t → ∀ child ∈ t.children, P child)
    {stack : List Tree} (h : ∀ t ∈ stack, P t) : ∀ t ∈ walkFrom stack, P t := by
  induction stack using walkFrom.induct with
  | case1 => simp [walkFrom]
  | case2 t rest ih =>
    have ht : P t := h t (by simp)
    intro node hnode
    rw [walkFrom, List.mem_cons] at hnode
    rcases hnode with rfl | hbelow
    · exact ht
    · refine ih ?_ node hbelow
      intro other hother
      rcases List.mem_append.1 hother with hchild | hrest
      · exact hP t ht other hchild
      · exact h other (by simp [hrest])

/-- Every node of nested trees is nested. -/
theorem nested_of_mem_walkFrom {stack : List Tree} (h : ∀ t ∈ stack, t.Nested) :
    ∀ t ∈ walkFrom stack, t.Nested :=
  forall_mem_walkFrom (fun _ ht => ht.children) h

theorem Nested.walk {t : Tree} (h : t.Nested) :
    ∀ node ∈ t.walk, node.span.first ≤ node.span.last ∧
      ∀ child ∈ node.children, child.span.Within node.span := by
  intro node hnode
  have hnested : node.Nested := nested_of_mem_walkFrom (by simpa using h) node hnode
  exact ⟨hnested.span, hnested.within⟩

end Tree

end CodeHabits
