import CodeHabits.Concrete.Plan
import CodeHabits.Proofs.Tree.Heights
import Mathlib.Data.List.Forall2

/-!
# `CodeHabits.Proofs.Concrete.Alike`: concrete trees that differ in their texts only

Two concrete trees may have the same kinds, marks and fields, node by node, and stand for
different source texts. `Node.Alike P` relates such trees. Their offsets are arbitrary, and
of their texts only that is known which `P` says of two nodes in the same place.

What the plans of the grammars are made of respects the relation. Searching, filtering and
opening blocks go by kinds, marks and fields, so they give nodes in the same places. Each of
these has its lemma here, and a plan is treated by putting them together (`Plan.Alike`). What
it makes of the trees inside is compared without places, names and the like (`Tree.bare`).
-/

set_option autoImplicit false

namespace CodeHabits

/-! ### Lists of pairs -/

section

variable {α β : Type} {R : α → β → Prop} {xs : List α} {ys : List β}

theorem forall₂_find? {p : α → Bool} {q : β → Bool} (hsame : ∀ {a b}, R a b → p a = q b)
    (h : List.Forall₂ R xs ys) : Option.Rel R (xs.find? p) (ys.find? q) := by
  induction h with
  | nil => exact .none
  | @cons a b _ _ hab _ ih =>
    rw [List.find?_cons, List.find?_cons, hsame hab]
    cases q b with
    | true => exact .some hab
    | false => exact ih

/-- Of the pairs that are kept the condition holds as well. -/
theorem forall₂_filter_and {p : α → Bool} {q : β → Bool} (hsame : ∀ {a b}, R a b → p a = q b)
    (h : List.Forall₂ R xs ys) :
    List.Forall₂ (fun a b => R a b ∧ p a = true) (xs.filter p) (ys.filter q) := by
  induction h with
  | nil => exact .nil
  | @cons a b _ _ hab _ ih =>
    rw [List.filter_cons, List.filter_cons, ← hsame hab]
    split
    · rename_i hkept
      exact .cons ⟨hab, hkept⟩ ih
    · exact ih

theorem forall₂_filter {p : α → Bool} {q : β → Bool} (hsame : ∀ {a b}, R a b → p a = q b)
    (h : List.Forall₂ R xs ys) : List.Forall₂ R (xs.filter p) (ys.filter q) := by
  have hboth : List.Forall₂ (fun a b => R a b ∧ p a = true) (xs.filter p) (ys.filter q) :=
    forall₂_filter_and hsame h
  exact hboth.imp fun _ _ hab => hab.1

theorem forall₂_any {p : α → Bool} {q : β → Bool} (hsame : ∀ {a b}, R a b → p a = q b)
    (h : List.Forall₂ R xs ys) : xs.any p = ys.any q := by
  induction h with
  | nil => rfl
  | cons hab _ ih => rw [List.any_cons, List.any_cons, hsame hab, ih]

theorem forall₂_countP {p : α → Bool} {q : β → Bool} (hsame : ∀ {a b}, R a b → p a = q b)
    (h : List.Forall₂ R xs ys) : xs.countP p = ys.countP q := by
  have hkept : List.Forall₂ R (xs.filter p) (ys.filter q) := forall₂_filter hsame h
  rw [List.countP_eq_length_filter, List.countP_eq_length_filter, hkept.length_eq]

theorem forall₂_flatMap {γ δ : Type} {S : γ → δ → Prop} {f : α → List γ} {g : β → List δ}
    (hsame : ∀ {a b}, R a b → List.Forall₂ S (f a) (g b)) (h : List.Forall₂ R xs ys) :
    List.Forall₂ S (xs.flatMap f) (ys.flatMap g) :=
  List.rel_flatMap h fun _ _ => hsame

theorem forall₂_head? (h : List.Forall₂ R xs ys) : Option.Rel R xs.head? ys.head? := by
  cases h with
  | nil => exact .none
  | cons hab _ => exact .some hab

theorem forall₂_reverse (h : List.Forall₂ R xs ys) : List.Forall₂ R xs.reverse ys.reverse :=
  List.forall₂_reverse_iff.2 h

theorem forall₂_tail (h : List.Forall₂ R xs ys) : List.Forall₂ R xs.tail ys.tail := by
  cases h with
  | nil => exact .nil
  | cons _ hrest => exact hrest

theorem forall₂_dropLast (h : List.Forall₂ R xs ys) :
    List.Forall₂ R xs.dropLast ys.dropLast := by
  have hreversed := forall₂_reverse (forall₂_tail (forall₂_reverse h))
  rwa [List.tail_reverse, List.reverse_reverse, List.tail_reverse, List.reverse_reverse]
    at hreversed

theorem forall₂_getLast? (h : List.Forall₂ R xs ys) : Option.Rel R xs.getLast? ys.getLast? := by
  rw [← List.head?_reverse, ← List.head?_reverse]
  exact forall₂_head? (forall₂_reverse h)

variable {a? : Option α} {b? : Option β}

theorem rel_toList (h : Option.Rel R a? b?) : List.Forall₂ R a?.toList b?.toList := by
  cases h with
  | none => exact .nil
  | some hab => exact .cons hab .nil

theorem rel_isSome (h : Option.Rel R a? b?) : a?.isSome = b?.isSome := by
  cases h <;> rfl

theorem rel_eq_none_iff (h : Option.Rel R a? b?) : a? = none ↔ b? = none := by
  cases h <;> simp

theorem rel_or (h : Option.Rel R a? b?) {c? : Option α} {d? : Option β}
    (hother : Option.Rel R c? d?) : Option.Rel R (a?.or c?) (b?.or d?) := by
  cases h with
  | none => exact hother
  | some hab => exact .some hab

end

namespace Concrete

/-! ### Nodes -/

/-- Nodes that are the same but for their offsets, and of whose texts `P` holds, with nodes
below them that are alike in turn. -/
inductive Node.Alike (P : Node → Node → Prop) : Node → Node → Prop
  | mk {n m : Node} (agree : P n m) (kind : n.kind = m.kind) (named : n.named = m.named)
      (missing : n.missing = m.missing) (faulty : n.faulty = m.faulty) (field : n.field = m.field)
      (children : List.Forall₂ (Node.Alike P) n.children m.children) : Node.Alike P n m

namespace Node.Alike

variable {P : Node → Node → Prop} {n m : Node}

theorem agree (h : Alike P n m) : P n m := by
  cases h
  assumption

theorem kind (h : Alike P n m) : n.kind = m.kind := by
  cases h
  assumption

theorem named (h : Alike P n m) : n.named = m.named := by
  cases h
  assumption

theorem missing (h : Alike P n m) : n.missing = m.missing := by
  cases h
  assumption

theorem faulty (h : Alike P n m) : n.faulty = m.faulty := by
  cases h
  assumption

theorem field (h : Alike P n m) : n.field = m.field := by
  cases h
  assumption

theorem children (h : Alike P n m) : List.Forall₂ (Alike P) n.children m.children := by
  cases h
  assumption

theorem isError (h : Alike P n m) : n.isError = m.isError := by
  rw [Node.isError, Node.isError, h.kind]

end Node.Alike

/-- Cursors on nodes that are alike. -/
def Cursor.Alike (P : Node → Node → Prop) (c d : Cursor) : Prop :=
  Node.Alike P c.node d.node

/-- The same of cursors inside. -/
def Inside.Alike {bound height : Nat} (P : Node → Node → Prop) (m : Inside bound)
    (k : Inside height) : Prop :=
  Cursor.Alike P m.val k.val

section

variable {P : Node → Node → Prop} {bound height : Nat} {c d : Cursor} {m : Inside bound}
  {k : Inside height} {ms : List (Inside bound)} {ks : List (Inside height)}
  {m? : Option (Inside bound)} {k? : Option (Inside height)}

theorem Cursor.Alike.kind (h : c.Alike P d) : c.kind = d.kind :=
  Node.Alike.kind h

theorem Inside.Alike.kind (h : m.Alike P k) : m.kind = k.kind :=
  Node.Alike.kind h

theorem Inside.Alike.named (h : m.Alike P k) : m.val.node.named = k.val.node.named :=
  Node.Alike.named h

theorem Inside.Alike.field (h : m.Alike P k) : m.val.node.field = k.val.node.field :=
  Node.Alike.field h

/-- What comes before a sibling does not matter. -/
theorem alike_siblings {before other : Option Nat} {ns ls : List Node}
    (hns : Node.levels ns ≤ bound) (hls : Node.levels ls ≤ height)
    (h : List.Forall₂ (Node.Alike P) ns ls) :
    List.Forall₂ (Inside.Alike P) (siblings bound before ns hns)
      (siblings height other ls hls) := by
  induction h generalizing before other with
  | nil => exact .nil
  | cons hfirst _ ih => exact .cons hfirst (ih _ _)

theorem Cursor.Alike.below (h : c.Alike P d) :
    List.Forall₂ (Inside.Alike P) c.below d.below :=
  alike_siblings _ _ (Node.Alike.children h)

theorem Cursor.Alike.cursorsBelow (h : c.Alike P d) :
    List.Forall₂ (Cursor.Alike P) (c.below.map (·.val)) (d.below.map (·.val)) := by
  rw [List.forall₂_map_left_iff, List.forall₂_map_right_iff]
  exact h.below

theorem Inside.Alike.below (h : m.Alike P k) :
    List.Forall₂ (Inside.Alike P) m.below k.below := by
  have hbelow : List.Forall₂ (Inside.Alike P) m.val.below k.val.below := Cursor.Alike.below h
  rw [Inside.below, Inside.below, List.forall₂_map_left_iff, List.forall₂_map_right_iff]
  exact hbelow

/-! ### Searching and filtering -/

theorem alike_inField? (h : List.Forall₂ (Inside.Alike P) ms ks) (field : String) :
    Option.Rel (Inside.Alike P) (inField? ms field) (inField? ks field) :=
  forall₂_find? (fun hmk => by rw [hmk.field]) h

theorem alike_ofKind? (h : List.Forall₂ (Inside.Alike P) ms ks) (kind : String) :
    Option.Rel (Inside.Alike P) (ofKind? ms kind) (ofKind? ks kind) :=
  forall₂_find? (fun hmk => by rw [hmk.kind]) h

theorem alike_namedOnes (h : List.Forall₂ (Inside.Alike P) ms ks) :
    List.Forall₂ (Inside.Alike P) (namedOnes ms) (namedOnes ks) :=
  forall₂_filter (fun hmk => hmk.named) h

theorem alike_meaningful (h : List.Forall₂ (Inside.Alike P) ms ks) :
    List.Forall₂ (Inside.Alike P) (meaningful ms) (meaningful ks) :=
  forall₂_filter (fun hmk => by rw [hmk.named, hmk.kind]) h

theorem hasToken_of_alike (h : List.Forall₂ (Inside.Alike P) ms ks) (kind : String) :
    hasToken ms kind = hasToken ks kind :=
  forall₂_any (fun hmk => by rw [hmk.named, hmk.kind]) h

/-- Blocks are opened in the same places. -/
theorem alike_opened (isBlock : String → Bool) (h : List.Forall₂ (Inside.Alike P) ms ks) :
    List.Forall₂ (Inside.Alike P) (opened isBlock ms) (opened isBlock ks) := by
  refine forall₂_flatMap (fun hmk => ?_) h
  rw [hmk.kind]
  split
  · exact hmk.below
  · exact .cons hmk .nil

theorem alike_belowOf (h : Option.Rel (Inside.Alike P) m? k?) :
    List.Forall₂ (Inside.Alike P) (belowOf m?) (belowOf k?) := by
  cases h with
  | none => exact .nil
  | some hmk => exact hmk.below

end

/-! ### Plans -/

/-- What two nodes note is the same, as far as it is part of a pattern's identity. -/
def SameNotes (a b : Attributes) : Prop :=
  List.Forall₂ (fun x y => x.1 = y.1 ∧ (x.1 ∈ identityAttributes → x.2 = y.2)) a b

section

variable {a b : Attributes} {name : String} {v w : Value}

@[simp] theorem sameNotes_nil : SameNotes [] [] :=
  .nil

@[simp] theorem sameNotes_cons :
    SameNotes ((name, v) :: a) ((name, w) :: b) ↔
      (name ∈ identityAttributes → v = w) ∧ SameNotes a b := by
  simp [SameNotes]

theorem sameNotes_refl (a : Attributes) : SameNotes a a :=
  List.forall₂_same.2 fun _ _ => ⟨rfl, fun _ => rfl⟩

theorem SameNotes.append {a' b' : Attributes} (h : SameNotes a b) (h' : SameNotes a' b') :
    SameNotes (a ++ a') (b ++ b') :=
  List.rel_append h h'

theorem SameNotes.get? (h : SameNotes a b) (hname : name ∈ identityAttributes) :
    a.get? name = b.get? name := by
  induction h with
  | nil => rfl
  | @cons x y _ _ hxy _ ih =>
    rw [Table.get?_cons, Table.get?_cons, ih, ← hxy.1]
    split
    · rename_i hfound
      rw [hxy.2 (by rw [eq_of_beq hfound]; exact hname)]
    · rfl

end

/-- Trees in different places of different files are the same but for what is left out. -/
theorem SourceFile.bare_tree {f g : SourceFile} {tag : Tag} {c d : Cursor} {a b : Attributes}
    {ts us : List Tree} (hnotes : SameNotes a b) (hbelow : ts.map Tree.bare = us.map Tree.bare) :
    (f.tree tag c a ts).bare = (g.tree tag d b us).bare :=
  Tree.bare_eq_iff.2 ⟨rfl, fun _ hname => hnotes.get? hname, hbelow⟩

/-- Plans that name nodes in the same places and make the same of what they give, but for
what is left out. -/
structure Plan.Alike (P : Node → Node → Prop) {bound height : Nat} (p : Plan bound)
    (q : Plan height) : Prop where
  inner : List.Forall₂ (Inside.Alike P) p.inner q.inner
  wrap : ∀ ts us, ts.map Tree.bare = us.map Tree.bare →
    (p.wrap ts).map Tree.bare = (q.wrap us).map Tree.bare

/-- Both plans are there and alike, or both are missing for the same fault. -/
def Plan.AlikeOutcome (P : Node → Node → Prop) {bound height : Nat}
    (planned : Except Fault (Plan bound)) (other : Except Fault (Plan height)) : Prop :=
  (∃ p q, planned = .ok p ∧ other = .ok q ∧ p.Alike P q) ∨
    ∃ fault, planned = .error fault ∧ other = .error fault

theorem Plan.Alike.outcome {P : Node → Node → Prop} {bound height : Nat} {p : Plan bound}
    {q : Plan height} (h : p.Alike P q) :
    Option.Rel (Plan.AlikeOutcome P) (some (.ok p)) (some (.ok q)) :=
  .some (.inl ⟨p, q, rfl, rfl, h⟩)

namespace Plan

variable {P : Node → Node → Prop} {bound height : Nat} {ms : List (Inside bound)}
  {ks : List (Inside height)} {f g : SourceFile} {tag : Tag} {c d : Cursor} {a b : Attributes}

/-- One tree for what is inside. -/
theorem alike_tree (hinner : List.Forall₂ (Inside.Alike P) ms ks) (hnotes : SameNotes a b) :
    Alike P (single ms (f.tree tag c a)) (single ks (g.tree tag d b)) where
  inner := hinner
  wrap ts us h := by
    show [(f.tree tag c a ts).bare] = [(g.tree tag d b us).bare]
    rw [SourceFile.bare_tree hnotes h]

/-- One tree with nothing inside. -/
theorem alike_leaf (hnotes : SameNotes a b) :
    Alike P (leaf (f.tree tag c a []) : Plan bound) (leaf (g.tree tag d b []) : Plan height) where
  inner := .nil
  wrap ts us _ := by
    show [(f.tree tag c a []).bare] = [(g.tree tag d b []).bare]
    rw [SourceFile.bare_tree hnotes rfl]

theorem alike_splice (hinner : List.Forall₂ (Inside.Alike P) ms ks) :
    Alike P (splice ms) (splice ks) where
  inner := hinner
  wrap _ _ h := h

/-- A tree with one more tree around what is inside, for a function without a block. -/
theorem alike_nested {tag' : Tag} {c' d' : Cursor} {a' b' : Attributes}
    (hinner : List.Forall₂ (Inside.Alike P) ms ks) (hnotes : SameNotes a b)
    (hnotes' : SameNotes a' b') :
    Alike P (single ms fun inner => f.tree tag c a [f.tree tag' c' a' inner])
      (single ks fun inner => g.tree tag d b [g.tree tag' d' b' inner]) where
  inner := hinner
  wrap ts us h := by
    have hbelow : [f.tree tag' c' a' ts].map Tree.bare = [g.tree tag' d' b' us].map Tree.bare := by
      show [(f.tree tag' c' a' ts).bare] = [(g.tree tag' d' b' us).bare]
      rw [SourceFile.bare_tree hnotes' h]
    show [(f.tree tag c a _).bare] = [(g.tree tag d b _).bare]
    rw [SourceFile.bare_tree hnotes hbelow]

end Plan

end Concrete

end CodeHabits
