/-!
# `CodeHabits.Concrete.Node`: concrete syntax trees

A grammar turns source text into a tree that keeps every token. A node has a
kind, the bytes it spans, marks for named, missing and faulty nodes, the
field that it fills in its parent, and its children.

A `Cursor` is a node together with the end of the sibling before it. The
cursors below one are handed out as `Inside`, with the proof that they are
less high, so that a recursion over them ends.
-/

set_option autoImplicit false

namespace CodeHabits.Concrete

/-- A node of a concrete tree. -/
inductive Node where
  | mk (kind : String) (start stop : Nat) (named missing faulty : Bool) (field : String)
      (children : List Node)

instance : Inhabited Node := ⟨.mk "" 0 0 false false false "" []⟩

namespace Node

/-- The kind of a node. -/
def kind : Node → String
  | mk k _ _ _ _ _ _ _ => k

/-- The offset of the first byte. -/
def start : Node → Nat
  | mk _ s _ _ _ _ _ _ => s

/-- The offset behind the last byte. -/
def stop : Node → Nat
  | mk _ _ s _ _ _ _ _ => s

/-- Whether the grammar names the node; tokens are mostly not named. -/
def named : Node → Bool
  | mk _ _ _ n _ _ _ _ => n

/-- Whether the parser put the node in because it was missing. -/
def missing : Node → Bool
  | mk _ _ _ _ m _ _ _ => m

/-- Whether a problem lies at the node or below it. -/
def faulty : Node → Bool
  | mk _ _ _ _ _ f _ _ => f

/-- The field of the parent that the node fills; empty for none. -/
def field : Node → String
  | mk _ _ _ _ _ _ f _ => f

/-- The nodes right below. -/
def children : Node → List Node
  | mk _ _ _ _ _ _ _ cs => cs

/-- Whether the node stands for text that fits nowhere. -/
def isError (n : Node) : Bool :=
  n.kind == "ERROR"

mutual

/-- The number of levels below a node. -/
def height : Node → Nat
  | mk _ _ _ _ _ _ _ cs => levels cs

/-- The number of levels that nodes have. -/
def levels : List Node → Nat
  | [] => 0
  | n :: rest => max (height n + 1) (levels rest)

end

mutual

/-- The number of nodes from a node down. -/
def size : Node → Nat
  | mk _ _ _ _ _ _ _ cs => sizeList cs + 1

/-- The number of nodes from several nodes down. -/
def sizeList : List Node → Nat
  | [] => 0
  | n :: rest => size n + sizeList rest

end

theorem height_eq (n : Node) : n.height = levels n.children := by
  cases n; rfl

theorem size_eq (n : Node) : n.size = sizeList n.children + 1 := by
  cases n; rfl

theorem sizeList_append (ms ns : List Node) :
    sizeList (ms ++ ns) = sizeList ms + sizeList ns := by
  induction ms with
  | nil => simp [sizeList]
  | cons m rest ih => simp only [List.cons_append, sizeList, ih]; omega

theorem sizeList_reverse (ns : List Node) : sizeList ns.reverse = sizeList ns := by
  induction ns with
  | nil => rfl
  | cons n rest ih => simp only [List.reverse_cons, sizeList_append, sizeList, ih]; omega

theorem sizeList_filter_le (keep : Node → Bool) (ns : List Node) :
    sizeList (ns.filter keep) ≤ sizeList ns := by
  induction ns with
  | nil => exact Nat.le_refl _
  | cons n rest ih =>
    rw [List.filter_cons]
    split
    · simp only [sizeList]; omega
    · simp only [sizeList]; omega

end Node

/-- A node and the end of the sibling before it. -/
structure Cursor where
  node : Node
  before : Option Nat

namespace Cursor

/-- The number of levels below the node. -/
def height (c : Cursor) : Nat :=
  c.node.height

/-- The kind of the node. -/
def kind (c : Cursor) : String :=
  c.node.kind

end Cursor

/-- A cursor of less than a given height. -/
abbrev Inside (bound : Nat) := { c : Cursor // c.height < bound }

/-- Puts cursors on siblings, the first of which has `before` in front. -/
def siblings (bound : Nat) (before : Option Nat) :
    (nodes : List Node) → Node.levels nodes ≤ bound → List (Inside bound)
  | [], _ => []
  | n :: rest, h =>
    have h : max (n.height + 1) (Node.levels rest) ≤ bound := h
    ⟨⟨n, before⟩, by show n.height < bound; omega⟩
      :: siblings bound (some n.stop) rest (by omega)

/-- The cursors right below one. -/
def Cursor.below (c : Cursor) : List (Inside c.height) :=
  siblings c.height none c.node.children (Nat.le_of_eq (Node.height_eq c.node).symm)

namespace Inside

variable {bound : Nat}

/-- The kind of the node. -/
def kind (m : Inside bound) : String :=
  m.val.kind

/-- The cursors right below one inside. -/
def below (m : Inside bound) : List (Inside bound) :=
  m.val.below.map fun k => ⟨k.val, Nat.lt_trans k.property m.property⟩

end Inside

section

variable {bound : Nat}

/-- The first cursor in a field. -/
def inField? (ms : List (Inside bound)) (field : String) : Option (Inside bound) :=
  ms.find? fun m => m.val.node.field == field

/-- The kinds of comments. -/
def isComment (kind : String) : Bool :=
  ["comment", "line_comment", "block_comment", "html_comment"].contains kind

/-- The named ones. -/
def namedOnes (ms : List (Inside bound)) : List (Inside bound) :=
  ms.filter fun m => m.val.node.named

/-- The named ones that are no comments. -/
def meaningful (ms : List (Inside bound)) : List (Inside bound) :=
  ms.filter fun m => m.val.node.named && !isComment m.kind

/-- Whether a token of a kind is among them. -/
def hasToken (ms : List (Inside bound)) (kind : String) : Bool :=
  ms.any fun m => !m.val.node.named && m.kind == kind

end

end CodeHabits.Concrete
