import CodeHabits.Binary64
import CodeHabits.Table

/-!
# `CodeHabits.Value`: the values documents are made of

Requests, snapshots and configuration files are documents: values nested in
lists and objects. Nothing about them is known before they are read, so a
value keeps whether a number was written as a whole number.

A value that is no list and no object can name something: a pattern, a
language, a style. Such a value is a `Label`. Two labels name the same thing
when their `Key` is the same: numbers go by their exact value, and a truth
value counts as zero or one.
-/

set_option autoImplicit false

namespace CodeHabits

/-- A document or a part of one. -/
inductive Value where
  | null
  | bool (b : Bool)
  | int (n : Int)
  | real (x : Float)
  | text (s : String)
  | list (items : List Value)
  | object (members : List (String × Value))

/-- What decides whether two labels are the same. -/
inductive Key where
  | null
  | number (q : Rat)
  | infinite (negative : Bool)
  | nan
  | text (s : String)
  deriving DecidableEq

namespace Key

/-- The key of a floating-point number. -/
def ofReal (x : Float) : Key :=
  match Binary64.decode x with
  | .nan => .nan
  | .infinite negative => .infinite negative
  | .finite .. => .number ((Binary64.toRat? x).getD 0)

/-- Whether one key comes before another; `none` for keys of different
kinds, which have no order. -/
def before? : Key → Key → Option Bool
  | .text a, .text b => some (a < b)
  | .number a, .number b => some (a < b)
  | .number _, .infinite negative => some !negative
  | .infinite negative, .number _ => some negative
  | .infinite a, .infinite b => some (a && !b)
  | .nan, .number _ | .nan, .infinite _ | .nan, .nan
  | .number _, .nan | .infinite _, .nan => some false
  | _, _ => none

end Key

/-- A value that can name something. -/
inductive Label where
  | null
  | bool (b : Bool)
  | int (n : Int)
  | real (x : Float)
  | text (s : String)

namespace Label

/-- The label as a value. -/
def value : Label → Value
  | .null => .null
  | .bool b => .bool b
  | .int n => .int n
  | .real x => .real x
  | .text s => .text s

/-- What the label names. -/
def key : Label → Key
  | .null => .null
  | .bool b => .number (if b then 1 else 0)
  | .int n => .number n
  | .real x => .ofReal x
  | .text s => .text s

instance : BEq Label := ⟨fun a b => a.key == b.key⟩

theorem beq_iff {a b : Label} : (a == b) = true ↔ a.key = b.key := by
  show (a.key == b.key) = true ↔ _
  simp

instance : EquivBEq Label where
  rfl := beq_iff.2 rfl
  symm h := beq_iff.2 (beq_iff.1 h).symm
  trans h k := beq_iff.2 ((beq_iff.1 h).trans (beq_iff.1 k))

/-- Labels that are text are the same when the texts are. -/
theorem text_beq_text {a b : String} : (Label.text a == Label.text b) = (a == b) := by
  rw [Bool.eq_iff_iff, beq_iff]
  simp [key]

end Label

namespace Value

/-- The label that a value is. -/
def label? : Value → Option Label
  | .null => some .null
  | .bool b => some (.bool b)
  | .int n => some (.int n)
  | .real x => some (.real x)
  | .text s => some (.text s)
  | .list _ | .object _ => none

@[simp] theorem label?_value (l : Label) : l.value.label? = some l := by
  cases l <;> rfl

/-- Whether a value is more than nothing: not absent, false, zero or
empty. -/
def truthy : Value → Bool
  | .null => false
  | .bool b => b
  | .int n => n != 0
  | .real x => x != 0.0
  | .text s => !s.isEmpty
  | .list items => !items.isEmpty
  | .object members => !members.isEmpty

/-- A text, or nothing. -/
def ofText? : Option String → Value
  | some s => .text s
  | none => .null

/-- A natural number. -/
def ofNat (n : Nat) : Value := .int (n : Int)

/-- The members of an object. -/
def members? : Value → Option (Table String Value)
  | .object members => some members
  | _ => none

/-- A member of an object. -/
def member? (value : Value) (name : String) : Option Value :=
  value.members?.bind (·.get? name)

/-- The text that a value is. -/
def text? : Value → Option String
  | .text s => some s
  | _ => none

/-- Whether a value is there and not null. -/
def present? : Option Value → Option Value
  | some .null => none
  | other => other

mutual

/-- Whether two values say the same. Numbers go by their value, and the
order of an object's members does not matter. -/
def same : Value → Value → Bool
  | .list xs, .list ys => sameList xs ys
  | .object xs, .object ys => xs.length == ys.length && sameMembers xs ys
  | .null, b => b.label?.any (Label.null == ·)
  | .bool a, b => b.label?.any (Label.bool a == ·)
  | .int a, b => b.label?.any (Label.int a == ·)
  | .real a, b => b.label?.any (Label.real a == ·)
  | .text a, b => b.label?.any (Label.text a == ·)
  | _, _ => false

/-- Whether two lists say the same, item by item. -/
def sameList : List Value → List Value → Bool
  | [], [] => true
  | x :: xs, y :: ys => same x y && sameList xs ys
  | _, _ => false

/-- Whether every member of the first table says the same in the second. -/
def sameMembers : List (String × Value) → Table String Value → Bool
  | [], _ => true
  | (name, x) :: rest, ys => (Table.get? ys name).any (same x ·) && sameMembers rest ys

end

end Value

end CodeHabits
