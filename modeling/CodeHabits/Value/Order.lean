import CodeHabits.Magnitude

/-!
# `CodeHabits.Value.Order`: sorting by keys that may have no order

Numbers have an order among themselves and texts have one, but a number and
a text have none. Sorting fails if two of the things to be sorted have none
and nothing else decides between them.
-/

set_option autoImplicit false

namespace CodeHabits

/-- Whether one thing comes strictly before another; `none` if they have no
order. -/
abbrev Precedence (α : Type) := α → α → Option Bool

namespace Precedence

variable {α β : Type}

/-- The order of labels. -/
def label : Precedence Label := fun a b => a.key.before? b.key

/-- The order of texts. -/
def text : Precedence String := fun a b => some (a < b)

/-- The order of things by something about them. -/
def on (about : α → β) (p : Precedence β) : Precedence α := fun a b =>
  p (about a) (about b)

/-- The order of things by a number about them, the greater one first. Where
the numbers are equal a second order decides; numbers that cannot be told to
be equal leave things as they are. -/
def greaterFirst {ν : Type} [Magnitude ν] (about : α → ν) (second : Precedence α) :
    Precedence α := fun a b =>
  match Magnitude.lt (about b) (about a), Magnitude.le (about b) (about a) with
  | .ok true, _ => some true
  | .ok false, .ok true => second a b
  | .ok false, .ok false => some false
  | _, _ => none

end Precedence

variable {α : Type}

/-- Whether any two of several things have an order. -/
def allOrdered (p : Precedence α) : List α → Bool
  | [] => true
  | x :: rest => (rest.all fun y => (p x y).isSome && (p y x).isSome) && allOrdered p rest

/-- Things sorted; those of which neither comes first keep their order. -/
def sorted (p : Precedence α) (xs : List α) : Except Fault (List α) :=
  if allOrdered p xs then .ok (xs.mergeSort fun a b => !(p b a).getD false) else .error .wrongKind

end CodeHabits
