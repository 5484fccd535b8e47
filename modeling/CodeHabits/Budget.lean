import CodeHabits.Magnitude

/-!
# `CodeHabits.Budget`: how long parsing may take

A parse looks at its budget from time to time and stops with a fault once
the budget is used up. How much is left is counted in looks: a budget
allows a number of them or any number. The looks taken are counted whether
or not the parse ends well.
-/

set_option autoImplicit false

namespace CodeHabits

/-- What a parse may use. -/
structure Budget where
  /-- How many looks find something left; `none` means all. -/
  allowed : Option Nat
  /-- What was given for the seconds that the budget lasts. -/
  given : Value
  /-- The seconds that the fault speaks of. -/
  seconds : Float

/-- A budget that never runs out. -/
def Budget.unlimited : Budget :=
  ⟨none, .int 0, 0.0⟩

/-- A budget of seconds, which have to be a number: nothing is left from the
start unless it is positive. -/
def Budget.ofSeconds (given : Value) : Except Fault Budget := do
  let number ← given.toNumber
  let seconds ← Number.orOverflow number.toReal?
  return ⟨if number.le (.int 0) then some 0 else none, given, seconds⟩

/-- A computation under a budget. The state is the number of looks taken. -/
abbrev Timed (α : Type) := ReaderT Budget (ExceptT Fault (StateM Nat)) α

namespace Timed

/-- Looks at the budget. -/
def check : Timed Unit := do
  let used ← modifyGet fun used => (used, used + 1)
  let budget ← read
  match budget.allowed with
  | some most => if most ≤ used then throw (.outOfTime budget.given budget.seconds)
  | none => pure ()

/-- Looks at the budget so many times. -/
def checkTimes : Nat → Timed Unit
  | 0 => pure ()
  | count + 1 => do
    check
    checkTimes count

/-- Takes over an outcome. -/
def ofExcept {α : Type} : Except Fault α → Timed α
  | .ok value => pure value
  | .error fault => throw fault

/-- The outcome under a budget and the number of looks taken. -/
def outcome {α : Type} (x : Timed α) (budget : Budget) : Except Fault α × Nat :=
  (x.run budget).run.run 0

end Timed

end CodeHabits
