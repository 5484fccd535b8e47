/-!
# `CodeHabits.Table`: entries in the order their keys came

Documents, attributes, style tallies and the store itself keep their
entries in the order in which the keys were first put. A later value for a
known key replaces the earlier one and stays in its place.
-/

set_option autoImplicit false

namespace CodeHabits

/-- Entries with their keys, oldest key first. -/
abbrev Table (κ α : Type) := List (κ × α)

namespace Table

variable {κ α : Type} [BEq κ]

/-- The value of a key. -/
def get? (table : Table κ α) (key : κ) : Option α :=
  (table.find? fun entry => entry.1 == key).map (·.2)

/-- Whether a key has a value. -/
def has (table : Table κ α) (key : κ) : Bool :=
  table.any fun entry => entry.1 == key

/-- Gives a key a value: in its place when the key is known, at the end
when it is new. -/
def put : Table κ α → κ → α → Table κ α
  | [], key, value => [(key, value)]
  | entry :: rest, key, value =>
    if entry.1 == key then (entry.1, value) :: rest else entry :: put rest key value

/-- Gives a key a value unless it has one. -/
def putNew (table : Table κ α) (key : κ) (value : α) : Table κ α :=
  if table.has key then table else table.put key value

/-- The table that a list of entries describes: the last value of a key
counts, in the place of the first. -/
def ofEntries (entries : List (κ × α)) : Table κ α :=
  entries.foldl (fun table entry => table.put entry.1 entry.2) []

/-- The entries of `upper` put over those of `lower`. -/
def overlay (upper lower : Table κ α) : Table κ α :=
  upper.foldl (fun table entry => table.put entry.1 entry.2) lower

theorem get?_put_self [ReflBEq κ] (table : Table κ α) (key : κ) (value : α) :
    (table.put key value).get? key = some value := by
  induction table with
  | nil => simp [put, get?]
  | cons entry rest ih =>
    by_cases h : entry.1 == key
    · simp [put, get?, h]
    · simpa [put, get?, h] using ih

theorem has_eq_isSome_get? (table : Table κ α) (key : κ) :
    table.has key = (table.get? key).isSome := by
  induction table with
  | nil => rfl
  | cons entry rest ih =>
    by_cases h : entry.1 == key
    · simp [has, get?, h]
    · simpa [has, get?, h] using ih

end Table

end CodeHabits
