import CodeHabits.Fault

/-!
# `CodeHabits.Snapshot`: versions of the saved document

What was learned is saved as one document: a version, the records of the
patterns, and the preferences. The first version had neither the time of the
first sighting nor preferences; `migrate` brings a document of that version
up to date. A document of a version that is not known is refused.
-/

set_option autoImplicit false

namespace CodeHabits.Snapshot

/-- The version that is written. -/
def currentVersion : Int := 2

/-- The version number that a value is; a truth value counts as zero or
one. -/
def version? : Value → Option Int
  | .int n => some n
  | .bool b => some (if b then 1 else 0)
  | _ => none

/-- Refuses records that are no objects; `position` is that of the first. -/
def checkRecords (position : Nat) : List Value → Except Fault Unit
  | [] => .ok ()
  | .object _ :: rest => checkRecords (position + 1) rest
  | _ => .error (.corrupt (.recordNotAnObject position))

/-- The members of a document with a list of objects for its records, and
with preferences that are an object if there are any. -/
def checkLayout (document : Value) : Except Fault (Table String Value) := do
  let .object members := document | throw (.corrupt .notAnObject)
  match (Table.get? members "patterns").getD (.list []) with
  | .list records => checkRecords 0 records
  | _ => throw (.corrupt .recordsNotAList)
  match Table.get? members "preferences" with
  | none | some .null | some (.object _) => return members
  | some _ => throw (.corrupt .preferencesNotAnObject)

/-- A record of the first version with what it lacks. -/
def upgradeRecord : Value → Value
  | .object members =>
    let seen := (Table.get? members "last_seen").getD .null
    .object
      ((((Table.putNew members "first_seen" seen).putNew "last_touched" seen).putNew
        "style_counts" (.object [])).putNew "retired" (.bool false))
  | value => value

/-- A list of records of the first version with what they lack. -/
def upgradeRecords : Value → Value
  | .list records => .list (records.map upgradeRecord)
  | value => value

/-- A document of the first version as one of the second. -/
def upgrade (members : Table String Value) : Table String Value :=
  let members := match members.get? "patterns" with
    | some records => members.put "patterns" (upgradeRecords records)
    | none => members
  (members.putNew "preferences" (.object [])).put "schema_version" (.int currentVersion)

/-- The members of a document, brought up to the current version. -/
def migrate (document : Value) : Except Fault (Table String Value) := do
  let members ← checkLayout document
  let written := (members.get? "schema_version").getD .null
  match version? written with
  | none => throw (.corrupt .noVersion)
  | some version =>
    if currentVersion < version then throw (.corrupt (.newerVersion written currentVersion))
    else if version = currentVersion then return members
    else if version = 1 then return upgrade members
    else throw (.corrupt (.noMigration written))

/-- The records of a document. -/
def records (members : Table String Value) : List Value :=
  match members.get? "patterns" with
  | some (.list records) => records
  | _ => []

end CodeHabits.Snapshot
