import CodeHabits.Time.Reader

/-!
# `CodeHabits.Pattern.Event`: reactions to patterns

An event says how somebody reacted to a pattern, when, and in which
surroundings. Events come from requests and from snapshots, so what nothing
depends on is kept as it came.
-/

set_option autoImplicit false

namespace CodeHabits

/-- How somebody reacted. -/
inductive Reaction where
  | accepted
  | rejected
  | modified
  | ignored
  deriving DecidableEq, Repr

namespace Reaction

/-- The name of a reaction. -/
def name : Reaction → String
  | accepted => "accepted"
  | rejected => "rejected"
  | modified => "modified"
  | ignored => "ignored"

/-- Every reaction. -/
def all : List Reaction :=
  [accepted, rejected, modified, ignored]

theorem mem_all (reaction : Reaction) : reaction ∈ all := by
  cases reaction <;> decide

/-- The reaction of a name. -/
def ofName? (s : String) : Option Reaction :=
  all.find? fun reaction => reaction.name == s

/-- The reaction that a value names. -/
def ofValue (value : Value) : Except Fault Reaction :=
  match value.text?.bind ofName? with
  | some reaction => .ok reaction
  | none => .error (.refused (.notOneOf value "FeedbackAction"))

end Reaction

/-- The surroundings of a reaction. -/
structure Surroundings where
  language : Value
  project : Value
  timestamp? : Option Time.Timestamp

/-- A reaction to a pattern. -/
structure Event where
  patternId : Value
  reaction : Reaction
  timestamp : Time.Timestamp
  reason : Value
  surroundings : Surroundings
  modifiedContent : Value

/-- A timestamp as a value. -/
def Time.Timestamp.value (t : Time.Timestamp) : Value :=
  .text t.isoformat

namespace Surroundings

/-- Nothing is known of them. -/
def unknown : Surroundings :=
  ⟨.null, .null, none⟩

/-- The surroundings as a document. -/
def document (s : Surroundings) : Value :=
  .object
    [("language", s.language), ("project", s.project),
     ("timestamp", (s.timestamp?.map Time.Timestamp.value).getD .null)]

/-- The surroundings out of a document. -/
def read (document : Value) : Except Fault Surroundings := do
  let members ← document.toMembers
  let timestamp? ← match (members.get? "timestamp").filter Value.truthy with
    | some value => (Time.readTimestamp value).map some
    | none => pure none
  return ⟨(members.get? "language").getD .null, (members.get? "project").getD .null, timestamp?⟩

end Surroundings

namespace Event

/-- The event as a document. A reason that says nothing is left out. -/
def document (e : Event) : Value :=
  .object
    ([("pattern_id", e.patternId), ("action", .text e.reaction.name),
      ("timestamp", e.timestamp.value), ("context", e.surroundings.document)]
      ++ (if e.reason.truthy then [("reason", e.reason)] else [])
      ++ match e.modifiedContent with
        | .null => []
        | content => [("modified_content", content)])

/-- The event out of a document. -/
def read (document : Value) : Except Fault Event := do
  let patternId ← document.needMember "pattern_id"
  let reaction ← Reaction.ofValue (← document.needMember "action")
  let timestamp ← Time.readTimestamp (← document.needMember "timestamp")
  let surroundings ←
    Surroundings.read (((document.member? "context").filter Value.truthy).getD (.object []))
  return ⟨patternId, reaction, timestamp, (document.member? "reason").getD .null, surroundings,
    (document.member? "modified_content").getD .null⟩

end Event

end CodeHabits
