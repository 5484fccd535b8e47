import CodeHabits.Analysis

/-!
# `CodeHabits.Message.Request`: requests in envelopes

An envelope is an object with a type, a payload and perhaps an id. `read`
turns an envelope into a request or tells what is wrong with it. Every field
of a payload is checked before anything is done.
-/

set_option autoImplicit false

namespace CodeHabits

open Time (Timestamp)

/-- What may be asked of a session. -/
inductive Request where
  | analyze (text : SourceText)
  | analyzeBatch (texts : List SourceText)
  | feedback (id : String) (reaction : Reaction) (reason : Option String)
      (surroundings : Surroundings) (content : Option String) (at? : Option Timestamp)
  | suggest (language : String) (recent : List String) (most? : Option Int)
      (threshold? : Option Value)
  | decay (now? : Option Timestamp)
  | stats
  | validate (code language : String)
  | languages (path? : Option String)
  | exportAll
  | importAll (document : Value) (replace : Bool)
  | save

namespace Request

/-- The fields of a payload. -/
abbrev Payload := Table String Value

/-- What a field may hold. -/
structure FieldKind (α : Type) where
  read? : Value → Option α

/-- Text. -/
def textField : FieldKind String :=
  ⟨Value.text?⟩

/-- A whole number. -/
def wholeField : FieldKind Int where
  read?
    | .int n => some n
    | _ => none

/-- A number. -/
def numberField : FieldKind Value where
  read?
    | .int n => some (.int n)
    | .real x => some (.real x)
    | _ => none

/-- A truth value. -/
def flagField : FieldKind Bool where
  read?
    | .bool b => some b
    | _ => none

/-- A list. -/
def listField : FieldKind (List Value) where
  read?
    | .list items => some items
    | _ => none

/-- An object. -/
def objectField : FieldKind Payload :=
  ⟨Value.members?⟩

/-- A refusal. -/
def refuse {α : Type} (problem : RequestProblem) : Except Fault α :=
  .error (.badRequest problem)

/-- A field that has to be there. -/
def required {α : Type} (payload : Payload) (name : String) (kind : FieldKind α) :
    Except Fault α :=
  match Value.present? (payload.get? name) with
  | none => refuse (.missingField name)
  | some value =>
    match kind.read? value with
    | some content => .ok content
    | none => refuse (.wrongField name)

/-- A field that need not be there. -/
def optional {α : Type} (payload : Payload) (name : String) (kind : FieldKind α) :
    Except Fault (Option α) :=
  match Value.present? (payload.get? name) with
  | none => .ok none
  | some _ => (required payload name kind).map some

/-- A time that need not be there. -/
def timestamp? (payload : Payload) (name : String) : Except Fault (Option Timestamp) := do
  match ← optional payload name textField with
  | none => return none
  | some text =>
    match Time.readTimestamp (.text text) with
    | .ok t => return some t
    | .error _ => refuse (.badTimestamp name)

/-- A source text; `unnamed` is the file of a text without one. -/
def sourceText (payload : Payload) (unnamed : String) : Except Fault SourceText := do
  let code ← required payload "code" textField
  let language? ← optional payload "language" textField
  let file? ← optional payload "file" textField
  return ⟨code, language?, (file?.filter fun file => !file.isEmpty).getD unnamed⟩

/-- The source texts of a batch, of which the first has a position. -/
def sourceTexts (position : Nat) : List Value → Except Fault (List SourceText)
  | [] => .ok []
  | .object members :: rest => do
    let text ← sourceText members ("<memory:" ++ toString position ++ ">")
    return text :: (← sourceTexts (position + 1) rest)
  | _ => refuse (.fileNotAnObject position)

/-- A reaction to a pattern. -/
def readFeedback (payload : Payload) : Except Fault Request := do
  let name ← required payload "action" textField
  let reaction ← match Reaction.ofName? name with
    | some reaction => pure reaction
    | none => refuse (.unknownAction name (Reaction.all.map Reaction.name))
  let around := (← optional payload "context" objectField).getD []
  let language ← optional around "language" textField
  let project ← optional around "project" textField
  let when? ← timestamp? around "timestamp"
  let id ← required payload "pattern_id" textField
  let reason ← optional payload "reason" textField
  let content ← optional payload "modified_content" textField
  let at? ← timestamp? payload "timestamp"
  return .feedback id reaction reason ⟨.ofText? language, .ofText? project, when?⟩ content at?

/-- A wish for suggestions. -/
def readSuggest (payload : Payload) : Except Fault Request := do
  let recent := (← optional payload "recent_patterns" listField).getD []
  if !recent.all fun item => item.text?.isSome then refuse .recentNotTexts
  let language ← required payload "language" textField
  let most? ← optional payload "max_results" wholeField
  let threshold? ← optional payload "confidence_threshold" numberField
  return .suggest language (recent.filterMap Value.text?) most? threshold?

/-- What reads the payload of each type of message. -/
def readers : Table String (Payload → Except Fault Request) :=
  [("analyze", fun payload => (sourceText payload memoryFile).map .analyze),
   ("analyze_batch", fun payload => do
      return .analyzeBatch (← sourceTexts 0 (← required payload "files" listField))),
   ("feedback", readFeedback),
   ("suggest", readSuggest),
   ("decay", fun payload => (timestamp? payload "now").map .decay),
   ("stats", fun _ => .ok .stats),
   ("validate", fun payload => do
      return .validate (← required payload "code" textField)
        (← required payload "language" textField)),
   ("languages", fun payload => (optional payload "path" textField).map .languages),
   ("export", fun _ => .ok .exportAll),
   ("import", fun payload => do
      let members ← required payload "data" objectField
      return .importAll (.object members) ((← optional payload "replace" flagField).getD false)),
   ("save", fun _ => .ok .save)]

/-- The types of messages, in order. -/
def types : List String :=
  (readers.map (·.1)).mergeSort fun a b => !(b < a)

/-- The request in an envelope. -/
def read (envelope : Value) : Except Fault Request := do
  match envelope with
  | .object members =>
    let type := (Table.get? members "type").getD .null
    match type.text?.bind readers.get? with
    | none => refuse (.unknownType type.display types)
    | some reader =>
      match Value.present? (Table.get? members "payload") with
      | none => reader []
      | some (.object payload) => reader payload
      | some _ => refuse .payloadNotAnObject
  | _ => refuse .notAnObject

/-- The id of an envelope, as text. -/
def id? (envelope : Value) : Option String :=
  (Value.present? (envelope.member? "id")).map Value.display

end Request

end CodeHabits
