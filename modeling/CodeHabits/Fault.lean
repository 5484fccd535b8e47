import CodeHabits.Decimal.Reader
import CodeHabits.Number
import CodeHabits.Value.Display

/-!
# `CodeHabits.Fault`: what can go wrong

There are two groups of faults. The faults of the domain carry a code, a
message and details, and answer a request by themselves: source that is not
understood, a limit passed, a target that does not exist, a snapshot that
cannot be used, a request that is not well formed. The other faults say that
a value cannot be used for what it is needed for; they turn up when a
document from outside holds the wrong kind of value, and whoever reads the
document decides what they mean.
-/

set_option autoImplicit false

namespace CodeHabits

/-- A bound that a configuration breaks. -/
inductive Bound where
  /-- From zero to one. -/
  | unit (name : String)
  /-- At least one. -/
  | atLeastOne (name : String)
  /-- More than nothing. -/
  | positive (name : String)
  /-- More than zero and less than one. -/
  | openUnit (name : String)
  /-- Zero or more. -/
  | notNegative (name : String)
  /-- Of a rejection and a modification, the rejection lowers more. -/
  | penaltyOrder
  /-- The range of weights holds the neutral weight. -/
  | weightOrder
  deriving DecidableEq, Repr

/-- The bound as a sentence. -/
def Bound.message : Bound → String
  | unit name => name ++ " must be within [0, 1]"
  | atLeastOne name => name ++ " must be at least 1"
  | positive name => name ++ " must be positive"
  | openUnit name => name ++ " must be within (0, 1)"
  | notNegative name => name ++ " must not be negative"
  | penaltyOrder => "expected 0 < penalty < modify_factor <= 1"
  | weightOrder => "expected 0 < min_weight <= 1 <= max_weight"

/-- Why a value of the right kind is not accepted. -/
inductive Refusal where
  /-- Text or a number that cannot be converted. -/
  | unreadable
  /-- Not one of the names of a closed list. -/
  | notOneOf (value : Value) (list : String)
  /-- Outside the bounds of a configuration. -/
  | outside (bound : Bound)

/-- What is wrong with a request. -/
inductive RequestProblem where
  | notAnObject
  | unknownType (shown : String) (supported : List String)
  | payloadNotAnObject
  | missingField (name : String)
  | wrongField (name : String)
  | badTimestamp (name : String)
  | fileNotAnObject (index : Nat)
  | unknownAction (name : String) (supported : List String)
  | recentNotTexts

mutual

/-- What is wrong with a snapshot. -/
inductive Corruption where
  | notAnObject
  | recordsNotAList
  | recordNotAnObject (position : Nat)
  | preferencesNotAnObject
  | noVersion
  | newerVersion (version : Value) (supported : Int)
  | noMigration (version : Value)
  | unreadable (path : String)
  | malformedRecord (cause : Fault)
  | malformedPreferences (cause : Fault)
  | duplicateRecord (id : Label)

/-- What can go wrong. -/
inductive Fault where
  /-- Nothing could be made of a source text. -/
  | unparsable (reason : String) (location : Option (Int × Int))
  /-- A source text is larger than allowed. -/
  | tooLarge (size : Nat) (limit : Value)
  /-- Parsing took longer than the seconds allowed; the budget is what they
  were given as. -/
  | outOfTime (budget : Value) (seconds : Float)
  /-- A language is not among those allowed. -/
  | unsupported (language : String) (supported : List String)
  /-- Feedback on a pattern that does not exist. -/
  | unknownPattern (id : Label)
  | corrupt (cause : Corruption)
  | badRequest (problem : RequestProblem)
  /-- A value of the right kind that is not accepted. -/
  | refused (cause : Refusal)
  /-- A value of the wrong kind. -/
  | wrongKind
  /-- An object without a member that it must have. -/
  | missingMember (name : String)
  /-- A value without an operation that it must have. -/
  | noSuchOperation
  /-- A number too large to convert. -/
  | overflow
  /-- A time in a year too far away to be numbered. -/
  | beyondYears
  /-- A text too long to be held. -/
  | tooLong
  /-- A position past the end. -/
  | outOfRange
  /-- A file that does not exist. -/
  | noFile
  /-- A path that is a directory where a file is needed. -/
  | isDirectory
  /-- A path that leads through a file. -/
  | notADirectory
  /-- A directory where a file must be made. -/
  | fileInTheWay
  /-- Bytes that are no text. -/
  | undecodable
  /-- Text that is no JSON. -/
  | notJson
  /-- A pattern with parts of kinds that cannot be shown. -/
  | unpresentable

end

instance : Inhabited Fault := ⟨.wrongKind⟩

namespace RequestProblem

/-- The problem as a sentence. -/
def message : RequestProblem → String
  | notAnObject => "Envelope must be an object"
  | unknownType shown _ => "Unknown message type: " ++ shown
  | payloadNotAnObject => "Payload must be an object"
  | missingField name => "Missing required field: " ++ name
  | wrongField name => "Invalid type for field: " ++ name
  | badTimestamp name => "Invalid timestamp for field: " ++ name
  | fileNotAnObject index => "files[" ++ toString index ++ "] must be an object"
  | unknownAction name _ => "Unknown feedback action: " ++ name
  | recentNotTexts => "recent_patterns must be a list of strings"

/-- What the problem is about. -/
def details : RequestProblem → Table String Value
  | unknownType _ supported | unknownAction _ supported =>
    [("supported", .list (supported.map .text))]
  | missingField name | wrongField name | badTimestamp name => [("field", .text name)]
  | fileNotAnObject index => [("index", .ofNat index)]
  | _ => []

end RequestProblem

/-- The wording of a refusal, where it has one. What is not on a list is
named only if it is a text that quotes show as a whole, so a text with an
apostrophe is not. -/
def Refusal.message? : Refusal → Option String
  | .notOneOf (.text s) list =>
    if s.toList.contains '\'' then none else some (Text.quoted s ++ " is not a valid " ++ list)
  | .outside bound => some bound.message
  | _ => none

/-- The part of a fault that a message quotes: the name of a missing
member, or the value that is not on a list. All else is only hinted at. -/
def Fault.brief : Fault → String
  | .missingMember name => Text.quoted name
  | .refused (.notOneOf value list) => (Refusal.notOneOf value list).message?.getD "<runtime>"
  | _ => "<runtime>"

namespace Corruption

/-- The corruption as a sentence. -/
def message : Corruption → String
  | notAnObject => "Snapshot must be a JSON object"
  | recordsNotAList => "Snapshot patterns must be a list"
  | recordNotAnObject position => "Pattern record " ++ toString position ++ " is not an object"
  | preferencesNotAnObject => "Snapshot preferences must be a mapping"
  | noVersion => "Snapshot has no schema version"
  | newerVersion version supported =>
    "Snapshot schema " ++ version.display ++ " is newer than supported " ++ toString supported
  | noMigration version => "No migration from schema " ++ version.display
  | unreadable path => "Cannot read snapshot " ++ path ++ ": <runtime>"
  | malformedRecord cause => "Malformed pattern record: " ++ cause.brief
  | malformedPreferences cause => "Malformed preference model: " ++ cause.brief
  | duplicateRecord id => "Duplicate pattern record: " ++ id.display

/-- What the corruption is about. -/
def details : Corruption → Table String Value
  | recordNotAnObject position => [("record", .ofNat position)]
  | newerVersion version _ | noMigration version => [("schema_version", version)]
  | _ => []

end Corruption

namespace Fault

/-- The code of a fault of the domain; `none` for the other faults. -/
def code? : Fault → Option String
  | unparsable .. => some "ParseError"
  | tooLarge .. => some "SizeLimitError"
  | outOfTime .. => some "TimeoutError"
  | unsupported .. => some "UnsupportedLanguage"
  | unknownPattern _ => some "InvalidFeedbackTarget"
  | corrupt _ => some "StoreCorruption"
  | badRequest _ => some "InvalidRequest"
  | _ => none

/-- Whether a fault answers a request by itself. -/
def isDomain (fault : Fault) : Bool :=
  fault.code?.isSome

/-- Whether a fault says that a file cannot be opened or holds no JSON. -/
def isOfFile : Fault → Bool
  | noFile | isDirectory | notADirectory | fileInTheWay | notJson => true
  | _ => false

/-- The wording of a fault, where it has one. -/
def message? : Fault → Option String
  | unparsable reason _ => some reason
  | tooLarge size limit =>
    some ("Input of " ++ toString size ++ " bytes exceeds limit of " ++ limit.display ++ " bytes")
  | outOfTime _ seconds => some ("Parsing exceeded budget of " ++ Decimal.fixed 3 seconds ++ "s")
  | unsupported language _ => some ("Unsupported language: " ++ language)
  | unknownPattern id => some ("Unknown pattern id: " ++ id.display)
  | corrupt cause => some cause.message
  | badRequest problem => some problem.message
  | refused cause => cause.message?
  | _ => none

/-- The wording of a fault of the domain. -/
def message (fault : Fault) : String :=
  fault.message?.getD ""

/-- What a fault of the domain is about. -/
def details : Fault → Table String Value
  | unparsable _ (some (line, column)) => [("line", .int line), ("column", .int column)]
  | tooLarge size limit => [("size", .ofNat size), ("limit", limit)]
  | outOfTime budget _ => [("budget", budget)]
  | unsupported language supported =>
    [("language", .text language), ("supported", .list (supported.map .text))]
  | unknownPattern id => [("pattern_id", id.value)]
  | corrupt cause => cause.details
  | badRequest problem => problem.details
  | _ => []

/-- A fault of the domain as a document. -/
def document (fault : Fault) : Table String Value :=
  [("code", .text (fault.code?.getD "InternalError")), ("message", .text fault.message)]
    ++ if fault.details.isEmpty then [] else [("details", .object fault.details)]

end Fault

namespace Value

/-- The number that a value must be. -/
def toNumber (value : Value) : Except Fault Number :=
  match value.number? with
  | some n => .ok n
  | none => .error .wrongKind

/-- The floating-point number that a value stands for: a number, a truth
value, or text of a number. -/
def toReal : Value → Except Fault Float
  | .bool b => .ok (if b then 1.0 else 0.0)
  | .int n => match (Number.int n).toReal? with
    | some x => .ok x
    | none => .error .overflow
  | .real x => .ok x
  | .text s => match Decimal.readFloat? s with
    | some x => .ok x
    | none => .error (.refused .unreadable)
  | _ => .error .wrongKind

/-- The whole number that a value stands for: a number without what follows
its point, a truth value, or text of a whole number. -/
def toWhole : Value → Except Fault Int
  | .bool b => .ok (if b then 1 else 0)
  | .int n => .ok n
  | .real x => match Binary64.decode x with
    | .nan => .error (.refused .unreadable)
    | .infinite _ => .error .overflow
    | .finite .. => .ok ((Binary64.truncate? x).getD 0)
  | .text s => match Decimal.readInt? s with
    | some n => .ok n
    | none => .error (.refused .unreadable)
  | _ => .error .wrongKind

/-- The label that a value must be. -/
def toLabel (value : Value) : Except Fault Label :=
  match value.label? with
  | some label => .ok label
  | none => .error .wrongKind

/-- What a value holds, one after the other: the items of a list, the
characters of a text, the names of an object's members. -/
def toItems : Value → Except Fault (List Value)
  | .list items => .ok items
  | .text s => .ok (s.toList.map fun c => .text (String.ofList [c]))
  | .object members => .ok (members.map fun entry => .text entry.1)
  | _ => .error .wrongKind

/-- A label and a value, out of a value that holds two. -/
def toEntry (value : Value) : Except Fault (Label × Value) := do
  match ← value.toItems with
  | [name, content] => return (← name.toLabel, content)
  | _ => throw (.refused .unreadable)

/-- The entries that a value describes: the members of an object, or pairs
one after the other. -/
def toEntries : Value → Except Fault (Table Label Value)
  | .object members => .ok (members.map fun entry => (.text entry.1, entry.2))
  | value => do
    let entries ← (← value.toItems).mapM toEntry
    return Table.ofEntries entries

/-- The members that a value must have to be used as an object. -/
def toMembers : Value → Except Fault (Table String Value)
  | .object members => .ok members
  | _ => .error .noSuchOperation

/-- A member that an object must have. -/
def needMember (value : Value) (name : String) : Except Fault Value :=
  match value with
  | .object members =>
    match Table.get? members name with
    | some content => .ok content
    | none => .error (.missingMember name)
  | _ => .error .wrongKind

end Value

end CodeHabits
