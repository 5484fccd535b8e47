import CodeHabits.Fault
import CodeHabits.Text.Lowercase

/-!
# `CodeHabits.Config`: settings from a file and the environment

A configuration has four sections of named values. A file may give some of
them, variables of the environment override those, and the rest have
defaults. What is given keeps the kind in which it was given; `validate`
checks the bounds that learning relies on, in a fixed order.
-/

set_option autoImplicit false

namespace CodeHabits

/-- The named values of a section. -/
abbrev Section := Table String Value

/-- A configuration. -/
structure Config where
  engine : Section
  learning : Section
  storage : Section
  logging : Section

/-- The variables of an environment. -/
abbrev Environment := Table String String

namespace Config

/-- The values of a configuration of which nothing is given. -/
def default : Config where
  engine :=
    [("confidence_threshold", .real 0.5), ("max_suggestions", .int 5),
     ("max_code_size", .int 10240),
     ("supported_languages",
       .list [.text "javascript", .text "typescript", .text "python", .text "rust"]),
     ("parse_timeout", .real 2.0)]
  learning :=
    [("smoothing_alpha", .real 0.3), ("base_score", .real 0.5), ("gain", .real 0.2),
     ("penalty", .real 0.7), ("modify_factor", .real 0.9), ("decay_factor", .real 0.9),
     ("recency_window_hours", .real 168.0), ("forgetting_floor", .real 0.1),
     ("ignore_streak_threshold", .int 5), ("weight_step", .real 0.05), ("min_weight", .real 0.5),
     ("max_weight", .real 2.0), ("preference_boost", .real 1.2), ("avoidance_penalty", .real 0.8),
     ("preference_threshold", .int 2)]
  storage := [("path", .text ".codewhisper/patterns.json"), ("enabled", .bool true)]
  logging :=
    [("level", .text "INFO"), ("log_file", .null), ("console", .bool true),
     ("json_format", .bool false)]

/-- The configuration as a document. -/
def document (c : Config) : Value :=
  .object
    [("engine", .object c.engine), ("learning", .object c.learning), ("storage", .object c.storage),
     ("logging", .object c.logging)]

/-- How the text of a variable is read. What cannot be read is as good as
not there. -/
inductive TextForm where
  | whole
  | real
  | flag
  | names
  | plain

/-- The names between commas, in lower case. -/
def readNames (text : String) : List String :=
  ((text.splitOn ",").map fun item => Text.lower (Text.strip item)).filter fun item =>
    !item.isEmpty

/-- The value of a variable. -/
def TextForm.read? (text : String) : TextForm → Option Value
  | whole => (Decimal.readInt? text).map .int
  | real => (Decimal.readFloat? text).map .real
  | flag => some (.bool (["true", "1", "yes", "y"].contains (Text.lower text)))
  | names => some (.list ((readNames text).map .text))
  | plain => some (.text text)

/-- A variable that overrides a value. -/
structure Binding where
  name : String
  variableName : String
  kind : TextForm

/-- The variables for a section. -/
def bindings : Table String (List Binding) :=
  [("engine",
    [⟨"confidence_threshold", "CODEWHISPER_CONFIDENCE_THRESHOLD", .real⟩,
     ⟨"max_suggestions", "CODEWHISPER_MAX_SUGGESTIONS", .whole⟩,
     ⟨"max_code_size", "CODEWHISPER_MAX_CODE_SIZE", .whole⟩,
     ⟨"supported_languages", "CODEWHISPER_SUPPORTED_LANGUAGES", .names⟩,
     ⟨"parse_timeout", "CODEWHISPER_PARSE_TIMEOUT", .real⟩]),
   ("learning",
    [⟨"decay_factor", "CODEWHISPER_DECAY_FACTOR", .real⟩,
     ⟨"recency_window_hours", "CODEWHISPER_RECENCY_WINDOW_HOURS", .real⟩,
     ⟨"forgetting_floor", "CODEWHISPER_FORGETTING_FLOOR", .real⟩]),
   ("storage",
    [⟨"path", "CODEWHISPER_STORAGE_PATH", .plain⟩,
     ⟨"enabled", "CODEWHISPER_STORAGE_ENABLED", .flag⟩]),
   ("logging",
    [⟨"level", "CODEWHISPER_LOG_LEVEL", .plain⟩,
     ⟨"log_file", "CODEWHISPER_LOG_FILE", .plain⟩,
     ⟨"console", "CODEWHISPER_LOG_CONSOLE", .flag⟩,
     ⟨"json_format", "CODEWHISPER_LOG_JSON", .flag⟩])]

/-- What the environment gives for a section. -/
def fromEnvironment (env : Environment) (name : String) : Section :=
  ((bindings.get? name).getD []).filterMap fun b => do
    return (b.name, ← b.kind.read? (← env.get? b.variableName))

/-- A section with given values in place of its defaults. Names that the
section does not have are refused. -/
def override (defaults given : Section) : Except Fault Section :=
  if given.all fun entry => defaults.has entry.1 then .ok (Table.overlay given defaults)
  else .error .wrongKind

/-- A section of a file's content; empty if the file gives no object. -/
def fromFile (content : Table Label Value) (name : String) : Section :=
  match content.get? (.text name) with
  | some (.object members) => members
  | _ => []

/-- A section from the content of a file and the environment. -/
def readSection (content : Table Label Value) (env : Environment) (name : String)
    (defaults : Section) : Except Fault Section :=
  override defaults (Table.overlay (fromEnvironment env name) (fromFile content name))

/-- The number that a value of a section has to be. -/
def number (values : Section) (name : String) : Except Fault Number :=
  match ((values.get? name).getD .null).number? with
  | some n => .ok n
  | none => .error .wrongKind

/-- Refuses unless a bound holds. -/
def need (bound : Bound) (holds : Bool) : Except Fault Unit :=
  if holds then .ok () else .error (.refused (.outside bound))

/-- Zero and one, as bounds are written. -/
def zero : Number := .real 0.0

/-- One as bounds are written. -/
def one : Number := .real 1.0

/-- Refuses a value outside of zero to one. -/
def needUnit (values : Section) (name : String) : Except Fault Unit := do
  let n ← number values name
  need (.unit name) (zero.le n && n.le one)

/-- Refuses a value below one. -/
def needAtLeastOne (bound : Bound) (values : Section) (name : String) : Except Fault Unit := do
  let n ← number values name
  need bound (!n.lt (.int 1))

/-- Refuses a configuration that breaks a bound; the first one that is
broken decides. -/
def validate (c : Config) : Except Fault Unit := do
  needUnit c.engine "confidence_threshold"
  needAtLeastOne (.atLeastOne "max_suggestions") c.engine "max_suggestions"
  needAtLeastOne (.positive "max_code_size") c.engine "max_code_size"
  need (.positive "parse_timeout") (!(← number c.engine "parse_timeout").le (.int 0))
  ["smoothing_alpha", "base_score", "gain", "forgetting_floor"].forM (needUnit c.learning)
  let penalty ← number c.learning "penalty"
  need .penaltyOrder (zero.lt penalty)
  let modify ← number c.learning "modify_factor"
  need .penaltyOrder (penalty.lt modify && modify.le one)
  let decay ← number c.learning "decay_factor"
  need (.openUnit "decay_factor") (zero.lt decay && decay.lt one)
  need (.notNegative "recency_window_hours")
    (!(← number c.learning "recency_window_hours").lt (.int 0))
  needAtLeastOne (.atLeastOne "ignore_streak_threshold") c.learning "ignore_streak_threshold"
  let least ← number c.learning "min_weight"
  need .weightOrder (zero.lt least && least.le one)
  need .weightOrder (one.le (← number c.learning "max_weight"))
  needAtLeastOne (.atLeastOne "preference_threshold") c.learning "preference_threshold"

/-- The configuration that the content of a file and the environment give;
`null` for an empty file. -/
def load (content : Value) (env : Environment) : Except Fault Config := do
  let content ← if content.truthy then content.toEntries else pure []
  let c : Config :=
    ⟨← readSection content env "engine" default.engine,
     ← readSection content env "learning" default.learning,
     ← readSection content env "storage" default.storage,
     ← readSection content env "logging" default.logging⟩
  c.validate
  return c

end Config

end CodeHabits
