import CodeHabits.Config
import CodeHabits.Files
import CodeHabits.FrontEnd
import CodeHabits.Memory
import CodeHabits.Time.Duration

/-!
# `CodeHabits.Settings`: a configuration in use

What a configuration says, as the limits of parsing, the rules of learning
and the place where what was learned is saved.
-/

set_option autoImplicit false

namespace CodeHabits

/-- A configuration in use. -/
structure Settings where
  registry : Registry
  smoothing : Smoothing Value
  rules : Learning Value
  /-- The least score of a suggestion. -/
  threshold : Value
  /-- How many suggestions there may be. -/
  suggestions : Value
  /-- Where what was learned is saved, if anywhere. -/
  storage? : Option FilePath

namespace Config

/-- A value of a section; null if the section does not have it. -/
def valueOf (values : Section) (name : String) : Value :=
  (values.get? name).getD .null

/-- The names of the languages allowed. -/
def languages (c : Config) : Except Fault (List String) := do
  let items ← (valueOf c.engine "supported_languages").toItems
  items.mapM fun item =>
    match item.text? with
    | some name => .ok name
    | none => .error .noSuchOperation

/-- The front-ends and limits. -/
def registry (c : Config) : Except Fault Registry := do
  return .usual (← c.languages) (valueOf c.engine "max_code_size")
    (valueOf c.engine "parse_timeout")

/-- The smoothing of sightings. -/
def smoothing (c : Config) : Smoothing Value :=
  ⟨valueOf c.learning "smoothing_alpha", valueOf c.learning "base_score",
    valueOf c.learning "forgetting_floor"⟩

/-- The rules of learning. -/
def rules (c : Config) : Learning Value where
  gain := valueOf c.learning "gain"
  penalty := valueOf c.learning "penalty"
  modifyFactor := valueOf c.learning "modify_factor"
  decayFactor := valueOf c.learning "decay_factor"
  floor := valueOf c.learning "forgetting_floor"
  weightStep := valueOf c.learning "weight_step"
  minWeight := valueOf c.learning "min_weight"
  maxWeight := valueOf c.learning "max_weight"
  boost := valueOf c.learning "preference_boost"
  avoidancePenalty := valueOf c.learning "avoidance_penalty"
  preferenceThreshold := valueOf c.learning "preference_threshold"
  ignoreThreshold := valueOf c.learning "ignore_streak_threshold"
  window := (valueOf c.learning "recency_window_hours").toNumber.bind Time.hours

/-- Where what was learned is saved. -/
def storage? (c : Config) : Except Fault (Option FilePath) :=
  if (valueOf c.storage "enabled").truthy then
    match (valueOf c.storage "path").text? with
    | some path => .ok (some (.ofString path))
    | none => .error .wrongKind
  else .ok none

/-- Refuses settings of the log that are no text. -/
def checkLogging (c : Config) : Except Fault Unit := do
  let file := valueOf c.logging "log_file"
  if file.truthy && file.text?.isNone then throw .wrongKind
  let level := valueOf c.logging "level"
  if level.text?.isNone then throw .noSuchOperation

/-- The configuration in use. -/
def settings (c : Config) : Except Fault Settings := do
  return ⟨← c.registry, c.smoothing, c.rules, valueOf c.engine "confidence_threshold",
    valueOf c.engine "max_suggestions", ← c.storage?⟩

end Config

end CodeHabits
