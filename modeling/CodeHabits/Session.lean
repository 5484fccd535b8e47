import CodeHabits.Analysis
import CodeHabits.Settings
import CodeHabits.Storage
import CodeHabits.Suggestion

/-!
# `CodeHabits.Session`: what one user works with

A session has its settings, what it has learned, a working directory and a
clock. It begins by loading what was saved and ends by saving. A saved file
that cannot be used does not keep a session from working: it begins with
nothing learned.
-/

set_option autoImplicit false

namespace CodeHabits

open Time (Timestamp)

namespace Memory

/-- What was learned, as a snapshot. -/
def snapshot (manner : Manner Value) (m : Memory Value) (now : Timestamp) :
    Except Fault (Table String Value) := do
  let patterns ← m.store.snapshot manner
  let preferences ← m.preferences.document manner
  return [("schema_version", .int Snapshot.currentVersion), ("saved_at", now.value),
    ("patterns", .list patterns), ("preferences", preferences)]

/-- The way programs read preferences. -/
def readPreferences : Value → Except Fault (Preferences Value) :=
  Preferences.read fun value => value.toReal.map .real

/-- The memory that a snapshot describes, in place of this one. -/
def ofSnapshot (m : Memory Value) (members : Table String Value) :
    Except Fault (Memory Value) :=
  m.restore Store.readRecord readPreferences (Snapshot.records members)
    (((members.get? "preferences").filter Value.truthy).getD (.object []))

/-- Takes a snapshot in, in place of what was learned or merged into it;
answers how many patterns came with it. -/
def takeSnapshot (idOf : IdScheme) (document : Value) (replace : Bool) :
    Change (Memory Value) Nat := do
  let members ← Change.ofExcept (Snapshot.migrate document)
  if replace then
    set (← Change.ofExcept ((← get).ofSnapshot members))
    return (← get).store.size
  else
    inStore (Store.merge idOf Store.readRecord Smoothing.default (Snapshot.records members))

/-- Numbers about what was learned. -/
def statistics (manner : Manner Value) (m : Memory Value) (languages : List String) :
    Except Fault (Table String Value) := do
  let stats ← m.store.stats manner.spell
  return stats ++
    [("feedback", ← m.feedbackStats manner.spell), ("preferences", ← m.preferences.document manner),
     ("supported_languages", .list (languages.map .text))]

end Memory

/-- A session. -/
structure Session where
  settings : Settings
  grammars : Grammars
  memory : Memory Value
  /-- Whether the session has ended. -/
  closed : Bool
  files : Files
  now : Timestamp

namespace Session

/-- A session that has learned nothing. -/
def start (settings : Settings) (grammars : Grammars) (files : Files) (now : Timestamp) : Session :=
  ⟨settings, grammars, .empty settings.smoothing, false, files, now⟩

/-- What the session works with and never changes. -/
def setup (s : Session) : Setup Value :=
  ⟨s.settings.registry, s.grammars, s.settings.rules, .usual⟩

/-- Runs a change of what was learned. -/
def learning {α : Type} (x : Setup Value → Timestamp → Change (Memory Value) α) :
    Change Session α := do
  let s ← get
  Change.within Session.memory (fun s memory => { s with memory }) (x s.setup s.now)

/-- What was learned, as a snapshot. -/
def snapshot (manner : Manner Value) (s : Session) : Except Fault (Table String Value) :=
  s.memory.snapshot manner s.now

/-- What was learned and saved earlier, in place of what was learned here,
and how many patterns that is. -/
def loaded (s : Session) : Except Fault (Memory Value × Nat) :=
  match s.settings.storage? with
  | none => .ok (s.memory, 0)
  | some path =>
    let restored := do
      match ← Storage.load s.files path with
      | none => return (s.memory, 0)
      | some members =>
        let memory ← s.memory.ofSnapshot members
        return (memory, memory.store.size)
    match restored with
    | .error (.corrupt _) => .ok (s.memory.clear, 0)
    | other => other

/-- Loads what was saved; answers how many patterns that is. -/
def load : Change Session Nat := do
  let s ← get
  let (memory, count) ← Change.ofExcept s.loaded
  set { s with memory }
  return count

/-- Saves what was learned; answers where. -/
def save : Change Session (Option FilePath) := do
  let s ← get
  match s.settings.storage? with
  | none => return none
  | some path =>
    let members ← Change.ofExcept (s.snapshot Storage.manner)
    set { s with files := ← Change.ofExcept (Storage.save s.files path members) }
    return some path

/-- Ends the session: saves what was learned, unless it has ended. -/
def close : Change Session Unit := do
  if (← get).closed then return ()
  let _ ← save
  modify fun s => { s with closed := true }

/-- Takes in a reaction to a pattern, at a time or now. -/
def feedback (id : Value) (reaction : Reaction) (reason : Option String)
    (surroundings : Surroundings) (content : Option String) (at? : Option Timestamp) :
    Change Session (Effect Value) :=
  learning fun setup now =>
    setup.feedback now
      { patternId := id, reaction, timestamp := at?.getD now, reason := .ofText? reason
        surroundings, modifiedContent := .ofText? content }

/-- Runs a pass of forgetting, at a time or now. -/
def decay (at? : Option Timestamp) : Change Session DecayReport :=
  learning fun setup now => Memory.decay setup.rules (at?.getD now)

/-- The patterns to suggest. -/
def suggest (s : Session) (language : String) (recent : List String) (most? : Option Int)
    (threshold? : Option Value) : Except Fault (List (Scored Value)) :=
  Memory.suggest s.settings.rules s.memory
    ⟨normalizeLanguage language, recent, (most?.map Value.int).getD s.settings.suggestions,
      threshold?.getD s.settings.threshold⟩

/-- Takes in a snapshot; answers how many patterns came with it. -/
def takeSnapshot (document : Value) (replace : Bool) : Change Session Nat :=
  learning fun setup _ => Memory.takeSnapshot setup.idOf document replace

/-- Numbers about what was learned. -/
def statistics (manner : Manner Value) (s : Session) : Except Fault (Table String Value) :=
  s.memory.statistics manner s.settings.registry.supported

/-- The patterns of a language and kind; what is no more than nothing does
not matter. -/
def patterns (s : Session) (language kind : Value) (withRetired : Bool) :
    Except Fault (List (Pattern Value)) := do
  let language? ←
    if !language.truthy then pure none
    else match language.text? with
      | some name => pure (some (Value.text (normalizeLanguage name)))
      | none => throw .noSuchOperation
  let kinds? ← if kind.truthy then do pure (some [← PatternKind.ofValue kind]) else pure none
  s.memory.store.query { Store.Query.live with language?, kinds?, withRetired }

/-- Forgets everything. -/
def clear (s : Session) : Session :=
  { s with memory := s.memory.clear }

end Session

end CodeHabits
