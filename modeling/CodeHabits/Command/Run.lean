import CodeHabits.Command
import CodeHabits.Session

/-!
# `CodeHabits.Command.Run`: commands at work

Commands print lines, some of them in a style, and tables. The style of a
line is written around it in brackets.

A command line is run in a session of its own. The session begins with what
was saved and ends by saving, whatever the command does. A fault of the
domain is printed and gives the exit code one; any other fault ends the run
once the session has ended, and leaves standing what was printed before it.
-/

set_option autoImplicit false

namespace CodeHabits

open Time (Timestamp)

/-- Something printed. -/
inductive Printout where
  /-- The panel with the name of the program. -/
  | banner
  | line (text : String)
  | table (title : String) (columns : List String) (rows : List (List String))

namespace Printout

/-- A line in a style. -/
def styled (style text : String) : Printout :=
  .line ("[" ++ style ++ "]" ++ text ++ "[/" ++ style ++ "]")

/-- The complaint that a file cannot be read. The reason is the system's, so
it is only hinted at, and nothing follows it. -/
def unreadable (style : String) (path : FilePath) : Printout :=
  .line ("[" ++ style ++ "]Cannot read " ++ path.shown ++ ": <runtime>")

/-- A row of cells, each filled up to the width of its column. -/
def rowLine (widths : List Nat) (cells : List String) : String :=
  "  ".intercalate ((cells.zip widths).map fun (cell, width) =>
    cell ++ String.ofList (List.replicate (width - cell.length) ' '))

/-- The width of each column. -/
def widths (columns : List String) (rows : List (List String)) : List Nat :=
  rows.foldl (fun widths row => widths.zipWith (fun width cell => max width cell.length) row)
    (columns.map String.length)

/-- The lines of what is printed. -/
def lines : Printout → List String
  | banner => ["CodeWhisper", "Local pattern learning for your code"]
  | line text => [text]
  | table title columns rows =>
    let widths := widths columns rows
    title :: (columns :: rows).map (rowLine widths)

end Printout

/-- A session and what was printed in it. -/
structure Terminal where
  session : Session
  printed : List Printout

namespace Terminal

/-- Prints something. -/
def print (p : Printout) : Change Terminal Unit :=
  modify fun t => { t with printed := t.printed ++ [p] }

/-- Does something with the session. -/
def inSession {α : Type} (x : Change Session α) : Change Terminal α :=
  Change.within Terminal.session (fun t session => { t with session }) x

end Terminal

namespace Command

open Terminal

/-- A share in percent, with one place. -/
def percent (share : Float) : String :=
  Decimal.fixed 1 (share * 100.0) ++ "%"

/-- The files that a path stands for: itself, or the files of known endings
in a folder. Nothing for a path that leads nowhere. -/
def filesAt (files : Files) (path : FilePath) : List FilePath :=
  if files.isFolder path then
    (files.below path).filter fun file => endingLanguages.has (Text.lower (pathEnding file.shown))
  else if files.isFile path then [path]
  else []

/-- The texts of files. A complaint is printed for a file that holds no
text. -/
def readTexts (language? : Option String) : List FilePath → Change Terminal (List SourceText)
  | [] => return []
  | path :: rest => do
    match (← get).session.files.text path with
    | .ok code => return ⟨code, language?, path.shown⟩ :: (← readTexts language? rest)
    | .error _ => do
      print (.unreadable "yellow" path)
      readTexts language? rest

/-- A row about an analysis. -/
def analysisRow (a : Analysis) : List String :=
  [a.file, a.findings.language, toString a.findings.candidates.length, toString a.newPatterns,
    if a.findings.diagnostics.isEmpty then "" else "yes"]

/-- The line about a fault of the domain. -/
def faultText (fault : Fault) : String :=
  fault.code?.getD "" ++ ": " ++ fault.message

/-- Learns from files. -/
def analyzeFiles (paths : List FilePath) (language? : Option String) : Change Terminal Nat := do
  let files := (← get).session.files
  let texts ← readTexts language? (paths.flatMap (filesAt files))
  let batch ← inSession (Session.learning fun setup now =>
    setup.analyzeBatch now ⟨[], [], false⟩ none texts)
  print (.table "Analysis" ["File", "Language", "Candidates", "New", "Partial"]
    (batch.results.map analysisRow))
  batch.failures.forM fun f => print (.styled "red" (f.file ++ ": " ++ faultText f.fault))
  return if !batch.failures.isEmpty && batch.results.isEmpty then 1 else 0

/-- A row about a suggestion. -/
def suggestionRow (prefs : Preferences Value) (s : Scored Value) :
    Except Fault (List String) := do
  let style ← s.pattern.styles.dominant
  let why ← Scored.rationale prefs style s.pattern
  return [s.pattern.id.display, s.pattern.kind.name, ← s.score.fixed 3, s.pattern.sample.display,
    why]

/-- Shows suggestions. -/
def showSuggestions (language : String) (recent : List String) (most? : Option Int)
    (threshold? : Option Value) : Change Terminal Nat := do
  let session := (← get).session
  let found ← Change.ofExcept (session.suggest language recent most? threshold?)
  let rows ← Change.ofExcept (found.mapM (suggestionRow session.memory.preferences))
  if rows.isEmpty then
    print (.styled "dim" "No suggestions above the confidence threshold.")
  else
    print (.table ("Suggestions for " ++ language) ["Pattern", "Type", "Score", "Example", "Why"]
      rows)
  return 0

/-- Takes in a reaction, perhaps with the file that holds the modified
content. -/
def takeReaction (id : String) (reaction : Reaction) (reason? : Option String)
    (modified? : Option FilePath) : Change Terminal Nat := do
  let files := (← get).session.files
  let content ← Change.ofExcept (modified?.mapM files.text)
  let effect ← inSession (Session.feedback (.text id) reaction reason? .unknown content none)
  let previous ← Change.ofExcept (effect.previous.fixed 3)
  let confidence ← Change.ofExcept (effect.confidence.fixed 3)
  print (.line (effect.patternId.display ++ ": " ++ effect.reaction.name ++ ", confidence "
    ++ previous ++ " -> " ++ confidence))
  if !effect.learned.isEmpty then
    print (.styled "dim"
      ("Learned " ++ toString effect.learned.length ++ " patterns from modified code"))
  match effect.reparseProblem?.filter fun problem => !problem.isEmpty with
  | some problem => print (.styled "yellow" ("Modified code not learned: " ++ problem))
  | none => return 0
  return 0

/-- Runs a pass of forgetting. -/
def runDecay : Change Terminal Nat := do
  let report ← inSession (Session.decay none)
  print (.line ("Examined " ++ toString report.examined ++ " patterns: "
    ++ toString report.decayed ++ " decayed, " ++ toString report.retiredIds.length ++ " retired"))
  return 0

/-- The numbers shown, by their names in the statistics. -/
def shownNumbers : List String :=
  ["total_patterns", "active_patterns", "retired_patterns", "total_sightings",
    "average_confidence"]

/-- Shows numbers about what was learned. -/
def showStatistics : Change Terminal Nat := do
  let stats ← Change.ofExcept ((← get).session.statistics .answer)
  let valueOf (name : String) : Value := (stats.get? name).getD .null
  let ofFeedback (name : String) : Value := ((valueOf "feedback").member? name).getD .null
  let acceptance ← Change.ofExcept (ofFeedback "acceptance_rate").toReal
  print (.table "Pattern Store" ["Metric", "Value"]
    ((shownNumbers.map fun name => [Scored.spaced name, (valueOf name).display])
      ++ [["feedback events", (ofFeedback "total").display],
        ["acceptance rate", percent acceptance]]))
  let kinds := (valueOf "by_type").members?.getD []
  if !kinds.isEmpty then
    print (.table "By Type" ["Type", "Patterns"]
      (kinds.map fun entry => [entry.1, entry.2.display]))
  return 0

/-- Writes what was learned to a file, in a folder that is made if need
be. -/
def writeExport (path : FilePath) : Change Terminal Nat := do
  let session := (← get).session
  let members ← Change.ofExcept (session.snapshot Storage.manner)
  let files ← Change.ofExcept do
    Storage.writeJson (← session.files.makeFolder path.folder) path (.object members)
  inSession (modify fun s => { s with files })
  let count := match members.get? "patterns" with
    | some (.list patterns) => patterns.length
    | _ => 0
  print (.line ("Exported " ++ toString count ++ " patterns to " ++ path.shown))
  return 0

/-- Takes in what a file holds. -/
def readImport (path : FilePath) (replace : Bool) : Change Terminal Nat := do
  match Storage.readJson (← get).session.files path with
  | .error fault =>
    if fault.isOfFile then
      print (.unreadable "red" path)
      return 1
    else throw fault
  | .ok (.object members) =>
    let added ← inSession (Session.takeSnapshot (.object members) replace)
    print (.line ("Imported " ++ toString added ++ " patterns from " ++ path.shown))
    return 0
  | .ok _ =>
    print (.styled "red" (path.shown ++ " is not a pattern export"))
    return 1

/-- Does what a command asks for; answers the exit code. -/
def perform : Command → Change Terminal Nat
  | analyze paths language? => analyzeFiles paths language?
  | suggest language recent most? threshold? => showSuggestions language recent most? threshold?
  | feedback id reaction reason? modified? => takeReaction id reaction reason? modified?
  | decay => runDecay
  | stats => showStatistics
  | exportTo path => writeExport path
  | importFrom path replace => readImport path replace

/-- Does what a command asks for; a fault of the domain is printed. -/
def answer (c : Command) : Change Terminal Nat := do
  let (result, t) := c.perform.outcome (← get)
  set t
  match result with
  | .ok code => return code
  | .error fault =>
    if fault.isDomain then
      print (.styled "red" (faultText fault))
      return 1
    else throw fault

/-- Runs a command between the beginning and the end of a session. -/
def runIn (c : Command) : Change Terminal Nat := do
  let _ ← inSession Session.load
  let (result, t) := c.answer.outcome (← get)
  set t
  inSession Session.close
  Change.ofExcept result

end Command

/-- What surrounds a command line. -/
structure Surrounding where
  files : Files
  environment : Environment
  /-- The configuration files to look for, the first first. -/
  configs : List FilePath
  grammars : Grammars
  now : Timestamp

/-- What a command line did. -/
structure CommandOutcome where
  /-- The exit code, or the fault that ended the run. -/
  exit : Except Fault Nat
  printed : List Printout
  files : Files

namespace Invocation

/-- The content of a configuration file; nothing if it is blank. -/
def configContent (files : Files) (path : FilePath) : Except Fault Value := do
  let text ← files.text path
  if text.toList.all Text.isBlank then return .null else Storage.decode text.toList

/-- The configuration that holds for a command line. -/
def config (i : Invocation) (around : Surrounding) : Except Fault Config := do
  let path? := i.config?.or (around.configs.find? around.files.isThere)
  let content ← match path?.filter around.files.isThere with
    | some path => configContent around.files path
    | none => pure .null
  let config ← Config.load content around.environment
  config.checkLogging
  return config

/-- Runs a command line that was read. -/
def run (i : Invocation) (around : Surrounding) : CommandOutcome :=
  let printed := if i.quiet then [] else [Printout.banner]
  match i.config around with
  | .error fault => ⟨.error fault, [], around.files⟩
  | .ok config =>
    match config.settings with
    | .error fault => ⟨.error fault, printed, around.files⟩
    | .ok settings =>
      let session := Session.start settings around.grammars around.files around.now
      let (exit, t) := i.command.runIn.outcome ⟨session, printed⟩
      ⟨exit, t.printed, t.session.files⟩

end Invocation

/-- Runs a command line. A request for help ends well, and arguments that do
not fit give the exit code two. -/
def runCommandLine (arguments : List String) (around : Surrounding) : CommandOutcome :=
  match Invocation.read arguments with
  | .ok invocation => invocation.run around
  | .error .help => ⟨.ok 0, [], around.files⟩
  | .error .misuse => ⟨.ok 2, [], around.files⟩

end CodeHabits
