import CodeHabits.Candidate
import CodeHabits.FrontEnd
import CodeHabits.Memory

/-!
# `CodeHabits.Analysis`: learning from source texts

A source text is parsed, measured and searched for patterns before anything
is learned from it, so a text that fails changes nothing. Of several texts
each is analysed by itself, and those that fail are listed.
-/

set_option autoImplicit false

namespace CodeHabits

open Time (Timestamp)

/-- What a session works with and never changes. -/
structure Setup (ν : Type) where
  registry : Registry
  grammars : Grammars
  rules : Learning ν
  idOf : IdScheme

/-- The name of a text that is in no file. -/
def memoryFile : String := "<memory>"

/-- A source text to learn from. -/
structure SourceText where
  code : String
  /-- A hint at the language; without one the file name tells it. -/
  language? : Option String
  file : String

/-- What was found in a source text. -/
structure Findings where
  language : String
  diagnostics : List Diagnostic
  candidates : List Candidate
  structureMetrics : Value
  formatting : Formatting

/-- What was found in a source text and learned from it. -/
structure Analysis where
  file : String
  findings : Findings
  /-- The ids of the patterns sighted, each once. -/
  patternIds : List Label
  newPatterns : Nat

/-- The analysis as a document. -/
def Analysis.document (a : Analysis) : Value :=
  .object
    [("language", .text a.findings.language), ("source_file", .text a.file),
     ("pattern_ids", .list (a.patternIds.map Label.value)),
     ("candidates", .ofNat a.findings.candidates.length), ("new_patterns", .ofNat a.newPatterns),
     ("diagnostics", .list (a.findings.diagnostics.map Diagnostic.document)),
     ("partial", .bool !a.findings.diagnostics.isEmpty),
     ("metrics",
       .object
         [("structure", a.findings.structureMetrics),
          ("formatting", a.findings.formatting.document)])]

/-- A source text that could not be analysed. -/
structure Failure where
  fault : Fault
  file : String

/-- The failure as a document. -/
def Failure.document (f : Failure) : Value :=
  .object (Table.put f.fault.document "source_file" (.text f.file))

/-- What became of several source texts. -/
structure Batch where
  results : List Analysis
  failures : List Failure
  cancelled : Bool

/-- The batch as a document. -/
def Batch.document (b : Batch) : Value :=
  .object
    [("results", .list (b.results.map Analysis.document)),
     ("errors", .list (b.failures.map Failure.document)), ("cancelled", .bool b.cancelled)]

namespace Setup

variable {ν : Type} (setup : Setup ν)

/-- The language of a source text. -/
def languageOf (t : SourceText) : String :=
  match t.language? with
  | some hint => if hint.isEmpty then detectLanguage t.file else normalizeLanguage hint
  | none => detectLanguage t.file

/-- What is found in a source text in a language. -/
def find (code language file : String) : Except Fault Findings := do
  let parsed ← setup.registry.parse setup.grammars code language file
  let formatting := Formatting.analyze code
  let candidates ← Candidate.extract parsed.tree parsed.language (some file) (some formatting)
  let metrics ← Metrics.analyze parsed.tree
  return ⟨parsed.language, parsed.diagnostics, candidates, ← metrics.document, formatting⟩

/-- The sightings in modified content in a language. -/
def reparse : Reparse := fun code language => do
  let file := "<modified>"
  setup.registry.needSize code
  match language with
  | .text name =>
    let parsed ← setup.registry.parse setup.grammars code name file
    let candidates ←
      Candidate.extract parsed.tree parsed.language (some file) (some (Formatting.analyze code))
    return candidates.map Candidate.sighting
  | _ => throw .noSuchOperation

/-- Ids with one more, unless it is there. -/
def includingId (ids : List Label) (id : Label) : List Label :=
  if ids.any (· == id) then ids else ids ++ [id]

section

variable [Magnitude ν]

/-- Learns from a sighting; answers the id of its pattern and whether the
pattern is new. -/
def learn (now : Timestamp) (c : Sighting) : Change (Memory ν) (Label × Bool) := do
  let known := (← get).store.lookup? c.language c.signature
  let id ← Memory.learn setup.idOf now c
  return (id, known.isNone)

/-- Learns from a source text. -/
def analyze (now : Timestamp) (t : SourceText) : Change (Memory ν) Analysis := do
  let findings ← Change.ofExcept (setup.find t.code (languageOf t) t.file)
  let learned ← findings.candidates.mapM fun c => setup.learn now c.sighting
  return ⟨t.file, findings, (learned.map (·.1)).foldl includingId [], learned.countP (·.2)⟩

/-- Learns from several source texts, from as many as come before a
cancellation. A fault that is not of the domain ends it. -/
def analyzeBatch (now : Timestamp) (b : Batch) : (cancelAfter : Option Nat) →
    List SourceText → Change (Memory ν) Batch
  | _, [] => return b
  | some 0, _ :: _ => return { b with cancelled := true }
  | cancelAfter, t :: rest => do
    let m ← get
    let (result, m) := (setup.analyze now t).outcome m
    set m
    let b ← match result with
      | .ok a => pure { b with results := b.results ++ [a] }
      | .error fault =>
        if fault.isDomain then pure { b with failures := b.failures ++ [⟨fault, t.file⟩] }
        else throw fault
    analyzeBatch now b (cancelAfter.map (· - 1)) rest

/-- Takes in a reaction. -/
def feedback (now : Timestamp) (e : Event) : Change (Memory ν) (Effect ν) :=
  Memory.feedback setup.idOf setup.rules setup.reparse now e

end

/-- Whether a source text has problems, without learning from it. -/
def validate (code language : String) : Except Fault Value :=
  let verdict (valid : Bool) (message : String) (diagnostics : List Value) : Value :=
    .object
      [("valid", .bool valid), ("message", .text message), ("diagnostics", .list diagnostics)]
  match setup.registry.parse setup.grammars code language "<validate>" with
  | .error fault =>
    if fault.isDomain then
      .ok (verdict false fault.message
        (if fault.details.isEmpty then [] else [.object fault.details]))
    else .error fault
  | .ok parsed =>
    match parsed.diagnostics with
    | [] => .ok (verdict true "No syntax errors found" [])
    | first :: rest =>
      .ok (verdict false (first.message ++ " at line " ++ toString first.line)
        ((first :: rest).map Diagnostic.document))

end Setup

end CodeHabits
