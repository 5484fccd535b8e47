import CodeHabits.Concrete.Ecma
import CodeHabits.Concrete.Rust
import CodeHabits.Language
import CodeHabits.Outline.Builder
import CodeHabits.Python.Lowering

/-!
# `CodeHabits.FrontEnd`: from source text to trees

A front-end turns source text of some languages into a tree. Three of them
rest on grammars, whose answers for a text are given from outside as
`Grammars`; the outline needs none and takes any language.

`parse` looks at the budget before it begins. A front-end with a grammar
refuses a text in which problems are all it finds; the outline refuses
nothing.
-/

set_option autoImplicit false

namespace CodeHabits

/-- What the grammars answer for source texts. -/
structure Grammars where
  /-- The concrete tree of a text in a grammar. -/
  concrete : (grammar source : String) → Concrete.Node
  /-- What reading a Python text answers. -/
  python : String → Python.Reading

/-- The front-ends. -/
inductive FrontEnd where
  | ecma
  | rust
  | python
  | outline
  deriving DecidableEq, Repr

namespace FrontEnd

/-- The language after which a front-end is named. -/
def language : FrontEnd → String
  | ecma => "javascript"
  | rust => "rust"
  | python => "python"
  | outline => "generic"

/-- The languages for which a front-end is made. -/
def languages : FrontEnd → List String
  | ecma => ["javascript", "typescript"]
  | frontEnd => [frontEnd.language]

/-- The name under which the grammar for a file is known. -/
def grammar (frontEnd : FrontEnd) (language file : String) : String :=
  match frontEnd with
  | ecma => Concrete.Ecma.grammar (language == "typescript") file
  | _ => frontEnd.language

/-- The tree of a source text with what is wrong in it. -/
def build (frontEnd : FrontEnd) (g : Grammars) (source file language : String) : Timed Parsed :=
  let concrete (dialect : Concrete.SourceFile → Concrete.Dialect) : Timed Parsed :=
    Concrete.build (dialect ⟨file, .ofString source⟩) source language
      (g.concrete (frontEnd.grammar language file) source)
  match frontEnd with
  | ecma => concrete (Concrete.Ecma.dialect (language == "typescript"))
  | rust => concrete Concrete.Rust.dialect
  | python => Python.build g.python source file language
  | outline => Outline.build source file language

/-- Parses a source text. -/
def parse (frontEnd : FrontEnd) (g : Grammars) (source file language : String) : Timed Parsed := do
  Timed.check
  let parsed ← frontEnd.build g source file language
  match frontEnd with
  | outline => return parsed
  | _ => Timed.ofExcept parsed.accept

/-- The tokens of a source text as its grammar sees them, with their
kinds. -/
def tokens (frontEnd : FrontEnd) (g : Grammars) (source : String) : List (String × String) :=
  Concrete.leaves (.ofString source) (g.concrete (frontEnd.grammar frontEnd.language "") source)

end FrontEnd

/-- The front-ends at hand and the limits on parsing. -/
structure Registry where
  frontEnds : List FrontEnd
  /-- The languages allowed, by their canonical names. -/
  supported : List String
  /-- Whether allowed languages without a front-end are outlined. -/
  fallback : Bool
  /-- The number of bytes that a source text may have. -/
  sizeLimit : Value
  /-- The seconds that parsing may take. -/
  timeout : Value

namespace Registry

/-- Every front-end, with limits, for the languages of some hints. -/
def usual (hints : List String) (sizeLimit timeout : Value) : Registry :=
  ⟨[.ecma, .python, .rust], hints.map normalizeLanguage, true, sizeLimit, timeout⟩

/-- The front-end for a canonical language name. -/
def frontEnd? (r : Registry) (language : String) : Option FrontEnd :=
  (r.frontEnds.reverse.find? fun f => f.languages.contains language).or
    (if r.fallback then some .outline else none)

/-- The front-end for a language hint. -/
def resolve (r : Registry) (hint : String) : Except Fault FrontEnd :=
  let language := normalizeLanguage hint
  let refusal := Except.error (Fault.unsupported language r.supported)
  if !r.supported.contains language then refusal
  else match r.frontEnd? language with
    | some frontEnd => .ok frontEnd
    | none => refusal

/-- Refuses a source text that is too large. -/
def needSize (r : Registry) (source : String) : Except Fault Unit := do
  let size := source.utf8ByteSize
  if ← Magnitude.lt r.sizeLimit (.ofNat size) then throw (.tooLarge size r.sizeLimit)

/-- Parses a source text within the limits. -/
def parse (r : Registry) (g : Grammars) (source hint file : String) : Except Fault Parsed := do
  r.needSize source
  let frontEnd ← r.resolve hint
  let budget ← Budget.ofSeconds r.timeout
  ((frontEnd.parse g source file (normalizeLanguage hint)).outcome budget).1

end Registry

end CodeHabits
