import CodeHabits.Text.Classes
import CodeHabits.Text.Lines
import CodeHabits.Text.Word

/-!
# `CodeHabits.Python.Chunks`: top-level pieces of Python source

Source that does not parse as a whole is cut into chunks that may parse by
themselves. A chunk begins at a line in column 0 that is neither blank nor a
comment and does not continue the statement before it. What follows a
decorator stays in the decorator's chunk.
-/

set_option autoImplicit false

namespace CodeHabits.Python

/-- Words that continue the statement before them. -/
def continuationWords : List (List Char) :=
  ["else", "elif", "except", "finally", "case"].map String.toList

/-- Whether a line, without blanks around it, continues the statement before
it: it begins with one of the words, or with a closing bracket. -/
def isContinuation (stripped : List Char) : Bool :=
  (continuationWords.any fun word =>
    word.isPrefixOf stripped && !(stripped.drop word.length).head?.any Text.isWord)
  || stripped.head?.any fun c => c == ')' || c == ']' || c == '\x7d'

/-- Whether a line has text in column 0. -/
def isFlush (line : List Char) : Bool :=
  line.head?.any fun c => !Text.isBlank c

/-- Whether a line could begin a chunk: text in column 0 that is no comment
and no continuation. -/
def canBegin (line : List Char) : Bool :=
  let stripped := Text.trim line
  isFlush line && stripped.head? != some '#' && !isContinuation stripped

/-- Whether a line in column 0 is a decorator. -/
def isDecorator (line : List Char) : Bool :=
  (Text.trim line).head? == some '@'

/-- A chunk: the number of its first line, and its lines. -/
structure Chunk where
  firstLine : Nat
  lines : List (List Char)
  deriving DecidableEq, Repr

/-- The lines up to the next line that begins a chunk, and the lines from
there on. `decorated` says whether the last line in column 0 was a
decorator. -/
def takeChunk (decorated : Bool) : List (List Char) → List (List Char) × List (List Char)
  | [] => ([], [])
  | line :: rest =>
    if canBegin line && !decorated then ([], line :: rest)
    else
      let (mine, others) := takeChunk (if isFlush line then isDecorator line else decorated) rest
      (line :: mine, others)

theorem takeChunk_append (decorated : Bool) (lines : List (List Char)) :
    (takeChunk decorated lines).1 ++ (takeChunk decorated lines).2 = lines := by
  induction lines generalizing decorated with
  | nil => rfl
  | cons line rest ih =>
    unfold takeChunk
    split
    · rfl
    · simp [ih]

theorem length_takeChunk_snd_le (decorated : Bool) (lines : List (List Char)) :
    (takeChunk decorated lines).2.length ≤ lines.length := by
  have h := congrArg List.length (takeChunk_append decorated lines)
  simp only [List.length_append] at h
  omega

/-- The chunks of lines, of which the first has the number `number` and
begins a chunk in any case. -/
def chunksFrom (number : Nat) (lines : List (List Char)) : List Chunk :=
  match lines with
  | [] => []
  | line :: rest =>
    let parts := takeChunk (isFlush line && isDecorator line) rest
    ⟨number, line :: parts.1⟩ :: chunksFrom (number + 1 + parts.1.length) parts.2
termination_by lines.length
decreasing_by
  have := length_takeChunk_snd_le (isFlush line && isDecorator line) rest
  simp only [List.length_cons]
  omega

/-- The chunks of a source text. -/
def splitTopLevel (source : String) : List Chunk :=
  chunksFrom 1 (Text.feedLines source.toList)

/-- Lines joined by line feeds. -/
def joinLines (lines : List (List Char)) : String :=
  String.ofList (['\n'].intercalate lines)

/-- The text of a chunk. -/
def Chunk.text (chunk : Chunk) : String :=
  joinLines chunk.lines

/-- Whether there is nothing but blanks in a chunk. -/
def Chunk.isBlank (chunk : Chunk) : Bool :=
  (Text.trim chunk.text.toList).isEmpty

end CodeHabits.Python
