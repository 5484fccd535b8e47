import CodeHabits.Magnitude
import CodeHabits.Pattern.Event
import CodeHabits.Pattern.Kind
import CodeHabits.Value.Order

/-!
# `CodeHabits.Pattern.Record`: what is known of a pattern

A pattern is recognised by its language and signature and is known under an
id. What is known of it are a confidence, the number of sightings, the times
of the first and the last sighting and of the last event that kept it alive,
the files in which it was seen, the log of reactions to it, and how often
each style was seen.

Tallies come from snapshots as well, so a count is a value, and counting
further fails if it is no number. `tally` leaves behind what it has counted
up to there. Whether a pattern is retired is a value too, of which only
matters whether it is more than nothing.

`Draft.read` takes a pattern out of a document. What it is recognised by may
then still be anything; only a store asks for labels.
-/

set_option autoImplicit false

namespace CodeHabits

open Time (Timestamp)

/-- How often each value of each habit of style was seen. -/
abbrev Tallies := Table String (Table Label Value)

/-- A computation that changes a state and may fail on the way. What was
changed up to the failure stays changed. -/
abbrev Change (σ α : Type) := ExceptT Fault (StateM σ) α

namespace Change

variable {σ α : Type}

/-- The outcome and the state that is left. -/
def outcome (x : Change σ α) (s : σ) : Except Fault α × σ :=
  x.run.run s

/-- Takes over an outcome. -/
def ofExcept : Except Fault α → Change σ α
  | .ok value => pure value
  | .error fault => throw fault

/-- Changes a part of a state. -/
def within {τ : Type} (get : σ → τ) (set : σ → τ → σ) (x : Change τ α) : Change σ α := do
  let s ← MonadState.get
  let (result, part) := x.outcome (get s)
  MonadState.set (set s part)
  ofExcept result

end Change

namespace Tallies

/-- One more than a count. A value that was not seen yet counts from
zero. -/
def next (count? : Option Value) : Except Fault Value :=
  Magnitude.add (count?.getD (.int 0)) (.int 1)

/-- Counts one value of one habit. -/
def tallyOne (habit : String) (seen : Value) : Change Tallies Unit := do
  modify fun tallies => tallies.putNew habit []
  let label ← Change.ofExcept seen.toLabel
  let counts := ((← get).get? habit).getD []
  let count ← Change.ofExcept (next (counts.get? label))
  modify fun tallies => tallies.put habit (counts.put label count)

/-- Counts the values of several habits, which have to be the members of an
object. -/
def tally (style : Value) : Change Tallies Unit := do
  (← Change.ofExcept style.toMembers).forM fun entry => tallyOne entry.1 entry.2

/-- Whether a value with a count goes before another one: it has the greater
count, or the same and the lesser label. -/
def goesBefore (a b : Label × Number) : Except Fault Bool :=
  if b.2.lt a.2 then .ok true
  else if b.2.le a.2 then
    match Precedence.label a.1 b.1 with
    | some answer => .ok answer
    | none => .error .wrongKind
  else .ok false

/-- A value with its count, which has to be a number. -/
def counted (entry : Label × Value) : Except Fault (Label × Number) := do
  return (entry.1, ← entry.2.toNumber)

/-- The value seen most often, given the best so far. -/
def mostSeen (best : Label × Number) : List (Label × Value) → Except Fault Label
  | [] => .ok best.1
  | entry :: rest => do
    let here ← counted entry
    mostSeen (if ← goesBefore here best then here else best) rest

/-- The value seen most often of each habit of which any was seen, by the
names of the habits. Of values seen equally often it is the least. -/
def dominant (tallies : Tallies) : Except Fault (Table String Label) := do
  let habits := (tallies.filter fun habit => !habit.2.isEmpty).mergeSort fun a b => !(b.1 < a.1)
  habits.mapM fun habit =>
    match habit.2 with
    | first :: rest => do return (habit.1, ← mostSeen (← counted first) rest)
    | [] => throw .wrongKind

end Tallies

/-- What is known of a pattern besides what it is recognised by. -/
structure Knowledge (ν : Type) where
  kind : PatternKind
  confidence : ν
  /-- The number of sightings. -/
  frequency : ν
  firstSeen : Timestamp
  lastSeen : Timestamp
  lastTouched : Timestamp
  sourceFiles : List Value
  feedback : List Event
  styles : Tallies
  sample : Value
  /-- Whether the pattern is retired, as it was given. -/
  retired : Value

/-- A learned pattern. -/
structure Pattern (ν : Type) extends Knowledge ν where
  id : Label
  language : Label
  signature : Label

namespace Pattern

variable {ν : Type}

/-- What a pattern is recognised by. -/
def name (p : Pattern ν) : Label × Label :=
  (p.language, p.signature)

/-- Whether the pattern is retired. -/
def isRetired (p : Pattern ν) : Bool :=
  p.retired.truthy

/-- How often somebody reacted in a way. -/
def reactions (p : Pattern ν) (reaction : Reaction) : Nat :=
  p.feedback.countP fun e => e.reaction == reaction

/-- The accepted less the rejected events. -/
def netFeedback (p : Pattern ν) : Int :=
  p.reactions .accepted - p.reactions .rejected

/-- Adds a file unless it is known. -/
def addSource (files : List Value) (file : Value) : List Value :=
  if files.any (file.same ·) then files else files ++ [file]

end Pattern

/-- How what was learned is written down: what becomes of a number, and how
a label is spelled as the name of a member. -/
structure Manner (ν : Type) where
  number : ν → Value
  spell : Label → String

/-- The manner of answers, in which labels are spelled as in messages. -/
def Manner.answer : Manner Value :=
  ⟨id, Label.display⟩

namespace Pattern

variable {ν : Type}

/-- Counts as a document. -/
def countsDocument (spell : Label → String) (counts : Table Label Value) : Value :=
  .object (counts.map fun entry => (spell entry.1, entry.2))

/-- The pattern as a document. -/
def document (manner : Manner ν) (p : Pattern ν) : Value :=
  .object
    [("id", p.id.value), ("pattern_type", .text p.kind.name), ("language", p.language.value),
     ("signature", p.signature.value), ("confidence", manner.number p.confidence),
     ("frequency", manner.number p.frequency), ("first_seen", p.firstSeen.value),
     ("last_seen", p.lastSeen.value), ("last_touched", p.lastTouched.value),
     ("source_files", .list p.sourceFiles), ("feedback", .list (p.feedback.map Event.document)),
     ("style_counts",
       .object (p.styles.map fun habit => (habit.1, countsDocument manner.spell habit.2))),
     ("example", p.sample), ("retired", p.retired)]

/-- A style as a document. -/
def styleDocument (style : Table String Label) : Value :=
  .object (style.map fun habit => (habit.1, habit.2.value))

end Pattern

/-- A number rounded to so many decimal places; a whole number stays as it
is. -/
def Number.rounded (places : Nat) : Number → Value
  | .int n => .int n
  | .real x => .real (Decimal.roundPlaces places x)

/-- The number that a value must be, rounded. -/
def Value.rounded (places : Nat) (value : Value) : Except Fault Value := do
  return (← value.toNumber).rounded places

/-- The number that a value must be, with so many decimal places. -/
def Value.fixed (places : Nat) (value : Value) : Except Fault String := do
  return Decimal.fixed places (← Number.orOverflow (← value.toNumber).toReal?)

/-- The pattern without its log, for people. -/
def Pattern.summary (p : Pattern Value) : Except Fault Value := do
  return .object
    [("id", p.id.value), ("pattern_type", .text p.kind.name), ("language", p.language.value),
     ("confidence", ← p.confidence.rounded 4), ("frequency", p.frequency),
     ("example", p.sample), ("style", styleDocument (← p.styles.dominant)),
     ("source_files", .list p.sourceFiles), ("retired", p.retired),
     ("last_seen", p.lastSeen.value)]

/-- A pattern out of a document, before a store has taken it in. -/
structure Draft (ν : Type) where
  id : Value
  language : Value
  signature : Value
  known : Knowledge ν

namespace Draft

variable {ν : Type}

/-- The tallies out of a document. -/
def readTallies (document : Value) : Except Fault Tallies := do
  (← document.toMembers).mapM fun habit => do return (habit.1, ← habit.2.toEntries)

/-- A pattern out of a document, its confidence read by `number`. -/
def read [Magnitude ν] (number : Value → Except Fault ν) (document : Value) :
    Except Fault (Draft ν) := do
  let id ← document.needMember "id"
  let kind ← PatternKind.ofValue (← document.needMember "pattern_type")
  let language ← document.needMember "language"
  let signature ← document.needMember "signature"
  let confidence ← number (← document.needMember "confidence")
  let frequency := Magnitude.ofInt (← (← document.needMember "frequency").toWhole)
  let firstSeen ← Time.readTimestamp (← document.needMember "first_seen")
  let lastSeen ← Time.readTimestamp (← document.needMember "last_seen")
  let lastTouched ← Time.readTimestamp (← document.needMember "last_touched")
  let sourceFiles ← ((document.member? "source_files").getD (.list [])).toItems
  let feedback ← (← ((document.member? "feedback").getD (.list [])).toItems).mapM Event.read
  let styles ← readTallies ((document.member? "style_counts").getD (.object []))
  return ⟨id, language, signature,
    { kind, confidence, frequency, firstSeen, lastSeen, lastTouched, sourceFiles, feedback, styles
      sample := (document.member? "example").getD (.text "")
      retired := .bool (((document.member? "retired").map Value.truthy).getD false) }⟩

end Draft

end CodeHabits
