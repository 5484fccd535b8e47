import CodeHabits.Pattern.Id
import CodeHabits.Pattern.Kind
import CodeHabits.Pattern.Record
import CodeHabits.Value.Order

/-!
# `CodeHabits.Store`: the patterns learned so far

A store keeps its patterns by their ids, and an index from what a pattern is
recognised by, its language and signature, to its id. A repeated sighting
raises the frequency of its pattern and moves its confidence towards the
base score; a new one is stored at the base score. Confidences stay in the
unit interval.

The operations are stated for every kind of number, and for every function
`idOf` that proposes an id for a language and a signature.
-/

set_option autoImplicit false

namespace CodeHabits

open Time (Timestamp)

/-- How sightings move confidences. -/
structure Smoothing (ν : Type) where
  /-- The weight of the base score against the confidence so far. -/
  alpha : ν
  base : ν
  /-- A retired pattern seen again is revived above this confidence. -/
  floor : ν

namespace Smoothing

/-- A confidence moved towards the base score. -/
def toward {ν : Type} [Magnitude ν] (m : Smoothing ν) (confidence : ν) : Except Fault ν := do
  let pulled ← Magnitude.mul m.alpha m.base
  let kept ← Magnitude.mul (← Magnitude.sub (Magnitude.ofInt 1) m.alpha) confidence
  clampConfidence (← Magnitude.add pulled kept)

/-- The smoothing of a store of which nothing else is said. -/
def default : Smoothing Value :=
  ⟨.real 0.3, .real 0.5, .real 0.1⟩

/-- The names of the parts of a smoothing. -/
def names : List String :=
  ["smoothing_alpha", "base_score", "forgetting_floor"]

/-- The smoothing that named values give, which may be any. A name that is
none of a smoothing is refused. -/
def ofMembers (members : Table String Value) : Except Fault (Smoothing Value) :=
  if members.all fun entry => names.contains entry.1 then
    .ok ⟨(members.get? "smoothing_alpha").getD default.alpha,
      (members.get? "base_score").getD default.base,
      (members.get? "forgetting_floor").getD default.floor⟩
  else .error .wrongKind

end Smoothing

/-- A store of patterns. -/
structure Store (ν : Type) where
  smoothing : Smoothing ν
  patterns : Table Label (Pattern ν)
  index : Table (Label × Label) Label

/-- What proposes the id of a pattern with a language and a signature. -/
abbrev IdScheme := Label → Label → String

/-- The ids that programs use. -/
def IdScheme.usual : IdScheme := fun language signature =>
  patternId language.display signature.display

namespace Store

variable {ν : Type}

/-- A store without patterns. -/
def empty (smoothing : Smoothing ν) : Store ν :=
  ⟨smoothing, [], []⟩

/-- The store without its patterns. -/
def clear (s : Store ν) : Store ν :=
  empty s.smoothing

/-- The number of patterns. -/
def size (s : Store ν) : Nat :=
  s.patterns.length

/-- The pattern of an id. -/
def get? (s : Store ν) (id : Label) : Option (Pattern ν) :=
  s.patterns.get? id

/-- Whether an id is in use. -/
def has (s : Store ν) (id : Label) : Bool :=
  s.patterns.has id

/-- The id of the pattern that is recognised by a language and a signature.
A pattern whose id is null is never recognised again. -/
def lookup? (s : Store ν) (language signature : Label) : Option Label :=
  (s.index.get? (language, signature)).filter fun id => !(id == .null)

/-- The store with another pattern under an id. -/
def replace (s : Store ν) (id : Label) (p : Pattern ν) : Store ν :=
  { s with patterns := s.patterns.put id p }

/-- The store with a pattern taken in. -/
def insert (s : Store ν) (p : Pattern ν) : Store ν :=
  { s with patterns := s.patterns.put p.id p, index := s.index.put p.name p.id }

/-- The ids that are tried for a proposed one: itself, then with the numbers
from two on behind it. -/
def idCandidate (proposed : String) : Nat → String
  | 0 => proposed
  | n + 1 => proposed ++ "_" ++ toString (n + 2)

/-- The first of these that is not in use. Of one more than there are
patterns some one is not. -/
def freeId (s : Store ν) (proposed : String) : String :=
  (((List.range (s.size + 1)).map (idCandidate proposed)).find? fun id => !s.has (.text id)).getD
    proposed

section

variable [Magnitude ν]

/-- A pattern at its first sighting, before its style is counted. -/
def firstSighting (m : Smoothing ν) (id : Label) (now : Timestamp) (c : Sighting) :
    Except Fault (Pattern ν) := do
  return {
    id
    language := c.language
    signature := c.signature
    kind := c.kind
    confidence := ← clampConfidence m.base
    frequency := Magnitude.ofInt 1
    firstSeen := now
    lastSeen := now
    lastTouched := now
    sourceFiles := [c.sourceFile]
    feedback := []
    styles := []
    sample := c.sample
    retired := .bool false }

/-- Counts the style of a sighting. -/
def countStyle (c : Sighting) : Change (Pattern ν) Unit :=
  Change.within (fun p => p.styles) (fun p styles => { p with styles }) (Tallies.tally c.style)

/-- Takes a further sighting of a pattern in. A retired pattern is revived if
its confidence is above the floor. -/
def seeAgain (m : Smoothing ν) (now : Timestamp) (c : Sighting) : Change (Pattern ν) Unit := do
  let frequency ← Change.ofExcept (Magnitude.add (← get).frequency (Magnitude.ofInt 1))
  modify fun p =>
    { p with frequency, sourceFiles := Pattern.addSource p.sourceFiles c.sourceFile }
  let confidence ← Change.ofExcept (m.toward (← get).confidence)
  modify fun p => { p with confidence }
  countStyle c
  modify fun p => { p with lastSeen := now, lastTouched := now }
  if (← get).isRetired then
    if ← Change.ofExcept (Magnitude.lt m.floor confidence) then
      modify fun p => { p with retired := .bool false }

/-- Changes the pattern of an id, which has to be known. -/
def alter {α : Type} (id : Label) (x : Change (Pattern ν) α) : Change (Store ν) α := do
  match (← get).get? id with
  | none => throw (.missingMember id.display)
  | some p => Change.within (fun _ => p) (fun s p => s.replace id p) x

/-- Learns from a sighting; answers the id of its pattern. If learning fails,
a new pattern is not stored, and a known one keeps what was changed
before. -/
def upsert (idOf : IdScheme) (now : Timestamp) (c : Sighting) : Change (Store ν) Label := do
  let s ← get
  match s.lookup? c.language c.signature with
  | some id => do
    alter id (seeAgain s.smoothing now c)
    return id
  | none =>
    let id := Label.text (s.freeId (idOf c.language c.signature))
    let p ← Change.ofExcept (firstSighting s.smoothing id now c)
    let (counted, p) := (countStyle c).outcome p
    Change.ofExcept counted
    set (s.insert p)
    return id

/-- Forces the confidence of a pattern into the unit interval. -/
def clampPattern : Change (Pattern ν) Unit := do
  let confidence ← Change.ofExcept (clampConfidence (← get).confidence)
  modify fun p => { p with confidence }

/-- Changes the pattern of an id and forces its confidence into the unit
interval, also if the change fails on the way. -/
def edit {α : Type} (id : Label) (x : Change (Pattern ν) α) : Change (Store ν) α :=
  alter id do
    let (result, p) := x.outcome (← get)
    set p
    clampPattern
    Change.ofExcept result

/-- Takes a draft into a store that is being rebuilt. Ids have to be new, and
so has what the pattern is recognised by. -/
def add (s : Store ν) (d : Draft ν) : Except Fault (Store ν) := do
  let id ← d.id.toLabel
  if s.has id then throw (.corrupt (.duplicateRecord id))
  let language ← d.language.toLabel
  let signature ← d.signature.toLabel
  if s.index.has (language, signature) then throw (.corrupt (.duplicateRecord id))
  return s.insert
    { d.known with id, language, signature, confidence := ← clampConfidence d.known.confidence }

end

/-- What a record that cannot be decoded means. Most faults mean that it is
malformed. -/
def malformed : Fault → Fault
  | .overflow => .overflow
  | fault => .corrupt (.malformedRecord fault)

section

variable [Magnitude ν] {α : Type}

/-- The store that records describe, given how a record is decoded. Each
record is decoded and taken in before the next one. -/
def ofRecords (decode : α → Except Fault (Draft ν)) (smoothing : Smoothing ν) (records : List α) :
    Except Fault (Store ν) :=
  records.foldlM (fun s record => do s.add (← (decode record).mapError malformed))
    (empty smoothing)

/-- A store with the patterns that records describe in place of its own. -/
def restore (decode : α → Except Fault (Draft ν)) (s : Store ν) (records : List α) :
    Except Fault (Store ν) :=
  ofRecords decode s.smoothing records

/-- Takes in what another store knows of a pattern that is known here: its
frequency and its files. -/
def gain (other : Pattern ν) : Change (Pattern ν) Unit := do
  let frequency ← Change.ofExcept (Magnitude.add (← get).frequency other.frequency)
  modify fun p =>
    { p with frequency, sourceFiles := other.sourceFiles.foldl Pattern.addSource p.sourceFiles }

/-- Takes in a pattern of another store. A new pattern gets an id that is
free here. -/
def absorb (idOf : IdScheme) (p : Pattern ν) : Change (Store ν) Unit := do
  let s ← get
  match s.lookup? p.language p.signature with
  | some id => alter id (gain p)
  | none => set (s.insert { p with id := .text (s.freeId (idOf p.language p.signature)) })

/-- Takes in the patterns that records describe; answers how many were
new. -/
def merge (idOf : IdScheme) (decode : α → Except Fault (Draft ν)) (default : Smoothing ν)
    (records : List α) : Change (Store ν) Nat := do
  let before ← get
  let incoming ← Change.ofExcept (ofRecords decode default records)
  (incoming.patterns.map (·.2)).forM (absorb idOf)
  return (← get).size - before.size

end

/-- The patterns in the order of their ids. -/
def inOrder (s : Store ν) : Except Fault (List (Pattern ν)) := do
  return (← sorted (.on (·.1) .label) s.patterns).map (·.2)

/-- Every pattern as a document, in the order of their ids. -/
def snapshot (manner : Manner ν) (s : Store ν) : Except Fault (List Value) := do
  return (← s.inOrder).map (Pattern.document manner)

/-- What is asked for in a query. What is `none` does not matter. -/
structure Query (ν : Type) where
  language? : Option Value
  /-- The kinds that are asked for. -/
  kinds? : Option (List PatternKind)
  atLeast? : Option ν
  withRetired : Bool

/-- A query that every live pattern answers. -/
def Query.live : Query ν :=
  ⟨none, none, none, false⟩

section

variable [Magnitude ν]

/-- Whether a confidence is asked for. -/
def Query.admitsConfidence (q : Query ν) (confidence : ν) : Except Fault Bool :=
  match q.atLeast? with
  | none => .ok true
  | some least => Magnitude.le least confidence

/-- Whether a pattern is asked for. -/
def Query.admits (q : Query ν) (p : Pattern ν) : Except Fault Bool :=
  if q.language?.all p.language.value.same && q.kinds?.all (·.contains p.kind) then do
    return (← q.admitsConfidence p.confidence) && (q.withRetired || !p.isRetired)
  else .ok false

/-- The order of answers: the greater confidence first, then the greater
frequency, then the lesser id. -/
def ranking : Precedence (Pattern ν) :=
  .greaterFirst (·.confidence) (.greaterFirst (·.frequency) (.on (fun p => p.id) .label))

/-- Refuses what cannot be ranked: a confidence or a frequency that is no
number. -/
def needRank (p : Pattern ν) : Except Fault Unit := do
  let _ ← Magnitude.neg p.confidence
  let _ ← Magnitude.neg p.frequency

/-- The patterns that are asked for, in order. -/
def query (s : Store ν) (q : Query ν) : Except Fault (List (Pattern ν)) := do
  let found ← (s.patterns.map (·.2)).filterM q.admits
  found.forM needRank
  sorted ranking found

end

/-- How often each of several labels comes up, in the order in which they
first do. -/
def tallyLabels (labels : List Label) : Table Label Nat :=
  labels.foldl (fun counts label => counts.put label (((Table.get? counts label).getD 0) + 1)) []

/-- Counts as a document, in the order of their labels. -/
def sortedCounts (spell : Label → String) (counts : Table Label Nat) : Except Fault Value := do
  let entries ← sorted (.on (·.1) .label) counts
  return .object (entries.map fun entry => (spell entry.1, .ofNat entry.2))

/-- The average of confidences; zero if there are none. -/
def average (confidences : List Value) : Except Fault Float := do
  if confidences.isEmpty then return 0.0
  Number.orOverflow ((← (← total confidences).toNumber).over? confidences.length)

/-- Numbers about a store, as a table. -/
def stats (spell : Label → String) (s : Store Value) : Except Fault (Table String Value) := do
  let patterns := s.patterns.map (·.2)
  let active := patterns.filter fun p => !p.isRetired
  let average ← average (active.map (·.confidence))
  let sightings ← total (patterns.map (·.frequency))
  let byLanguage ← sortedCounts spell (tallyLabels (active.map (·.language)))
  let byKind ← sortedCounts spell (tallyLabels (active.map fun p => .text p.kind.name))
  return [("total_patterns", .ofNat patterns.length), ("active_patterns", .ofNat active.length),
     ("retired_patterns", .ofNat (patterns.length - active.length)),
     ("total_sightings", sightings),
     ("average_confidence", .real (Decimal.roundPlaces 4 average)),
     ("by_language", byLanguage), ("by_type", byKind)]

/-- The way programs read a record. -/
def readRecord : Value → Except Fault (Draft Value) :=
  Draft.read fun value => value.toReal.map .real

end Store

end CodeHabits
