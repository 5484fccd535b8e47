import CodeHabits.Learning
import CodeHabits.Store

/-!
# `CodeHabits.Memory`: what one session has learned

A memory holds the store of patterns, the preferences, and how many
suggestions were ignored in a row. `feedback` takes in one reaction and
`decay` runs one pass of forgetting, pattern by pattern. Either of them may
fail on the way and then keeps what was changed before.
-/

set_option autoImplicit false

namespace CodeHabits

open Time (Timestamp)

/-- What was learned. -/
structure Memory (ν : Type) where
  store : Store ν
  preferences : Preferences ν
  /-- The number of ignored suggestions in a row. -/
  streak : Nat

/-- What a pass of forgetting did. -/
structure DecayReport where
  examined : Nat
  decayed : Nat
  retiredIds : List Label

/-- The report as a document. -/
def DecayReport.document (r : DecayReport) : Value :=
  .object
    [("examined", .ofNat r.examined), ("decayed", .ofNat r.decayed),
     ("retired", .ofNat r.retiredIds.length),
     ("retired_ids", .list (r.retiredIds.map Label.value))]

/-- What a reaction did. -/
structure Effect (ν : Type) where
  patternId : Value
  reaction : Reaction
  previous : ν
  confidence : ν
  retired : Value
  learned : List Label
  /-- Why nothing could be learned from modified content. -/
  reparseProblem? : Option String
  decay? : Option DecayReport

/-- The effect as a document. -/
def Effect.document (e : Effect Value) : Except Fault Value := do
  return .object
    ([("pattern_id", e.patternId), ("action", .text e.reaction.name),
      ("previous_confidence", ← e.previous.rounded 6), ("confidence", ← e.confidence.rounded 6),
      ("retired", e.retired), ("learned_pattern_ids", .list (e.learned.map Label.value))]
      ++ (match e.reparseProblem? with
        | some problem => if problem.isEmpty then [] else [("reparse_error", .text problem)]
        | none => [])
      ++ (e.decay?.map fun r => ("decay", r.document)).toList)

/-- What turns modified content in a language into sightings. -/
abbrev Reparse := (source : String) → (language : Label) → Except Fault (List Sighting)

namespace Memory

variable {ν : Type}

/-- Nothing learned. -/
def empty (smoothing : Smoothing ν) : Memory ν :=
  ⟨.empty smoothing, .none, 0⟩

/-- Everything forgotten. -/
def clear (m : Memory ν) : Memory ν :=
  empty m.store.smoothing

section

variable [Magnitude ν]

/-- Changes the store. -/
def inStore {α : Type} (x : Change (Store ν) α) : Change (Memory ν) α :=
  Change.within Memory.store (fun m store => { m with store }) x

/-- Changes the preferences. -/
def inPreferences {α : Type} (x : Change (Preferences ν) α) : Change (Memory ν) α :=
  Change.within Memory.preferences (fun m preferences => { m with preferences }) x

/-- The patterns that come before the first one that a pass of forgetting
fails at. -/
def reached (rules : Learning ν) (window : Int) (now : Timestamp) (patterns : List (Pattern ν)) :
    List (Pattern ν) :=
  patterns.takeWhile fun p => (rules.forget window now p).isOk

/-- The patterns of a store, of which some have gone through a pass of
forgetting. -/
def forgetEach (rules : Learning ν) (window : Int) (now : Timestamp) (passed : List (Pattern ν))
    (patterns : Table Label (Pattern ν)) : Table Label (Pattern ν) :=
  patterns.map fun entry =>
    if passed.any fun p => p.id == entry.1 then
      (entry.1, (rules.forget window now entry.2).toOption.getD entry.2)
    else entry

/-- One pass of forgetting over the live patterns, in the order of their
ids. -/
def decay (rules : Learning ν) (now : Timestamp) : Change (Memory ν) DecayReport := do
  let window ← Change.ofExcept rules.window
  let live := (← Change.ofExcept (← get).store.inOrder).filter fun p => !p.isRetired
  modify fun m =>
    let passed := reached rules window now live
    { m with
      store :=
        { m.store with patterns := forgetEach rules window now passed m.store.patterns } }
  let after ← Change.ofExcept (live.mapM (rules.forget window now))
  let fading ← Change.ofExcept (live.filterM (rules.fades window now))
  return ⟨live.length, fading.length, (after.filter Pattern.isRetired).map (·.id)⟩

/-- The sightings in the content of a modification, or what prevents
learning from it. -/
def resighted (reparse : Reparse) (m : Memory ν) (id : Label) (e : Event) :
    Except Fault (List Sighting × Option String) :=
  match e.reaction, e.modifiedContent with
  | .modified, .text content =>
    if content.isEmpty then .ok ([], none)
    else
      let language := match (some e.surroundings.language).filter Value.truthy with
        | some value => value.toLabel
        | none => .ok ((m.store.get? id).elim (.text "") (·.language))
      match language.bind (reparse content) with
      | .ok sightings => .ok (sightings, none)
      | .error fault => if fault.isDomain then .ok ([], some fault.message) else .error fault
  | _, _ => .ok ([], none)

/-- Logs a reaction, and moves the confidence and the preferences. -/
def takeIn (rules : Learning ν) (id : Label) (e : Event) : Change (Memory ν) Unit := do
  let p ← inStore (Store.edit id do
    rules.learn e
    get)
  inPreferences (rules.prefer e.reaction id p)

/-- Counts ignored suggestions, and runs a pass of forgetting when there were
enough in a row. -/
def countIgnored (rules : Learning ν) (e : Event) : Change (Memory ν) (Option DecayReport) := do
  if e.reaction = .ignored then
    modify fun m => { m with streak := m.streak + 1 }
    let streak : ν := Magnitude.ofInt (← get).streak
    if ← Change.ofExcept (Magnitude.le rules.ignoreThreshold streak) then
      let report ← decay rules e.timestamp
      modify fun m => { m with streak := 0 }
      return some report
    else return none
  else
    modify fun m => { m with streak := 0 }
    return none

/-- Learns from a sighting; answers the id of its pattern. -/
def learn (idOf : IdScheme) (now : Timestamp) (c : Sighting) : Change (Memory ν) Label :=
  inStore (Store.upsert idOf now c)

/-- Learns from several sightings, one after the other. -/
def learnAll (idOf : IdScheme) (now : Timestamp) (sightings : List Sighting) :
    Change (Memory ν) (List Label) :=
  sightings.mapM (learn idOf now)

/-- The pattern of an id that feedback is given on. -/
def target (m : Memory ν) (id : Value) : Except Fault (Label × Pattern ν) := do
  let label ← id.toLabel
  match m.store.get? label with
  | some p => return (label, p)
  | none => throw (.unknownPattern label)

/-- Takes in a reaction. -/
def feedback (idOf : IdScheme) (rules : Learning ν) (reparse : Reparse) (now : Timestamp)
    (e : Event) : Change (Memory ν) (Effect ν) := do
  let m ← get
  let (id, before) ← Change.ofExcept (m.target e.patternId)
  let (sightings, problem?) ← Change.ofExcept (m.resighted reparse id e)
  takeIn rules id e
  let decay? ← countIgnored rules e
  let learned ← learnAll idOf now sightings
  let after := ((← get).store.get? id).getD before
  return ⟨e.patternId, e.reaction, before.confidence, after.confidence, after.retired, learned,
    problem?, decay?⟩

/-- The memory that records and preferences describe, in place of this one.
Nothing changes unless both can be read. -/
def restore {α β : Type} (decode : α → Except Fault (Draft ν))
    (readPreferences : β → Except Fault (Preferences ν)) (m : Memory ν) (records : List α)
    (preferences : β) : Except Fault (Memory ν) := do
  let prefs ← (readPreferences preferences).mapError fun
    | .overflow => .overflow
    | fault => .corrupt (.malformedPreferences fault)
  let store ← m.store.restore decode records
  return ⟨store, prefs, 0⟩

end

/-- A label for what an event is counted under: the language of its
surroundings, or else that of its pattern. -/
def countedLanguage (p : Pattern ν) (e : Event) : Except Fault Label :=
  if e.surroundings.language.truthy then e.surroundings.language.toLabel else .ok p.language

/-- The part of a whole as a floating-point number; zero of nothing. -/
def ratio (part whole : Nat) : Float :=
  if whole = 0 then 0.0 else Binary64.nearest false part whole

/-- Things with how often each came up, most often first; of things that
came up equally often the one seen first goes first. -/
def mostCommon (counts : Table Label Nat) : List Label :=
  (counts.mergeSort fun a b => b.2 ≤ a.2).map (·.1)

/-- How many reasons for rejections are told. -/
def reasonsTold : Nat := 5

/-- Numbers about the reactions in all logs. -/
def feedbackStats [Magnitude ν] (spell : Label → String) (m : Memory ν) : Except Fault Value := do
  let patterns ← m.store.query { Store.Query.live with withRetired := true }
  let events := patterns.flatMap fun p => p.feedback.map fun e => (p, e)
  let languages ← events.mapM fun pe => countedLanguage pe.1 pe.2
  let reasons ← (events.filter fun pe => pe.2.reaction == .rejected && pe.2.reason.truthy).mapM
    fun pe => pe.2.reason.toLabel
  let count (reaction : Reaction) := events.countP fun pe => pe.2.reaction == reaction
  let accepted := ((events.zip languages).filter fun pe => pe.1.2.reaction == .accepted).map (·.2)
  let totals ← sorted (.on (·.1) .label) (Store.tallyLabels languages)
  let rates := totals.map fun entry =>
    (spell entry.1, Value.real (ratio (accepted.countP (· == entry.1)) entry.2))
  return .object
    [("total", .ofNat events.length), ("accepted", .ofNat (count .accepted)),
     ("rejected", .ofNat (count .rejected)), ("modified", .ofNat (count .modified)),
     ("ignored", .ofNat (count .ignored)),
     ("acceptance_rate", .real (ratio (count .accepted) events.length)),
     ("acceptance_by_language", .object rates),
     ("top_rejection_reasons",
       .list (((mostCommon (Store.tallyLabels reasons)).take reasonsTold).map Label.value)),
     ("ignore_streak", .ofNat m.streak)]

end Memory

end CodeHabits
