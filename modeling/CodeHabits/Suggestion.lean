import CodeHabits.Language
import CodeHabits.Memory

/-!
# `CodeHabits.Suggestion`: which patterns to suggest

The score of a pattern is its confidence times the weights of its language
and kind, and a factor if it is preferred or avoided. Suggested are the live
patterns of a language whose score reaches a threshold, and only those of
recently used kinds if there are any. The greater score goes first, then the
greater frequency, the later sighting and the lesser id. Suggesting changes
nothing.
-/

set_option autoImplicit false

namespace CodeHabits

open Time (Timestamp)

/-- The seconds since 1970 of a timestamp, as far as a floating-point number
tells them apart. -/
def Time.Timestamp.epochKey (t : Timestamp) : Rat :=
  (Binary64.toRat? t.epoch).getD 0

/-- A pattern with its score. -/
structure Scored (ν : Type) where
  score : ν
  pattern : Pattern ν

/-- What suggestions are wanted. -/
structure Wish (ν : Type) where
  language : String
  /-- Ids of patterns or names of kinds that were used recently. -/
  recent : List String
  /-- How many suggestions there may be; nothing or less means none. -/
  limit : Value
  /-- The least score. -/
  threshold : ν

namespace Memory

variable {ν : Type} [Magnitude ν]

/-- The score of a pattern. -/
def score (rules : Learning ν) (prefs : Preferences ν) (p : Pattern ν) : Except Fault ν := do
  let inLanguage ← Magnitude.mul p.confidence (prefs.languageWeight p.language)
  let ofKind ← Magnitude.mul inLanguage (prefs.kindWeight p.kind.name)
  Magnitude.mul ofKind (prefs.modifier rules.boost rules.avoidancePenalty p.id)

/-- A pattern with its score. -/
def scored (rules : Learning ν) (prefs : Preferences ν) (p : Pattern ν) :
    Except Fault (Scored ν) := do
  return ⟨← score rules prefs p, p⟩

/-- The kind that a name or an id of a recently used pattern stands for. -/
def recentKind? (m : Memory ν) (reference : String) : Option PatternKind :=
  (PatternKind.ofName? reference).or ((m.store.get? (.text reference)).map (·.kind))

/-- The order of suggestions. -/
def suggestionOrder : Precedence (Scored ν) :=
  .greaterFirst (·.score)
    (.greaterFirst (·.pattern.frequency)
      (.greaterFirst (·.pattern.lastSeen.epochKey) (.on (fun s => s.pattern.id) .label)))

/-- Scored patterns whose score reaches a threshold. Scores are worked out
and compared one after the other. -/
def reaching (rules : Learning ν) (prefs : Preferences ν) (threshold : ν) :
    List (Pattern ν) → Except Fault (List (Scored ν))
  | [] => .ok []
  | p :: rest => do
    let s ← scored rules prefs p
    let reaches ← Magnitude.le threshold s.score
    let others ← reaching rules prefs threshold rest
    return if reaches then s :: others else others

/-- Every pattern that a wish without a limit would be answered with. -/
def candidates (rules : Learning ν) (m : Memory ν) (w : Wish ν) :
    Except Fault (List (Scored ν)) := do
  let kinds := w.recent.filterMap m.recentKind?
  let patterns ← m.store.query { Store.Query.live with language? := some (.text w.language) }
  let wanted := patterns.filter fun p => kinds.isEmpty || kinds.contains p.kind
  let found ← reaching rules m.preferences w.threshold wanted
  found.forM fun s => do let _ ← Magnitude.neg s.score
  sorted suggestionOrder found

/-- The patterns to suggest, best first. A limit that is no whole number is
refused once the patterns are found. -/
def suggest (rules : Learning ν) (m : Memory ν) (w : Wish ν) : Except Fault (List (Scored ν)) := do
  if ← Magnitude.le w.limit (.int 0) then return []
  let found ← candidates rules m w
  match w.limit with
  | .int n => return found.take n.toNat
  | .bool _ => return found.take 1
  | _ => throw .wrongKind

end Memory

namespace Scored

/-- A count with its noun, in the plural unless it is one. -/
def counted (count : Value) (noun : String) : String :=
  count.display ++ " " ++ noun ++ (if count.same (.int 1) then "" else "s")

/-- A name with blanks for its underscores. -/
def spaced (name : String) : String :=
  String.ofList (name.toList.map fun c => if c == '_' then ' ' else c)

/-- Why a pattern is suggested. -/
def rationale (prefs : Preferences Value) (style : Table String Label) (p : Pattern Value) :
    Except Fault String := do
  let liking :=
    if prefs.preferred.any (· == p.id) then ["you usually accept this"]
    else if prefs.avoided.any (· == p.id) then ["you often reject this"]
    else []
  let naming := match style.get? "naming_convention" with
    | some label => if label.value.truthy then [label.display ++ " naming"] else []
    | none => []
  return "; ".intercalate
    ([spaced p.kind.name ++ " seen " ++ counted p.frequency "time" ++ " in "
        ++ counted (.ofNat p.sourceFiles.length) "file",
      "confidence " ++ (← p.confidence.fixed 2)]
      ++ liking ++ naming)

/-- A suggestion as a document. -/
def document (prefs : Preferences Value) (s : Scored Value) : Except Fault Value := do
  let p := s.pattern
  let style ← p.styles.dominant
  return .object
    [("pattern_id", p.id.value), ("pattern_type", .text p.kind.name),
     ("adjusted_score", ← s.score.rounded 6), ("rationale", .text (← rationale prefs style p)),
     ("example", p.sample), ("confidence", ← p.confidence.rounded 6),
     ("frequency", p.frequency), ("style", Pattern.styleDocument style)]

end Scored

end CodeHabits
