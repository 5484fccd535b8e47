import CodeHabits.Pattern.Record
import CodeHabits.Value.Order

/-!
# `CodeHabits.Preferences`: what somebody likes and avoids

Reactions move a weight for each kind of pattern and one for each language
inside a range around one, and sort patterns into those that are preferred
and those that are avoided.
-/

set_option autoImplicit false

namespace CodeHabits

/-- The weights and the patterns liked and avoided. -/
structure Preferences (ν : Type) where
  kindWeights : Table String ν
  languageWeights : Table Label ν
  preferred : List Label
  avoided : List Label

namespace Preferences

variable {ν : Type}

/-- No preferences. -/
def none : Preferences ν :=
  ⟨[], [], [], []⟩

section

variable [Magnitude ν]

/-- The weight of a kind of pattern. -/
def kindWeight (p : Preferences ν) (kind : String) : ν :=
  (p.kindWeights.get? kind).getD Magnitude.one

/-- The weight of a language. -/
def languageWeight (p : Preferences ν) (language : Label) : ν :=
  (p.languageWeights.get? language).getD Magnitude.one

/-- The factor for a pattern: one of two, or one. -/
def modifier (p : Preferences ν) (boost penalty : ν) (id : Label) : ν :=
  if p.preferred.any (· == id) then boost
  else if p.avoided.any (· == id) then penalty
  else Magnitude.one

end

/-- Labels with one more, unless it is there. -/
def including (labels : List Label) (label : Label) : List Label :=
  if labels.any (· == label) then labels else labels ++ [label]

/-- Labels without one. -/
def excluding (labels : List Label) (label : Label) : List Label :=
  labels.filter fun other => !(other == label)

/-- Weights as a document, in the order of their labels. -/
def weightsDocument (manner : Manner ν) (weights : Table Label ν) : Except Fault Value := do
  let entries ← sorted (.on (·.1) .label) weights
  return .object (entries.map fun entry => (manner.spell entry.1, manner.number entry.2))

/-- Labels as a document, in their order. -/
def labelsDocument (labels : List Label) : Except Fault Value := do
  return .list ((← sorted .label labels).map Label.value)

/-- The preferences as a document. -/
def document (manner : Manner ν) (p : Preferences ν) : Except Fault Value := do
  let kinds ← weightsDocument manner (p.kindWeights.map fun entry => (.text entry.1, entry.2))
  let languages ← weightsDocument manner p.languageWeights
  let preferred ← labelsDocument p.preferred
  let avoided ← labelsDocument p.avoided
  return .object
    [("type_weights", kinds), ("language_weights", languages), ("preferred", preferred),
     ("avoided", avoided)]

/-- The weights in a member of a document. -/
def readWeights (number : Value → Except Fault ν) (members : Table String Value) (name : String) :
    Except Fault (Table String ν) := do
  let weights ← ((members.get? name).getD (.object [])).toMembers
  weights.mapM fun entry => do return (entry.1, ← number entry.2)

/-- The labels in a member of a document, each once. -/
def readLabels (members : Table String Value) (name : String) : Except Fault (List Label) := do
  let items ← ((members.get? name).getD (.list [])).toItems
  let labels ← items.mapM Value.toLabel
  return labels.foldl including []

/-- The preferences out of a document, the weights read by `number`. -/
def read (number : Value → Except Fault ν) (document : Value) : Except Fault (Preferences ν) := do
  let members ← document.toMembers
  let kinds ← readWeights number members "type_weights"
  let languages ← readWeights number members "language_weights"
  let preferred ← readLabels members "preferred"
  let avoided ← readLabels members "avoided"
  return ⟨kinds, languages.map fun entry => (.text entry.1, entry.2), preferred, avoided⟩

end Preferences

end CodeHabits
