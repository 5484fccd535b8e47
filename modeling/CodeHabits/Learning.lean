import CodeHabits.Preferences

/-!
# `CodeHabits.Learning`: the rules by which reactions and time teach

A reaction moves the confidence of a pattern: accepting brings it nearer to
one, rejecting and modifying lower it by their factors, ignoring leaves it.
Accepting and rejecting also move the weights of the pattern's kind and
language by a step, and decide whether the pattern is preferred or avoided.
A pattern that nothing has touched for longer than the recency window fades:
it loses confidence, though never below the floor. At or below the floor it
is retired.

The rules hold whatever numbers they were given. A rule that cannot be
applied fails at the step that needs it, and what was done before stays
done.
-/

set_option autoImplicit false

namespace CodeHabits

open Time (Timestamp)

/-- The rules of learning. -/
structure Learning (ν : Type) where
  /-- The part of the distance to one that accepting covers. -/
  gain : ν
  /-- The factor of a rejection. -/
  penalty : ν
  /-- The factor of a modification. -/
  modifyFactor : ν
  /-- The factor of fading. -/
  decayFactor : ν
  /-- The confidence that fading does not go below. -/
  floor : ν
  weightStep : ν
  minWeight : ν
  maxWeight : ν
  /-- The factor of preferred patterns in suggestions. -/
  boost : ν
  /-- The factor of avoided patterns in suggestions. -/
  avoidancePenalty : ν
  /-- The net feedback from which on a pattern is preferred. -/
  preferenceThreshold : ν
  /-- The ignored suggestions in a row that make patterns fade. -/
  ignoreThreshold : ν
  /-- How long a pattern stays fresh, in microseconds. -/
  window : Except Fault Int

namespace Learning

variable {ν : Type} [Magnitude ν] (rules : Learning ν)

/-- A confidence after a reaction. -/
def react : Reaction → ν → Except Fault ν
  | .accepted, c => do
    Magnitude.add c (← Magnitude.mul (← Magnitude.sub (Magnitude.ofInt 1) c) rules.gain)
  | .rejected, c => Magnitude.mul c rules.penalty
  | .modified, c => Magnitude.mul c rules.modifyFactor
  | .ignored, c => .ok c

/-- Takes a reaction to a pattern in, before the confidence is forced into
the unit interval. Accepting revives a retired pattern above the floor. -/
def learn (e : Event) : Change (Pattern ν) Unit := do
  modify fun p => { p with feedback := p.feedback ++ [e] }
  let confidence ← Change.ofExcept (rules.react e.reaction (← get).confidence)
  modify fun p =>
    { p with
      confidence
      lastTouched := if e.reaction = .ignored then p.lastTouched else e.timestamp }
  if (← get).isRetired then
    let above ← Change.ofExcept (Magnitude.lt rules.floor confidence)
    if above && e.reaction == .accepted then
      modify fun p => { p with retired := .bool false }

/-- A weight moved by a step inside its range. -/
def nudged (weight step : ν) : Except Fault ν := do
  smaller rules.maxWeight (← larger rules.minWeight (← Magnitude.add weight step))

/-- Weights with one of them moved. -/
def nudge {κ : Type} [BEq κ] (weights : Table κ ν) (key : κ) (step : ν) :
    Except Fault (Table κ ν) := do
  return weights.put key (← rules.nudged ((weights.get? key).getD Magnitude.one) step)

/-- Puts a pattern where its net feedback belongs: among the preferred, among
the avoided, or to neither. -/
def classify (id : Label) (net : Int) : Change (Preferences ν) Unit := do
  modify fun p =>
    { p with
      preferred := Preferences.excluding p.preferred id
      avoided := Preferences.excluding p.avoided id }
  let net : ν := Magnitude.ofInt net
  if ← Change.ofExcept (Magnitude.le rules.preferenceThreshold net) then
    modify fun p => { p with preferred := p.preferred ++ [id] }
  else
    let least ← Change.ofExcept (Magnitude.neg rules.preferenceThreshold)
    if ← Change.ofExcept (Magnitude.le net least) then
      modify fun p => { p with avoided := p.avoided ++ [id] }

/-- The step by which a reaction moves weights, if it does. -/
def step? : Reaction → Except Fault (Option ν)
  | .accepted => .ok (some rules.weightStep)
  | .rejected => (Magnitude.neg rules.weightStep).map some
  | _ => .ok none

/-- Takes in that a pattern, known under `id`, was accepted or rejected; `p`
is the pattern with the reaction in its log. Other reactions change
nothing. -/
def prefer (reaction : Reaction) (id : Label) (p : Pattern ν) : Change (Preferences ν) Unit := do
  match ← Change.ofExcept (rules.step? reaction) with
  | none => return ()
  | some step =>
    let kindWeights ← Change.ofExcept (rules.nudge (← get).kindWeights p.kind.name step)
    modify fun prefs => { prefs with kindWeights }
    let languageWeights ← Change.ofExcept (rules.nudge (← get).languageWeights p.language step)
    modify fun prefs => { prefs with languageWeights }
    rules.classify id p.netFeedback

/-- Whether a pattern fades at a time: it is stale and above the floor. -/
def fades (window : Int) (now : Timestamp) (p : Pattern ν) : Except Fault Bool :=
  if window < now.instant - p.lastTouched.instant then Magnitude.lt rules.floor p.confidence
  else .ok false

/-- A live pattern after a pass of forgetting; a retired one stays as it
is. -/
def forget (window : Int) (now : Timestamp) (p : Pattern ν) : Except Fault (Pattern ν) := do
  if p.isRetired then return p
  let confidence ←
    if ← rules.fades window now p then
      larger (← Magnitude.mul p.confidence rules.decayFactor) rules.floor
    else pure p.confidence
  let retired := if ← Magnitude.le confidence rules.floor then .bool true else p.retired
  return { p with confidence, retired }

end Learning

end CodeHabits
