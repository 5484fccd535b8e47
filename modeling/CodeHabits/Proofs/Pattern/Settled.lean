import CodeHabits.Proofs.Learning.Usable
import CodeHabits.Proofs.Pattern.Keeping
import CodeHabits.Proofs.Pattern.Written
import CodeHabits.Proofs.Value.Order

/-!
# `CodeHabits.Proofs.Pattern.Settled`: the patterns that learning makes

A pattern is settled when it can be written, and its id and language are texts.
Everything that changes patterns keeps this: further sightings, what another
store knows, forgetting, and reactions. A reaction may leave the confidence
outside the unit interval. Then the pattern is `Loose` until its confidence is
forced into the interval, which settles it again (`settled_clampPattern`).
-/

set_option autoImplicit false

namespace CodeHabits

open Binary64 (InUnit)
open Time (Timestamp)

namespace Pattern

/-- A pattern that can be written, with texts for what others refer to. -/
structure Settled (p : Pattern Value) : Prop extends Writable p where
  id : p.id.IsText
  language : p.language.IsText

/-- A pattern that is settled but for its confidence, which is a number. -/
structure Loose (p : Pattern Value) : Prop where
  number : p.confidence.number?.isSome
  settled : Settled { p with confidence := .real 0.0 }

variable {p : Pattern Value}

theorem inUnit_zero : InUnit 0.0 :=
  Nat.zero_le _

/-- Another confidence from zero to one settles a pattern as well. -/
theorem Settled.with_confidence (h : p.Settled) {x : Float} (hx : InUnit x) :
    Settled { p with confidence := .real x } where
  confidence := ⟨x, rfl, hx⟩
  frequency := h.frequency
  firstSeen := h.firstSeen
  lastSeen := h.lastSeen
  lastTouched := h.lastTouched
  feedback := h.feedback
  retired := h.retired
  id := h.id
  language := h.language

theorem Settled.loose (h : p.Settled) : p.Loose := by
  obtain ⟨x, hx, _⟩ := h.confidence
  refine ⟨?_, h.with_confidence inUnit_zero⟩
  rw [hx]
  rfl

theorem Loose.settle (h : p.Loose) {x : Float} (hx : InUnit x) :
    Settled { p with confidence := .real x } :=
  h.settled.with_confidence hx

end Pattern

/-! ### Sightings -/

namespace Store

open Pattern (Settled Loose)

variable {now : Timestamp}

theorem settled_countStyle (c : Sighting) : Change.Keeps Settled (countStyle c) := by
  intro p h
  rw [countStyle, Change.outcome_within]
  exact { h with }

theorem settled_firstSighting {m : Smoothing Value} {id : Label} {c : Sighting}
    {p : Pattern Value} (hnow : now.Valid) (hid : id.IsText) (hlanguage : c.language.IsText)
    (h : firstSighting m id now c = .ok p) : p.Settled := by
  obtain ⟨confidence, hconfidence, h⟩ := Except.bind_eq_ok.1 h
  cases h
  exact {
    confidence := real_of_clampConfidence hconfidence
    frequency := ⟨1, rfl⟩
    firstSeen := hnow
    lastSeen := hnow
    lastTouched := hnow
    feedback := by simp
    retired := ⟨false, rfl⟩
    id := hid
    language := hlanguage }

/-- Whole numbers add up to a whole number. -/
theorem frequency_add {a b sum : Value} (ha : ∃ n, a = .int n) (hb : ∃ n, b = .int n)
    (h : Magnitude.add a b = .ok sum) : ∃ n, sum = .int n := by
  obtain ⟨m, rfl⟩ := ha
  obtain ⟨n, rfl⟩ := hb
  exact ⟨m + n, (Except.ok.inj h).symm⟩

theorem settled_seeAgain (m : Smoothing Value) (c : Sighting) (hnow : now.Valid) :
    Change.Keeps Settled (seeAgain m now c) := by
  unfold seeAgain
  refine Change.keeps_bind_get fun p hp => ?_
  refine (?_ : Change.Keeps Settled _) p hp
  refine Change.keeps_bind_ofExcept fun frequency hfrequency => ?_
  have hwhole := frequency_add hp.frequency ⟨1, rfl⟩ hfrequency
  refine Change.keeps_bind (Change.keeps_modify fun q hq => { hq with frequency := hwhole })
    fun _ => ?_
  refine Change.keeps_bind Change.keeps_get fun _ => ?_
  refine Change.keeps_bind_ofExcept fun confidence hconfidence => ?_
  obtain ⟨pulled, _, hconfidence⟩ := Except.bind_eq_ok.1 hconfidence
  obtain ⟨rest, _, hconfidence⟩ := Except.bind_eq_ok.1 hconfidence
  obtain ⟨kept, _, hconfidence⟩ := Except.bind_eq_ok.1 hconfidence
  obtain ⟨sum, _, hconfidence⟩ := Except.bind_eq_ok.1 hconfidence
  have hreal := real_of_clampConfidence hconfidence
  refine Change.keeps_bind (Change.keeps_modify fun q hq => { hq with confidence := hreal })
    fun _ => ?_
  refine Change.keeps_bind (settled_countStyle c) fun _ => ?_
  refine Change.keeps_bind
    (Change.keeps_modify fun q hq => { hq with lastSeen := hnow, lastTouched := hnow }) fun _ => ?_
  refine Change.keeps_bind Change.keeps_get fun _ => ?_
  split
  · refine Change.keeps_bind (Change.keeps_ofExcept _) fun _ => ?_
    split
    · exact Change.keeps_modify fun q hq => { hq with retired := ⟨false, rfl⟩ }
    · exact Change.keeps_pure _
  · exact Change.keeps_pure _

theorem settled_gain {other : Pattern Value} (hother : other.Settled) :
    Change.Keeps Settled (gain other) := by
  unfold gain
  refine Change.keeps_bind_get fun p hp => ?_
  refine (?_ : Change.Keeps Settled _) p hp
  refine Change.keeps_bind_ofExcept fun frequency hfrequency => ?_
  have hwhole := frequency_add hp.frequency hother.frequency hfrequency
  exact Change.keeps_modify fun q hq => { hq with frequency := hwhole }

/-! ### Reactions -/

/-- Forcing the confidence into the unit interval settles a pattern. -/
theorem settled_clampPattern {p : Pattern Value} (h : p.Loose) :
    (clampPattern.outcome p).2.Settled := by
  obtain ⟨x, hx, hunit⟩ := clampConfidence_of_number h.number
  rw [clampPattern, Change.outcome_bind_get, hx, Change.outcome_bind_ofExcept_ok]
  exact h.settle hunit

end Store

namespace Learning

open Pattern (Settled Loose)

/-- A number stays a number under a reaction. -/
theorem number_react {rules : Learning Value} {reaction : Reaction} {c result : Value}
    (hc : c.number?.isSome) (h : rules.react reaction c = .ok result) : result.number?.isSome := by
  cases reaction with
  | accepted =>
    obtain ⟨_, _, h⟩ := Except.bind_eq_ok.1 h
    obtain ⟨_, _, h⟩ := Except.bind_eq_ok.1 h
    exact Value.number?_onNumbers h
  | rejected => exact Value.number?_onNumbers h
  | modified => exact Value.number?_onNumbers h
  | ignored =>
    cases h
    exact hc

theorem loose_learn (rules : Learning Value) {e : Event} (he : e.Dated) :
    Change.Keeps Loose (rules.learn e) := by
  have hlog : ∀ p : Pattern Value, p.Loose → Loose { p with feedback := p.feedback ++ [e] } := by
    intro p hp
    refine ⟨hp.number, { hp.settled with feedback := fun other hother => ?_ }⟩
    rcases List.mem_append.1 hother with hold | hnew
    · exact hp.settled.feedback other hold
    · rw [List.mem_singleton.1 hnew]
      exact he
  unfold learn
  refine Change.keeps_bind (Change.keeps_modify hlog) fun _ => ?_
  refine Change.keeps_bind_get fun p hp => ?_
  refine (?_ : Change.Keeps Loose _) p hp
  refine Change.keeps_bind_ofExcept fun confidence hconfidence => ?_
  have hnumber := number_react hp.number hconfidence
  refine Change.keeps_bind (Change.keeps_modify fun q hq => ⟨hnumber, ?_⟩) fun _ => ?_
  · refine { hq.settled with lastTouched := ?_ }
    show (if e.reaction = .ignored then q.lastTouched else e.timestamp).Valid
    split
    · exact hq.settled.lastTouched
    · exact he.timestamp
  · refine Change.keeps_bind Change.keeps_get fun _ => ?_
    split
    · refine Change.keeps_bind (Change.keeps_ofExcept _) fun _ => ?_
      split
      · exact Change.keeps_modify fun q hq =>
          ⟨hq.number, { hq.settled with retired := ⟨false, rfl⟩ }⟩
      · exact Change.keeps_pure _
    · exact Change.keeps_pure _

/-! ### Forgetting -/

theorem settled_forget {rules : Learning Value} (hrules : rules.FadesInside) {window : Int}
    {p q : Pattern Value} {now : Timestamp} (hp : p.Settled)
    (h : rules.forget window now p = .ok q) : q.Settled := by
  obtain ⟨confidence, retired, rfl, hconfidence, hretired⟩ := forget_cases h
  obtain ⟨c, hc, hunit⟩ := hp.confidence
  have hreal : ∃ x, confidence = .real x ∧ InUnit x := by
    rcases hconfidence with rfl | ⟨habove, faded, hmul, hlarger⟩
    · exact hp.confidence
    · rw [hc] at habove hmul
      exact hrules c faded confidence hunit habove hmul hlarger
  refine { hp with confidence := hreal, retired := ?_ }
  rcases hretired with rfl | rfl
  · exact hp.retired
  · exact ⟨true, rfl⟩

end Learning

end CodeHabits
