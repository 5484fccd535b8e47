import CodeHabits.Learning
import CodeHabits.Proofs.Change
import CodeHabits.Proofs.Except
import CodeHabits.Store

/-!
# `CodeHabits.Proofs.Pattern.Keeping`: what changes of a pattern keep

Sightings, reactions and forgetting change what is known of a pattern. None of
them changes its id, its language or its signature: `Pattern.Is` names these
three, and every change of a pattern keeps it, also where it fails.
-/

set_option autoImplicit false

namespace CodeHabits

open Time (Timestamp)

variable {ν : Type} {id : Label} {name : Label × Label}

/-- The pattern is known under an id and recognised by a language and a
signature. -/
def Pattern.Is (id : Label) (name : Label × Label) (p : Pattern ν) : Prop :=
  p.id = id ∧ p.name = name

theorem Pattern.is_self (p : Pattern ν) : p.Is p.id p.name :=
  ⟨rfl, rfl⟩

/-- Nothing has touched the pattern for longer than a window. -/
def Pattern.Stale (window : Int) (time : Timestamp) (p : Pattern ν) : Prop :=
  window < time.instant - p.lastTouched.instant

instance (window : Int) (time : Timestamp) (p : Pattern ν) : Decidable (p.Stale window time) :=
  inferInstanceAs (Decidable (window < time.instant - p.lastTouched.instant))

namespace Store

/-- Counting styles changes the tallies only. -/
theorem is_countStyle (c : Sighting) :
    Change.Keeps (Pattern.Is (ν := ν) id name) (countStyle c) := by
  intro p h
  rw [countStyle, Change.outcome_within]
  exact h

variable [Magnitude ν]

theorem is_seeAgain (m : Smoothing ν) (now : Timestamp) (c : Sighting) :
    Change.Keeps (Pattern.Is id name) (seeAgain m now c) := by
  unfold seeAgain
  refine Change.keeps_bind Change.keeps_get fun _ => ?_
  refine Change.keeps_bind (Change.keeps_ofExcept _) fun _ => ?_
  refine Change.keeps_bind (Change.keeps_modify fun _ h => h) fun _ => ?_
  refine Change.keeps_bind Change.keeps_get fun _ => ?_
  refine Change.keeps_bind (Change.keeps_ofExcept _) fun _ => ?_
  refine Change.keeps_bind (Change.keeps_modify fun _ h => h) fun _ => ?_
  refine Change.keeps_bind (is_countStyle c) fun _ => ?_
  refine Change.keeps_bind (Change.keeps_modify fun _ h => h) fun _ => ?_
  refine Change.keeps_bind Change.keeps_get fun _ => ?_
  -- Only the last step is under a condition: it revives a retired pattern.
  split
  · refine Change.keeps_bind (Change.keeps_ofExcept _) fun _ => ?_
    split
    · exact Change.keeps_modify fun _ h => h
    · exact Change.keeps_pure _
  · exact Change.keeps_pure _

theorem is_clampPattern : Change.Keeps (Pattern.Is (ν := ν) id name) clampPattern := by
  unfold clampPattern
  refine Change.keeps_bind Change.keeps_get fun _ => ?_
  refine Change.keeps_bind (Change.keeps_ofExcept _) fun _ => ?_
  exact Change.keeps_modify fun _ h => h

theorem is_gain (other : Pattern ν) : Change.Keeps (Pattern.Is id name) (gain other) := by
  unfold gain
  refine Change.keeps_bind Change.keeps_get fun _ => ?_
  refine Change.keeps_bind (Change.keeps_ofExcept _) fun _ => ?_
  exact Change.keeps_modify fun _ h => h

/-- A new pattern has the id that it is given and the name of its sighting. -/
theorem is_firstSighting {m : Smoothing ν} {now : Timestamp} {c : Sighting} {p : Pattern ν}
    (h : firstSighting m id now c = .ok p) : p.Is id (c.language, c.signature) := by
  obtain ⟨confidence, _, h⟩ := Except.bind_eq_ok.1 h
  cases h
  exact ⟨rfl, rfl⟩

end Store

namespace Learning

variable [Magnitude ν]

theorem is_learn (rules : Learning ν) (e : Event) :
    Change.Keeps (Pattern.Is id name) (rules.learn e) := by
  unfold learn
  refine Change.keeps_bind (Change.keeps_modify fun _ h => h) fun _ => ?_
  refine Change.keeps_bind Change.keeps_get fun _ => ?_
  refine Change.keeps_bind (Change.keeps_ofExcept _) fun _ => ?_
  refine Change.keeps_bind (Change.keeps_modify fun _ h => h) fun _ => ?_
  refine Change.keeps_bind Change.keeps_get fun _ => ?_
  split
  · refine Change.keeps_bind (Change.keeps_ofExcept _) fun _ => ?_
    split
    · exact Change.keeps_modify fun _ h => h
    · exact Change.keeps_pure _
  · exact Change.keeps_pure _

/-- What fades is above the floor. -/
theorem lt_of_fades {rules : Learning ν} {window : Int} {now : Timestamp} {p : Pattern ν}
    (h : rules.fades window now p = .ok true) :
    Magnitude.lt rules.floor p.confidence = .ok true := by
  unfold fades at h
  split at h
  · exact h
  · cases h

/-- A pass of forgetting lets the confidence stay, or fade from above the floor
to no less than it, and lets a pattern stay live or retires it. All else
stays. -/
theorem forget_cases {rules : Learning ν} {window : Int} {now : Timestamp} {p q : Pattern ν}
    (h : rules.forget window now p = .ok q) :
    ∃ confidence retired, q = { p with confidence, retired } ∧
      (confidence = p.confidence ∨
        Magnitude.lt rules.floor p.confidence = .ok true ∧
          ∃ faded, Magnitude.mul p.confidence rules.decayFactor = .ok faded ∧
            larger faded rules.floor = .ok confidence) ∧
      (retired = p.retired ∨ retired = .bool true) := by
  unfold forget at h
  split at h
  · cases h
    exact ⟨p.confidence, p.retired, rfl, .inl rfl, .inl rfl⟩
  · obtain ⟨fades, hfades, h⟩ := Except.bind_eq_ok.1 h
    -- What is left once the confidence is known.
    have hrest : ∀ confidence, (do
        let gone ← Magnitude.le confidence rules.floor
        pure { p with confidence, retired := if gone then Value.bool true else p.retired })
          = Except.ok q →
        ∃ retired, q = { p with confidence, retired } ∧
          (retired = p.retired ∨ retired = .bool true) := by
      intro confidence h
      obtain ⟨gone, _, h⟩ := Except.bind_eq_ok.1 h
      cases h
      cases gone with
      | false => exact ⟨p.retired, rfl, .inl rfl⟩
      | true => exact ⟨.bool true, rfl, .inr rfl⟩
    cases fades with
    | false =>
      obtain ⟨retired, hq, hretired⟩ := hrest _ h
      exact ⟨_, retired, hq, .inl rfl, hretired⟩
    | true =>
      obtain ⟨faded, hmul, h⟩ := Except.bind_eq_ok.1 h
      obtain ⟨confidence, hlarger, h⟩ := Except.bind_eq_ok.1 h
      obtain ⟨retired, hq, hretired⟩ := hrest _ h
      exact ⟨_, retired, hq, .inr ⟨lt_of_fades hfades, faded, hmul, hlarger⟩, hretired⟩

theorem is_forget {rules : Learning ν} {window : Int} {now : Timestamp} {p q : Pattern ν}
    (h : rules.forget window now p = .ok q) : q.Is p.id p.name := by
  obtain ⟨_, _, rfl, _⟩ := forget_cases h
  exact ⟨rfl, rfl⟩

end Learning

end CodeHabits

/-!
## What every change keeps

A pattern changes when it is seen again, when somebody reacts to it, when it gains what
another store knows, and when it is forgotten. Each of these writes a few members, one after
the other, and may fail between two of them. The theorems here say what has to be shown of a
property so that it is kept, whether the change fails or not: that each single writing keeps
it. So an invariant names the members that it speaks of, and the rest is done once.

A property may fix a state from before, as in "the log is an extension of that log". Then
what is kept tells how the pattern has changed.
-/

namespace CodeHabits

open Time (Timestamp)

variable {ν : Type} [Magnitude ν] {P : Pattern ν → Prop}

namespace Store

/-- What counting the style, forcing into the unit interval and the steps of a further
sighting keep, the whole of it keeps. -/
theorem keeps_seeAgain_each {m : Smoothing ν} {now : Timestamp} {c : Sighting}
    (hcounted : ∀ p frequency, P p → Magnitude.add p.frequency (Magnitude.ofInt 1) = .ok frequency →
      P { p with frequency, sourceFiles := Pattern.addSource p.sourceFiles c.sourceFile })
    (hmoved : ∀ p confidence, P p → P { p with confidence })
    (hstyled : Change.Keeps P (countStyle c))
    (htouched : ∀ p, P p → P { p with lastSeen := now, lastTouched := now })
    (hrevived : ∀ p, P p → P { p with retired := .bool false }) :
    Change.Keeps P (seeAgain m now c) := by
  unfold seeAgain
  refine Change.keeps_bind_get fun p hp => ?_
  cases hadd : Magnitude.add p.frequency (Magnitude.ofInt 1) with
  | error fault =>
    rw [Change.outcome_bind_ofExcept_error]
    exact hp
  | ok frequency =>
    rw [Change.outcome_bind_ofExcept_ok, Change.outcome_bind, Change.outcome_modify]
    dsimp only
    -- From here on the steps write what they write whatever the pattern is like.
    refine (?_ : Change.Keeps P _) _ (hcounted p frequency hp hadd)
    refine Change.keeps_bind Change.keeps_get fun _ => ?_
    refine Change.keeps_bind (Change.keeps_ofExcept _) fun confidence => ?_
    refine Change.keeps_bind (Change.keeps_modify fun q hq => hmoved q confidence hq) fun _ => ?_
    refine Change.keeps_bind hstyled fun _ => ?_
    refine Change.keeps_bind (Change.keeps_modify htouched) fun _ => ?_
    refine Change.keeps_bind Change.keeps_get fun _ => ?_
    split
    · refine Change.keeps_bind (Change.keeps_ofExcept _) fun _ => ?_
      split
      · exact Change.keeps_modify hrevived
      · exact Change.keeps_pure _
    · exact Change.keeps_pure _

theorem keeps_clampPattern (hmoved : ∀ p confidence, P p → P { p with confidence }) :
    Change.Keeps P clampPattern := by
  unfold clampPattern
  refine Change.keeps_bind Change.keeps_get fun _ => ?_
  refine Change.keeps_bind (Change.keeps_ofExcept _) fun confidence => ?_
  exact Change.keeps_modify fun p hp => hmoved p confidence hp

theorem keeps_gain_each {other : Pattern ν}
    (hgained : ∀ p frequency, P p → Magnitude.add p.frequency other.frequency = .ok frequency →
      P { p with
        frequency, sourceFiles := other.sourceFiles.foldl Pattern.addSource p.sourceFiles }) :
    Change.Keeps P (gain other) := by
  unfold gain
  refine Change.keeps_bind_get fun p hp => ?_
  cases hadd : Magnitude.add p.frequency other.frequency with
  | error fault =>
    rw [Change.outcome_bind_ofExcept_error]
    exact hp
  | ok frequency =>
    rw [Change.outcome_bind_ofExcept_ok, Change.outcome_modify]
    exact hgained p frequency hp hadd

end Store

namespace Learning

/-- A reaction is logged first, and this cannot fail. So of the pattern after it something
else may be true than before, and the later steps have to keep that. -/
theorem keeps_learn_each {Q : Pattern ν → Prop} {rules : Learning ν} {e : Event}
    (hlogged : ∀ p, P p → Q { p with feedback := p.feedback ++ [e] })
    (hmoved : ∀ p confidence, Q p → Q { p with confidence })
    (htouched : ∀ p, e.reaction ≠ .ignored → Q p → Q { p with lastTouched := e.timestamp })
    (hrevived : ∀ p, Q p → Q { p with retired := .bool false }) {p : Pattern ν} (hp : P p) :
    Q ((rules.learn e).outcome p).2 := by
  unfold learn
  rw [Change.outcome_bind, Change.outcome_modify]
  dsimp only
  refine (?_ : Change.Keeps Q _) _ (hlogged p hp)
  refine Change.keeps_bind Change.keeps_get fun _ => ?_
  refine Change.keeps_bind (Change.keeps_ofExcept _) fun confidence => ?_
  refine Change.keeps_bind (Change.keeps_modify fun q hq => ?_) fun _ => ?_
  · by_cases hignored : e.reaction = .ignored
    · rw [if_pos hignored]
      exact hmoved q confidence hq
    · rw [if_neg hignored]
      exact htouched _ hignored (hmoved q confidence hq)
  refine Change.keeps_bind Change.keeps_get fun _ => ?_
  split
  · refine Change.keeps_bind (Change.keeps_ofExcept _) fun _ => ?_
    split
    · exact Change.keeps_modify hrevived
    · exact Change.keeps_pure _
  · exact Change.keeps_pure _

/-- Forgetting writes the confidence and whether the pattern is retired. -/
theorem keeps_forget {rules : Learning ν} {window : Int} {now : Timestamp} {p q : Pattern ν}
    (hmoved : ∀ p confidence, P p → P { p with confidence })
    (hretired : ∀ p retired, P p → P { p with retired }) (hp : P p)
    (h : rules.forget window now p = .ok q) : P q := by
  obtain ⟨confidence, retired, rfl, _⟩ := forget_cases h
  exact hretired _ retired (hmoved p confidence hp)

end Learning

end CodeHabits
