import CodeHabits.Proofs.Memory.Confidence
import CodeHabits.Proofs.Value.Arithmetic
import Mathlib.Tactic.Linarith

/-!
# `CodeHabits.Proofs.Learning.Exact`: what the rules come to in exact numbers

With rational numbers no rule can fail, so each of them is a function. Here these
functions are written out: `reckoned` is a confidence after a reaction, `noted` the
pattern after it, `forgotten` a pattern after a pass of forgetting, and `pulled` a
confidence after a sighting. The equations say that the rules compute them.

A configuration that was checked bounds the numbers that these functions depend on
(`Learning.Bounded`, `Smoothing.Bounded`). The bounds of the two penalties are written
as a chain from zero to one, so neither of them has two bounds of its own.
`exact_of_chain` gets their exact values out of the chain. Within the bounds a
confidence stays in the unit interval by itself, so forcing it in changes nothing.
-/

set_option autoImplicit false

namespace CodeHabits

open Time (Timestamp)

/-! ### Bounds -/

namespace Binary64

open Float.Model Float.Model.UnpackedFloat

/-- What is above another number and not above a finite one is finite. -/
theorem toRat?_of_lt_of_le {x y high : Float} {q : Rat} (hhigh : toRat? high = some q)
    (hlt : x < y) (hle : y ≤ high) : ∃ r, toRat? y = some r := by
  rw [toRat?_eq_exactOf]
  cases hy : y.toModel.unpack with
  | zero s => exact ⟨0, rfl⟩
  | finite s m e hm => exact ⟨_, exactOf_finite s m e hm⟩
  | notANumber =>
    rw [le_iff, hy] at hle
    cases hle
  | infinity s =>
    cases s with
    | positive =>
      rw [le_iff, hy] at hle
      cases worth_of_toRat? hhigh with
      | zero h | positive h | negative h =>
        rw [h] at hle
        cases hle
    | negative =>
      -- Nothing is below the number that is below all others.
      rw [lt_iff, hy] at hlt
      cases hx : x.toModel.unpack with
      | infinity s =>
        rw [hx] at hlt
        cases s <;> cases hlt
      | _ =>
        rw [hx] at hlt
        cases hlt

end Binary64

/-- Two numbers in a chain from zero to one have exact values in the same order. -/
theorem Config.exact_of_chain {a b : Number} (hpos : zero.lt a = true) (hless : a.lt b = true)
    (hone : b.le one = true) :
    ∃ p q, a.asRat? = some p ∧ b.asRat? = some q ∧ 0 < p ∧ p < q ∧ q ≤ 1 := by
  -- The larger one comes first: it is bounded by one, and it bounds the other one in turn.
  obtain ⟨q, hq⟩ : ∃ q, b.asRat? = some q := by
    cases b with
    | int n => exact ⟨n, rfl⟩
    | real y =>
      cases a with
      | int m => exact Number.asRat?_of_int_lt hless hone
      | real x =>
        have hone' : Binary64.toRat? 1.0 = some 1 := Number.asRat?_one
        exact Binary64.toRat?_of_lt_of_le hone' (of_decide_eq_true hless) (of_decide_eq_true hone)
  obtain ⟨p, hp⟩ : ∃ p, a.asRat? = some p := by
    cases a with
    | int m => exact ⟨m, rfl⟩
    | real x =>
      cases b with
      | int n => exact Number.asRat?_of_lt_int hpos hless
      | real y =>
        have hzero : Binary64.toRat? 0.0 = some 0 := Number.asRat?_zero
        exact Binary64.toRat?_of_between hzero hq (Binary64.le_of_lt (of_decide_eq_true hpos))
          (Binary64.le_of_lt (of_decide_eq_true hless))
  rw [Number.lt_eq_decide Number.asRat?_zero hp] at hpos
  rw [Number.lt_eq_decide hp hq] at hless
  rw [Number.le_eq_decide hq Number.asRat?_one] at hone
  exact ⟨p, q, hp, hq, of_decide_eq_true hpos, of_decide_eq_true hless, of_decide_eq_true hone⟩

theorem Value.asRat?_of_number {value : Value} {n : Number} (h : value.number? = some n) :
    value.asRat? = n.asRat? := by
  rw [asRat?, h]
  rfl

/-- A value that is a number with an exact value is read as that. -/
theorem Value.ReadsAs.eq_of_number {value : Value} {q r : Rat} {n : Number} (h : value.ReadsAs q)
    (hnumber : value.number? = some n) (hexact : n.asRat? = some r) : q = r :=
  h r (by rw [asRat?_of_number hnumber, hexact])

/-- And it is from zero to one if it was checked for that. -/
theorem Config.Has.unitRat {values : Section} {name : String} {q : Rat}
    (h : Has values name ZeroToOne) (hreads : (valueOf values name).ReadsAs q) : UnitRat q := by
  obtain ⟨n, hn, hunit⟩ := h
  obtain ⟨r, hr, hbounds⟩ := hunit.exact
  rw [hreads.eq_of_number hn hr]
  exact hbounds

namespace Learning

/-- The numbers that confidences depend on are in the unit interval. -/
structure Bounded (rules : Learning Rat) : Prop where
  gain : UnitRat rules.gain
  penalty : UnitRat rules.penalty
  modifyFactor : UnitRat rules.modifyFactor
  decayFactor : UnitRat rules.decayFactor
  floor : UnitRat rules.floor

theorem ReadsAs.bounded {c : Config} {exact : Learning Rat} (h : c.rules.ReadsAs exact)
    (hvalid : c.validate = .ok ()) : exact.Bounded := by
  have hchecked := Config.validate_eq_ok_iff.1 hvalid
  obtain ⟨hdecay, hfloor⟩ := h.bounds hvalid
  -- Of the penalties neither was checked for both ends of the interval, only their chain was.
  obtain ⟨penalty, hpenalty, hpos, modify, hmodify, hless, hone⟩ := hchecked.penalties
  obtain ⟨p, q, hp, hq, hppos, hpq, hqone⟩ := Config.exact_of_chain hpos hless hone
  refine ⟨hchecked.gain.unitRat h.gain, ?_, ?_, hdecay, hfloor⟩
  · rw [h.penalty.eq_of_number hpenalty hp]
    exact ⟨le_of_lt hppos, le_of_lt (lt_of_lt_of_le hpq hqone)⟩
  · rw [h.modifyFactor.eq_of_number hmodify hq]
    exact ⟨le_of_lt (lt_trans hppos hpq), hqone⟩

end Learning

namespace Smoothing

/-- Rational smoothing is that which values give. -/
structure ReadsAs (m : Smoothing Value) (exact : Smoothing Rat) : Prop where
  alpha : m.alpha.ReadsAs exact.alpha
  base : m.base.ReadsAs exact.base
  floor : m.floor.ReadsAs exact.floor

/-- The smoothing that values give, where zero stands for what has no exact value. -/
def exactly (m : Smoothing Value) : Smoothing Rat :=
  ⟨m.alpha.asRat?.getD 0, m.base.asRat?.getD 0, m.floor.asRat?.getD 0⟩

theorem readsAs_exactly (m : Smoothing Value) : m.ReadsAs m.exactly := by
  have hexact : ∀ value : Value, value.ReadsAs (value.asRat?.getD 0) := by
    intro value q h
    rw [h]
    rfl
  exact ⟨hexact _, hexact _, hexact _⟩

/-- The part of the base score and the base score are in the unit interval. -/
structure Bounded (m : Smoothing Rat) : Prop where
  alpha : UnitRat m.alpha
  base : UnitRat m.base

theorem ReadsAs.bounded {c : Config} {exact : Smoothing Rat} (h : c.smoothing.ReadsAs exact)
    (hvalid : c.validate = .ok ()) : exact.Bounded := by
  have hchecked := Config.validate_eq_ok_iff.1 hvalid
  exact ⟨hchecked.alpha.unitRat h.alpha, hchecked.base.unitRat h.base⟩

/-- Sightings and reactions go by the same floor. -/
theorem ReadsAs.floor_eq {c : Config} {exact : Smoothing Rat} {rules : Learning Rat}
    (h : c.smoothing.ReadsAs exact) (hrules : c.rules.ReadsAs rules)
    (hvalid : c.validate = .ok ()) : exact.floor = rules.floor := by
  obtain ⟨n, hn, hunit⟩ := (Config.validate_eq_ok_iff.1 hvalid).floor
  obtain ⟨r, hr, _⟩ := hunit.exact
  rw [h.floor.eq_of_number hn hr, hrules.floor.eq_of_number hn hr]

end Smoothing

/-! ### Reactions -/

/-- A confidence in the unit interval is forced to itself. -/
theorem Store.outcome_clampPattern_of_inUnit {p : Pattern Rat} (h : p.InUnit) :
    clampPattern.outcome p = (.ok (), p) := by
  have hsame : clampConfidence p.confidence = .ok p.confidence := by
    rw [clampConfidence_rat, max_eq_right h.1, min_eq_right h.2]
  rw [clampPattern, Change.outcome_bind_get, hsame, Change.outcome_bind_ofExcept_ok]
  rfl

/-- The last step of a sighting and of a reaction: a retired pattern is revived if its
confidence passes a test against the floor. -/
theorem Store.outcome_revive {floor confidence : Rat} (passes : Bool → Bool) (p : Pattern Rat) :
    (do
      if (← get).isRetired then
        let above ← Change.ofExcept (Magnitude.lt floor confidence)
        if passes above then
          modify fun p => { p with retired := .bool false } : Change (Pattern Rat) Unit).outcome p
      = (.ok (),
          { p with
            retired :=
              if p.isRetired && passes (decide (floor < confidence)) then .bool false
              else p.retired }) := by
  rw [Change.outcome_bind_get]
  cases p.isRetired with
  | false => rfl
  | true =>
    rw [if_pos rfl, Bool.true_and]
    show (Change.ofExcept (.ok _) >>= fun _ => _ : Change (Pattern Rat) Unit).outcome _ = _
    rw [Change.outcome_bind_ofExcept_ok]
    cases passes (decide (floor < confidence)) <;> rfl

namespace Learning

variable {rules : Learning Rat} {e : Event} {p : Pattern Rat} {c : Rat}

/-- A confidence after a reaction. -/
def reckoned (rules : Learning Rat) : Reaction → Rat → Rat
  | .accepted, c => c + (1 - c) * rules.gain
  | .rejected, c => c * rules.penalty
  | .modified, c => c * rules.modifyFactor
  | .ignored, c => c

theorem react_rat (rules : Learning Rat) (reaction : Reaction) (c : Rat) :
    rules.react reaction c = .ok (rules.reckoned reaction c) := by
  cases reaction <;> rfl

theorem unitRat_mul {a b : Rat} (ha : UnitRat a) (hb : UnitRat b) : UnitRat (a * b) :=
  ⟨mul_nonneg ha.1 hb.1, mul_le_one₀ ha.2 hb.1 hb.2⟩

/-- Within the bounds a reaction leads from the unit interval into it. -/
theorem unitRat_reckoned (h : rules.Bounded) (reaction : Reaction) (hc : UnitRat c) :
    UnitRat (rules.reckoned reaction c) := by
  cases reaction with
  | accepted =>
    -- What is gained is a part of what is missing to one.
    have hrest : 0 ≤ 1 - c := sub_nonneg.2 hc.2
    have hgained : (1 - c) * rules.gain ≤ 1 - c := mul_le_of_le_one_right hrest h.gain.2
    refine ⟨add_nonneg hc.1 (mul_nonneg hrest h.gain.1), ?_⟩
    show c + (1 - c) * rules.gain ≤ 1
    linarith
  | rejected => exact unitRat_mul hc h.penalty
  | modified => exact unitRat_mul hc h.modifyFactor
  | ignored => exact hc

/-- Only accepting raises a confidence. -/
theorem reckoned_le (h : rules.Bounded) {reaction : Reaction} (hreaction : reaction ≠ .accepted)
    (hc : UnitRat c) : rules.reckoned reaction c ≤ c := by
  cases reaction with
  | accepted => exact absurd rfl hreaction
  | rejected => exact mul_le_of_le_one_right hc.1 h.penalty.2
  | modified => exact mul_le_of_le_one_right hc.1 h.modifyFactor.2
  | ignored => exact le_rfl

/-- A pattern after a reaction: it is logged, the confidence is moved, and a retired
pattern that was accepted is revived above the floor. -/
def noted (rules : Learning Rat) (e : Event) (p : Pattern Rat) : Pattern Rat :=
  let confidence := rules.reckoned e.reaction p.confidence
  { p with
    feedback := p.feedback ++ [e]
    confidence
    lastTouched := if e.reaction = .ignored then p.lastTouched else e.timestamp
    retired :=
      if p.isRetired && (decide (rules.floor < confidence) && e.reaction == .accepted) then
        .bool false
      else p.retired }

theorem outcome_learn_rat (rules : Learning Rat) (e : Event) (p : Pattern Rat) :
    (rules.learn e).outcome p = (.ok (), rules.noted e p) := by
  unfold learn
  rw [Change.outcome_bind, Change.outcome_modify]
  dsimp only
  rw [Change.outcome_bind_get]
  dsimp only
  rw [react_rat, Change.outcome_bind_ofExcept_ok, Change.outcome_bind, Change.outcome_modify]
  exact Store.outcome_revive (fun above => above && e.reaction == .accepted) _

/-- Within the bounds an edit for a reaction leaves just what the reaction leaves. -/
theorem outcome_edit_rat (h : rules.Bounded) (hp : p.InUnit) {s : Store Rat} {id : Label}
    (hget : s.get? id = some p) :
    (Store.edit id (do rules.learn e; get : Change (Pattern Rat) (Pattern Rat))).outcome s
      = (.ok (rules.noted e p), s.replace id (rules.noted e p)) := by
  have hunit : (rules.noted e p).InUnit := unitRat_reckoned h e.reaction hp
  apply Store.outcome_edit_known hget _ (Store.outcome_clampPattern_of_inUnit hunit)
  rw [Change.outcome_bind, outcome_learn_rat]
  rfl

/-! ### Forgetting -/

/-- A pattern after a pass of forgetting. -/
def forgotten (rules : Learning Rat) (window : Int) (now : Timestamp) (p : Pattern Rat) :
    Pattern Rat :=
  if p.isRetired then p
  else
    let confidence :=
      if window < now.instant - p.lastTouched.instant ∧ rules.floor < p.confidence then
        max (p.confidence * rules.decayFactor) rules.floor
      else p.confidence
    { p with
      confidence
      retired := if confidence ≤ rules.floor then .bool true else p.retired }

theorem fades_rat (rules : Learning Rat) (window : Int) (now : Timestamp) (p : Pattern Rat) :
    rules.fades window now p
      = .ok (decide (window < now.instant - p.lastTouched.instant ∧
          rules.floor < p.confidence)) := by
  unfold fades
  -- The confidence is looked at only in a pattern that was not touched for long enough.
  split
  · rename_i hstale
    rw [decide_eq_decide.2 (and_iff_right hstale)]
    rfl
  · rename_i hfresh
    rw [decide_eq_false (fun h => hfresh h.1)]

theorem forget_rat (rules : Learning Rat) (window : Int) (now : Timestamp) (p : Pattern Rat) :
    rules.forget window now p = .ok (rules.forgotten window now p) := by
  unfold forget forgotten
  split
  · rfl
  · -- The retirement is decided by the confidence that is left.
    have hrest : ∀ confidence : Rat, (do
        let gone ← Magnitude.le confidence rules.floor
        pure { p with confidence, retired := if gone then Value.bool true else p.retired }
          : Except Fault (Pattern Rat))
        = .ok { p with
            confidence
            retired := if confidence ≤ rules.floor then .bool true else p.retired } := by
      intro confidence
      show Except.ok _ = _
      simp only [decide_eq_true_eq]
    rw [fades_rat, Except.ok_bind]
    by_cases hfades : window < now.instant - p.lastTouched.instant ∧ rules.floor < p.confidence
    · rw [decide_eq_true hfades, if_pos rfl, if_pos hfades]
      show (larger (p.confidence * rules.decayFactor) rules.floor >>= fun _ => _) = _
      rw [larger_rat]
      exact hrest _
    · rw [decide_eq_false hfades, if_neg Bool.false_ne_true, if_neg hfades]
      exact hrest _

end Learning

/-! ### Sightings -/

namespace Smoothing

/-- A confidence after a sighting. -/
def pulled (m : Smoothing Rat) (c : Rat) : Rat :=
  min 1 (max 0 (m.alpha * m.base + (1 - m.alpha) * c))

theorem toward_rat (m : Smoothing Rat) (c : Rat) : m.toward c = .ok (m.pulled c) :=
  clampConfidence_rat _

/-- Within the bounds a sighting moves a confidence between itself and the base score. -/
theorem pulled_eq {m : Smoothing Rat} (h : m.Bounded) {c : Rat} (hc : UnitRat c) :
    m.pulled c = m.alpha * m.base + (1 - m.alpha) * c := by
  -- A weighted mean of two numbers in the unit interval is in it, so nothing is cut off.
  have hrest : 0 ≤ 1 - m.alpha := sub_nonneg.2 h.alpha.2
  have hlow : 0 ≤ m.alpha * m.base + (1 - m.alpha) * c :=
    add_nonneg (mul_nonneg h.alpha.1 h.base.1) (mul_nonneg hrest hc.1)
  have hpart : m.alpha * m.base ≤ m.alpha := mul_le_of_le_one_right h.alpha.1 h.base.2
  have hkept : (1 - m.alpha) * c ≤ 1 - m.alpha := mul_le_of_le_one_right hrest hc.2
  rw [pulled, max_eq_right hlow, min_eq_right (by linarith)]

/-- A sighting lifts a confidence above what it is not above only towards a base score
that is above it. -/
theorem lt_base_of_pulled {m : Smoothing Rat} (h : m.Bounded) {c floor : Rat} (hc : UnitRat c)
    (hbelow : c ≤ floor) (habove : floor < m.pulled c) : floor < m.base := by
  rw [pulled_eq h hc] at habove
  -- Otherwise it would be the mean of two numbers neither of which is above the floor.
  by_contra hbase
  have hrest : 0 ≤ 1 - m.alpha := sub_nonneg.2 h.alpha.2
  have hpart : m.alpha * m.base ≤ m.alpha * floor :=
    mul_le_mul_of_nonneg_left (not_lt.1 hbase) h.alpha.1
  have hkept : (1 - m.alpha) * c ≤ (1 - m.alpha) * floor := mul_le_mul_of_nonneg_left hbelow hrest
  linarith

/-- And then it keeps above it what is above it. -/
theorem lt_pulled {m : Smoothing Rat} (h : m.Bounded) {c floor : Rat} (hc : UnitRat c)
    (hbase : floor < m.base) (habove : floor < c) : floor < m.pulled c := by
  rw [pulled_eq h hc]
  -- If the base score has no weight then the confidence alone is above the floor.
  rcases eq_or_lt_of_le h.alpha.1 with hzero | hpos
  · rw [← hzero]
    linarith
  · have hrest : 0 ≤ 1 - m.alpha := sub_nonneg.2 h.alpha.2
    have hpart : m.alpha * floor < m.alpha * m.base := mul_lt_mul_of_pos_left hbase hpos
    have hkept : (1 - m.alpha) * floor ≤ (1 - m.alpha) * c :=
      mul_le_mul_of_nonneg_left (le_of_lt habove) hrest
    linarith

theorem unitRat_pulled (m : Smoothing Rat) (c : Rat) : UnitRat (m.pulled c) :=
  unitRat_of_clampConfidence (clampConfidence_rat _)

end Smoothing

end CodeHabits
