import CodeHabits.Memory
import CodeHabits.Proofs.Binary64.UnitInterval
import CodeHabits.Proofs.Change
import CodeHabits.Proofs.Config
import CodeHabits.Proofs.Value.Arithmetic

/-!
# `CodeHabits.Proofs.Learning.Usable`: rules that can always be applied

Rules are usable if their factors and bounds are numbers that a configuration may
have. A configuration that was checked gives such rules (`usable_rules`,
`usable_smoothing`).

Applied to a confidence that is a floating-point number, usable rules never fail:
neither a reaction (`outcome_learn`), nor a pass of forgetting (`exists_forget`), nor a
sighting (`exists_toward`). One value of a configuration is not checked, the step of the
weights. So the only thing that can go wrong when a reaction moves the preferences is
that the step cannot be added to a weight (`outcome_prefer`).
-/

set_option autoImplicit false

/-!
## Confidences stay in the unit interval

A number that is forced into the unit interval becomes a floating-point number
from zero to one, also if it was a whole number (`clampConfidence_of_number`).

A confidence that fades is not forced into the interval. It is multiplied by the
factor of fading and raised to the floor, and stays inside if these two have the
bounds that a configuration is checked for (`fadesInside_of_bounds`). A factor
strictly between zero and one is no whole number. A floor that is a whole number
is zero or one, and neither is ever raised to: above one there are no
confidences, and below zero none either.
-/

namespace CodeHabits

open Binary64 (InUnit)

namespace Learning

/-- Confidences above the floor fade inside the unit interval. -/
def FadesInside (rules : Learning Value) : Prop :=
  ∀ (c : Float) (faded confidence : Value), InUnit c →
    Magnitude.lt rules.floor (.real c) = .ok true →
    Magnitude.mul (.real c) rules.decayFactor = .ok faded →
    larger faded rules.floor = .ok confidence → ∃ x, confidence = .real x ∧ InUnit x

end Learning

namespace Number

/-- A number from zero to one has the key of its exact value. -/
theorem key_of_inUnit {x : Float} (h : InUnit x) :
    ∃ q : Rat, Key.ofReal x = .number q ∧ 0 ≤ q ∧ q ≤ 1 := by
  obtain ⟨q, hq, hbounds⟩ := Binary64.toRat?_of_inUnit h
  refine ⟨q, ?_, hbounds⟩
  unfold Key.ofReal
  cases hdecode : Binary64.decode x with
  | nan => simp [Binary64.toRat?, hdecode] at hq
  | infinite negative => simp [Binary64.toRat?, hdecode] at hq
  | finite negative m e => simp [hq]

theorem key_zero : Key.ofReal 0.0 = .number 0 := by
  decide +kernel

theorem key_one : Key.ofReal 1.0 = .number 1 := by
  decide +kernel

/-- No whole number lies strictly between zero and one. -/
theorem real_of_between {n : Number} (hlow : Config.zero.lt n = true)
    (hhigh : n.lt Config.one = true) : ∃ x, n = .real x ∧ InUnit x ∧ x < 1.0 := by
  cases n with
  | int k =>
    have hpos : ((Key.ofReal 0.0).before? (.number k)).getD false = true := hlow
    have hless : ((Key.number k).before? (Key.ofReal 1.0)).getD false = true := hhigh
    rw [key_zero] at hpos
    rw [key_one] at hless
    have hpos : (0 : Rat) < k := of_decide_eq_true hpos
    have hless : (k : Rat) < 1 := of_decide_eq_true hless
    have hpos : 0 < k := by exact_mod_cast hpos
    have hless : k < 1 := by exact_mod_cast hless
    omega
  | real x =>
    have hpos : (0.0 : Float) < x := of_decide_eq_true hlow
    have hless : x < 1.0 := of_decide_eq_true hhigh
    exact ⟨x, rfl, Binary64.inUnit_of_le_one hpos (Binary64.le_of_lt hless), hless⟩

end Number

/-- Forcing a number into the unit interval always works. -/
theorem clampConfidence_of_number {value : Value} (h : value.number?.isSome) :
    ∃ x, clampConfidence value = .ok (.real x) ∧ InUnit x := by
  obtain ⟨n, hn⟩ := Option.isSome_iff_exists.1 h
  cases n with
  | real x =>
    rw [Value.eq_real_of_number hn]
    exact ⟨_, clampConfidence_real x, Binary64.inUnit_clampReal x⟩
  | int k =>
    have hlow : Magnitude.lt (Value.real 0.0) value = .ok (Config.zero.lt (.int k)) :=
      Value.lt_of_numbers rfl hn
    have hhigh : Magnitude.lt value (Value.real 1.0) = .ok ((Number.int k).lt Config.one) :=
      Value.lt_of_numbers hn rfl
    have hclamp : clampConfidence value = larger (.real 0.0) value >>= smaller (.real 1.0) := rfl
    rw [hclamp, larger, hlow, Except.ok_bind]
    cases hpos : Config.zero.lt (.int k) with
    | false => exact ⟨_, smaller_real 1.0 0.0, Binary64.inUnit_clampReal 0.0⟩
    | true =>
      refine ⟨1.0, ?_, Binary64.inUnit_clampReal 1.0⟩
      cases hless : (Number.int k).lt Config.one with
      | false =>
        show smaller (Value.real 1.0) value = _
        rw [smaller, hhigh, hless]
        rfl
      | true =>
        obtain ⟨x, hx, _⟩ := Number.real_of_between hpos hless
        cases hx

/-- What can be forced into the unit interval is a number. -/
theorem number_of_clampConfidence {value confidence : Value}
    (h : clampConfidence value = .ok confidence) : value.number?.isSome := by
  obtain ⟨_, hlarger, _⟩ := Except.bind_eq_ok.1 h
  obtain ⟨_, hlt, _⟩ := Except.bind_eq_ok.1 hlarger
  exact (Value.number_of_compareBy hlt).1 rfl

theorem real_of_clampConfidence {value confidence : Value}
    (h : clampConfidence value = .ok confidence) : ∃ x, confidence = .real x ∧ InUnit x := by
  obtain ⟨x, hx, hunit⟩ := clampConfidence_of_number (number_of_clampConfidence h)
  rw [hx] at h
  exact ⟨x, (Except.ok.inj h).symm, hunit⟩

namespace Learning

/-- A faded confidence is not raised to a floor that is a whole number: only a
floor of zero lets anything fade. -/
theorem larger_whole {floor : Value} {k : Int} (hfloor : floor.number? = some (.int k))
    (hlow : Config.zero.le (.int k) = true) {c y : Float} (hc : InUnit c) (hy : InUnit y)
    (habove : Magnitude.lt floor (.real c) = .ok true) :
    larger (.real y) floor = .ok (.real y) := by
  obtain ⟨q, hq, _, hqone⟩ := Number.key_of_inUnit hc
  obtain ⟨r, hr, hrzero, _⟩ := Number.key_of_inUnit hy
  have hnonneg : (0 : Rat) ≤ k := by
    have hle : (((Key.ofReal 0.0).before? (.number k)).getD false
        || (Key.ofReal 0.0 == .number k)) = true := hlow
    rw [Number.key_zero, Bool.or_eq_true] at hle
    rcases hle with hlt | heq
    · exact le_of_lt (of_decide_eq_true hlt)
    · exact le_of_eq (Key.number.inj (eq_of_beq heq))
  have hless : (k : Rat) < q := by
    rw [Value.lt_of_numbers hfloor rfl] at habove
    have hbefore : ((Key.number k).before? (Key.ofReal c)).getD false = true :=
      Except.ok.inj habove
    rw [hq] at hbefore
    exact of_decide_eq_true hbefore
  have hnot : ((Key.ofReal y).before? (.number k)).getD false = false := by
    have hk : k < 1 := by exact_mod_cast hless.trans_le hqone
    have hk' : 0 ≤ k := by exact_mod_cast hnonneg
    obtain rfl : k = 0 := by omega
    rw [hr]
    exact decide_eq_false (by simpa using hrzero)
  have hlt : Magnitude.lt (Value.real y) floor = .ok false := by
    rw [Value.lt_of_numbers rfl hfloor]
    exact congrArg Except.ok hnot
  rw [larger, hlt]
  rfl

/-- Factors and floors that a configuration may have let confidences fade inside
the unit interval. -/
theorem fadesInside_of_bounds {rules : Learning Value} {decay floor : Number}
    (hdecay : rules.decayFactor.number? = some decay) (hdecayLow : Config.zero.lt decay = true)
    (hdecayHigh : decay.lt Config.one = true) (hfloor : rules.floor.number? = some floor)
    (hfloorLow : Config.zero.le floor = true) (hfloorHigh : floor.le Config.one = true) :
    rules.FadesInside := by
  intro c faded confidence hc habove hmul hlarger
  obtain ⟨d, rfl, hd, hdone⟩ := Number.real_of_between hdecayLow hdecayHigh
  rw [Value.eq_real_of_number hdecay] at hmul
  have hproduct : InUnit (c * d) := Binary64.inUnit_mul hc hd hdone
  obtain rfl : faded = .real (c * d) := (Except.ok.inj hmul).symm
  cases floor with
  | int k =>
    rw [larger_whole hfloor hfloorLow hc hproduct habove] at hlarger
    exact ⟨_, (Except.ok.inj hlarger).symm, hproduct⟩
  | real f =>
    rw [Value.eq_real_of_number hfloor, larger_real] at hlarger
    refine ⟨_, (Except.ok.inj hlarger).symm, ?_⟩
    have hone : f ≤ 1.0 := of_decide_eq_true hfloorHigh
    split
    · rename_i hraised
      exact Binary64.inUnit_of_le_one (Binary64.pos_of_inUnit_lt hproduct hraised) hone
    · exact hproduct

end Learning

/-! ### Checked configurations -/

namespace Config

/-- A configuration that was checked has rules by which fading stays inside the
unit interval. -/
theorem fadesInside_of_validate {c : Config} (h : c.validate = .ok ()) :
    c.rules.FadesInside := by
  have hchecked := validate_eq_ok_iff.1 h
  obtain ⟨decay, hdecay, hdecayLow, hdecayHigh⟩ := hchecked.decay
  obtain ⟨floor, hfloor, hfloorLow, hfloorHigh⟩ := hchecked.floor
  exact Learning.fadesInside_of_bounds hdecay hdecayLow hdecayHigh hfloor hfloorLow hfloorHigh

end Config

/-! ## Rules and confidences -/
open Time (Timestamp)

/-- Rules whose factors and bounds are numbers that can be reckoned with. -/
structure Learning.Usable (rules : Learning Value) : Prop where
  gain : rules.gain.Factor
  penalty : rules.penalty.Factor
  modifyFactor : rules.modifyFactor.Factor
  decayFactor : rules.decayFactor.Factor
  floor : rules.floor.number?.isSome
  minWeight : rules.minWeight.number?.isSome
  maxWeight : rules.maxWeight.number?.isSome
  preferenceThreshold : rules.preferenceThreshold.number?.isSome
  ignoreThreshold : rules.ignoreThreshold.number?.isSome

/-- And the same for how sightings move confidences. -/
structure Smoothing.Usable (m : Smoothing Value) : Prop where
  alpha : m.alpha.Factor
  base : m.base.Factor
  floor : m.floor.number?.isSome

theorem Config.Has.factor {values : Section} {name : String}
    (h : Has values name ZeroToOne) : (valueOf values name).Factor := by
  obtain ⟨n, hn, hunit⟩ := h
  exact ⟨n, hn, hunit.factor⟩

/-- What lies strictly between zero and one is a floating-point number. -/
theorem Number.factor_of_between {n : Number} (hlow : Config.zero.lt n = true)
    (hhigh : n.lt Config.one = true) : n.Factor := by
  obtain ⟨x, rfl, _⟩ := real_of_between hlow hhigh
  trivial

namespace Config

variable {c : Config}

/-- A configuration that was checked has usable rules. -/
theorem usable_rules (h : c.validate = .ok ()) : c.rules.Usable := by
  have hchecked := validate_eq_ok_iff.1 h
  obtain ⟨penalty, hpenalty, hpos, modify, hmodify, hless, hone⟩ := hchecked.penalties
  obtain ⟨decay, hdecay, hdecayLow, hdecayHigh⟩ := hchecked.decay
  exact {
    gain := hchecked.gain.factor
    penalty := ⟨penalty, hpenalty, Number.factor_of_pos hpos hless hone⟩
    modifyFactor := ⟨modify, hmodify, Number.factor_of_lt hpos hless hone⟩
    decayFactor := ⟨decay, hdecay, Number.factor_of_between hdecayLow hdecayHigh⟩
    floor := hchecked.floor.isSome
    minWeight := hchecked.least.isSome
    maxWeight := hchecked.most.isSome
    preferenceThreshold := hchecked.preference.isSome
    ignoreThreshold := hchecked.ignored.isSome }

theorem usable_smoothing (h : c.validate = .ok ()) : c.smoothing.Usable := by
  have hchecked := validate_eq_ok_iff.1 h
  exact {
    alpha := hchecked.alpha.factor
    base := hchecked.base.factor
    floor := hchecked.floor.isSome }

end Config

namespace Learning

variable {rules : Learning Value}

/-! ### Reactions -/

/-- A reaction to a floating-point confidence gives one. -/
theorem exists_react (h : rules.Usable) (reaction : Reaction) (x : Float) :
    ∃ y, rules.react reaction (.real x) = .ok (.real y) := by
  cases reaction with
  | accepted =>
    obtain ⟨rest, hrest⟩ := Value.exists_sub_right x Value.factor_one.mixes
    obtain ⟨gained, hgained⟩ := Value.exists_mul_left rest h.gain.mixes
    obtain ⟨sum, hsum⟩ := Value.exists_add_left x (Value.mixes_real gained)
    refine ⟨sum, ?_⟩
    show (Magnitude.sub (Value.int 1) (.real x) >>= fun rest => _) = _
    rw [hrest, Except.ok_bind, hgained, Except.ok_bind, hsum]
  | rejected => exact Value.exists_mul_left x h.penalty.mixes
  | modified => exact Value.exists_mul_left x h.modifyFactor.mixes
  | ignored => exact ⟨x, rfl⟩

/-- The pattern after a reaction, before its confidence is forced into the unit
interval. -/
def reacted (e : Event) (p : Pattern Value) (confidence retired : Value) : Pattern Value :=
  { p with
    feedback := p.feedback ++ [e]
    confidence
    lastTouched := if e.reaction = .ignored then p.lastTouched else e.timestamp
    retired }

/-- A reaction is logged and moves the confidence; only accepting may revive. -/
theorem outcome_learn (h : rules.Usable) {e : Event} {p : Pattern Value} {x : Float}
    (hp : p.confidence = .real x) :
    ∃ y retired, rules.react e.reaction (.real x) = .ok (.real y) ∧
      (rules.learn e).outcome p = (.ok (), reacted e p (.real y) retired) ∧
      (retired = p.retired ∨ e.reaction = .accepted ∧ retired = .bool false) := by
  obtain ⟨y, hy⟩ := exists_react h e.reaction x
  have hstay : ∃ retired, (rules.learn e).outcome p = (.ok (), reacted e p (.real y) retired) ∧
      (retired = p.retired ∨ e.reaction = .accepted ∧ retired = .bool false) := by
    let logged := reacted e p (.real y) p.retired
    unfold learn
    rw [Change.outcome_bind, Change.outcome_modify]
    dsimp only
    rw [Change.outcome_bind_get]
    dsimp only
    rw [hp, hy, Change.outcome_bind_ofExcept_ok, Change.outcome_bind, Change.outcome_modify]
    show ∃ retired, (get >>= fun _ => _ : Change (Pattern Value) Unit).outcome logged = _ ∧ _
    rw [Change.outcome_bind_get]
    by_cases hretired : logged.isRetired = true
    · obtain ⟨above, habove⟩ := Value.exists_lt h.floor (rfl : (Value.real y).number?.isSome = true)
      rw [if_pos hretired, habove, Change.outcome_bind_ofExcept_ok]
      by_cases hrevived : (above && e.reaction == .accepted) = true
      · rw [if_pos hrevived]
        obtain ⟨_, haccepted⟩ := Bool.and_eq_true_iff.1 hrevived
        exact ⟨.bool false, rfl, .inr ⟨eq_of_beq haccepted, rfl⟩⟩
      · rw [if_neg hrevived]
        exact ⟨p.retired, rfl, .inl rfl⟩
    · rw [if_neg hretired]
      exact ⟨p.retired, rfl, .inl rfl⟩
  obtain ⟨retired, hrun, hretired⟩ := hstay
  exact ⟨y, retired, hy, hrun, hretired⟩

/-! ### Forgetting -/

theorem exists_fades (h : rules.Usable) {window : Int} {now : Timestamp} {p : Pattern Value}
    (hp : p.confidence.number?.isSome) : ∃ answer, rules.fades window now p = .ok answer := by
  unfold fades
  split
  · exact Value.exists_lt h.floor hp
  · exact ⟨false, rfl⟩

/-- A pass of forgetting does not fail at a pattern. -/
theorem exists_forget (h : rules.Usable) (window : Int) (now : Timestamp) {p : Pattern Value}
    {x : Float} (hp : p.confidence = .real x) : ∃ q, rules.forget window now p = .ok q := by
  have hnumber : p.confidence.number?.isSome := by
    rw [hp]
    rfl
  -- Once the confidence is known, it is compared with the floor.
  have hrest : ∀ confidence : Value, confidence.number?.isSome → ∃ q, (do
      let gone ← Magnitude.le confidence rules.floor
      pure { p with confidence, retired := if gone then Value.bool true else p.retired }
        : Except Fault (Pattern Value)) = .ok q := by
    intro confidence hconfidence
    obtain ⟨gone, hgone⟩ := Value.exists_le hconfidence h.floor
    rw [hgone]
    exact ⟨_, rfl⟩
  unfold forget
  split
  · exact ⟨p, rfl⟩
  · obtain ⟨fades, hfades⟩ : ∃ answer, rules.fades window now p = .ok answer :=
      exists_fades h hnumber
    rw [hfades, Except.ok_bind]
    cases fades with
    | false => exact hrest _ hnumber
    | true =>
      rw [if_pos rfl, hp]
      obtain ⟨y, hy⟩ := Value.exists_mul_left x h.decayFactor.mixes
      obtain ⟨faded, hfaded, hwhich⟩ :=
        Value.exists_larger (rfl : (Value.real y).number?.isSome = true) h.floor
      have hfadedNumber : faded.number?.isSome := by
        rcases hwhich with rfl | rfl
        · rfl
        · exact h.floor
      rw [hy, Except.ok_bind, hfaded, Except.ok_bind]
      exact hrest faded hfadedNumber

/-! ### Preferences -/

/-- Sorting a pattern in does not fail. -/
theorem gives_classify (h : rules.Usable) (id : Label) (net : Int) :
    Change.Gives (fun _ => True) (rules.classify id net) fun _ _ => True := by
  obtain ⟨reached, hreached⟩ :=
    Value.exists_le h.preferenceThreshold (rfl : (Value.int net).number?.isSome = true)
  obtain ⟨least, hleast, hnumber⟩ := Value.exists_neg h.preferenceThreshold
  obtain ⟨fallen, hfallen⟩ :=
    Value.exists_le (rfl : (Value.int net).number?.isSome = true) hnumber
  unfold classify
  refine Change.gives_bind (Q := fun _ _ => True) (Change.gives_modify fun _ _ => trivial)
    fun _ => ?_
  refine Change.gives_bind_ofExcept hreached ?_
  split
  · exact Change.gives_modify fun _ _ => trivial
  · refine Change.gives_bind_ofExcept hleast (Change.gives_bind_ofExcept hfallen ?_)
    split
    · exact Change.gives_modify fun _ _ => trivial
    · exact Change.gives_pure fun _ _ => trivial

/-- A weight cannot be moved exactly if the step cannot be added to it. -/
theorem nudged_eq_error (h : rules.Usable) {weight step : Value} {fault : Fault} :
    rules.nudged weight step = .error fault ↔ Magnitude.add weight step = .error fault := by
  unfold nudged
  cases hsum : Magnitude.add weight step with
  | error other => rw [Except.error_bind]
  | ok sum =>
    -- The sum is a number, and so it can be compared with the bounds.
    obtain ⟨raised, hraised, hwhich⟩ :=
      Value.exists_larger h.minWeight (Value.number?_onNumbers hsum)
    have hnumber : raised.number?.isSome := by
      rcases hwhich with rfl | rfl
      · exact h.minWeight
      · exact Value.number?_onNumbers hsum
    obtain ⟨moved, hmoved, _⟩ := Value.exists_smaller h.maxWeight hnumber
    rw [Except.ok_bind, hraised, Except.ok_bind, hmoved]
    simp

theorem nudge_eq_error (h : rules.Usable) {κ : Type} [BEq κ] {weights : Table κ Value} {key : κ}
    {step : Value} {fault : Fault} :
    rules.nudge weights key step = .error fault ↔
      Magnitude.add ((weights.get? key).getD (.real 1.0)) step = .error fault := by
  rw [← nudged_eq_error h]
  show (rules.nudged ((weights.get? key).getD (.real 1.0)) step >>= fun _ => _) = _ ↔ _
  cases rules.nudged ((weights.get? key).getD (.real 1.0)) step <;> simp

/-- What goes wrong when a reaction moves preferences, and how far they have moved
then: the step has no opposite, or it cannot be added to the weight of the kind or to
that of the language. -/
inductive Unmoved (rules : Learning Value) (reaction : Reaction) (p : Pattern Value)
    (prefs : Preferences Value) : Fault → Preferences Value → Prop
  | step {fault : Fault} (h : rules.step? reaction = .error fault) :
      Unmoved rules reaction p prefs fault prefs
  | kind {step : Value} {fault : Fault} (hstep : rules.step? reaction = .ok (some step))
      (h : Magnitude.add (prefs.kindWeight p.kind.name) step = .error fault) :
      Unmoved rules reaction p prefs fault prefs
  | language {step : Value} {kinds : Table String Value} {fault : Fault}
      (hstep : rules.step? reaction = .ok (some step))
      (hkinds : rules.nudge prefs.kindWeights p.kind.name step = .ok kinds)
      (h : Magnitude.add (prefs.languageWeight p.language) step = .error fault) :
      Unmoved rules reaction p prefs fault { prefs with kindWeights := kinds }

theorem prefer_eq_error (h : rules.Usable) {reaction : Reaction} {id : Label} {p : Pattern Value}
    {prefs left : Preferences Value} {fault : Fault} :
    (rules.prefer reaction id p).outcome prefs = (.error fault, left) ↔
      Unmoved rules reaction p prefs fault left := by
  unfold prefer
  constructor
  · intro hfails
    rcases Change.bind_eq_error.1 hfails with hfirst | ⟨step?, _, hfirst, hfails⟩
    · obtain ⟨hstep, rfl⟩ := Change.ofExcept_eq_error.1 hfirst
      exact .step hstep
    obtain ⟨hstep, rfl⟩ := Change.ofExcept_eq_ok.1 hfirst
    cases step? with
    | none => cases hfails
    | some step =>
      dsimp only at hfails
      rw [Change.outcome_bind_get] at hfails
      rcases Change.bind_eq_error.1 hfails with hsecond | ⟨kinds, _, hsecond, hfails⟩
      · obtain ⟨hkind, rfl⟩ := Change.ofExcept_eq_error.1 hsecond
        exact .kind hstep ((nudge_eq_error h).1 hkind)
      obtain ⟨hkinds, rfl⟩ := Change.ofExcept_eq_ok.1 hsecond
      rw [Change.outcome_bind, Change.outcome_modify] at hfails
      dsimp only at hfails
      rw [Change.outcome_bind_get] at hfails
      rcases Change.bind_eq_error.1 hfails with hthird | ⟨languages, _, _, hfails⟩
      · obtain ⟨hlanguage, rfl⟩ := Change.ofExcept_eq_error.1 hthird
        exact .language hstep hkinds ((nudge_eq_error h).1 hlanguage)
      rw [Change.outcome_bind, Change.outcome_modify] at hfails
      dsimp only at hfails
      obtain ⟨_, _, hsorted, _⟩ := gives_classify h id p.netFeedback _ trivial
      rw [hsorted] at hfails
      cases hfails
  · intro hunmoved
    cases hunmoved with
    | step hstep => rw [hstep, Change.outcome_bind_ofExcept_error]
    | kind hstep hkind =>
      rw [hstep, Change.outcome_bind_ofExcept_ok]
      dsimp only
      rw [Change.outcome_bind_get, (nudge_eq_error h).2 hkind, Change.outcome_bind_ofExcept_error]
    | language hstep hkinds hlanguage =>
      rw [hstep, Change.outcome_bind_ofExcept_ok]
      dsimp only
      rw [Change.outcome_bind_get, hkinds, Change.outcome_bind_ofExcept_ok, Change.outcome_bind,
        Change.outcome_modify]
      dsimp only
      rw [Change.outcome_bind_get, (nudge_eq_error h).2 hlanguage,
        Change.outcome_bind_ofExcept_error]

/-- A reaction moves preferences as soon as nothing of this is so. -/
theorem outcome_prefer (h : rules.Usable) (reaction : Reaction) (id : Label) (p : Pattern Value)
    (prefs : Preferences Value) :
    (∃ fault left, Unmoved rules reaction p prefs fault left) ∨
      ∃ left, (rules.prefer reaction id p).outcome prefs = (.ok (), left) := by
  rcases hrun : (rules.prefer reaction id p).outcome prefs with ⟨fault | _, left⟩
  · exact .inl ⟨fault, left, (prefer_eq_error h).1 hrun⟩
  · exact .inr ⟨left, rfl⟩

end Learning

/-! ### Sightings -/

namespace Smoothing

/-- Moving a floating-point confidence towards the base score gives one from zero to
one. -/
theorem exists_toward {m : Smoothing Value} (h : m.Usable) (x : Float) :
    ∃ y, m.toward (.real x) = .ok (.real y) ∧ InUnit y := by
  obtain ⟨pulled, hpulled, hfactor⟩ := h.alpha.exists_mul h.base
  obtain ⟨rest, hrest, hrestFactor⟩ := h.alpha.exists_rest
  obtain ⟨kept, hkept⟩ := Value.exists_mul_right x hrestFactor.mixes
  obtain ⟨sum, hsum⟩ := Value.exists_add_right kept hfactor.mixes
  obtain ⟨y, hy, hunit⟩ :=
    clampConfidence_of_number (rfl : (Value.real sum).number?.isSome = true)
  refine ⟨y, ?_, hunit⟩
  rw [toward, hpulled, Except.ok_bind, hrest, Except.ok_bind, hkept, Except.ok_bind, hsum,
    Except.ok_bind, hy]

end Smoothing

end CodeHabits
