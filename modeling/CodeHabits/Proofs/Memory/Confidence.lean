import CodeHabits.Proofs.Memory.Deed
import CodeHabits.Proofs.Memory.Reacting
import CodeHabits.Proofs.Value.Exact

/-!
# `CodeHabits.Proofs.Memory.Confidence`: exact confidences stay in the unit interval

Here all numbers are rational, so arithmetic is exact and never fails.
`confidences_in_unit` says of every run that all confidences that are stored are in
the unit interval, and so are those that the effect of a reaction tells.

A confidence is written in many places, and in all but one of them it is forced into
the unit interval. The exception is a pass of forgetting. It multiplies by the factor
of fading and raises to the floor, and stays inside because of the bounds that a
configuration is checked for (`inUnit_forget`).

The configuration is read exactly: whatever has an exact value is read as that value
(`Learning.ReadsAs`). An upper bound of the weights or a threshold may be infinite,
and the step of the weights need not be a number. These may be read as any rational
number, because no confidence depends on them.
-/

set_option autoImplicit false

namespace CodeHabits

open Time (Timestamp)

/-! ### Reading a configuration exactly -/

/-- The exact value of the number that a value is. -/
def Value.asRat? (value : Value) : Option Rat :=
  value.number?.bind Number.asRat?

/-- A rational number is the exact value of a value, if that has one. -/
def Value.ReadsAs (value : Value) (q : Rat) : Prop :=
  ∀ r, value.asRat? = some r → q = r

/-- Rational rules are those that values give. -/
structure Learning.ReadsAs (rules : Learning Value) (exact : Learning Rat) : Prop where
  gain : rules.gain.ReadsAs exact.gain
  penalty : rules.penalty.ReadsAs exact.penalty
  modifyFactor : rules.modifyFactor.ReadsAs exact.modifyFactor
  decayFactor : rules.decayFactor.ReadsAs exact.decayFactor
  floor : rules.floor.ReadsAs exact.floor
  weightStep : rules.weightStep.ReadsAs exact.weightStep
  minWeight : rules.minWeight.ReadsAs exact.minWeight
  maxWeight : rules.maxWeight.ReadsAs exact.maxWeight
  boost : rules.boost.ReadsAs exact.boost
  avoidancePenalty : rules.avoidancePenalty.ReadsAs exact.avoidancePenalty
  preferenceThreshold : rules.preferenceThreshold.ReadsAs exact.preferenceThreshold
  ignoreThreshold : rules.ignoreThreshold.ReadsAs exact.ignoreThreshold

/-- The rules that values give, where zero stands for what has no exact value. -/
def Learning.exactly (rules : Learning Value) : Learning Rat :=
  let exact (value : Value) : Rat := value.asRat?.getD 0
  { gain := exact rules.gain
    penalty := exact rules.penalty
    modifyFactor := exact rules.modifyFactor
    decayFactor := exact rules.decayFactor
    floor := exact rules.floor
    weightStep := exact rules.weightStep
    minWeight := exact rules.minWeight
    maxWeight := exact rules.maxWeight
    boost := exact rules.boost
    avoidancePenalty := exact rules.avoidancePenalty
    preferenceThreshold := exact rules.preferenceThreshold
    ignoreThreshold := exact rules.ignoreThreshold
    window := rules.window }

theorem Learning.readsAs_exactly (rules : Learning Value) : rules.ReadsAs rules.exactly := by
  have hexact : ∀ value : Value, value.ReadsAs (value.asRat?.getD 0) := by
    intro value q h
    rw [h]
    rfl
  constructor <;> exact hexact _

/-- A rational number from zero to one. -/
def UnitRat (q : Rat) : Prop :=
  0 ≤ q ∧ q ≤ 1

/-- The factor of fading of a checked configuration makes less of every confidence, but never
nothing. -/
theorem Learning.ReadsAs.decayFactor_between {c : Config} {exact : Learning Rat}
    (h : c.rules.ReadsAs exact) (hvalid : c.validate = .ok ()) :
    0 < exact.decayFactor ∧ exact.decayFactor < 1 := by
  obtain ⟨decay, hdecay, hlow, hhigh⟩ := (Config.validate_eq_ok_iff.1 hvalid).decay
  obtain ⟨q, hq, hbetween⟩ := Config.exact_of_openUnit hlow hhigh
  have hdecayValue : c.rules.decayFactor.asRat? = some q := by
    show (Config.valueOf c.learning "decay_factor").number?.bind _ = _
    rw [hdecay]
    exact hq
  rw [h.decayFactor q hdecayValue]
  exact hbetween

/-- The bounds of a checked configuration, for its exact values. -/
theorem Learning.ReadsAs.bounds {c : Config} {exact : Learning Rat} (h : c.rules.ReadsAs exact)
    (hvalid : c.validate = .ok ()) :
    UnitRat exact.decayFactor ∧ UnitRat exact.floor := by
  obtain ⟨hlow, hhigh⟩ := h.decayFactor_between hvalid
  obtain ⟨floor, hfloor, hunit⟩ := (Config.validate_eq_ok_iff.1 hvalid).floor
  obtain ⟨r, hr, hbounds⟩ := hunit.exact
  have hfloorValue : c.rules.floor.asRat? = some r := by
    show (Config.valueOf c.learning "forgetting_floor").number?.bind _ = _
    rw [hfloor]
    exact hr
  rw [h.floor r hfloorValue]
  exact ⟨⟨le_of_lt hlow, le_of_lt hhigh⟩, hbounds⟩

/-! ### Exact confidences -/

theorem larger_rat (p q : Rat) : larger p q = .ok (max p q) := by
  show Except.ok (if decide (p < q) = true then q else p) = _
  rcases le_total p q with h | h
  · rcases eq_or_lt_of_le h with rfl | h
    · simp
    · simp [h, max_eq_right (le_of_lt h)]
  · simp [not_lt.2 h, max_eq_left h]

theorem smaller_rat (p q : Rat) : smaller p q = .ok (min p q) := by
  show Except.ok (if decide (q < p) = true then q else p) = _
  rcases le_total p q with h | h
  · simp [not_lt.2 h, min_eq_left h]
  · rcases eq_or_lt_of_le h with rfl | h
    · simp
    · simp [h, min_eq_right (le_of_lt h)]

theorem clampConfidence_rat (q : Rat) : clampConfidence q = .ok (min 1 (max 0 q)) := by
  show (larger (0 : Rat) q >>= smaller (1 : Rat)) = _
  rw [larger_rat, Except.ok_bind, smaller_rat]

/-- What is forced into the unit interval is inside. -/
theorem unitRat_of_clampConfidence {q confidence : Rat} (h : clampConfidence q = .ok confidence) :
    UnitRat confidence := by
  rw [clampConfidence_rat] at h
  cases h
  exact ⟨le_min zero_le_one (le_max_left 0 q), min_le_left 1 _⟩

/-- The confidence of a pattern is in the unit interval. -/
def Pattern.InUnit (p : Pattern Rat) : Prop :=
  UnitRat p.confidence

namespace Store

open Pattern (InUnit)

variable {now : Timestamp}

theorem inUnit_countStyle (c : Sighting) : Change.Keeps InUnit (countStyle c) := by
  intro p h
  rw [countStyle, Change.outcome_within]
  exact h

theorem inUnit_firstSighting {m : Smoothing Rat} {id : Label} {c : Sighting} {p : Pattern Rat}
    (h : firstSighting m id now c = .ok p) : p.InUnit := by
  obtain ⟨confidence, hconfidence, h⟩ := Except.bind_eq_ok.1 h
  cases h
  exact unitRat_of_clampConfidence hconfidence

/-- What moves a confidence towards the base score forces it into the interval. -/
theorem unitRat_toward {m : Smoothing Rat} {c confidence : Rat}
    (h : m.toward c = .ok confidence) : UnitRat confidence := by
  obtain ⟨pulled, _, h⟩ := Except.bind_eq_ok.1 h
  obtain ⟨rest, _, h⟩ := Except.bind_eq_ok.1 h
  obtain ⟨kept, _, h⟩ := Except.bind_eq_ok.1 h
  obtain ⟨sum, _, h⟩ := Except.bind_eq_ok.1 h
  exact unitRat_of_clampConfidence h

theorem inUnit_seeAgain (m : Smoothing Rat) (c : Sighting) :
    Change.Keeps InUnit (seeAgain m now c) := by
  unfold seeAgain
  refine Change.keeps_bind Change.keeps_get fun p => ?_
  refine Change.keeps_bind (Change.keeps_ofExcept _) fun frequency => ?_
  refine Change.keeps_bind (Change.keeps_modify fun q hq => hq) fun _ => ?_
  refine Change.keeps_bind Change.keeps_get fun p => ?_
  refine Change.keeps_bind_ofExcept fun confidence hconfidence => ?_
  have hunit : UnitRat confidence := unitRat_toward hconfidence
  refine Change.keeps_bind (Change.keeps_modify fun q _ => hunit) fun _ => ?_
  refine Change.keeps_bind (inUnit_countStyle c) fun _ => ?_
  refine Change.keeps_bind (Change.keeps_modify fun q hq => hq) fun _ => ?_
  refine Change.keeps_bind Change.keeps_get fun q => ?_
  -- Reviving a pattern leaves its confidence alone.
  split
  · refine Change.keeps_bind (Change.keeps_ofExcept _) fun above => ?_
    split
    · exact Change.keeps_modify fun q hq => hq
    · exact Change.keeps_pure _
  · exact Change.keeps_pure _

theorem inUnit_gain (other : Pattern Rat) : Change.Keeps InUnit (gain other) := by
  unfold gain
  refine Change.keeps_bind Change.keeps_get fun p => ?_
  refine Change.keeps_bind (Change.keeps_ofExcept _) fun frequency => ?_
  exact Change.keeps_modify fun q hq => hq

/-- An edit ends by forcing the confidence into the interval, whatever it was
before. -/
theorem inUnit_clampPattern (p : Pattern Rat) : (clampPattern.outcome p).2.InUnit := by
  have hclamp := clampConfidence_rat p.confidence
  rw [clampPattern, Change.outcome_bind_get, hclamp, Change.outcome_bind_ofExcept_ok]
  exact unitRat_of_clampConfidence hclamp

theorem inUnit_of_pattern {d : Draft Rat} {p : Pattern Rat} (h : d.pattern = .ok p) :
    p.InUnit := by
  obtain ⟨id, _, h⟩ := Except.bind_eq_ok.1 h
  obtain ⟨language, _, h⟩ := Except.bind_eq_ok.1 h
  obtain ⟨signature, _, h⟩ := Except.bind_eq_ok.1 h
  obtain ⟨confidence, hconfidence, h⟩ := Except.bind_eq_ok.1 h
  cases h
  exact unitRat_of_clampConfidence hconfidence

end Store

/-- A pass of forgetting keeps a confidence inside, if the factor and the floor are. -/
theorem Learning.inUnit_forget {rules : Learning Rat} (hdecay : UnitRat rules.decayFactor)
    (hfloor : UnitRat rules.floor) {window : Int} {now : Timestamp} {p q : Pattern Rat}
    (hp : p.InUnit) (h : rules.forget window now p = .ok q) : q.InUnit := by
  obtain ⟨confidence, retired, rfl, hconfidence, _⟩ := forget_cases h
  rcases hconfidence with rfl | ⟨_, faded, hfaded, hlarger⟩
  · exact hp
  · have hproduct : faded = p.confidence * rules.decayFactor := (Except.ok.inj hfaded).symm
    rw [hproduct, larger_rat] at hlarger
    have hvalue : confidence = max (p.confidence * rules.decayFactor) rules.floor :=
      (Except.ok.inj hlarger).symm
    have hbelow : p.confidence * rules.decayFactor ≤ 1 :=
      mul_le_one₀ hp.2 hdecay.1 hdecay.2
    show UnitRat confidence
    rw [hvalue]
    exact ⟨le_max_of_le_right hfloor.1, max_le hbelow hfloor.2⟩

namespace Memory

/-- All confidences of a memory are in the unit interval. -/
def InUnit (m : Memory Rat) : Prop :=
  m.store.Every Pattern.InUnit

theorem inUnit_learn (idOf : IdScheme) (now : Timestamp) (c : Sighting) :
    Change.Keeps InUnit (learn idOf now c) := by
  apply keeps_inStore
  apply Store.every_upsert
  · intro m
    exact Store.inUnit_seeAgain m c
  · intro m id p h
    exact Store.inUnit_countStyle c p (Store.inUnit_firstSighting h)

/-- Whatever a reaction does to the confidence, an edit forces it into the interval. -/
theorem inUnit_takeIn (rules : Learning Rat) (id : Label) (e : Event) :
    Change.Keeps InUnit (takeIn rules id e) := by
  have hedit : ∀ x : Change (Pattern Rat) (Pattern Rat),
      Change.Keeps (Store.Every Pattern.InUnit) (Store.edit id x) :=
    fun x => Store.every_edit fun p _ => Store.inUnit_clampPattern (x.outcome p).2
  refine Change.keeps_bind (keeps_inStore (hedit _)) fun p => ?_
  -- The preferences hold no confidences.
  exact Change.keeps_within (Q := fun _ => True) (fun _ _ => trivial) (fun _ _ h _ => h)
    fun _ _ => trivial

theorem inUnit_decay {rules : Learning Rat} (hdecay : UnitRat rules.decayFactor)
    (hfloor : UnitRat rules.floor) (now : Timestamp) : Change.Keeps InUnit (decay rules now) :=
  every_decay fun _ _ _ hp hq => Learning.inUnit_forget hdecay hfloor hp hq

theorem inUnit_rebuilt {intake : Intake Rat} {m n : Memory Rat} {members : Table String Value}
    (h : m.rebuilt intake members = .ok n) : n.InUnit := by
  obtain ⟨prefs, _, h⟩ := Except.bind_eq_ok.1 h
  obtain ⟨store, hstore, h⟩ := Except.bind_eq_ok.1 h
  cases h
  exact Store.every_ofRecords (fun _ d p _ => Store.inUnit_of_pattern) hstore

/-- The confidences of a snapshot are forced into the interval when they are read. -/
theorem inUnit_takeIntake (intake : Intake Rat) (idOf : IdScheme) (document : Value)
    (replace : Bool) : Change.Keeps InUnit (takeIntake intake idOf document replace) := by
  unfold takeIntake
  refine Change.keeps_bind (Change.keeps_ofExcept _) fun members => ?_
  cases replace with
  | true =>
    refine Change.keeps_bind Change.keeps_get fun m => ?_
    refine Change.keeps_bind_ofExcept fun n hn => ?_
    refine Change.keeps_bind (fun _ _ => inUnit_rebuilt hn) fun _ => ?_
    exact Change.keeps_bind Change.keeps_get fun _ => Change.keeps_pure _
  | false =>
    apply keeps_inStore
    apply Store.every_merge
    intro incoming h
    have hincoming : incoming.Every Pattern.InUnit :=
      Store.every_ofRecords (fun _ d p _ => Store.inUnit_of_pattern) h
    intro entry hentry
    exact ⟨Store.inUnit_gain entry.2, fun _ => hincoming entry hentry⟩

variable {intake : Intake Rat} {setup : Setup Rat}

/-- One thing that is done. -/
theorem inUnit_perform (hdecay : UnitRat setup.rules.decayFactor)
    (hfloor : UnitRat setup.rules.floor) (now : Timestamp) (deed : Deed) :
    Change.Keeps InUnit (perform intake setup now deed) := by
  apply keeps_perform
  · exact fun m n h => h
  · exact fun now found => inUnit_learn setup.idOf now found.sighting
  · exact fun e id => inUnit_takeIn setup.rules id e
  · exact inUnit_decay hdecay hfloor
  · exact inUnit_takeIntake intake setup.idOf
  · exact fun m _ => Store.every_empty m.store.smoothing

/-- What the effect of a reaction tells are confidences before and after it. -/
theorem InUnit.effect {m n : Memory Rat} (hm : m.InUnit) (hn : n.InUnit) {now : Timestamp}
    {e : Event} {effect : Effect Rat} (h : (setup.feedback now e).outcome m = (.ok effect, n)) :
    UnitRat effect.previous ∧ UnitRat effect.confidence := by
  obtain ⟨id, before, found, htarget, _, h⟩ := feedback_eq_ok h
  obtain ⟨logged, counted, decay?, learned, _, _, _, rfl⟩ := respond_eq_ok.1 h
  have hbefore : before.InUnit := hm.of_get? (target_eq_ok.1 htarget).2
  have hafter : ((n.store.get? id).getD before).InUnit := by
    cases hget : n.store.get? id with
    | none => exact hbefore
    | some p => exact hn.of_get? hget
  exact ⟨hbefore, hafter⟩

/-- Whatever is done to a memory that began with nothing learned, under rules that an
accepted configuration gives: every confidence that is stored is in the unit interval,
and so are both confidences that the effect of any further reaction tells. -/
theorem confidences_in_unit {c : Config} (hvalid : c.validate = .ok ())
    (hrules : c.rules.ReadsAs setup.rules) (smoothing : Smoothing Rat)
    (deeds : List (Timestamp × Deed)) :
    let m := runFrom intake setup (empty smoothing) deeds
    (∀ entry ∈ m.store.patterns, 0 ≤ entry.2.confidence ∧ entry.2.confidence ≤ 1) ∧
      ∀ now e effect, ((setup.feedback now e).outcome m).1 = .ok effect →
        (0 ≤ effect.previous ∧ effect.previous ≤ 1) ∧
          0 ≤ effect.confidence ∧ effect.confidence ≤ 1 := by
  obtain ⟨hdecay, hfloor⟩ := hrules.bounds hvalid
  have hdeed : ∀ now deed, Change.Keeps InUnit (perform intake setup now deed) :=
    inUnit_perform hdecay hfloor
  have hm : (runFrom intake setup (empty smoothing) deeds).InUnit :=
    runFrom_keeps hdeed deeds (Store.every_empty smoothing)
  refine ⟨hm, fun now e effect h => ?_⟩
  -- A further reaction is one more thing that is done.
  have hfeedback : Change.Keeps InUnit (setup.feedback now e) := by
    apply Setup.keeps_feedback
    · exact fun m n h => h
    · exact fun id => inUnit_takeIn setup.rules id e
    · exact inUnit_decay hdecay hfloor _
    · exact fun found => inUnit_learn setup.idOf now found.sighting
  exact hm.effect (hfeedback _ hm) (Prod.ext h rfl)

/-- Reads numbers by their exact values. -/
def Intake.exact (smoothing : Smoothing Rat) : Intake Rat where
  number value := match value.asRat? with
    | some q => .ok q
    | none => .error .wrongKind
  smoothing

/-- A snapshot with a confidence of seven. -/
def overconfident : Value :=
  .object
    [("schema_version", .int 1),
     ("patterns", .list
       [.object
         [("id", .text "seven"), ("pattern_type", .text "loop_construct"), ("language", .text "go"),
          ("signature", .text "for"), ("confidence", .int 7), ("frequency", .int 1),
          ("last_seen", .text "20240101")]])]

/-- A rejection of its pattern. -/
def rejectedSeven : Event :=
  ⟨.text "seven", .rejected, ⟨0, 0⟩, .null, .unknown, .null⟩

/-- A confidence of seven counts as one, and a rejection lowers it from there. -/
theorem confidences_in_unit_of_seven :
    let setup : Setup Rat :=
      ⟨.usual [] .null .null, ⟨fun _ _ => default, fun _ => .statements []⟩,
        Config.default.rules.exactly, .usual⟩
    let m := runFrom (.exact ⟨0, 0, 0⟩) setup (empty ⟨0, 0, 0⟩)
      [(⟨0, 0⟩, .takeSnapshot overconfident true)]
    m.store.patterns.map (·.2.confidence) = [1] ∧
      ∃ effect, ((setup.feedback ⟨0, 0⟩ rejectedSeven).outcome m).1 = .ok effect ∧
        effect.confidence < effect.previous ∧ 0 ≤ effect.confidence ∧ effect.previous ≤ 1 := by
  intro setup m
  have hvalid : Config.default.validate = .ok () := Except.eq_ok_unit (by decide +kernel)
  have hlowered : (((setup.feedback ⟨0, 0⟩ rejectedSeven).outcome m).1.toOption.any fun effect =>
      decide (effect.confidence < effect.previous)) = true := by decide +kernel
  obtain ⟨effect, heffect, hlowered⟩ := (Option.any_eq_true _ _).1 hlowered
  have heffect := Except.toOption_eq_some.1 heffect
  obtain ⟨_, hunit⟩ := @confidences_in_unit (.exact ⟨0, 0, 0⟩) setup _ hvalid
    (Learning.readsAs_exactly _) ⟨0, 0, 0⟩ [(⟨0, 0⟩, .takeSnapshot overconfident true)]
  obtain ⟨hprevious, hconfidence⟩ := hunit ⟨0, 0⟩ rejectedSeven effect heffect
  exact ⟨by decide +kernel, effect, heffect, of_decide_eq_true hlowered, hconfidence.1, hprevious.2⟩

end Memory

end CodeHabits
