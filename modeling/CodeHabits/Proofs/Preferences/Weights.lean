import CodeHabits.Proofs.Binary64.Order
import CodeHabits.Proofs.Learning.Exact
import CodeHabits.Proofs.Learning.Usable
import CodeHabits.Proofs.Preferences.Settled

/-!
# `CodeHabits.Proofs.Preferences.Weights`: how weights are moved

With rational numbers moving the preferences never fails. `swayed` writes down what an
accepted or a rejected pattern does to them: the weights of its kind and its language are
moved by a step inside their range, and then the pattern is sorted in by its net
feedback (`placed`). `outcome_prefer_rat` says that this is what the rules do. Membership in
the two lists is decided up to equality of labels, as lookups decide it (`Preferences.Likes`,
`Preferences.Avoids`).

Of the values at run time not all can be moved. A configuration is checked for the bounds of
the weights, but not for the step by which reactions move them. The step may be no number at
all, or a whole number that is too large for a weight that is a floating-point number.

`Learning.Weighs` rules both out. Then no reaction ever fails to move a weight
(`not_unmoved`), and the invariant behind that is `Learning.Carries`: a whole step can be
added to any number that is not mixed with it, and any other step to a weight that is a
floating-point number or one of the bounds. Moving a weight keeps this, and so does
reading weights from a snapshot.

Scores are confidences multiplied with weights. For them the weights have to mix with
floating-point numbers, and under `Learning.Scores` they go on to.
-/

set_option autoImplicit false

/-! ## Exact numbers -/

namespace CodeHabits

namespace Preferences

variable {ν : Type}

/-- A pattern is among the preferred. -/
def Likes (p : Preferences ν) (id : Label) : Prop :=
  ∃ label ∈ p.preferred, (label == id) = true

/-- A pattern is among the avoided. -/
def Avoids (p : Preferences ν) (id : Label) : Prop :=
  ∃ label ∈ p.avoided, (label == id) = true

/-- What is taken out is not there any more, and all else stays. -/
theorem exists_excluding {labels : List Label} {id other : Label} :
    (∃ label ∈ excluding labels id, (label == other) = true) ↔
      (∃ label ∈ labels, (label == other) = true) ∧ (id == other) = false := by
  constructor
  · rintro ⟨label, hlabel, hsame⟩
    obtain ⟨hmem, hkept⟩ := List.mem_filter.1 hlabel
    refine ⟨⟨label, hmem, hsame⟩, ?_⟩
    -- If the two were the same, the label would have been taken out.
    rw [Bool.eq_false_iff]
    intro hother
    have hout : (label == id) = true := PartialEquivBEq.trans hsame (PartialEquivBEq.symm hother)
    rw [hout] at hkept
    cases hkept
  · rintro ⟨⟨label, hmem, hsame⟩, hother⟩
    refine ⟨label, List.mem_filter.2 ⟨hmem, ?_⟩, hsame⟩
    rw [Bool.not_eq_true', Bool.eq_false_iff]
    intro hout
    rw [PartialEquivBEq.trans (PartialEquivBEq.symm hout) hsame] at hother
    cases hother

theorem exists_append_singleton {labels : List Label} {id other : Label} :
    (∃ label ∈ labels ++ [id], (label == other) = true) ↔
      (∃ label ∈ labels, (label == other) = true) ∨ (id == other) = true := by
  simp only [List.mem_append, List.mem_singleton, or_and_right, exists_or, exists_eq_left]

end Preferences

namespace Learning

variable {rules : Learning Rat}

/-- The step by which a reaction moves weights, if it does. -/
def stepOf (rules : Learning Rat) : Reaction → Option Rat
  | .accepted => some rules.weightStep
  | .rejected => some (-rules.weightStep)
  | _ => none

/-- Weights with one of them moved inside the range. -/
def pushed {κ : Type} [BEq κ] (rules : Learning Rat) (weights : Table κ Rat) (key : κ)
    (step : Rat) : Table κ Rat :=
  weights.put key
    (min rules.maxWeight (max rules.minWeight ((weights.get? key).getD 1 + step)))

/-- The preferences with a pattern where its net feedback belongs. -/
def placed (rules : Learning Rat) (id : Label) (net : Int) (prefs : Preferences Rat) :
    Preferences Rat :=
  let rest := prefs.without id
  if rules.preferenceThreshold ≤ net then { rest with preferred := rest.preferred ++ [id] }
  else if (net : Rat) ≤ -rules.preferenceThreshold then
    { rest with avoided := rest.avoided ++ [id] }
  else rest

/-- The preferences after a reaction to a pattern, which has the reaction in its log. -/
def swayed (rules : Learning Rat) (reaction : Reaction) (id : Label) (p : Pattern Rat)
    (prefs : Preferences Rat) : Preferences Rat :=
  match rules.stepOf reaction with
  | none => prefs
  | some step =>
    rules.placed id p.netFeedback
      { prefs with
        kindWeights := rules.pushed prefs.kindWeights p.kind.name step
        languageWeights := rules.pushed prefs.languageWeights p.language step }

theorem nudge_rat {κ : Type} [BEq κ] (rules : Learning Rat) (weights : Table κ Rat) (key : κ)
    (step : Rat) : rules.nudge weights key step = .ok (rules.pushed weights key step) := by
  have hnudged : ∀ weight : Rat, rules.nudged weight step
      = .ok (min rules.maxWeight (max rules.minWeight (weight + step))) := by
    intro weight
    show (larger rules.minWeight (weight + step) >>= smaller rules.maxWeight) = _
    rw [larger_rat, Except.ok_bind, smaller_rat]
  unfold nudge
  rw [hnudged, Except.ok_bind]
  rfl

theorem outcome_classify_rat (rules : Learning Rat) (id : Label) (net : Int)
    (prefs : Preferences Rat) :
    (rules.classify id net).outcome prefs = (.ok (), rules.placed id net prefs) := by
  unfold classify placed
  rw [Change.outcome_bind, Change.outcome_modify]
  show (Change.ofExcept (.ok (decide (rules.preferenceThreshold ≤ (net : Rat)))) >>= fun _ => _
    : Change (Preferences Rat) Unit).outcome (prefs.without id) = _
  rw [Change.outcome_bind_ofExcept_ok]
  -- The threshold is looked at from above first, and from below only if that fails.
  by_cases hpreferred : rules.preferenceThreshold ≤ (net : Rat)
  · rw [if_pos (decide_eq_true hpreferred), if_pos hpreferred]
    rfl
  · rw [if_neg (by simpa using hpreferred), if_neg hpreferred]
    show (Change.ofExcept (.ok (-rules.preferenceThreshold)) >>= fun _ => _
      : Change (Preferences Rat) Unit).outcome (prefs.without id) = _
    rw [Change.outcome_bind_ofExcept_ok]
    show (Change.ofExcept (.ok (decide ((net : Rat) ≤ -rules.preferenceThreshold))) >>= fun _ => _
      : Change (Preferences Rat) Unit).outcome (prefs.without id) = _
    rw [Change.outcome_bind_ofExcept_ok]
    by_cases havoided : (net : Rat) ≤ -rules.preferenceThreshold
    · rw [if_pos (decide_eq_true havoided), if_pos havoided]
      rfl
    · rw [if_neg (by simpa using havoided), if_neg havoided]
      rfl

theorem outcome_prefer_rat (rules : Learning Rat) (reaction : Reaction) (id : Label)
    (p : Pattern Rat) (prefs : Preferences Rat) :
    (rules.prefer reaction id p).outcome prefs = (.ok (), rules.swayed reaction id p prefs) := by
  have hstep : rules.step? reaction = .ok (rules.stepOf reaction) := by
    cases reaction <;> rfl
  unfold prefer swayed
  rw [hstep, Change.outcome_bind_ofExcept_ok]
  cases rules.stepOf reaction with
  | none => rfl
  | some step =>
    dsimp only
    -- First the weight of the kind is moved, then that of the language.
    rw [Change.outcome_bind_get, nudge_rat, Change.outcome_bind_ofExcept_ok, Change.outcome_bind,
      Change.outcome_modify]
    dsimp only
    rw [Change.outcome_bind_get, nudge_rat, Change.outcome_bind_ofExcept_ok, Change.outcome_bind,
      Change.outcome_modify]
    exact outcome_classify_rat rules id p.netFeedback _

end Learning

end CodeHabits

/-! ## Values -/

namespace CodeHabits

/-- Whether a whole number is too large does not depend on its sign. -/
theorem Number.Mixes.neg {n : Number} (h : n.Mixes) : n.neg.Mixes := by
  cases n with
  | real x => exact mixes_real (-x)
  | int k =>
    have hsome : ∀ k : Int, (int k).Mixes ↔
        (Binary64.toRat? (Binary64.nearest false k.natAbs 1)).isSome := by
      intro k
      rw [← Binary64.isSome_toRat?_nearest (k < 0)]
      unfold Mixes toReal? unlessTooLarge realOfInt
      by_cases hvalue : (Binary64.toRat? (Binary64.nearest (k < 0) k.natAbs 1)).isSome = true
      · simp [hvalue]
      · simp [hvalue]
    show (int (-k)).Mixes
    rw [hsome, Int.natAbs_neg, ← hsome]
    exact h

namespace Value

/-- Both values are whole numbers, or both are floating-point numbers. -/
def SameSort (a b : Value) : Prop :=
  (∃ k j, a.number? = some (.int k) ∧ b.number? = some (.int j)) ∨
    ∃ x y, a = .real x ∧ b = .real y

/-- The opposite of a number that mixes mixes as well. -/
theorem Mixes.exists_neg {a : Value} (h : a.Mixes) :
    ∃ b, Magnitude.neg a = .ok b ∧ b.Mixes ∧ SameSort a b := by
  obtain ⟨n, hn, hmixes⟩ := h
  have hneg : Magnitude.neg a = .ok n.neg.value := by
    show (a.toNumber >>= fun n => _) = _
    rw [toNumber, hn]
    rfl
  refine ⟨n.neg.value, hneg, ?_⟩
  cases n with
  | int k => exact ⟨⟨_, rfl, hmixes.neg⟩, .inl ⟨k, -k, hn, rfl⟩⟩
  | real x => exact ⟨mixes_real _, .inr ⟨x, -x, eq_real_of_number hn, rfl⟩⟩

end Value

namespace Learning

variable {rules : Learning Value} {reaction : Reaction} {weight step : Value}

/-- The step and the bounds of the weights are numbers, and none of them is a whole number
that is too large for a floating-point number. -/
structure Weighs (rules : Learning Value) : Prop where
  step : rules.weightStep.Mixes
  least : rules.minWeight.Mixes
  most : rules.maxWeight.Mixes

/-- The weight is a number to which the step can be added: the step is whole, or else the
weight is not a whole number that is too large. -/
def Carries (rules : Learning Value) (weight : Value) : Prop :=
  weight.number?.isSome ∧ (weight.Mixes ∨ ∃ k, rules.weightStep.number? = some (.int k))

theorem Carries.of_mixes (h : weight.Mixes) : rules.Carries weight := by
  obtain ⟨n, hn, hmixes⟩ := h
  exact ⟨Option.isSome_of_eq_some hn, .inl ⟨n, hn, hmixes⟩⟩

/-- The steps of the reactions are of the same sort. -/
theorem Weighs.step_cases (h : rules.Weighs) (reaction : Reaction) :
    rules.step? reaction = .ok none ∨
      ∃ step, rules.step? reaction = .ok (some step) ∧ step.Mixes ∧
        rules.weightStep.SameSort step := by
  cases reaction with
  | accepted =>
    refine .inr ⟨rules.weightStep, rfl, h.step, ?_⟩
    obtain ⟨n, hn, _⟩ := h.step
    cases n with
    | int k => exact .inl ⟨k, k, hn, hn⟩
    | real x => exact .inr ⟨x, x, Value.eq_real_of_number hn, Value.eq_real_of_number hn⟩
  | rejected =>
    obtain ⟨step, hstep, hmixes, hsort⟩ := h.step.exists_neg
    refine .inr ⟨step, ?_, hmixes, hsort⟩
    rw [step?, hstep]
    rfl
  | modified => exact .inl rfl
  | ignored => exact .inl rfl

/-- Such a step can be added, and then the next one can. -/
theorem Carries.exists_add (h : rules.Carries weight) (hmixes : step.Mixes)
    (hsort : rules.weightStep.SameSort step) :
    ∃ sum, Magnitude.add weight step = .ok sum ∧ rules.Carries sum := by
  obtain ⟨hnumber, hweight⟩ := h
  rcases hsort with ⟨k, j, hwhole, hstep⟩ | ⟨x, y, hreal, rfl⟩
  · obtain ⟨n, hn⟩ := Option.isSome_iff_exists.1 hnumber
    cases n with
    | int m =>
      have hadd : Magnitude.add weight step = .ok (.int (m + j)) := by
        show Value.onNumbers Magnitude.add weight step = _
        rw [Value.onNumbers_of_numbers hn hstep]
        rfl
      exact ⟨_, hadd, rfl, .inr ⟨k, hwhole⟩⟩
    | real z =>
      obtain rfl := Value.eq_real_of_number hn
      obtain ⟨sum, hsum⟩ := Value.exists_add_left z hmixes
      exact ⟨_, hsum, .of_mixes (Value.mixes_real sum)⟩
  · have hweight : weight.Mixes := by
      rcases hweight with hweight | ⟨k, hwhole⟩
      · exact hweight
      · rw [hreal] at hwhole
        cases hwhole
    obtain ⟨sum, hsum⟩ := Value.exists_add_right y hweight
    exact ⟨_, hsum, .of_mixes (Value.mixes_real sum)⟩

/-- A weight is moved to a sum or to a bound. -/
theorem Carries.nudged (h : rules.Weighs) (hweight : rules.Carries weight) (hmixes : step.Mixes)
    (hsort : rules.weightStep.SameSort step) {result : Value}
    (hresult : rules.nudged weight step = .ok result) : rules.Carries result := by
  obtain ⟨sum, hsum, hcarries⟩ := hweight.exists_add hmixes hsort
  rw [Learning.nudged, hsum, Except.ok_bind] at hresult
  obtain ⟨raised, hraised, hresult⟩ := Except.bind_eq_ok.1 hresult
  rcases smaller_eq_or hresult with rfl | rfl
  · exact .of_mixes h.most
  · rcases larger_eq_or hraised with rfl | rfl
    · exact .of_mixes h.least
    · exact hcarries

/-- Of weights that carry the step, the one of a key does, also if there is none yet. -/
theorem Carries.getD {κ : Type} [BEq κ] {weights : Table κ Value}
    (h : ∀ entry ∈ weights, rules.Carries entry.2) (key : κ) :
    rules.Carries ((weights.get? key).getD (.real 1.0)) := by
  cases hget : weights.get? key with
  | none => exact .of_mixes (Value.mixes_real 1.0)
  | some known =>
    obtain ⟨entry, hentry, _, rfl⟩ := Table.exists_mem_of_get? hget
    exact h entry hentry

/-- All weights carry the step. -/
def CarriesAll (rules : Learning Value) (prefs : Preferences Value) : Prop :=
  ∀ weight ∈ prefs.weights, rules.Carries weight

theorem carriesAll_none : rules.CarriesAll .none := by
  intro weight hweight
  cases hweight

theorem carriesAll_of_floating {prefs : Preferences Value} (h : prefs.Floating) :
    rules.CarriesAll prefs := by
  intro weight hweight
  obtain ⟨x, rfl⟩ := h weight hweight
  exact .of_mixes (Value.mixes_real x)

theorem carriesAll_prefer (h : rules.Weighs) (reaction : Reaction) (id : Label)
    (p : Pattern Value) : Change.Keeps rules.CarriesAll (rules.prefer reaction id p) := by
  refine Preferences.weights_prefer (.of_mixes (Value.mixes_real 1.0)) ?_ id p
  intro weight step result hstep hweight hresult
  rcases h.step_cases reaction with hnone | ⟨found, hfound, hmixes, hsort⟩
  · rw [hnone] at hstep
    cases hstep
  · rw [hfound] at hstep
    cases hstep
    exact hweight.nudged h hmixes hsort hresult

/-- Nothing keeps a reaction from moving such weights. -/
theorem not_unmoved (h : rules.Weighs) {prefs left : Preferences Value}
    (hprefs : rules.CarriesAll prefs) {p : Pattern Value} {fault : Fault} :
    ¬ rules.Unmoved reaction p prefs fault left := by
  obtain ⟨hkinds, hlanguages⟩ := Preferences.forall_weights.1 hprefs
  intro hunmoved
  rcases h.step_cases reaction with hnone | ⟨step, hstep, hmixes, hsort⟩
  · cases hunmoved with
    | step hfails =>
      rw [hnone] at hfails
      cases hfails
    | kind hmoves _ =>
      rw [hnone] at hmoves
      cases hmoves
    | language hmoves _ _ =>
      rw [hnone] at hmoves
      cases hmoves
  · cases hunmoved with
    | step hfails =>
      rw [hstep] at hfails
      cases hfails
    | kind hmoves hadd =>
      rw [hstep] at hmoves
      cases hmoves
      obtain ⟨_, hsum, _⟩ := (Carries.getD hkinds p.kind.name).exists_add hmixes hsort
      exact absurd (hsum.symm.trans hadd) (by simp)
    | language hmoves _ hadd =>
      rw [hstep] at hmoves
      cases hmoves
      obtain ⟨_, hsum, _⟩ := (Carries.getD hlanguages p.language).exists_add hmixes hsort
      exact absurd (hsum.symm.trans hadd) (by simp)

/-! ### Weights that confidences are multiplied with -/

/-- The step is a floating-point number, and the bounds of the weights and the factors for
liked and avoided patterns can be mixed with one. -/
structure Scores (rules : Learning Value) : Prop where
  step : ∃ x, rules.weightStep = .real x
  least : rules.minWeight.Mixes
  most : rules.maxWeight.Mixes
  boost : rules.boost.Mixes
  avoidance : rules.avoidancePenalty.Mixes

theorem Scores.weighs (h : rules.Scores) : rules.Weighs := by
  obtain ⟨x, hx⟩ := h.step
  refine ⟨?_, h.least, h.most⟩
  rw [hx]
  exact Value.mixes_real x

/-- Every reaction moves weights by a floating-point number, if it moves them. -/
theorem Scores.step_real (h : rules.Scores) (hstep : rules.step? reaction = .ok (some step)) :
    ∃ x, step = .real x := by
  obtain ⟨x, hx⟩ := h.step
  cases reaction with
  | accepted =>
    cases hstep
    exact ⟨x, hx⟩
  | rejected =>
    rw [step?, hx] at hstep
    cases hstep
    exact ⟨-x, rfl⟩
  | modified => cases hstep
  | ignored => cases hstep

/-- A weight that mixes is moved to one that mixes: to a sum, which is a floating-point
number, or to a bound. -/
theorem mixes_prefer (h : rules.Scores) (reaction : Reaction) (id : Label) (p : Pattern Value) :
    Change.Keeps (fun prefs => ∀ weight ∈ prefs.weights, weight.Mixes)
      (rules.prefer reaction id p) := by
  refine Preferences.weights_prefer (Value.mixes_real 1.0) ?_ id p
  intro weight step result hstep hweight hresult
  obtain ⟨x, rfl⟩ := h.step_real hstep
  obtain ⟨sum, hsum⟩ := Value.exists_add_right x hweight
  rw [Learning.nudged, hsum, Except.ok_bind] at hresult
  obtain ⟨raised, hraised, hresult⟩ := Except.bind_eq_ok.1 hresult
  rcases smaller_eq_or hresult with rfl | rfl
  · exact h.most
  · rcases larger_eq_or hraised with rfl | rfl
    · exact h.least
    · exact Value.mixes_real sum

end Learning

end CodeHabits
