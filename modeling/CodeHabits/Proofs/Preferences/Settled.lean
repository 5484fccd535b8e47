import CodeHabits.Learning
import CodeHabits.Proofs.Change
import CodeHabits.Proofs.Preferences.Written

/-!
# `CodeHabits.Proofs.Preferences.Settled`: the preferences that learning makes

Preferences are settled when they can be sorted, their weights are numbers, and
no kind and no language has two weights. Learning from a reaction to a pattern
keeps this, if the id and the language of the pattern are texts
(`settled_prefer`). The settings need not be checked for it: a weight that is
moved is compared with what it is bounded by, so it is only moved to a number.

What comes back from a document is settled again (`Settled.asReal`).
-/

set_option autoImplicit false

namespace CodeHabits

namespace Preferences

/-- Preferences as they are learned. -/
structure Settled (p : Preferences Value) : Prop extends Sortable p where
  numbers : ∀ weight ∈ p.weights, weight.number?.isSome
  kindsDistinct : Table.Distinct p.kindWeights
  languagesDistinct : Table.Distinct p.languageWeights

theorem settled_none : (none : Preferences Value).Settled where
  languages := by simp [none]
  preferred := .nil
  avoided := .nil
  preferredTexts := by simp [none]
  avoidedTexts := by simp [none]
  numbers := by simp [none, weights]
  kindsDistinct := .nil
  languagesDistinct := .nil

/-! ### Weights -/

theorem number_nudged {rules : Learning Value} {weight step result : Value}
    (h : rules.nudged weight step = .ok result) : result.number?.isSome := by
  obtain ⟨sum, hsum, h⟩ := Except.bind_eq_ok.1 h
  obtain ⟨raised, hraised, h⟩ := Except.bind_eq_ok.1 h
  exact Value.number_of_smaller (Value.number_of_larger (Value.number?_onNumbers hsum) hraised) h

/-- Bounds that are floating-point numbers keep a weight one. -/
theorem real_nudged {rules : Learning Value} (hleast : ∃ x, rules.minWeight = .real x)
    (hmost : ∃ x, rules.maxWeight = .real x) {x : Float} {step result : Value}
    (h : rules.nudged (.real x) step = .ok result) : ∃ y, result = .real y := by
  obtain ⟨sum, hsum, h⟩ := Except.bind_eq_ok.1 h
  obtain ⟨raised, hraised, h⟩ := Except.bind_eq_ok.1 h
  rcases smaller_eq_or h with rfl | rfl
  · exact hmost
  · rcases larger_eq_or hraised with rfl | rfl
    · exact hleast
    · exact Value.real_of_add hsum

/-- A weight is moved in its place, or comes last. -/
theorem nudge_eq_ok {κ : Type} [BEq κ] {rules : Learning Value} {weights moved : Table κ Value}
    {key : κ} {step : Value} :
    rules.nudge weights key step = .ok moved ↔
      ∃ weight, rules.nudged ((weights.get? key).getD (.real 1.0)) step = .ok weight ∧
        moved = weights.put key weight := by
  constructor
  · intro h
    obtain ⟨weight, hweight, h⟩ := Except.bind_eq_ok.1 h
    exact ⟨weight, hweight, (Except.ok.inj h).symm⟩
  · rintro ⟨weight, hweight, rfl⟩
    show (rules.nudged ((weights.get? key).getD (.real 1.0)) step >>= _) = _
    rw [hweight]
    rfl

theorem Settled.with_kindWeights {p : Preferences Value} (h : p.Settled) (kind : String)
    {weight : Value} (hweight : weight.number?.isSome) :
    Settled { p with kindWeights := p.kindWeights.put kind weight } where
  toSortable := { h.toSortable with }
  numbers := by
    obtain ⟨hkinds, hlanguages⟩ := forall_weights.1 h.numbers
    exact forall_weights.2
      ⟨Table.forall_values_put (P := fun weight : Value => weight.number?.isSome) hkinds hweight,
        hlanguages⟩
  kindsDistinct := h.kindsDistinct.put kind weight
  languagesDistinct := h.languagesDistinct

theorem Settled.with_languageWeights {p : Preferences Value} (h : p.Settled) {language : Label}
    (hlanguage : language.IsText) {weight : Value} (hweight : weight.number?.isSome) :
    Settled { p with languageWeights := p.languageWeights.put language weight } where
  toSortable := { h.toSortable with
    languages := Table.forall_keys_put h.languages hlanguage }
  numbers := by
    obtain ⟨hkinds, hlanguages⟩ := forall_weights.1 h.numbers
    exact forall_weights.2
      ⟨hkinds,
        Table.forall_values_put (P := fun weight : Value => weight.number?.isSome) hlanguages hweight⟩
  kindsDistinct := h.kindsDistinct
  languagesDistinct := h.languagesDistinct.put language weight

/-! ### Labels -/

theorem excluding_texts {labels : List Label} (h : ∀ label ∈ labels, label.IsText)
    (label : Label) : ∀ other ∈ excluding labels label, other.IsText :=
  fun other hother => h other (List.mem_filter.1 hother).1

/-- A label is taken out before it is put in. -/
theorem excluding_distinct {labels : List Label} (h : Label.Distinct labels) (label : Label) :
    Label.Distinct (excluding labels label ++ [label]) := by
  refine List.pairwise_append.2 ⟨h.filter _, by simp, fun other hother last hlast => ?_⟩
  rw [List.mem_singleton.1 hlast]
  simpa using (List.mem_filter.1 hother).2

/-- The preferences without a label among the preferred and the avoided. -/
def without {ν : Type} (p : Preferences ν) (id : Label) : Preferences ν :=
  { p with preferred := excluding p.preferred id, avoided := excluding p.avoided id }

theorem Sortable.without {p : Preferences Value} (h : p.Sortable) (id : Label) :
    (p.without id).Sortable :=
  { h with
    preferred := h.preferred.filter _
    avoided := h.avoided.filter _
    preferredTexts := excluding_texts h.preferredTexts id
    avoidedTexts := excluding_texts h.avoidedTexts id }

/-- A pattern is put among the preferred or the avoided after it was taken out of
both. -/
theorem keeps_classify {P : Preferences Value → Prop} {rules : Learning Value} {id : Label}
    (hwithout : ∀ p, P p → P (p.without id))
    (hpreferred : ∀ p, P p →
      P { p.without id with preferred := (p.without id).preferred ++ [id] })
    (havoided : ∀ p, P p → P { p.without id with avoided := (p.without id).avoided ++ [id] })
    (net : Int) : Change.Keeps P (rules.classify id net) := by
  intro p hp
  unfold Learning.classify
  rw [Change.outcome_bind, Change.outcome_modify]
  dsimp only
  rw [Change.outcome_bind, Change.outcome_ofExcept]
  cases Magnitude.le rules.preferenceThreshold (Magnitude.ofInt net) with
  | error fault => exact hwithout p hp
  | ok reached =>
    cases reached with
    | true => exact hpreferred p hp
    | false =>
      dsimp only
      rw [if_neg Bool.false_ne_true, Change.outcome_bind, Change.outcome_ofExcept]
      cases Magnitude.neg rules.preferenceThreshold with
      | error fault => exact hwithout p hp
      | ok least =>
        dsimp only
        rw [Change.outcome_bind, Change.outcome_ofExcept]
        cases Magnitude.le (Magnitude.ofInt net) least with
        | error fault => exact hwithout p hp
        | ok fallen =>
          cases fallen with
          | true => exact havoided p hp
          | false => exact hwithout p hp

theorem sortable_classify {rules : Learning Value} {id : Label} (hid : id.IsText) (net : Int) :
    Change.Keeps Sortable (rules.classify id net) := by
  have htexts : ∀ {labels : List Label}, (∀ label ∈ labels, label.IsText) →
      ∀ label ∈ excluding labels id ++ [id], label.IsText := by
    intro labels h
    exact List.forall_mem_append.2 ⟨excluding_texts h id, List.forall_mem_singleton.2 hid⟩
  refine keeps_classify (fun p hp => hp.without id) (fun p hp => ?_) (fun p hp => ?_) net
  · exact
      { hp.without id with
        preferred := excluding_distinct hp.preferred id
        preferredTexts := htexts hp.preferredTexts }
  · exact
      { hp.without id with
        avoided := excluding_distinct hp.avoided id
        avoidedTexts := htexts hp.avoidedTexts }

theorem settled_classify {rules : Learning Value} {id : Label} (hid : id.IsText) (net : Int) :
    Change.Keeps Settled (rules.classify id net) := by
  intro p hp
  -- The weights are left alone.
  have hweights : Change.Keeps (fun p : Preferences Value => (∀ weight ∈ p.weights,
      weight.number?.isSome) ∧ Table.Distinct p.kindWeights ∧ Table.Distinct p.languageWeights)
      (rules.classify id net) :=
    keeps_classify (fun _ h => h) (fun _ h => h) (fun _ h => h) net
  obtain ⟨hnumbers, hkinds, hlanguages⟩ :=
    hweights p ⟨hp.numbers, hp.kindsDistinct, hp.languagesDistinct⟩
  exact
    { toSortable := sortable_classify hid net p hp.toSortable
      numbers := hnumbers
      kindsDistinct := hkinds
      languagesDistinct := hlanguages }

/-- Learning from a reaction moves two weights and then sorts the pattern in. What
each of these keeps, it keeps as well. -/
theorem keeps_prefer {P : Preferences Value → Prop} {rules : Learning Value} {reaction : Reaction}
    {id : Label} {p : Pattern Value}
    (hkinds : ∀ prefs step moved, rules.step? reaction = .ok (some step) → P prefs →
      rules.nudge prefs.kindWeights p.kind.name step = .ok moved →
        P { prefs with kindWeights := moved })
    (hlanguages : ∀ prefs step moved, rules.step? reaction = .ok (some step) → P prefs →
      rules.nudge prefs.languageWeights p.language step = .ok moved →
        P { prefs with languageWeights := moved })
    (hclassify : ∀ net, Change.Keeps P (rules.classify id net)) :
    Change.Keeps P (rules.prefer reaction id p) := by
  unfold Learning.prefer
  refine Change.keeps_bind_ofExcept fun step? hstep => ?_
  split
  · exact Change.keeps_pure _
  · rename_i step
    refine Change.keeps_bind_get fun prefs hprefs => ?_
    cases hkind : rules.nudge prefs.kindWeights p.kind.name step with
    | error fault =>
      rw [Change.outcome_bind_ofExcept_error]
      exact hprefs
    | ok moved =>
      rw [Change.outcome_bind_ofExcept_ok, Change.outcome_bind, Change.outcome_modify]
      dsimp only
      refine Change.keeps_bind_get (fun prefs hprefs => ?_) _
        (hkinds prefs step moved hstep hprefs hkind)
      cases hlanguage : rules.nudge prefs.languageWeights p.language step with
      | error fault =>
        rw [Change.outcome_bind_ofExcept_error]
        exact hprefs
      | ok moved =>
        rw [Change.outcome_bind_ofExcept_ok, Change.outcome_bind, Change.outcome_modify]
        dsimp only
        exact hclassify _ _ (hlanguages prefs step moved hstep hprefs hlanguage)

theorem sortable_prefer {rules : Learning Value} {reaction : Reaction} {id : Label}
    {p : Pattern Value} (hid : id.IsText) (hlanguage : p.language.IsText) :
    Change.Keeps Sortable (rules.prefer reaction id p) := by
  refine keeps_prefer (fun prefs step moved _ hprefs h => { hprefs with })
    (fun prefs step moved _ hprefs h => ?_) (sortable_classify hid)
  obtain ⟨weight, _, rfl⟩ := nudge_eq_ok.1 h
  exact { hprefs with languages := Table.forall_keys_put hprefs.languages hlanguage }

theorem settled_prefer {rules : Learning Value} {reaction : Reaction} {id : Label}
    {p : Pattern Value} (hid : id.IsText) (hlanguage : p.language.IsText) :
    Change.Keeps Settled (rules.prefer reaction id p) := by
  refine keeps_prefer (fun prefs step moved _ hprefs h => ?_)
    (fun prefs step moved _ hprefs h => ?_) (settled_classify hid)
  · obtain ⟨weight, hweight, rfl⟩ := nudge_eq_ok.1 h
    exact hprefs.with_kindWeights p.kind.name (number_nudged hweight)
  · obtain ⟨weight, hweight, rfl⟩ := nudge_eq_ok.1 h
    exact hprefs.with_languageWeights hlanguage (number_nudged hweight)

/-- Sorting a pattern in touches no weight. -/
theorem weights_classify {P : Value → Prop} {rules : Learning Value} (id : Label) (net : Int) :
    Change.Keeps (fun p => ∀ weight ∈ p.weights, P weight) (rules.classify id net) :=
  keeps_classify (fun _ h => h) (fun _ h => h) (fun _ h => h) net

/-- What is true of the neutral weight and stays true where a weight is moved is true of all
weights. -/
theorem weights_prefer {P : Value → Prop} {rules : Learning Value} {reaction : Reaction}
    (hone : P (.real 1.0))
    (hmoved : ∀ weight step result, rules.step? reaction = .ok (some step) → P weight →
      rules.nudged weight step = .ok result → P result) (id : Label) (p : Pattern Value) :
    Change.Keeps (fun prefs => ∀ weight ∈ prefs.weights, P weight)
      (rules.prefer reaction id p) := by
  have htable : ∀ {κ : Type} [BEq κ] {weights moved : Table κ Value} {key : κ} {step : Value},
      rules.step? reaction = .ok (some step) → (∀ entry ∈ weights, P entry.2) →
      rules.nudge weights key step = .ok moved → ∀ entry ∈ moved, P entry.2 := by
    intro κ _ weights moved key step hstep hweights h
    obtain ⟨weight, hweight, rfl⟩ := nudge_eq_ok.1 h
    refine Table.forall_values_put hweights (hmoved _ step weight hstep ?_ hweight)
    cases hget : weights.get? key with
    | none => exact hone
    | some known =>
      obtain ⟨entry, hentry, _, rfl⟩ := Table.exists_mem_of_get? hget
      exact hweights entry hentry
  refine keeps_prefer (fun prefs step moved hstep hprefs h => ?_)
    (fun prefs step moved hstep hprefs h => ?_) (weights_classify id)
  · obtain ⟨hkinds, hlanguages⟩ := forall_weights.1 hprefs
    exact forall_weights.2 ⟨htable hstep hkinds h, hlanguages⟩
  · obtain ⟨hkinds, hlanguages⟩ := forall_weights.1 hprefs
    exact forall_weights.2 ⟨hkinds, htable hstep hlanguages h⟩

/-- Under bounds that are floating-point numbers all weights are. -/
theorem floating_prefer {rules : Learning Value} (hleast : ∃ x, rules.minWeight = .real x)
    (hmost : ∃ x, rules.maxWeight = .real x) (reaction : Reaction) (id : Label)
    (p : Pattern Value) : Change.Keeps Floating (rules.prefer reaction id p) := by
  refine weights_prefer (P := fun weight => ∃ x, weight = .real x) ⟨1.0, rfl⟩ ?_ id p
  rintro _ step result _ ⟨x, rfl⟩ h
  exact real_nudged hleast hmost h

/-! ### What comes back -/

theorem number_asReal {value : Value} (h : value.number?.isSome) : value.asReal.number?.isSome := by
  unfold Value.asReal
  split
  · rfl
  · exact h

/-- Settled preferences are settled in order. -/
theorem Settled.arranged {p q : Preferences Value} (h : p.Settled) (hq : Arranged p q) :
    q.Settled where
  toProper := hq.proper h.toProper
  preferredTexts label hmem := h.preferredTexts label ((perm_of_sorted hq.preferred).mem_iff.1 hmem)
  avoidedTexts label hmem := h.avoidedTexts label ((perm_of_sorted hq.avoided).mem_iff.1 hmem)
  numbers weight hmem := h.numbers weight (hq.weights_perm.mem_iff.1 hmem)
  kindsDistinct := h.kindsDistinct.perm hq.kinds_perm
  languagesDistinct := h.languagesDistinct.perm (perm_of_sorted hq.languages)

/-- And so they are with floating-point weights. -/
theorem Settled.asReal {p : Preferences Value} (h : p.Settled) : p.asReal.Settled where
  toProper := h.toProper.asReal
  preferredTexts := h.preferredTexts
  avoidedTexts := h.avoidedTexts
  numbers := by
    obtain ⟨hkinds, hlanguages⟩ := forall_weights.1 h.numbers
    exact forall_weights.2
      ⟨List.forall_mem_map.2 fun entry hmem => number_asReal (hkinds entry hmem),
        List.forall_mem_map.2 fun entry hmem => number_asReal (hlanguages entry hmem)⟩
  kindsDistinct := h.kindsDistinct.map_values Value.asReal
  languagesDistinct := h.languagesDistinct.map_values Value.asReal

end Preferences

/-! ### The same by value -/

namespace Value

/-- Members whose values say the same as others under the same names. -/
theorem sameMembers_map {members : Table String Value} (hd : Table.Distinct members)
    {f : Value → Value} (h : ∀ entry ∈ members, same (f entry.2) entry.2 = true) :
    sameMembers (members.map fun entry => (entry.1, f entry.2)) members = true := by
  -- Every part of the members finds its counterparts among all of them.
  have hpart : ∀ part : Table String Value, (∀ entry ∈ part, entry ∈ members) →
      sameMembers (part.map fun entry => (entry.1, f entry.2)) members = true := by
    intro part hpart
    induction part with
    | nil => rw [List.map_nil, sameMembers]
    | cons entry rest ih =>
      have hmem := hpart entry List.mem_cons_self
      rw [List.map_cons, sameMembers, Table.get?_of_mem hd hmem, Option.any_some,
        h entry hmem, ih fun other hother => hpart other (List.mem_cons_of_mem _ hother)]
      rfl
  exact hpart members fun _ hmem => hmem

theorem sameList_texts {labels : List Label} (h : ∀ label ∈ labels, label.IsText) :
    sameList (labels.map Label.value) (labels.map Label.value) = true := by
  induction labels with
  | nil => rw [List.map_nil, sameList]
  | cons label rest ih =>
    obtain ⟨hlabel, hrest⟩ := List.forall_mem_cons.1 h
    obtain ⟨text, rfl⟩ := hlabel
    have hself : same (.text text) (.text text) = true := by
      simp [same, label?]
    rw [List.map_cons, sameList, ih hrest]
    simpa [Label.value] using hself

end Value

namespace Preferences

/-- Where the floating-point numbers say the same as the weights, the documents
do. -/
theorem same_members {manner : Manner Value} (hmanner : manner.Plain) {q : Preferences Value}
    (hq : q.Settled) (hsame : ∀ weight ∈ q.weights, weight.asReal.same weight = true) :
    (Value.object (members manner q.asReal)).same (.object (members manner q)) = true := by
  obtain ⟨hkinds, hlanguages⟩ := forall_weights.1 hsame
  have hkindsSame := Value.sameMembers_map hq.kindsDistinct hkinds
  -- Two languages with the same text would be the same language.
  have hdistinct : Table.Distinct (named q.languageWeights) := by
    refine List.pairwise_map.2 (hq.languagesDistinct.imp_of_mem fun {a b} ha hb hab => ?_)
    obtain ⟨s, hs⟩ := hq.languages a ha
    obtain ⟨t, ht⟩ := hq.languages b hb
    rw [hs, ht, Label.text_beq_text] at hab
    show (a.1.textOf == b.1.textOf) = false
    rw [hs, ht]
    exact hab
  have hlanguagesSame := Value.sameMembers_map hdistinct
    (List.forall_mem_map.2 hlanguages : ∀ entry ∈ named q.languageWeights,
      entry.2.asReal.same entry.2 = true)
  have hnamed : named q.asReal.languageWeights
      = (named q.languageWeights).map fun entry => (entry.1, entry.2.asReal) := by
    rw [named, named, asReal, List.map_map, List.map_map]
    rfl
  rw [members_of_plain hmanner hq.toProper, members_of_plain hmanner hq.toProper.asReal, hnamed]
  simp [Value.same, Value.sameMembers, Table.get?_cons, asReal, hkindsSame, hlanguagesSame,
    Value.sameList_texts hq.preferredTexts, Value.sameList_texts hq.avoidedTexts]

end Preferences

end CodeHabits
