import CodeHabits.Proofs.Memory.Done

/-!
# `CodeHabits.Proofs.Memory.Liking`: preferences agree with the logs

The preferred and the avoided patterns are kept up one reaction at a time, and the weights
are moved with them. The logs of the patterns hold every reaction there ever was.
`liked_iff_net` says that the one can always be computed from the other: a pattern is
preferred exactly if it is stored and its log has enough more acceptances than rejections,
and avoided exactly if it has enough fewer.

The net feedback under an id counts as zero where nothing is stored (`Memory.net`). The
threshold is at least one, so nothing without reactions is preferred or avoided, and a
first sighting changes no net feedback.

The configuration has to have an exact threshold and an exact upper bound of the weights.
It is not checked for that: both are bounded from below only, so they may be infinite or
no number at all.
-/

set_option autoImplicit false

namespace CodeHabits

open Time (Timestamp)

namespace Learning

variable {rules : Learning Rat}

/-- The range of the weights is around one, and nothing is preferred without a
reaction. -/
structure Fair (rules : Learning Rat) : Prop where
  least : rules.minWeight ≤ 1
  most : 1 ≤ rules.maxWeight
  threshold : 1 ≤ rules.preferenceThreshold

theorem ReadsAs.fair {c : Config} {exact : Learning Rat} (h : c.rules.ReadsAs exact)
    (hvalid : c.validate = .ok ()) (hmost : c.rules.maxWeight.asRat?.isSome)
    (hthreshold : c.rules.preferenceThreshold.asRat?.isSome) : exact.Fair := by
  have hchecked := Config.validate_eq_ok_iff.1 hvalid
  refine ⟨?_, ?_, ?_⟩
  · -- The least weight is between zero and one, so it has an exact value by itself.
    obtain ⟨n, hn, hpos, hone⟩ := hchecked.least
    obtain ⟨q, hq⟩ := Number.exists_asRat?_of_unit (Number.le_of_lt hpos) hone
    rw [Number.le_eq_decide hq Number.asRat?_one] at hone
    rw [h.minWeight.eq_of_number hn hq]
    exact of_decide_eq_true hone
  · -- The largest weight may be infinite, so an exact value has to be asked for.
    obtain ⟨n, hn, hone⟩ := hchecked.most
    obtain ⟨q, hq⟩ := Option.isSome_iff_exists.1 hmost
    have hexact : n.asRat? = some q := (Value.asRat?_of_number hn).symm.trans hq
    rw [Number.le_eq_decide Number.asRat?_one hexact] at hone
    rw [h.maxWeight q hq]
    exact of_decide_eq_true hone
  · obtain ⟨n, hn, hbelow⟩ := hchecked.preference
    obtain ⟨q, hq⟩ := Option.isSome_iff_exists.1 hthreshold
    have hexact : n.asRat? = some q := (Value.asRat?_of_number hn).symm.trans hq
    rw [Config.NotBelowOne,
      Number.lt_eq_decide hexact (show (Number.int 1).asRat? = some 1 from rfl)] at hbelow
    rw [h.preferenceThreshold q hq]
    exact not_lt.1 (of_decide_eq_false hbelow)

/-- All weights are in the range. -/
def Weighed (rules : Learning Rat) (prefs : Preferences Rat) : Prop :=
  (∀ weight ∈ prefs.kindWeights, rules.minWeight ≤ weight.2 ∧ weight.2 ≤ rules.maxWeight) ∧
    ∀ weight ∈ prefs.languageWeights, rules.minWeight ≤ weight.2 ∧ weight.2 ≤ rules.maxWeight

theorem weighed_none (rules : Learning Rat) : rules.Weighed .none := by
  simp [Weighed, Preferences.none]

/-- A weight that is moved is forced into the range. -/
theorem Fair.pushed {κ : Type} [BEq κ] (h : rules.Fair) {weights : Table κ Rat} {key : κ}
    {step : Rat}
    (hall : ∀ weight ∈ weights, rules.minWeight ≤ weight.2 ∧ weight.2 ≤ rules.maxWeight) :
    ∀ weight ∈ rules.pushed weights key step,
      rules.minWeight ≤ weight.2 ∧ weight.2 ≤ rules.maxWeight := by
  have hrange : rules.minWeight ≤ rules.maxWeight := le_trans h.least h.most
  refine Table.forall_values_put (P := fun weight => rules.minWeight ≤ weight ∧ weight ≤ _) hall ?_
  exact ⟨le_min hrange (le_max_left _ _), min_le_left _ _⟩

/-- Sorting a pattern in moves no weights. -/
theorem weighed_placed {id : Label} {net : Int} {prefs : Preferences Rat} :
    rules.Weighed (rules.placed id net prefs) ↔ rules.Weighed prefs := by
  unfold placed
  dsimp only
  split
  · rfl
  · split <;> rfl

theorem Weighed.swayed (hfair : rules.Fair) {reaction : Reaction} {id : Label} {p : Pattern Rat}
    {prefs : Preferences Rat} (h : rules.Weighed prefs) :
    rules.Weighed (rules.swayed reaction id p prefs) := by
  unfold Learning.swayed
  cases rules.stepOf reaction with
  | none => exact h
  | some step => exact weighed_placed.2 ⟨hfair.pushed h.1, hfair.pushed h.2⟩

/-- After a pattern is sorted in, it is preferred by its net feedback, and the other
patterns are preferred as before. -/
theorem likes_placed {id other : Label} {net : Int} {prefs : Preferences Rat} :
    (rules.placed id net prefs).Likes other ↔
      if id == other then rules.preferenceThreshold ≤ net else prefs.Likes other := by
  unfold placed Preferences.Likes Preferences.without
  dsimp only
  split
  · rename_i henough
    -- The id is taken out everywhere before it is appended, so it is there once.
    rw [Preferences.exists_append_singleton, Preferences.exists_excluding]
    cases id == other <;> simp [henough]
  · rename_i hless
    split <;>
    · rw [Preferences.exists_excluding]
      cases id == other <;> simp [hless]

/-- And avoided by its net feedback, since it cannot be both. -/
theorem avoids_placed (hfair : rules.Fair) {id other : Label} {net : Int}
    {prefs : Preferences Rat} :
    (rules.placed id net prefs).Avoids other ↔
      if id == other then (net : Rat) ≤ -rules.preferenceThreshold else prefs.Avoids other := by
  have hthreshold := hfair.threshold
  unfold placed Preferences.Avoids Preferences.without
  dsimp only
  split
  · rename_i henough
    -- What is preferred is not looked at from below, and it could not be avoided anyway.
    have hless : ¬ (net : Rat) ≤ -rules.preferenceThreshold := by
      intro h
      linarith
    rw [Preferences.exists_excluding]
    cases id == other <;> simp [hless]
  · split
    · rename_i henough
      rw [Preferences.exists_append_singleton, Preferences.exists_excluding]
      cases id == other <;> simp [henough]
    · rename_i hmore
      rw [Preferences.exists_excluding]
      cases id == other <;> simp [hmore]

/-- An acceptance or a rejection moves weights and sorts the pattern in. -/
theorem exists_swayed_eq_placed {reaction : Reaction}
    (hjudged : reaction = .accepted ∨ reaction = .rejected) (id : Label) (p : Pattern Rat)
    (prefs : Preferences Rat) :
    ∃ moved : Preferences Rat, moved.preferred = prefs.preferred ∧ moved.avoided = prefs.avoided ∧
      rules.swayed reaction id p prefs = rules.placed id p.netFeedback moved := by
  let moved (step : Rat) : Preferences Rat :=
    { prefs with
      kindWeights := rules.pushed prefs.kindWeights p.kind.name step
      languageWeights := rules.pushed prefs.languageWeights p.language step }
  rcases hjudged with rfl | rfl
  · exact ⟨moved rules.weightStep, rfl, rfl, rfl⟩
  · exact ⟨moved (-rules.weightStep), rfl, rfl, rfl⟩

/-- A reaction that is neither an acceptance nor a rejection changes no preferences. -/
theorem swayed_of_unjudged {reaction : Reaction} (haccepted : reaction ≠ .accepted)
    (hrejected : reaction ≠ .rejected) (id : Label) (p : Pattern Rat) (prefs : Preferences Rat) :
    rules.swayed reaction id p prefs = prefs := by
  cases reaction with
  | accepted => exact absurd rfl haccepted
  | rejected => exact absurd rfl hrejected
  | modified | ignored => rfl

/-- It also leaves the net feedback as it is. -/
theorem netFeedback_noted_of_unjudged {e : Event} (haccepted : e.reaction ≠ .accepted)
    (hrejected : e.reaction ≠ .rejected) (p : Pattern Rat) :
    (rules.noted e p).netFeedback = p.netFeedback := by
  show ((p.feedback ++ [e]).countP _ : Int) - ((p.feedback ++ [e]).countP _ : Int) = _
  -- The log grows at its end by an event that neither of the two counts is about.
  rw [List.countP_append, List.countP_append]
  simp [haccepted, hrejected, Pattern.netFeedback, Pattern.reactions]

end Learning

namespace Memory

variable {smoothing : Smoothing Rat} {setup : Setup Rat} {rules : Learning Rat} {m n : Memory Rat}
  {deed : Deed} {idOf : IdScheme} {now : Timestamp} {id : Label} {p : Pattern Rat} {e : Event}

/-! ### The net feedback -/

/-- The net feedback in the log under an id; zero if nothing is stored under it. -/
def net (m : Memory Rat) (id : Label) : Int :=
  ((m.store.get? id).map Pattern.netFeedback).getD 0

/-- For a number above zero it does not matter that it is zero where nothing is
stored. -/
theorem le_net_iff {threshold : Rat} (h : 1 ≤ threshold) :
    threshold ≤ m.net id ↔
      ∃ p, m.store.get? id = some p ∧ threshold ≤ (p.netFeedback : Rat) := by
  unfold net
  cases m.store.get? id with
  | none =>
    have habove : ¬ threshold ≤ 0 := by linarith
    simp [habove]
  | some p => simp

theorem net_le_iff {threshold : Rat} (h : 1 ≤ threshold) :
    (m.net id : Rat) ≤ -threshold ↔
      ∃ p, m.store.get? id = some p ∧ (p.netFeedback : Rat) ≤ -threshold := by
  unfold net
  cases m.store.get? id with
  | none =>
    have hbelow : ¬ (0 : Rat) ≤ -threshold := by linarith
    simp [hbelow]
  | some p => simp

/-- Sightings log nothing, and what is sighted first has an empty log. -/
theorem net_shown (hexact : Exact smoothing m) {sightings : List Sighting}
    (hall : ∀ c ∈ sightings, c.Countable) (id : Label) :
    (shown idOf now sightings m).net id = m.net id := by
  refine (hexact.shown_induction (P := fun n => n.net id = m.net id) hall
    (fun c _ n s _ hnet hs => ?_) rfl).2
  rw [← hnet]
  show ((s.get? id).map Pattern.netFeedback).getD 0 = n.net id
  cases hget : s.get? id with
  | none =>
    -- What is known is not lost.
    have hbefore : n.store.get? id = none := by
      cases hknown : n.store.get? id with
      | none => rfl
      | some p =>
        rcases hs.of_known hknown with h | ⟨_, _, _, h⟩ <;>
        · rw [hget] at h
          cases h
    rw [net, hbefore]
  | some q =>
    -- It was there before, it was sighted again, or this is the first sighting of it.
    rcases hs.cases hget with hsame | ⟨p, styles, hp, rfl⟩ | ⟨hnone, known, styles, rfl⟩
    · rw [net, hsame]
    · rw [net, hp]
      rfl
    · rw [net, hnone]
      rfl

/-- Forgetting touches no log. -/
theorem net_forgotten (window : Int) (id : Label) :
    (forgotten rules window now m).net id = m.net id := by
  have hlog : ∀ p : Pattern Rat, (rules.forgotten window now p).netFeedback = p.netFeedback := by
    intro p
    unfold Learning.forgotten
    split <;> rfl
  show (((Table.get? (m.store.patterns.map _) id).map Pattern.netFeedback).getD 0) = _
  rw [Table.get?_map_values, Option.map_map]
  exact congrArg (fun f => ((m.store.get? id).map f).getD 0) (funext hlog)

/-- A reaction changes the net feedback of its pattern only. -/
theorem net_noted (id other : Label) (p : Pattern Rat) :
    (noted rules e m id p).net other
      = if id == other then (rules.noted e p).netFeedback else m.net other := by
  show (((m.store.replace id (rules.noted e p)).get? other).map Pattern.netFeedback).getD 0 = _
  rw [Store.get?_replace]
  split <;> rfl

/-! ### The invariant -/

/-- The weights are in their range, and the preferred and the avoided patterns are those
that the logs tell. -/
structure Liking (rules : Learning Rat) (m : Memory Rat) : Prop where
  weighed : rules.Weighed m.preferences
  likes : ∀ id, m.preferences.Likes id ↔ rules.preferenceThreshold ≤ (m.net id : Rat)
  avoids : ∀ id, m.preferences.Avoids id ↔ (m.net id : Rat) ≤ -rules.preferenceThreshold

theorem liking_empty (hfair : rules.Fair) (smoothing : Smoothing Rat) :
    Liking rules (empty smoothing) := by
  -- No net feedback is zero, and zero is strictly between the two thresholds.
  have hthreshold := hfair.threshold
  have habove : ¬ rules.preferenceThreshold ≤ 0 := by linarith
  have hbelow : ¬ (0 : Rat) ≤ -rules.preferenceThreshold := by linarith
  refine ⟨Learning.weighed_none rules, fun id => ?_, fun id => ?_⟩
  · simp [empty, Preferences.none, Preferences.Likes, net, Store.empty, Store.get?, habove,
      Table.get?_nil]
  · simp [empty, Preferences.none, Preferences.Avoids, net, Store.empty, Store.get?, hbelow,
      Table.get?_nil]

/-- Memories with the same preferences and the same net feedback are alike. -/
theorem Liking.congr (h : Liking rules m) (hprefs : n.preferences = m.preferences)
    (hnet : ∀ id, n.net id = m.net id) : Liking rules n where
  weighed := hprefs ▸ h.weighed
  likes id := by rw [hprefs, hnet, h.likes]
  avoids id := by rw [hprefs, hnet, h.avoids]

theorem Liking.noted (hfair : rules.Fair) (h : Liking rules m) (hget : m.store.get? id = some p) :
    Liking rules (noted rules e m id p) := by
  by_cases hjudged : e.reaction = .accepted ∨ e.reaction = .rejected
  · -- The pattern is taken out of the lists and sorted in by its new log.
    obtain ⟨moved, hpreferred, havoided, hplaced⟩ := Learning.exists_swayed_eq_placed
      hjudged id (rules.noted e p) m.preferences
    have hleft : (Memory.noted rules e m id p).preferences
        = rules.placed id (rules.noted e p).netFeedback moved := hplaced
    refine ⟨h.weighed.swayed hfair, fun other => ?_, fun other => ?_⟩
    · have hlikes : moved.Likes other ↔ m.preferences.Likes other := by
        rw [Preferences.Likes, hpreferred]
        rfl
      rw [hleft, Learning.likes_placed, net_noted, hlikes, h.likes]
      split <;> rfl
    · have havoids : moved.Avoids other ↔ m.preferences.Avoids other := by
        rw [Preferences.Avoids, havoided]
        rfl
      rw [hleft, Learning.avoids_placed hfair, net_noted, havoids, h.avoids]
      split <;> rfl
  · -- It is only logged, and does not count in the log.
    obtain ⟨haccepted, hrejected⟩ := not_or.1 hjudged
    refine h.congr (Learning.swayed_of_unjudged haccepted hrejected _ _ _) fun other => ?_
    rw [net_noted, Learning.netFeedback_noted_of_unjudged haccepted hrejected]
    split
    · rename_i hid
      rw [net, ← m.store.get?_congr hid, hget]
      rfl
    · rfl

/-- Sightings change no preferences. -/
theorem preferences_shown (sightings : List Sighting) (m : Memory Rat) :
    (shown idOf now sightings m).preferences = m.preferences := by
  refine shown_keeps (P := fun n => n.preferences = m.preferences) (fun c _ n hn => ?_) rfl
  rw [learn, inStore, Change.outcome_within]
  exact hn

theorem Liking.shown (h : Liking rules m) (hexact : Exact smoothing m) {sightings : List Sighting}
    (hall : ∀ c ∈ sightings, c.Countable) : Liking rules (shown idOf now sightings m) :=
  h.congr (preferences_shown sightings m) (net_shown hexact hall)

theorem Liking.done (hbounded : setup.rules.Bounded) (hfair : setup.rules.Fair)
    (hexact : Exact smoothing m) (h : Liking setup.rules m) (hdone : Done setup now m deed n) :
    Liking setup.rules n := by
  cases hdone with
  | analyze t => exact h.shown hexact countable_of_sightings
  | analyzeBatch cancelAfter texts => exact h.shown hexact countable_of_sightings
  | decay time _ => exact h.congr rfl fun id => net_forgotten _ id
  | idle time _ => exact h
  | clear => exact liking_empty hfair m.store.smoothing
  | @feedback e _ hanswered =>
    cases hanswered with
    | refused _ _ => exact h
    | judged htarget _ => exact (h.noted hfair (target_eq_ok.1 htarget).2).congr rfl fun _ => rfl
    | @modified id p htarget _ =>
      -- The content is learned after the reaction was noted, and learning logs nothing.
      have hget := (target_eq_ok.1 htarget).2
      have hnoted : Liking setup.rules { Memory.noted setup.rules e m id p with streak := 0 } :=
        (h.noted hfair hget).congr rfl fun _ => rfl
      exact hnoted.shown ((hexact.noted hbounded hget).with_streak 0) countable_of_sightings
    | ignored htarget _ _ => exact (h.noted hfair (target_eq_ok.1 htarget).2).congr rfl fun _ => rfl
    | passed htarget _ _ _ =>
      exact (h.noted hfair (target_eq_ok.1 htarget).2).congr rfl fun id => net_forgotten _ id

/-- A deed that changes no preferences: it forgets, or it is a reaction that fails or is
neither an acceptance nor a rejection. -/
def Deed.IsNeutral (setup : Setup Rat) (now : Timestamp) (m : Memory Rat) : Deed → Prop
  | .decay _ => True
  | .feedback e =>
    e.reaction = .modified ∨ e.reaction = .ignored ∨
      ∃ fault, ((setup.feedback now e).outcome m).1 = .error fault
  | _ => False

theorem Deed.isNeutral_of_ignored (h : e.reaction = .ignored) :
    Deed.IsNeutral setup now m (.feedback e) :=
  .inr (.inl h)

theorem preferences_of_neutral (hbounded : setup.rules.Bounded) (hexact : Exact smoothing m)
    (hneutral : deed.IsNeutral setup now m) (hdone : Done setup now m deed n) :
    n.preferences = m.preferences := by
  cases hdone with
  | analyze t => exact hneutral.elim
  | analyzeBatch cancelAfter texts => exact hneutral.elim
  | decay time _ => rfl
  | idle time _ => rfl
  | clear => exact hneutral.elim
  | @feedback e _ hanswered =>
    -- Of what a reaction does, only the noting could touch the preferences.
    have hunjudged : ∀ {id : Label} {p : Pattern Rat},
        e.reaction ≠ .accepted → e.reaction ≠ .rejected →
        (noted setup.rules e m id p).preferences = m.preferences :=
      fun haccepted hrejected => Learning.swayed_of_unjudged haccepted hrejected _ _ _
    cases hanswered with
    | refused _ _ => rfl
    | judged htarget hjudged =>
      -- Such a reaction to a known pattern does not fail.
      obtain ⟨effect, hrun⟩ := exists_feedback_of_judged hexact hbounded htarget hjudged
      rcases hneutral with hmodified | hignored | ⟨fault, hfailed⟩
      · simp [hmodified] at hjudged
      · simp [hignored] at hjudged
      · rw [hrun] at hfailed
        cases hfailed
    | modified _ hmodified =>
      rw [preferences_shown]
      exact hunjudged (by simp [hmodified]) (by simp [hmodified])
    | ignored _ hignored _ => exact hunjudged (by simp [hignored]) (by simp [hignored])
    | passed _ hignored _ _ => exact hunjudged (by simp [hignored]) (by simp [hignored])

/-- Whatever is done, without snapshots, to a memory that began with nothing learned,
under rules that an accepted configuration gives: the weights of kinds and of languages
are in their range. The preferred patterns are those that are stored and have enough net
feedback in their log, the avoided ones those that have as much against them, and no
pattern is both. Forgetting, reactions that fail, and reactions that are neither
acceptances nor rejections change nothing of this. -/
theorem liked_iff_net {intake : Intake Rat} {c : Config} (hvalid : c.validate = .ok ())
    (hrules : c.rules.ReadsAs setup.rules) (hmost : c.rules.maxWeight.asRat?.isSome)
    (hthreshold : c.rules.preferenceThreshold.asRat?.isSome)
    {deeds : List (Timestamp × Deed)} (hown : ∀ done ∈ deeds, done.2.IsOwn) :
    let m := runFrom intake setup (empty smoothing) deeds
    let threshold := setup.rules.preferenceThreshold
    setup.rules.Weighed m.preferences ∧
      (∀ id, m.preferences.Likes id ↔
        ∃ p, m.store.get? id = some p ∧ threshold ≤ (p.netFeedback : Rat)) ∧
      (∀ id, m.preferences.Avoids id ↔
        ∃ p, m.store.get? id = some p ∧ (p.netFeedback : Rat) ≤ -threshold) ∧
      (∀ id, ¬ (m.preferences.Likes id ∧ m.preferences.Avoids id)) ∧
      ∀ now deed, deed.IsNeutral setup now m →
        ((perform intake setup now deed).outcome m).2.preferences = m.preferences := by
  have hbounded := hrules.bounded hvalid
  have hfair := hrules.fair hvalid hmost hthreshold
  have hone := hfair.threshold
  obtain ⟨hexact, hliking⟩ := runFrom_own (P := Liking setup.rules) hbounded
    (fun now deed m n hexact hliking hdone => hliking.done hbounded hfair hexact hdone)
    hown (exact_empty smoothing) (liking_empty hfair smoothing)
  refine ⟨hliking.weighed, fun id => (hliking.likes id).trans (le_net_iff hone),
    fun id => (hliking.avoids id).trans (net_le_iff hone), fun id ⟨hlikes, havoids⟩ => ?_,
    fun now deed hneutral => ?_⟩
  · -- No number is both at or above the threshold and at or below its opposite.
    have habove := (hliking.likes id).1 hlikes
    have hbelow := (hliking.avoids id).1 havoids
    linarith
  · have hdeed : deed.IsOwn := by
      cases deed with
      | takeSnapshot document replace => exact hneutral.elim
      | _ => trivial
    exact preferences_of_neutral hbounded hexact hneutral
      (done_perform intake hexact hbounded now hdeed)

/-- A pattern is accepted twice, and that is enough for it to be preferred. Ignoring it
changes nothing of this. -/
theorem liked_iff_net_of_acceptances :
    let run (deeds : List (Timestamp × Deed)) : Memory Rat :=
      runFrom (.exact ⟨0, 0, 0⟩) defaultsForGo (empty ⟨0, 0, 0⟩) deeds
    let deeds := [importSeen, reactionToP .accepted, reactionToP .accepted]
    (∃ p, (run deeds).store.get? (.text "p") = some p ∧ p.netFeedback = 2) ∧
      (run deeds).preferences.Likes (.text "p") ∧
      defaultsForGo.rules.Weighed (run deeds).preferences ∧
      (run (deeds ++ [reactionToP .ignored])).preferences = (run deeds).preferences := by
  intro run deeds
  have hvalid : Config.default.validate = .ok () := Except.eq_ok_unit (by decide +kernel)
  obtain ⟨p, hp, hnet⟩ : ∃ p, (run deeds).store.get? (.text "p") = some p ∧
      decide (p.netFeedback = 2 ∧ defaultsForGo.rules.preferenceThreshold ≤ 2) = true :=
    (Option.any_eq_true _ _).1 (by decide +kernel)
  obtain ⟨htwo, henough⟩ := of_decide_eq_true hnet
  have hown : ∀ done ∈ deeds, done.2.IsOwn := by
    simp [deeds, Deed.IsOwn, importSeen, reactionToP]
  obtain ⟨hweighed, hlikes, _, _, hneutral⟩ :=
    @liked_iff_net ⟨0, 0, 0⟩ defaultsForGo (.exact ⟨0, 0, 0⟩) _ hvalid (Learning.readsAs_exactly _)
      (by decide +kernel) (by decide +kernel) _ hown
  refine ⟨⟨p, hp, htwo⟩, (hlikes _).2 ⟨p, hp, ?_⟩, hweighed, ?_⟩
  · rw [htwo]
    exact henough
  · dsimp only [run]
    rw [runFrom_concat]
    exact hneutral _ _ (Deed.isNeutral_of_ignored rfl)

end Memory

end CodeHabits
