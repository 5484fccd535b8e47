import CodeHabits.Proofs.Memory.Liking
import CodeHabits.Suggestion

/-!
# `CodeHabits.Proofs.Memory.Scoring`: reactions move the scores one way

A reaction to one pattern touches the scores of others. It moves the weight of a kind and
the weight of a language, and both are factors in the scores of every pattern of that kind
or language. It also moves the confidence of its pattern, and may take the pattern from
avoided to indifferent or from there to preferred.

All four factors move in the same direction, and none of them is negative, so their product
does. For the last factor this is seen through the logs: `Liking` says that a pattern is
preferred or avoided by its net feedback, so the factor is a function of that number
(`Learning.standing`), and the function is monotone.

`NoLower` compares the scores before and after. `scores_follow_reactions` says that no
acceptance lowers a score and no rejection raises one. What is ignored raises none either,
unless it starts a pass of forgetting, and neither does a modification that shows no
content. A content that is shown is learned from, and a sighting may raise a confidence.
-/

set_option autoImplicit false

namespace CodeHabits

open Time (Timestamp)

namespace Learning

variable {rules : Learning Rat}

/-- What the rules need for a reaction to move all scores one way: an acceptance moves the
weights upwards, no factor is negative, and the factors of the preferred and of the avoided
patterns are on their sides of one. -/
structure Graded (rules : Learning Rat) : Prop where
  step : 0 ≤ rules.weightStep
  least : 0 ≤ rules.minWeight
  penalty : UnitRat rules.avoidancePenalty
  boost : 1 ≤ rules.boost

/-- A checked configuration has no negative weights. -/
theorem ReadsAs.least_nonneg {c : Config} {exact : Learning Rat} (h : c.rules.ReadsAs exact)
    (hvalid : c.validate = .ok ()) : 0 ≤ exact.minWeight := by
  obtain ⟨n, hn, hpos, hone⟩ := (Config.validate_eq_ok_iff.1 hvalid).least
  obtain ⟨q, hq⟩ := Number.exists_asRat?_of_unit (Number.le_of_lt hpos) hone
  rw [Number.lt_eq_decide Number.asRat?_zero hq] at hpos
  rw [h.minWeight.eq_of_number hn hq]
  exact le_of_lt (of_decide_eq_true hpos)

/-! ### The factors -/

/-- The factor of a pattern by its net feedback. -/
def standing (rules : Learning Rat) (net : Int) : Rat :=
  if rules.preferenceThreshold ≤ net then rules.boost
  else if (net : Rat) ≤ -rules.preferenceThreshold then rules.avoidancePenalty
  else 1

theorem Graded.standing_nonneg (h : rules.Graded) (net : Int) : 0 ≤ rules.standing net := by
  unfold standing
  split
  · exact le_trans zero_le_one h.boost
  · split
    · exact h.penalty.1
    · exact zero_le_one

/-- More net feedback never has the lesser factor. -/
theorem Graded.standing_mono (h : rules.Graded) {less more : Int}
    (hle : less ≤ more) : rules.standing less ≤ rules.standing more := by
  have hcast : (less : Rat) ≤ more := by exact_mod_cast hle
  have hpenalty := h.penalty.2
  have hboost := h.boost
  by_cases hpreferred : rules.preferenceThreshold ≤ less
  · rw [standing, standing, if_pos hpreferred, if_pos (le_trans hpreferred hcast)]
  by_cases havoided : (less : Rat) ≤ -rules.preferenceThreshold
  · -- Nothing has a lesser factor than what is avoided.
    rw [standing, if_neg hpreferred, if_pos havoided]
    unfold standing
    split
    · linarith
    · split <;> linarith
  · -- What is not avoided with less feedback is not avoided with more.
    have hstays : ¬ (more : Rat) ≤ -rules.preferenceThreshold := by
      intro h
      linarith
    rw [standing, if_neg hpreferred, if_neg havoided, standing, if_neg hstays]
    split
    · exact hboost
    · exact le_rfl

/-- A weight that is in the range, or one if there is none. -/
theorem Fair.getD_range {κ : Type} [BEq κ] (h : rules.Fair) {weights : Table κ Rat}
    (hall : ∀ weight ∈ weights, rules.minWeight ≤ weight.2 ∧ weight.2 ≤ rules.maxWeight)
    (key : κ) :
    rules.minWeight ≤ (weights.get? key).getD 1 ∧ (weights.get? key).getD 1 ≤ rules.maxWeight := by
  cases hget : weights.get? key with
  | none => exact ⟨h.least, h.most⟩
  | some weight =>
    obtain ⟨entry, hentry, _, rfl⟩ := Table.exists_mem_of_get? hget
    exact hall entry hentry

/-- A step upwards lowers no weight, and the end of the range does not either. -/
theorem Fair.getD_le_pushed {κ : Type} [BEq κ] [PartialEquivBEq κ] (h : rules.Fair)
    {weights : Table κ Rat} {key : κ} {step : Rat}
    (hall : ∀ weight ∈ weights, rules.minWeight ≤ weight.2 ∧ weight.2 ≤ rules.maxWeight)
    (hstep : 0 ≤ step) (other : κ) :
    (weights.get? other).getD 1 ≤ ((rules.pushed weights key step).get? other).getD 1 := by
  rw [Learning.pushed, Table.get?_put]
  split
  · rename_i hsame
    rw [Table.get?_congr weights hsame]
    obtain ⟨_, hmost⟩ := h.getD_range hall other
    exact le_min hmost (le_max_of_le_right (by linarith))
  · exact le_rfl

/-- And a step downwards raises none. -/
theorem Fair.pushed_le_getD {κ : Type} [BEq κ] [PartialEquivBEq κ] (h : rules.Fair)
    {weights : Table κ Rat} {key : κ} {step : Rat}
    (hall : ∀ weight ∈ weights, rules.minWeight ≤ weight.2 ∧ weight.2 ≤ rules.maxWeight)
    (hstep : step ≤ 0) (other : κ) :
    ((rules.pushed weights key step).get? other).getD 1 ≤ (weights.get? other).getD 1 := by
  rw [Learning.pushed, Table.get?_put]
  split
  · rename_i hsame
    rw [Table.get?_congr weights hsame]
    obtain ⟨hleast, _⟩ := h.getD_range hall other
    exact min_le_of_right_le (max_le hleast (by linarith))
  · exact le_rfl

/-! ### The net feedback -/

/-- An acceptance counts one more. -/
theorem netFeedback_noted_of_accepted {e : Event} (h : e.reaction = .accepted) (p : Pattern Rat) :
    (rules.noted e p).netFeedback = p.netFeedback + 1 := by
  show ((p.feedback ++ [e]).countP _ : Int) - ((p.feedback ++ [e]).countP _ : Int) = _
  rw [List.countP_append, List.countP_append]
  simp [h, Pattern.netFeedback, Pattern.reactions]
  omega

/-- A rejection counts one less. -/
theorem netFeedback_noted_of_rejected {e : Event} (h : e.reaction = .rejected) (p : Pattern Rat) :
    (rules.noted e p).netFeedback = p.netFeedback - 1 := by
  show ((p.feedback ++ [e]).countP _ : Int) - ((p.feedback ++ [e]).countP _ : Int) = _
  rw [List.countP_append, List.countP_append]
  simp [h, Pattern.netFeedback, Pattern.reactions]
  omega

/-! ### Preferences -/

/-- Sorting a pattern in moves no weights, so a judgement leaves the weight of a kind that
its step leaves. -/
theorem kindWeight_swayed {reaction : Reaction} {step : Rat}
    (hstep : rules.stepOf reaction = some step) {id : Label} {p : Pattern Rat}
    {prefs : Preferences Rat} (kind : String) :
    (rules.swayed reaction id p prefs).kindWeight kind
      = ((rules.pushed prefs.kindWeights p.kind.name step).get? kind).getD 1 := by
  unfold swayed placed
  rw [hstep]
  dsimp only
  split
  · rfl
  · split <;> rfl

theorem languageWeight_swayed {reaction : Reaction} {step : Rat}
    (hstep : rules.stepOf reaction = some step) {id : Label} {p : Pattern Rat}
    {prefs : Preferences Rat} (language : Label) :
    (rules.swayed reaction id p prefs).languageWeight language
      = ((rules.pushed prefs.languageWeights p.language step).get? language).getD 1 := by
  unfold swayed placed
  rw [hstep]
  dsimp only
  split
  · rfl
  · split <;> rfl

end Learning

/-- A pattern with no more confidence than another one, and the same else in what its score
looks at. -/
structure Pattern.Behind (p q : Pattern Rat) : Prop where
  id : p.id = q.id
  kind : p.kind = q.kind
  language : p.language = q.language
  confidence : p.confidence ≤ q.confidence

/-- What is stored is not ahead of itself. -/
theorem Pattern.Behind.rel_refl (stored? : Option (Pattern Rat)) :
    Option.Rel Pattern.Behind stored? stored? := by
  cases stored? with
  | none => exact .none
  | some p => exact .some ⟨rfl, rfl, rfl, le_rfl⟩

namespace Memory

variable {smoothing : Smoothing Rat} {setup : Setup Rat} {rules : Learning Rat} {m n : Memory Rat}
  {now : Timestamp} {id other : Label} {p : Pattern Rat} {e : Event}

theorem net_of_get? (h : m.store.get? id = some p) : m.net id = p.netFeedback := by
  rw [net, h]
  rfl

theorem net_congr (h : (id == other) = true) : m.net id = m.net other := by
  rw [net, m.store.get?_congr h]
  rfl

/-! ### Scores -/

/-- The factor of a pattern is that of its net feedback. -/
theorem Liking.modifier_eq (h : Liking rules m) (id : Label) :
    m.preferences.modifier rules.boost rules.avoidancePenalty id = rules.standing (m.net id) := by
  have hlikes : m.preferences.preferred.any (· == id) = true ↔
      rules.preferenceThreshold ≤ (m.net id : Rat) :=
    List.any_eq_true.trans (h.likes id)
  have havoids : m.preferences.avoided.any (· == id) = true ↔
      (m.net id : Rat) ≤ -rules.preferenceThreshold :=
    List.any_eq_true.trans (h.avoids id)
  unfold Preferences.modifier Learning.standing
  simp only [hlikes, havoids]
  rfl

theorem Liking.score_eq (h : Liking rules m) (p : Pattern Rat) :
    score rules m.preferences p = .ok
      (p.confidence * m.preferences.languageWeight p.language
        * m.preferences.kindWeight p.kind.name * rules.standing (m.net p.id)) := by
  rw [← h.modifier_eq]
  rfl

theorem Liking.languageWeight_nonneg (h : Liking rules m) (hfair : rules.Fair)
    (hgraded : rules.Graded) (language : Label) : 0 ≤ m.preferences.languageWeight language :=
  le_trans hgraded.least (hfair.getD_range h.weighed.2 language).1

theorem Liking.kindWeight_nonneg (h : Liking rules m) (hfair : rules.Fair)
    (hgraded : rules.Graded) (kind : String) : 0 ≤ m.preferences.kindWeight kind :=
  le_trans hgraded.least (hfair.getD_range h.weighed.1 kind).1

/-- Two memories store patterns under the same ids, and no pattern has a lower score in the
second one. -/
def NoLower (rules : Learning Rat) (m n : Memory Rat) : Prop :=
  ∀ id, Option.Rel
    (fun p q => ∃ before after, score rules m.preferences p = .ok before ∧
      score rules n.preferences q = .ok after ∧ before ≤ after)
    (m.store.get? id) (n.store.get? id)

/-! ### What goes into the scores -/

/-- All that goes into the scores is no greater in one memory than in the other. -/
structure Behind (m n : Memory Rat) : Prop where
  patterns : ∀ id, Option.Rel Pattern.Behind (m.store.get? id) (n.store.get? id)
  kinds : ∀ kind, m.preferences.kindWeight kind ≤ n.preferences.kindWeight kind
  languages : ∀ language,
    m.preferences.languageWeight language ≤ n.preferences.languageWeight language
  net : ∀ id, m.net id ≤ n.net id

theorem Behind.refl (m : Memory Rat) : Behind m m where
  patterns _ := Pattern.Behind.rel_refl _
  kinds _ := le_rfl
  languages _ := le_rfl
  net _ := le_rfl

/-- A product of factors that are not negative is no greater if no factor is. -/
theorem Behind.noLower (h : Behind m n) (hfair : rules.Fair) (hgraded : rules.Graded)
    (hm : Liking rules m) (hn : Liking rules n) (hunit : m.store.Every Pattern.InUnit) :
    NoLower rules m n := by
  intro id
  have hpatterns := h.patterns id
  cases hp : m.store.get? id with
  | none =>
    rw [hp] at hpatterns
    generalize n.store.get? id = found at hpatterns ⊢
    cases hpatterns
    exact .none
  | some p =>
    rw [hp] at hpatterns
    generalize n.store.get? id = found at hpatterns ⊢
    cases hpatterns with
    | @some _ q hbehind =>
      refine .some ⟨_, _, hm.score_eq p, hn.score_eq q, ?_⟩
      rw [← hbehind.id, ← hbehind.kind, ← hbehind.language]
      have hconfidence : 0 ≤ p.confidence := (hunit.of_get? hp).1
      have hlanguage := hm.languageWeight_nonneg hfair hgraded p.language
      have hkind := hm.kindWeight_nonneg hfair hgraded p.kind.name
      have hfactor := hgraded.standing_nonneg (m.net p.id)
      -- The product is taken from the left, so two factors at a time are compared.
      have hconfidences : p.confidence * m.preferences.languageWeight p.language
          ≤ q.confidence * n.preferences.languageWeight p.language :=
        mul_le_mul hbehind.confidence (h.languages _) hlanguage
          (le_trans hconfidence hbehind.confidence)
      have hinLanguage := le_trans (mul_nonneg hconfidence hlanguage) hconfidences
      have hkinds := mul_le_mul hconfidences (h.kinds p.kind.name) hkind hinLanguage
      have hofKind := le_trans (mul_nonneg (mul_nonneg hconfidence hlanguage) hkind) hkinds
      exact mul_le_mul hkinds (hgraded.standing_mono (h.net p.id)) hfactor hofKind

/-- An acceptance moves nothing downwards. -/
theorem behind_noted (hrules : rules.Bounded) (hfair : rules.Fair) (hgraded : rules.Graded)
    (hexact : Exact smoothing m) (hliking : Liking rules m) (hget : m.store.get? id = some p)
    (haccepted : e.reaction = .accepted) : Behind m (noted rules e m id p) := by
  have hswayed : (noted rules e m id p).preferences
      = rules.swayed .accepted id (rules.noted e p) m.preferences := by
    rw [← haccepted]
    rfl
  have hunit := (hexact.patterns.of_get? hget).unit
  refine ⟨fun other => ?_, fun kind => ?_, fun language => ?_, fun other => ?_⟩
  · show Option.Rel _ _ ((m.store.replace id (rules.noted e p)).get? other)
    rw [Store.get?_replace]
    split
    · rename_i hid
      rw [← m.store.get?_congr hid, hget]
      refine .some ⟨rfl, rfl, rfl, ?_⟩
      show p.confidence ≤ rules.reckoned e.reaction p.confidence
      rw [haccepted]
      -- What is gained is a part of what is missing to one.
      exact le_add_of_nonneg_right (mul_nonneg (sub_nonneg.2 hunit.2) hrules.gain.1)
    · exact Pattern.Behind.rel_refl _
  · rw [hswayed, Learning.kindWeight_swayed rfl]
    exact hfair.getD_le_pushed hliking.weighed.1 hgraded.step kind
  · rw [hswayed, Learning.languageWeight_swayed rfl]
    exact hfair.getD_le_pushed hliking.weighed.2 hgraded.step language
  · rw [net_noted, Learning.netFeedback_noted_of_accepted haccepted]
    split
    · rename_i hid
      rw [← net_congr hid, net_of_get? hget]
      omega
    · exact le_rfl

/-- Any other reaction moves nothing upwards. -/
theorem noted_behind (hrules : rules.Bounded) (hfair : rules.Fair) (hgraded : rules.Graded)
    (hexact : Exact smoothing m) (hliking : Liking rules m) (hget : m.store.get? id = some p)
    (hnot : e.reaction ≠ .accepted) : Behind (noted rules e m id p) m := by
  have hunit := (hexact.patterns.of_get? hget).unit
  have hpatterns : ∀ other,
      Option.Rel Pattern.Behind ((noted rules e m id p).store.get? other)
        (m.store.get? other) := by
    intro other
    show Option.Rel _ ((m.store.replace id (rules.noted e p)).get? other) _
    rw [Store.get?_replace]
    split
    · rename_i hid
      rw [← m.store.get?_congr hid, hget]
      exact .some ⟨rfl, rfl, rfl, Learning.reckoned_le hrules hnot hunit⟩
    · exact Pattern.Behind.rel_refl _
  by_cases hrejected : e.reaction = .rejected
  · have hswayed : (noted rules e m id p).preferences
        = rules.swayed .rejected id (rules.noted e p) m.preferences := by
      rw [← hrejected]
      rfl
    have hstep : -rules.weightStep ≤ 0 := neg_nonpos.2 hgraded.step
    refine ⟨hpatterns, fun kind => ?_, fun language => ?_, fun other => ?_⟩
    · rw [hswayed, Learning.kindWeight_swayed rfl]
      exact hfair.pushed_le_getD hliking.weighed.1 hstep kind
    · rw [hswayed, Learning.languageWeight_swayed rfl]
      exact hfair.pushed_le_getD hliking.weighed.2 hstep language
    · rw [net_noted, Learning.netFeedback_noted_of_rejected hrejected]
      split
      · rename_i hid
        rw [← net_congr hid, net_of_get? hget]
        omega
      · exact le_rfl
  · -- Without a judgement only the confidence is moved.
    have hswayed : (noted rules e m id p).preferences = m.preferences :=
      Learning.swayed_of_unjudged hnot hrejected _ _ _
    refine ⟨hpatterns, fun kind => ?_, fun language => ?_, fun other => ?_⟩
    · rw [hswayed]
    · rw [hswayed]
    · rw [net_noted, Learning.netFeedback_noted_of_unjudged hnot hrejected]
      split
      · rename_i hid
        rw [← net_congr hid, net_of_get? hget]
      · exact le_rfl

/-! ### Scores along a run -/

/-- A modification that shows no content is learned from like any other reaction. -/
theorem sightings_of_no_content (hmodified : e.reaction = .modified)
    (hcontent : e.modifiedContent.truthy = false) (m : Memory Rat) :
    Deed.sightings setup m (.feedback e) = [] := by
  have hnothing : ∀ id, m.resighted setup.reparse id e = .ok ([], none) := by
    intro id
    unfold resighted
    rw [hmodified]
    cases hshown : e.modifiedContent with
    | text content =>
      rw [hshown, Value.truthy, Bool.not_eq_false'] at hcontent
      exact if_pos hcontent
    | _ => rfl
  unfold Deed.sightings
  dsimp only
  split
  · rfl
  · rw [hnothing]

theorem NoLower.refl (hfair : rules.Fair) (hgraded : rules.Graded) (hexact : Exact smoothing m)
    (hliking : Liking rules m) : NoLower rules m m :=
  (Behind.refl m).noLower hfair hgraded hliking hliking
    fun entry hentry => (hexact.patterns entry hentry).unit

/-- However an acceptance is answered, no score is lowered. -/
theorem Answered.noLower_of_accepted (hrules : setup.rules.Bounded) (hfair : setup.rules.Fair)
    (hgraded : setup.rules.Graded) (hexact : Exact smoothing m) (hliking : Liking setup.rules m)
    (h : Answered setup now e m n) (haccepted : e.reaction = .accepted) :
    NoLower setup.rules m n := by
  cases h with
  | refused _ _ => exact .refl hfair hgraded hexact hliking
  | judged htarget _ =>
    have hget := (target_eq_ok.1 htarget).2
    exact (behind_noted hrules hfair hgraded hexact hliking hget haccepted).noLower hfair hgraded
      hliking (hliking.noted hfair hget) fun entry hentry => (hexact.patterns entry hentry).unit
  | modified _ hother | ignored _ hother _ | passed _ hother _ _ =>
    rw [haccepted] at hother
    cases hother

/-- However another reaction is answered, no score is raised, unless something is sighted or
a pass of forgetting is run. -/
theorem Answered.noLower_of_not_accepted (hrules : setup.rules.Bounded)
    (hfair : setup.rules.Fair) (hgraded : setup.rules.Graded) (hexact : Exact smoothing m)
    (hliking : Liking setup.rules m) (h : Answered setup now e m n)
    (hnot : e.reaction ≠ .accepted) (hidle : ¬ Deed.Passes setup m (.feedback e))
    (hunseen : e.reaction = .modified → e.modifiedContent.truthy = false) :
    NoLower setup.rules n m := by
  -- Noting the reaction is all that is left to be looked at.
  have hnoted : ∀ {id p}, m.target e.patternId = .ok (id, p) →
      NoLower setup.rules (noted setup.rules e m id p) m := by
    intro id p htarget
    have hget := (target_eq_ok.1 htarget).2
    have hleft := hexact.noted (e := e) hrules hget
    exact (noted_behind hrules hfair hgraded hexact hliking hget hnot).noLower hfair hgraded
      (hliking.noted hfair hget) hliking fun entry hentry => (hleft.patterns entry hentry).unit
  cases h with
  | refused _ _ => exact .refl hfair hgraded hexact hliking
  | judged htarget _ => exact hnoted htarget
  | modified htarget hmodified =>
    rw [sightings_of_no_content hmodified (hunseen hmodified)]
    exact hnoted htarget
  | ignored htarget _ _ => exact hnoted htarget
  | passed htarget hignored hunborne hwindow =>
    exact (hidle ⟨⟨_, _, htarget⟩, hignored, hunborne, _, hwindow⟩).elim

/-- Whatever is done, without snapshots, to a memory that began with nothing learned,
under rules that an accepted configuration gives: no acceptance lowers the score of any
stored pattern, and no rejection raises one. Neither does a modification without content,
nor an ignored suggestion that starts no pass of forgetting. Besides what the configuration
is checked for, acceptances must not move weights downwards, and the factors of the avoided
and of the preferred patterns have to be on their sides of one. -/
theorem scores_follow_reactions {intake : Intake Rat} {c : Config} (hvalid : c.validate = .ok ())
    (hrules : c.rules.ReadsAs setup.rules) (hmost : c.rules.maxWeight.asRat?.isSome)
    (hthreshold : c.rules.preferenceThreshold.asRat?.isSome)
    (hstep : 0 ≤ setup.rules.weightStep) (hpenalty : UnitRat setup.rules.avoidancePenalty)
    (hboost : 1 ≤ setup.rules.boost) {deeds : List (Timestamp × Deed)}
    (hown : ∀ done ∈ deeds, done.2.IsOwn) (now : Timestamp) (e : Event) :
    let m := runFrom intake setup (empty smoothing) deeds
    let n := ((setup.feedback now e).outcome m).2
    (e.reaction = .accepted → NoLower setup.rules m n) ∧
      (e.reaction = .rejected → NoLower setup.rules n m) ∧
      (e.reaction = .modified → e.modifiedContent.truthy = false → NoLower setup.rules n m) ∧
      (e.reaction = .ignored → ¬ Deed.Passes setup m (.feedback e) →
        NoLower setup.rules n m) := by
  intro m n
  have hbounded := hrules.bounded hvalid
  have hfair := hrules.fair hvalid hmost hthreshold
  have hgraded : setup.rules.Graded := ⟨hstep, hrules.least_nonneg hvalid, hpenalty, hboost⟩
  obtain ⟨hexact, hliking⟩ : Exact smoothing m ∧ Liking setup.rules m :=
    runFrom_own (P := Liking setup.rules) hbounded
      (fun now deed m n hexact hliking hdone => hliking.done hbounded hfair hexact hdone)
      hown (exact_empty smoothing) (liking_empty hfair smoothing)
  have hanswered : Answered setup now e m n := answered_feedback hexact hbounded now e
  have hrises := hanswered.noLower_of_accepted hbounded hfair hgraded hexact hliking
  have hfalls := hanswered.noLower_of_not_accepted hbounded hfair hgraded hexact hliking
  refine ⟨hrises, fun hrejected => ?_, fun hmodified hcontent => ?_, fun hignored hidle => ?_⟩
  · -- Only an ignored suggestion can start a pass.
    refine hfalls (by simp [hrejected]) (fun hpasses => ?_) (by simp [hrejected])
    simp [Deed.Passes, hrejected] at hpasses
  · refine hfalls (by simp [hmodified]) (fun hpasses => ?_) fun _ => hcontent
    simp [Deed.Passes, hmodified] at hpasses
  · exact hfalls (by simp [hignored]) hidle (by simp [hignored])

/-- A pattern is accepted once, and then again, which makes it preferred. Its score is not
lowered by this. It is not raised by what follows either: a rejection, a modification that
shows nothing, or the first suggestion that is ignored. -/
theorem scores_follow_reactions_of_preferred :
    let run (deeds : List (Timestamp × Deed)) : Memory Rat :=
      runFrom (.exact ⟨0, 0, 0⟩) defaultsForGo (empty ⟨0, 0, 0⟩) deeds
    let deeds := [importSeen, reactionToP .accepted]
    let preferring := deeds ++ [reactionToP .accepted]
    ((run deeds).store.get? (.text "p")).isSome ∧
      ¬ (run deeds).preferences.Likes (.text "p") ∧
      (run preferring).preferences.Likes (.text "p") ∧
      NoLower defaultsForGo.rules (run deeds) (run preferring) ∧
      NoLower defaultsForGo.rules (run (preferring ++ [reactionToP .rejected]))
        (run preferring) ∧
      NoLower defaultsForGo.rules (run (preferring ++ [reactionToP .modified]))
        (run preferring) ∧
      NoLower defaultsForGo.rules (run (preferring ++ [reactionToP .ignored]))
        (run preferring) := by
  intro run deeds preferring
  have hvalid : Config.default.validate = .ok () := Except.eq_ok_unit (by decide +kernel)
  have hstep : 0 ≤ defaultsForGo.rules.weightStep := by decide +kernel
  have hpenalty : UnitRat defaultsForGo.rules.avoidancePenalty :=
    ⟨by decide +kernel, by decide +kernel⟩
  have hboost : 1 ≤ defaultsForGo.rules.boost := by decide +kernel
  have hscores := fun deeds hown => @scores_follow_reactions ⟨0, 0, 0⟩ defaultsForGo
    (.exact ⟨0, 0, 0⟩) _ hvalid (Learning.readsAs_exactly _) (by decide +kernel)
    (by decide +kernel) hstep hpenalty hboost deeds hown ⟨0, 0⟩
  -- The last reaction of a run is one to the memory that the others left.
  have hlast : ∀ (deeds : List (Timestamp × Deed)) (reaction : Reaction),
      run (deeds ++ [reactionToP reaction]) = ((defaultsForGo.feedback ⟨0, 0⟩
        ⟨.text "p", reaction, ⟨0, 0⟩, .null, .unknown, .null⟩).outcome (run deeds)).2 := by
    intro deeds reaction
    dsimp only [run]
    rw [runFrom_concat]
    exact left_drop _ _
  have hown : ∀ done ∈ deeds, done.2.IsOwn := by
    simp [deeds, Deed.IsOwn, importSeen, reactionToP]
  have hownAll : ∀ done ∈ preferring, done.2.IsOwn := by
    simp [preferring, deeds, Deed.IsOwn, importSeen, reactionToP]
  have hlikes : ∀ m : Memory Rat, m.preferences.Likes (.text "p") ↔
      m.preferences.preferred.any (· == .text "p") = true :=
    fun m => List.any_eq_true.symm
  refine ⟨by decide +kernel, ?_, ?_, ?_, ?_, ?_, ?_⟩
  · rw [hlikes]
    decide +kernel
  · rw [hlikes]
    decide +kernel
  · rw [hlast]
    exact (hscores deeds hown _).1 rfl
  · rw [hlast]
    exact (hscores preferring hownAll _).2.1 rfl
  · rw [hlast]
    exact (hscores preferring hownAll _).2.2.1 rfl rfl
  · rw [hlast]
    refine (hscores preferring hownAll _).2.2.2 rfl fun hpasses => ?_
    -- One suggestion that is ignored is borne by default.
    obtain ⟨_, _, hunborne, _⟩ := hpasses
    exact absurd hunborne (by decide +kernel)

end Memory

end CodeHabits
