import CodeHabits.Proofs.Binary64.Order
import CodeHabits.Proofs.Preferences.Weights
import CodeHabits.Proofs.Store.Telling
import CodeHabits.Session

/-!
# `CodeHabits.Proofs.Memory.Telling`: memories that can be asked about

Two questions are put to a memory: for numbers about what was learned, and for patterns to
suggest. Both have an answer, whatever exactly is asked for, if the patterns are measured
and serviceable and the preferences can be put in order (`exists_statistics`,
`exists_suggest`). Suggestions also need weights and factors that a confidence can be
multiplied with.
-/

set_option autoImplicit false

namespace CodeHabits

/-- A wish for a whole number of suggestions with a number for the least score. -/
structure Wish.Sound (w : Wish Value) : Prop where
  limit : ∃ n, w.limit.number? = some (.int n)
  threshold : w.threshold.number?.isSome

namespace Memory

variable {m : Memory Value} {rules : Learning Value} {prefs : Preferences Value}
  {p : Pattern Value} {manner : Manner Value}

/-! ### Numbers -/

theorem exists_countedLanguage (hp : p.Serviceable) {e : Event} (he : e.Tellable) :
    ∃ language, countedLanguage p e = .ok language ∧ language.IsText := by
  unfold countedLanguage
  -- The event says a language itself, or that of its pattern is taken.
  split
  · rename_i htruthy
    obtain ⟨s, hs⟩ := he.language htruthy
    rw [hs]
    exact ⟨.text s, rfl, s, rfl⟩
  · exact ⟨p.language, rfl, hp.language⟩

/-- The numbers about reactions can be told. -/
theorem exists_feedbackStats (hmeasured : m.store.Every Pattern.Measured)
    (hserves : m.store.Every Pattern.Serviceable) (spell : Label → String) :
    ∃ numbers, m.feedbackStats spell = .ok numbers := by
  obtain ⟨patterns, hpatterns, hall⟩ :=
    Store.exists_query { Store.Query.live with withRetired := true } rfl hmeasured hserves
  -- Each event is told about with the pattern that it is logged in.
  have hevents : ∀ pe ∈ patterns.flatMap fun p => p.feedback.map fun e => (p, e),
      pe.1.Serviceable ∧ pe.2.Tellable := by
    intro pe hpe
    obtain ⟨p, hp, hpe⟩ := List.mem_flatMap.1 hpe
    obtain ⟨e, he, rfl⟩ := List.mem_map.1 hpe
    exact ⟨(hall p hp).2, (hall p hp).2.feedback e he⟩
  obtain ⟨languages, hlanguages, htexts⟩ := Except.exists_mapM
    (P := Label.IsText) fun pe hpe => exists_countedLanguage (hevents pe hpe).1 (hevents pe hpe).2
  obtain ⟨reasons, hreasons⟩ : ∃ reasons, ((patterns.flatMap fun p =>
      p.feedback.map fun e => (p, e)).filter fun pe =>
        pe.2.reaction == .rejected && pe.2.reason.truthy).mapM (fun pe => pe.2.reason.toLabel)
          = .ok reasons := by
    refine Except.exists_mapM_eq_ok.2 fun pe hpe => ?_
    obtain ⟨hmem, hasks⟩ := List.mem_filter.1 hpe
    obtain ⟨hrejected, htruthy⟩ := Bool.and_eq_true_iff.1 hasks
    exact (hevents pe hmem).2.reason (by simpa using hrejected) htruthy
  obtain ⟨totals, htotals, _⟩ := exists_sorted (Store.texts_tallyLabels htexts)
  unfold feedbackStats
  dsimp only
  rw [hpatterns, Except.ok_bind, hlanguages, Except.ok_bind, hreasons, Except.ok_bind, htotals]
  exact ⟨_, rfl⟩

/-- All numbers about a memory can be told. -/
theorem exists_statistics (hmeasured : m.store.Every Pattern.Measured)
    (hserves : m.store.Every Pattern.Serviceable) (hsortable : m.preferences.Sortable)
    (manner : Manner Value) (languages : List String) :
    ∃ numbers, m.statistics manner languages = .ok numbers := by
  obtain ⟨stats, hstats⟩ := Store.exists_stats manner.spell hmeasured hserves
  obtain ⟨reactions, hreactions⟩ := exists_feedbackStats hmeasured hserves manner.spell
  obtain ⟨q, harranged, _⟩ := hsortable.exists_arranged
  have hweighed : m.preferences.document manner = .ok (.object (q.members manner)) :=
    Preferences.document_eq_ok.2 ⟨q, harranged, rfl⟩
  rw [statistics, hstats, Except.ok_bind, hreactions, Except.ok_bind, hweighed]
  exact ⟨_, rfl⟩

/-! ### Scores -/

/-- Of weights that mix, the one of a key does, also if there is none yet. -/
theorem mixes_getD {κ : Type} [BEq κ] {weights : Table κ Value}
    (h : ∀ entry ∈ weights, entry.2.Mixes) (key : κ) :
    ((weights.get? key).getD Magnitude.one).Mixes := by
  cases hget : weights.get? key with
  | none => exact Value.mixes_real 1.0
  | some known =>
    obtain ⟨entry, hentry, _, rfl⟩ := Table.exists_mem_of_get? hget
    exact h entry hentry

theorem mixes_modifier (hboost : rules.boost.Mixes) (havoidance : rules.avoidancePenalty.Mixes)
    (prefs : Preferences Value) (id : Label) :
    (prefs.modifier rules.boost rules.avoidancePenalty id).Mixes := by
  unfold Preferences.modifier
  split
  · exact hboost
  · split
    · exact havoidance
    · exact Value.mixes_real 1.0

/-- A confidence times factors that mix is a floating-point number. -/
theorem exists_score (hboost : rules.boost.Mixes) (havoidance : rules.avoidancePenalty.Mixes)
    (hweights : ∀ weight ∈ prefs.weights, weight.Mixes) (hp : p.Measured) :
    ∃ x, score rules prefs p = .ok (.real x) := by
  obtain ⟨hkinds, hlanguages⟩ := Preferences.forall_weights.1 hweights
  obtain ⟨c, hc, _⟩ := hp.confidence
  obtain ⟨x, hx⟩ := Value.exists_mul_left c (mixes_getD hlanguages p.language)
  obtain ⟨y, hy⟩ := Value.exists_mul_left x (mixes_getD hkinds p.kind.name)
  obtain ⟨z, hz⟩ := Value.exists_mul_left y (mixes_modifier hboost havoidance prefs p.id)
  -- The factors are the weights of the language and of the kind, and what liking makes of them.
  refine ⟨z, ?_⟩
  rw [score, hc, Preferences.languageWeight, hx, Except.ok_bind, Preferences.kindWeight, hy,
    Except.ok_bind, hz]

theorem reaching_eq_filter {threshold : Value} {patterns : List (Pattern Value)}
    {value : Pattern Value → Value} {reach : Pattern Value → Bool}
    (hvalue : ∀ p ∈ patterns, score rules prefs p = .ok (value p))
    (hreach : ∀ p ∈ patterns, Magnitude.le threshold (value p) = .ok (reach p)) :
    reaching rules prefs threshold patterns
      = .ok ((patterns.filter reach).map fun p => ⟨value p, p⟩) := by
  induction patterns with
  | nil => rfl
  | cons p rest ih =>
    -- Each pattern is scored and compared before the next one is looked at.
    obtain ⟨hp, hrest⟩ := List.forall_mem_cons.1 hvalue
    obtain ⟨hpreach, hrestreach⟩ := List.forall_mem_cons.1 hreach
    have hscored : scored rules prefs p = .ok ⟨value p, p⟩ := by
      rw [scored, hp]
      rfl
    rw [reaching, hscored, Except.ok_bind, hpreach, Except.ok_bind, ih hrest hrestreach,
      Except.ok_bind, Except.pure_eq, List.filter_cons]
    split
    · rfl
    · rfl

/-- Scores can be compared with a number. What reaches it is found with its score, once for
each pattern. -/
theorem exists_reaching {threshold : Value} (hthreshold : threshold.number?.isSome)
    {patterns : List (Pattern Value)}
    (h : ∀ p ∈ patterns, ∃ x, score rules prefs p = .ok (.real x)) :
    ∃ found, reaching rules prefs threshold patterns = .ok found ∧
      (found.map (·.pattern)).Sublist patterns ∧
      ∀ s, s ∈ found ↔ s.pattern ∈ patterns ∧ score rules prefs s.pattern = .ok s.score ∧
        Magnitude.le threshold s.score = .ok true := by
  let value p := (score rules prefs p).toOption.getD .null
  let reach p := (Magnitude.le threshold (value p)).toOption.getD false
  have hvalue : ∀ p ∈ patterns, score rules prefs p = .ok (value p) := by
    intro p hp
    obtain ⟨x, hx⟩ := h p hp
    simp only [value, hx]
    rfl
  have hreach : ∀ p ∈ patterns, Magnitude.le threshold (value p) = .ok (reach p) := by
    intro p hp
    obtain ⟨x, hx⟩ := h p hp
    have hreal : value p = .real x := by
      simp only [value, hx]
      rfl
    obtain ⟨reaches, hreaches⟩ := Value.exists_le hthreshold (b := .real x) rfl
    simp only [reach, hreal, hreaches]
    rfl
  refine ⟨_, reaching_eq_filter hvalue hreach, ?_, fun s => ?_⟩
  · rw [List.map_map]
    show ((patterns.filter reach).map id).Sublist patterns
    rw [List.map_id]
    exact List.filter_sublist
  · rw [List.mem_map]
    constructor
    · rintro ⟨p, hmem, rfl⟩
      obtain ⟨hp, hasked⟩ := List.mem_filter.1 hmem
      refine ⟨hp, hvalue p hp, ?_⟩
      rw [hreach p hp, hasked]
    · rintro ⟨hp, hscore, hle⟩
      -- A pattern has one score, and the comparison has one answer.
      have hsame : value s.pattern = s.score := by
        rw [hvalue s.pattern hp] at hscore
        exact Except.ok.inj hscore
      have hasked : reach s.pattern = true := by
        rw [← hsame, hreach s.pattern hp] at hle
        exact Except.ok.inj hle
      refine ⟨s.pattern, List.mem_filter.2 ⟨hp, hasked⟩, ?_⟩
      rw [hsame]

/-! ### Suggestions -/

/-- A pattern with a score that can be suggested and told about. -/
structure Suggestible (s : Scored Value) : Prop where
  score : ∃ x, s.score = .real x
  measured : s.pattern.Measured
  serviceable : s.pattern.Serviceable

theorem isSome_suggestionOrder {s t : Scored Value} (hs : Suggestible s) (ht : Suggestible t) :
    (suggestionOrder s t).isSome := by
  have hnumber : ∀ s, Suggestible s → s.score.number?.isSome := by
    intro s hs
    obtain ⟨x, hx⟩ := hs.score
    rw [hx]
    rfl
  have hsfrequency := hs.measured.numbers.2
  have htfrequency := ht.measured.numbers.2
  -- Scores decide first, then frequencies, then the times, and in the end the ids.
  refine Precedence.isSome_greaterFirst (Value.exists_lt (hnumber t ht) (hnumber s hs))
    (Value.exists_le (hnumber t ht) (hnumber s hs)) ?_
  refine Precedence.isSome_greaterFirst (Value.exists_lt htfrequency hsfrequency)
    (Value.exists_le htfrequency hsfrequency) ?_
  refine Precedence.isSome_greaterFirst ⟨_, rfl⟩ ⟨_, rfl⟩ ?_
  exact Label.isSome_before_iff.2 (.inl ⟨hs.serviceable.id, ht.serviceable.id⟩)

/-- Scores are negated for the order, which only works for numbers. -/
theorem negated_eq_ok {found : List (Scored Value)} (h : ∀ s ∈ found, Suggestible s) :
    (found.forM fun s => do let _ ← Magnitude.neg s.score : Except Fault Unit) = .ok () := by
  refine Except.forM_eq_ok fun s hs => ?_
  obtain ⟨x, hx⟩ := (h s hs).score
  rw [hx]
  rfl

theorem exists_candidates (hboost : rules.boost.Mixes) (havoidance : rules.avoidancePenalty.Mixes)
    (hmeasured : m.store.Every Pattern.Measured) (hserves : m.store.Every Pattern.Serviceable)
    (hweights : ∀ weight ∈ m.preferences.weights, weight.Mixes) {w : Wish Value} (hw : w.Sound) :
    ∃ found, candidates rules m w = .ok found ∧ ∀ s ∈ found, Suggestible s := by
  obtain ⟨patterns, hpatterns, hall⟩ := Store.exists_query
    { Store.Query.live with language? := some (.text w.language) } rfl hmeasured hserves
  obtain ⟨found, hfound, _, hmem⟩ := exists_reaching hw.threshold fun p hp =>
    exists_score hboost havoidance hweights (hall p (List.mem_filter.1 hp).1).1
  have hsuggestible : ∀ s ∈ found, Suggestible s := by
    intro s hs
    obtain ⟨hpattern, hscore, _⟩ := (hmem s).1 hs
    obtain ⟨hpm, hps⟩ := hall s.pattern (List.mem_filter.1 hpattern).1
    obtain ⟨x, hx⟩ := exists_score hboost havoidance hweights hpm
    rw [hx] at hscore
    exact ⟨⟨x, (Except.ok.inj hscore).symm⟩, hpm, hps⟩
  have hchecked := negated_eq_ok hsuggestible
  obtain ⟨answer, hanswer⟩ : ∃ answer, sorted suggestionOrder found = .ok answer := by
    refine exists_sorted_iff.2 (List.pairwise_of_forall_mem_list fun s hs t ht => ⟨?_, ?_⟩)
    · exact isSome_suggestionOrder (hsuggestible s hs) (hsuggestible t ht)
    · exact isSome_suggestionOrder (hsuggestible t ht) (hsuggestible s hs)
  refine ⟨answer, ?_, fun s hs => hsuggestible s ((perm_of_sorted hanswer).mem_iff.1 hs)⟩
  unfold candidates
  dsimp only
  rw [hpatterns, Except.ok_bind, hfound, Except.ok_bind, hchecked, Except.ok_bind, hanswer]

/-- What is suggested can be told about. -/
theorem Suggestible.exists_document {s : Scored Value} (h : Suggestible s)
    (prefs : Preferences Value) : ∃ document, s.document prefs = .ok document := by
  obtain ⟨x, hx⟩ := h.score
  obtain ⟨c, hc, _⟩ := h.measured.confidence
  obtain ⟨style, hstyle⟩ :=
    Tallies.exists_dominant h.serviceable.habits h.serviceable.counted
  unfold Scored.document Scored.rationale
  dsimp only
  rw [hstyle, Except.ok_bind, hx, hc]
  exact ⟨_, rfl⟩

/-- A sound wish is answered, and each suggestion can be told about. -/
theorem exists_suggest (hboost : rules.boost.Mixes) (havoidance : rules.avoidancePenalty.Mixes)
    (hmeasured : m.store.Every Pattern.Measured) (hserves : m.store.Every Pattern.Serviceable)
    (hweights : ∀ weight ∈ m.preferences.weights, weight.Mixes) {w : Wish Value} (hw : w.Sound) :
    ∃ found, suggest rules m w = .ok found ∧
      ∀ s ∈ found, ∃ document, s.document m.preferences = .ok document := by
  obtain ⟨found, hfound, hall⟩ :=
    exists_candidates hboost havoidance hmeasured hserves hweights hw
  have hdocument : ∀ s ∈ found, ∃ document, s.document m.preferences = .ok document :=
    fun s hs => (hall s hs).exists_document m.preferences
  obtain ⟨n, hn⟩ := hw.limit
  obtain ⟨none?, hnone⟩ := Value.exists_le (b := .int 0) (Option.isSome_of_eq_some hn) rfl
  unfold suggest
  rw [hnone, Except.ok_bind]
  -- A limit that is not above zero asks for nothing, and any other one cuts the list.
  cases none? with
  | true => exact ⟨[], rfl, by simp⟩
  | false =>
    rw [if_neg Bool.false_ne_true, hfound, Except.ok_bind]
    cases hlimit : w.limit with
    | int k =>
      exact ⟨_, rfl, fun s hs => hdocument s (List.mem_of_mem_take hs)⟩
    | bool b =>
      exact ⟨_, rfl, fun s hs => hdocument s (List.mem_of_mem_take hs)⟩
    | _ =>
      rw [hlimit] at hn
      cases hn

end Memory

end CodeHabits
