import CodeHabits.Proofs.Pattern.Serviceable
import CodeHabits.Proofs.Store.Invariants

/-!
# `CodeHabits.Proofs.Store.Telling`: stores that can be asked about

A store answers in order: patterns go by their confidence, their frequency and their id,
counts go by their labels. It answers whatever it is asked if its patterns are measured and
serviceable (`exists_query`, `exists_stats`). Then numbers can be compared and summed, and
where they do not decide about an order a text does.
-/

set_option autoImplicit false

namespace CodeHabits

/-! ### Sums -/

/-- Floating-point numbers have a sum, and if there are any it is one. -/
theorem Value.exists_total_real {numbers : List Value} (h : ∀ c ∈ numbers, ∃ x, c = .real x)
    (hsome : numbers ≠ []) : ∃ x, total numbers = .ok (.real x) := by
  obtain ⟨first, rest, rfl⟩ := List.exists_cons_of_ne_nil hsome
  obtain ⟨⟨x, rfl⟩, hrest⟩ := List.forall_mem_cons.1 h
  -- The sum starts at a whole zero, and with the first number it turns into a floating-point
  -- number for good.
  have hzero : (int 0).Mixes := ⟨.int 0, rfl, Number.mixes_zero⟩
  obtain ⟨start, hstart⟩ := exists_add_right x hzero
  have hfold : ∃ sum, rest.foldlM Magnitude.add (.real start) = .ok sum ∧ ∃ y, sum = .real y := by
    refine Except.exists_foldlM (P := fun sum : Value => ∃ y, sum = .real y) ?_ ⟨start, rfl⟩
    rintro _ c hc ⟨y, rfl⟩
    obtain ⟨z, rfl⟩ := hrest c hc
    obtain ⟨sum, hsum⟩ := exists_add_left y (mixes_real z)
    exact ⟨_, hsum, sum, rfl⟩
  obtain ⟨_, hsum, y, rfl⟩ := hfold
  refine ⟨y, ?_⟩
  show (Magnitude.add (.int 0) (.real x) >>= fun s => rest.foldlM Magnitude.add s) = _
  rw [hstart, Except.ok_bind, hsum]

/-- Whole numbers have a sum. -/
theorem Value.exists_total_int {numbers : List Value} (h : ∀ c ∈ numbers, ∃ n, c = .int n) :
    ∃ n, total numbers = .ok (.int n) := by
  have hfold : ∃ sum, total numbers = .ok sum ∧ ∃ n, sum = .int n := by
    refine Except.exists_foldlM (P := fun sum : Value => ∃ n, sum = .int n) ?_ ⟨0, rfl⟩
    rintro _ c hc ⟨n, rfl⟩
    obtain ⟨k, rfl⟩ := h c hc
    exact ⟨_, rfl, n + k, rfl⟩
  obtain ⟨_, hsum, n, rfl⟩ := hfold
  exact ⟨n, hsum⟩

namespace Store

/-! ### The order of ids -/

section

variable {ν : Type} {s : Store ν} {ps : List (Pattern ν)}

/-- The patterns of a store in the order of their ids. -/
theorem perm_of_inOrder (h : s.inOrder = .ok ps) : ps.Perm (s.patterns.map (·.2)) := by
  obtain ⟨entries, hentries, h⟩ := Except.bind_eq_ok.1 h
  cases h
  exact (perm_of_sorted hentries).map _

/-- A store can be put in order exactly if its ids can be sorted. -/
theorem exists_inOrder_iff :
    (∃ ps, s.inOrder = .ok ps) ↔ Label.Sortable (s.patterns.map (·.1)) := by
  have hkeys := sorted_map (f := fun entry : Label × Pattern ν => entry.1)
    (p := .on (·.1) .label) (q := .label) (fun _ _ => rfl) s.patterns
  rw [← Label.exists_sorted_label_iff, hkeys, inOrder]
  cases sorted (.on (·.1) .label) s.patterns <;> simp [Except.map]

/-- There is only one thing that can be wrong with ids. -/
theorem inOrder_eq_error (h : ¬ Label.Sortable (s.patterns.map (·.1))) :
    s.inOrder = .error .wrongKind := by
  rw [← exists_inOrder_iff] at h
  unfold inOrder sorted at h ⊢
  split at h
  · exact absurd ⟨_, rfl⟩ h
  · rename_i hunordered
    rw [if_neg hunordered]
    rfl

/-- Ids that are texts ascend in it. -/
theorem exists_ascending (hkeyed : s.Keyed) (htexts : s.Every fun p => p.id.IsText) :
    ∃ ps, s.inOrder = .ok ps ∧ Label.Ascending (ps.map (·.id)) := by
  have hkeys : ∀ entry ∈ s.patterns, entry.1.IsText := by
    intro entry hentry
    rw [hkeyed entry hentry]
    exact htexts entry hentry
  obtain ⟨entries, hsorted, hperm, hascending⟩ := exists_sorted hkeys
  refine ⟨entries.map (·.2), ?_, ?_⟩
  · rw [inOrder, hsorted]
    rfl
  · have hids : (entries.map (·.2)).map (·.id) = entries.map (·.1) := by
      rw [List.map_map]
      exact List.map_congr_left fun entry hentry => (hkeyed entry (hperm.mem_iff.1 hentry)).symm
    rwa [hids]

end

open Pattern (Measured Serviceable)

variable {s : Store Value} {p q : Pattern Value} {spell : Label → String}

/-- What comes up among texts are texts. -/
theorem texts_tallyLabels {labels : List Label} (h : ∀ label ∈ labels, label.IsText) :
    ∀ entry ∈ tallyLabels labels, entry.1.IsText := by
  refine List.foldlRecOn
    (motive := fun counts : Table Label Nat => ∀ entry ∈ counts, entry.1.IsText)
    labels _ (by simp) fun counts hcounts label hlabel => ?_
  exact Table.forall_keys_put (P := Label.IsText) hcounts (h label hlabel)

theorem exists_sortedCounts {counts : Table Label Nat} (h : ∀ entry ∈ counts, entry.1.IsText) :
    ∃ document, sortedCounts spell counts = .ok document := by
  obtain ⟨entries, hentries, _⟩ := exists_sorted h
  rw [sortedCounts, hentries]
  exact ⟨_, rfl⟩

/-! ### Queries -/

/-- Measured patterns with texts for ids have an order. -/
theorem isSome_ranking (hp : p.Measured) (hq : q.Measured) (hpid : p.id.IsText)
    (hqid : q.id.IsText) : (ranking p q).isSome := by
  obtain ⟨hpc, hpf⟩ := hp.numbers
  obtain ⟨hqc, hqf⟩ := hq.numbers
  -- Confidences decide first, then frequencies, and in the end the ids.
  refine Precedence.isSome_greaterFirst (Value.exists_lt hqc hpc) (Value.exists_le hqc hpc) ?_
  refine Precedence.isSome_greaterFirst (Value.exists_lt hqf hpf) (Value.exists_le hqf hpf) ?_
  exact Label.isSome_before_iff.2 (.inl ⟨hpid, hqid⟩)

theorem needRank_eq_ok (hp : p.Measured) : needRank p = .ok () := by
  obtain ⟨hconfidence, hfrequency⟩ := hp.numbers
  obtain ⟨_, hneg, _⟩ := Value.exists_neg hconfidence
  obtain ⟨_, hneg', _⟩ := Value.exists_neg hfrequency
  rw [needRank, hneg, Except.ok_bind, hneg', Except.ok_bind, Except.pure_eq]

/-- Whether a query that asks for no confidence asks for a pattern. -/
def Query.wants {ν : Type} (query : Query ν) (p : Pattern ν) : Bool :=
  query.language?.all p.language.value.same && query.kinds?.all (·.contains p.kind)
    && (query.withRetired || !p.isRetired)

/-- Asking whether a pattern is wanted fails at most where confidences are compared. -/
theorem admits_eq_ok {ν : Type} [Magnitude ν] {query : Query ν} (hany : query.atLeast? = none)
    (p : Pattern ν) : query.admits p = .ok (query.wants p) := by
  unfold Query.admits Query.admitsConfidence Query.wants
  rw [hany]
  split
  · rename_i hasked
    rw [hasked]
    rfl
  · rename_i hasked
    rw [Bool.eq_false_of_not_eq_true hasked]
    rfl

/-- An answer has the patterns that are wanted, in some order. -/
theorem perm_of_query {ν : Type} [Magnitude ν] {s : Store ν} {query : Query ν}
    (hany : query.atLeast? = none) {found : List (Pattern ν)} (h : s.query query = .ok found) :
    found.Perm ((s.patterns.map (·.2)).filter query.wants) := by
  rw [Store.query, Except.filterM_eq_filter fun p _ => admits_eq_ok hany p, Except.ok_bind] at h
  obtain ⟨_, _, hsorted⟩ := Except.bind_eq_ok.1 h
  exact perm_of_sorted hsorted

/-- A query that asks for no confidence is answered with patterns of the store. -/
theorem exists_query (query : Query Value) (hany : query.atLeast? = none)
    (hmeasured : s.Every Measured) (hserves : s.Every Serviceable) :
    ∃ found, s.query query = .ok found ∧ ∀ p ∈ found, p.Measured ∧ p.Serviceable := by
  have hall : ∀ p ∈ (s.patterns.map (·.2)).filter query.wants, p.Measured ∧ p.Serviceable := by
    intro p hp
    obtain ⟨entry, hentry, rfl⟩ := List.mem_map.1 (List.mem_filter.1 hp).1
    exact ⟨hmeasured entry hentry, hserves entry hentry⟩
  have hfound := Except.filterM_eq_filter fun p (_ : p ∈ s.patterns.map (·.2)) =>
    admits_eq_ok hany p
  generalize (s.patterns.map (·.2)).filter query.wants = found at hall hfound
  have hranked : found.forM needRank = .ok () :=
    Except.forM_eq_ok fun p hp => needRank_eq_ok (hall p hp).1
  obtain ⟨answer, hanswer⟩ : ∃ answer, sorted ranking found = .ok answer := by
    refine exists_sorted_iff.2 (List.pairwise_of_forall_mem_list fun p hp q hq => ?_)
    obtain ⟨hpm, hps⟩ := hall p hp
    obtain ⟨hqm, hqs⟩ := hall q hq
    exact ⟨isSome_ranking hpm hqm hps.id hqs.id, isSome_ranking hqm hpm hqs.id hps.id⟩
  -- The order only rearranges what was found.
  refine ⟨answer, ?_, fun p hp => hall p ((perm_of_sorted hanswer).mem_iff.1 hp)⟩
  rw [Store.query, hfound, Except.ok_bind, hranked, Except.ok_bind, hanswer]

/-! ### Numbers about a store -/

theorem exists_average {confidences : List Value} (h : ∀ c ∈ confidences, ∃ x, c = .real x) :
    ∃ x, average confidences = .ok x := by
  unfold average
  split
  · exact ⟨_, rfl⟩
  · rename_i hsome
    obtain ⟨x, hx⟩ := Value.exists_total_real h (by simpa using hsome)
    rw [hx]
    exact ⟨_, rfl⟩

/-- The numbers about a store can be told. -/
theorem exists_stats (spell : Label → String) (hmeasured : s.Every Measured)
    (hserves : s.Every Serviceable) : ∃ numbers, s.stats spell = .ok numbers := by
  have hpatterns : ∀ p ∈ s.patterns.map (·.2), p.Measured ∧ p.Serviceable :=
    List.forall_mem_map.2 fun entry hentry => ⟨hmeasured entry hentry, hserves entry hentry⟩
  have hactive : ∀ p ∈ (s.patterns.map (·.2)).filter fun p => !p.isRetired,
      p.Measured ∧ p.Serviceable := fun p hp => hpatterns p (List.mem_filter.1 hp).1
  -- Each of the four numbers and tables that can fail is told by itself.
  obtain ⟨mean, hmean⟩ : ∃ mean, average
      (((s.patterns.map (·.2)).filter fun p => !p.isRetired).map (·.confidence)) = .ok mean := by
    refine exists_average (List.forall_mem_map.2 fun p hp => ?_)
    obtain ⟨x, hx, _⟩ := (hactive p hp).1.confidence
    exact ⟨x, hx⟩
  obtain ⟨sightings, hsightings⟩ :
      ∃ n, total ((s.patterns.map (·.2)).map (·.frequency)) = .ok (.int n) :=
    Value.exists_total_int (List.forall_mem_map.2 fun p hp => (hpatterns p hp).1.frequency)
  obtain ⟨languages, hlanguages⟩ : ∃ document, sortedCounts spell (tallyLabels
      (((s.patterns.map (·.2)).filter fun p => !p.isRetired).map (·.language))) = .ok document :=
    exists_sortedCounts (texts_tallyLabels (List.forall_mem_map.2 fun p hp =>
      (hactive p hp).2.language))
  obtain ⟨kinds, hkinds⟩ : ∃ document, sortedCounts spell (tallyLabels
      (((s.patterns.map (·.2)).filter fun p => !p.isRetired).map fun p => .text p.kind.name))
        = .ok document :=
    exists_sortedCounts (texts_tallyLabels (List.forall_mem_map.2 fun p _ => ⟨_, rfl⟩))
  unfold stats
  dsimp only
  rw [hmean, Except.ok_bind, hsightings, Except.ok_bind, hlanguages, Except.ok_bind, hkinds]
  exact ⟨_, rfl⟩

end Store

end CodeHabits
