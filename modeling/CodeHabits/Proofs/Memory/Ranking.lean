import CodeHabits.Proofs.Memory.Telling
import CodeHabits.Proofs.Store.Invariants
import CodeHabits.Proofs.Value.Order
import CodeHabits.Proofs.Value.Place

/-!
# `CodeHabits.Proofs.Memory.Ranking`: the one ranking that suggestions come from

Whatever the limit of a wish is, its answer begins one ranking. `Ranked` says what is in this
ranking and in which order: the live patterns of the language, of the recent kinds, whose
score reaches the threshold, each standing where `Scored.place` puts it. No two patterns
stand in the same place, since the id decides in the end, so there is one such list at most
(`Ranked.unique`), and it is found for every memory of the data model in which what is
sought has a score (`exists_ranked`).

From this come laws about two wishes or two memories. A higher threshold gives a ranking that
begins the other one (`Ranked.isPrefix_of_threshold`), and it does not matter in which order
patterns were stored (`Ranked.of_perm`).
-/

set_option autoImplicit false

namespace CodeHabits

open OrderDual (toDual)

/-- Where a suggestion stands: the greater score goes first, then the greater frequency, the
later sighting and the lesser id. -/
def Scored.place (s : Scored Value) : Placeᵒᵈ ×ₗ Placeᵒᵈ ×ₗ Ratᵒᵈ ×ₗ String :=
  toLex (toDual s.score.place,
    toLex (toDual s.pattern.frequency.place,
      toLex (toDual s.pattern.lastSeen.epochKey, s.pattern.id.textOf)))

/-- What stands before something has no lesser score. -/
theorem Scored.score_le_of_place_lt {s t : Scored Value} (h : s.place < t.place) :
    t.score.place ≤ s.score.place := by
  rcases Prod.Lex.toLex_lt_toLex.1 h with hless | ⟨hequal, _⟩
  · exact (OrderDual.toDual_lt_toDual.1 hless).le
  · exact (OrderDual.toDual_inj.1 hequal).ge

/-- Two suggestions with different texts for ids do not stand in the same place. -/
theorem Scored.textOf_of_place {s t : Scored Value} (h : s.place = t.place) :
    s.pattern.id.textOf = t.pattern.id.textOf := by
  have hrest := congrArg (fun place => (ofLex (ofLex (ofLex place).2).2).2) h
  exact hrest

namespace Memory

variable {m n : Memory Value} {rules : Learning Value} {language : String}
  {recent : List String} {threshold higher : Value} {all others : List (Scored Value)}
  {s t : Scored Value}

/-! ### What is sought and ranked -/

/-- The kind is one of the recent ones, or none are recent. -/
def IsRecent (m : Memory Value) (recent : List String) (kind : PatternKind) : Prop :=
  (∀ reference ∈ recent, m.recentKind? reference = none) ∨
    ∃ reference ∈ recent, m.recentKind? reference = some kind

/-- A pattern that suggestions are made of, whatever its score. -/
structure Sought (m : Memory Value) (language : String) (recent : List String)
    (p : Pattern Value) : Prop where
  stored : p ∈ m.store.patterns.map (·.2)
  live : p.isRetired = false
  language : p.language = .text language
  recent : m.IsRecent recent p.kind

/-- A pattern that is sought, with a score that reaches the threshold. -/
structure Wanted (rules : Learning Value) (m : Memory Value) (language : String)
    (recent : List String) (threshold : Value) (s : Scored Value) : Prop where
  sought : m.Sought language recent s.pattern
  score : Memory.score rules m.preferences s.pattern = .ok s.score
  reaches : Magnitude.le threshold s.score = .ok true

/-- Everything that is wanted, in order. -/
structure Ranked (rules : Learning Value) (m : Memory Value) (language : String)
    (recent : List String) (threshold : Value) (all : List (Scored Value)) : Prop where
  mem_iff : ∀ s, s ∈ all ↔ Wanted rules m language recent threshold s
  order : all.Pairwise fun s t => s.place < t.place

/-- There is one ranking at most. -/
theorem Ranked.unique (h : Ranked rules m language recent threshold all)
    (k : Ranked rules m language recent threshold others) : others = all := by
  have hperm : others.Perm all := by
    have hnodup : ∀ {ranking : List (Scored Value)},
        (ranking.Pairwise fun s t => s.place < t.place) → ranking.Nodup := by
      intro ranking horder
      apply horder.imp
      intro s t hst hequal
      rw [hequal] at hst
      exact lt_irrefl _ hst
    rw [List.perm_ext_iff_of_nodup (hnodup k.order) (hnodup h.order)]
    intro s
    rw [k.mem_iff, h.mem_iff]
  exact hperm.eq_of_pairwise (fun s t _ _ hst hts => absurd hst (lt_asymm hts)) k.order h.order

/-- A memory of the data model in which what is sought has a score. -/
structure Rankable (rules : Learning Value) (m : Memory Value) (language : String)
    (recent : List String) : Prop where
  keyed : m.store.Keyed
  distinct : Table.Distinct m.store.patterns
  measured : m.store.Every Pattern.Measured
  serviceable : m.store.Every Pattern.Serviceable
  scores : ∀ p, m.Sought language recent p →
    ∃ x, Memory.score rules m.preferences p = .ok (.real x)

/-! ### Finding the ranking -/

theorem isRecent_iff {kind : PatternKind} :
    ((recent.filterMap m.recentKind?).isEmpty
        || (recent.filterMap m.recentKind?).contains kind) = true
      ↔ m.IsRecent recent kind := by
  rw [Bool.or_eq_true, List.isEmpty_iff, List.filterMap_eq_nil_iff, List.contains_iff_mem,
    List.mem_filterMap]
  rfl

/-- The patterns that are looked at are those that are sought. -/
theorem mem_filter_iff_sought (hserves : m.store.Every Pattern.Serviceable)
    {patterns : List (Pattern Value)}
    (h : m.store.query { Store.Query.live with language? := some (.text language) }
      = .ok patterns) (p : Pattern Value) :
    (p ∈ patterns.filter fun p => (recent.filterMap m.recentKind?).isEmpty
        || (recent.filterMap m.recentKind?).contains p.kind) ↔ m.Sought language recent p := by
  rw [List.mem_filter, isRecent_iff, (Store.perm_of_query rfl h).mem_iff, List.mem_filter]
  -- Of the query, the language and whether patterns are live is left.
  have hwants : p ∈ m.store.patterns.map (·.2) →
      (Store.Query.wants { Store.Query.live with language? := some (.text language) } p = true
        ↔ p.isRetired = false ∧ p.language = .text language) := by
    intro hmem
    obtain ⟨entry, hentry, rfl⟩ := List.mem_map.1 hmem
    obtain ⟨name, hname⟩ := (hserves entry hentry).language
    have hsame : (Label.text name).value.same (.text language) = (name == language) := by
      rw [Value.same_of_label? rfl]
      exact Label.text_beq_text
    simp only [Store.Query.wants, Store.Query.live, Option.all_some, Option.all_none, hname, hsame]
    cases entry.2.isRetired with
    | true => simp
    | false => simp
  constructor
  · rintro ⟨⟨hstored, hasked⟩, hrecent⟩
    obtain ⟨hlive, hlanguage⟩ := (hwants hstored).1 hasked
    exact ⟨hstored, hlive, hlanguage, hrecent⟩
  · intro hsought
    have hasked := (hwants hsought.stored).2 ⟨hsought.live, hsought.language⟩
    exact ⟨⟨hsought.stored, hasked⟩, hsought.recent⟩

/-- What is wanted can be told about, and its score stands on the line. -/
theorem Rankable.of_wanted (h : Rankable rules m language recent)
    (hthreshold : threshold.number?.isSome)
    (hs : Wanted rules m language recent threshold s) : Suggestible s ∧ s.score.OnLine := by
  obtain ⟨entry, hmem, hentry⟩ := List.mem_map.1 hs.sought.stored
  obtain ⟨x, hx⟩ := h.scores s.pattern hs.sought
  have hreal : s.score = .real x := by
    have hscore := hs.score
    rw [hx] at hscore
    exact (Except.ok.inj hscore).symm
  have hnumber : s.score.number?.isSome := by
    rw [hreal]
    rfl
  constructor
  · refine ⟨⟨x, hreal⟩, ?_, ?_⟩
    · rw [← hentry]
      exact h.measured entry hmem
    · rw [← hentry]
      exact h.serviceable entry hmem
  · -- What reaches the threshold can be compared with it.
    exact (Value.onLine_of_le hthreshold hnumber hs.reaches).2

/-- What is wanted is ordered by its places. -/
theorem Rankable.follows (h : Rankable rules m language recent)
    (hthreshold : threshold.number?.isSome)
    (hs : Wanted rules m language recent threshold s)
    (ht : Wanted rules m language recent threshold t) :
    suggestionOrder.Follows Scored.place s t := by
  obtain ⟨hs, hsline⟩ := h.of_wanted hthreshold hs
  obtain ⟨ht, htline⟩ := h.of_wanted hthreshold ht
  have hfrequency : ∀ s, Suggestible s → s.pattern.frequency.OnLine := by
    intro s hs
    obtain ⟨n, hn⟩ := hs.measured.frequency
    rw [hn]
    exact ⟨.int n, rfl, trivial⟩
  apply Precedence.Follows.greaterFirst (htline.compares hsline)
  apply Precedence.Follows.greaterFirst ((hfrequency t ht).compares (hfrequency s hs))
  apply Precedence.Follows.greaterFirst (Rat.compares _ _)
  exact Label.follows_textOf hs.serviceable.id ht.serviceable.id

/-- Different patterns of a store have different texts for ids. -/
theorem Rankable.nodup_ids (h : Rankable rules m language recent) :
    ((m.store.patterns.map (·.2)).map fun p => p.id.textOf).Nodup := by
  rw [List.map_map]
  show (List.map _ _).Pairwise (· ≠ ·)
  rw [List.pairwise_map]
  apply h.distinct.imp_of_mem
  intro a b ha hb hdifferent hequal
  obtain ⟨i, hi⟩ := (h.serviceable a ha).id
  obtain ⟨j, hj⟩ := (h.serviceable b hb).id
  have hsame : i = j := by
    have htexts : a.2.id.textOf = b.2.id.textOf := hequal
    rw [hi, hj] at htexts
    exact htexts
  rw [h.keyed a ha, h.keyed b hb, hi, hj, Label.text_beq_text, hsame, beq_self_eq_true]
    at hdifferent
  cases hdifferent

/-- So have the patterns that a query is answered with, and any part of these. -/
theorem Rankable.nodup_found (h : Rankable rules m language recent) {asked : Store.Query Value}
    {patterns : List (Pattern Value)} {found : List (Scored Value)}
    (hany : asked.atLeast? = none) (hpatterns : m.store.query asked = .ok patterns)
    (hfound : (found.map (·.pattern)).Sublist patterns) :
    (found.map fun s => s.pattern.id.textOf).Nodup := by
  have hids : (patterns.map fun p => p.id.textOf).Nodup := by
    rw [((Store.perm_of_query hany hpatterns).map _).nodup_iff]
    exact h.nodup_ids.sublist (List.filter_sublist.map _)
  have hfoundids : ((found.map (·.pattern)).map fun p => p.id.textOf).Nodup :=
    hids.sublist (hfound.map _)
  rw [List.map_map] at hfoundids
  exact hfoundids

/-- There is a ranking, and it is what is found, whatever the limit is. -/
theorem exists_ranked (h : Rankable rules m language recent)
    (hthreshold : threshold.number?.isSome) :
    ∃ all, (∀ limit, candidates rules m ⟨language, recent, limit, threshold⟩ = .ok all) ∧
      Ranked rules m language recent threshold all ∧ ∀ s ∈ all, Suggestible s := by
  obtain ⟨patterns, hpatterns, _⟩ := Store.exists_query
    { Store.Query.live with language? := some (.text language) } rfl h.measured h.serviceable
  have hsought (p : Pattern Value) :
      (p ∈ patterns.filter fun p => (recent.filterMap m.recentKind?).isEmpty
        || (recent.filterMap m.recentKind?).contains p.kind)
          ↔ m.Sought language recent p := mem_filter_iff_sought h.serviceable hpatterns p
  obtain ⟨found, hfound, hsublist, hmem⟩ := exists_reaching hthreshold
    fun p hp => h.scores p ((hsought p).1 hp)
  have hwanted : ∀ s, s ∈ found ↔ Wanted rules m language recent threshold s := by
    intro s
    rw [hmem, hsought]
    constructor
    · rintro ⟨hsought, hscore, hreaches⟩
      exact ⟨hsought, hscore, hreaches⟩
    · intro h
      exact ⟨h.sought, h.score, h.reaches⟩
  have hsuggestible : ∀ s ∈ found, Suggestible s := by
    intro s hs
    exact (h.of_wanted hthreshold ((hwanted s).1 hs)).1
  have hfollows : ∀ s ∈ found, ∀ t ∈ found, suggestionOrder.Follows Scored.place s t := by
    intro s hs t ht
    exact h.follows hthreshold ((hwanted s).1 hs) ((hwanted t).1 ht)
  obtain ⟨all, hsorted, hperm, horder⟩ := sorted_of_follows hfollows
  -- Ids tell patterns apart, so none of two stands where the other one does.
  have hnodup : (all.map fun s => s.pattern.id.textOf).Nodup := by
    rw [(hperm.map fun s => s.pattern.id.textOf).nodup_iff]
    exact h.nodup_found rfl hpatterns (hsublist.trans List.filter_sublist)
  have hstrict : all.Pairwise fun s t => s.place < t.place := by
    apply (horder.and (List.pairwise_map.1 hnodup)).imp
    rintro s t ⟨hle, hne⟩
    exact lt_of_le_of_ne hle fun hequal => hne (Scored.textOf_of_place hequal)
  have hanswer (limit : Value) :
      candidates rules m ⟨language, recent, limit, threshold⟩ = .ok all := by
    unfold candidates
    dsimp only
    rw [hpatterns, Except.ok_bind, hfound, Except.ok_bind, negated_eq_ok hsuggestible,
      Except.ok_bind, hsorted]
  refine ⟨all, hanswer, ⟨?_, hstrict⟩, ?_⟩
  · intro s
    rw [hperm.mem_iff, hwanted]
  · intro s hs
    exact hsuggestible s (hperm.mem_iff.1 hs)

/-- If everything stored is sought, then what reaches the threshold is the ranking, as soon as
it is in order. -/
theorem ranked_of_reaching (h : Rankable rules m language recent)
    (hthreshold : threshold.number?.isSome)
    (hsought : ∀ p ∈ m.store.patterns.map (·.2), m.Sought language recent p)
    (hall : reaching rules m.preferences threshold (m.store.patterns.map (·.2)) = .ok all)
    (horder : all.Pairwise fun s t => suggestionOrder s t = some true) :
    Ranked rules m language recent threshold all := by
  obtain ⟨found, hfound, _, hmem⟩ := exists_reaching hthreshold
    fun p hp => h.scores p (hsought p hp)
  rw [hall] at hfound
  cases hfound
  have hwanted : ∀ s, s ∈ all ↔ Wanted rules m language recent threshold s := by
    intro s
    rw [hmem]
    constructor
    · rintro ⟨hstored, hscore, hreaches⟩
      exact ⟨hsought s.pattern hstored, hscore, hreaches⟩
    · intro h
      exact ⟨h.sought.stored, h.score, h.reaches⟩
  refine ⟨hwanted, horder.imp_of_mem ?_⟩
  intro s t hs ht hfirst
  obtain ⟨first, hanswer, hplace⟩ := h.follows hthreshold ((hwanted s).1 hs) ((hwanted t).1 ht)
  rw [hfirst] at hanswer
  exact hplace.1 (Option.some.inj hanswer).symm

/-- The answer to a wish begins the ranking. -/
theorem suggest_eq_take {w : Wish Value} (h : candidates rules m w = .ok all) {n : Int}
    (hlimit : w.limit.number? = some (.int n)) : suggest rules m w = .ok (all.take n.toNat) := by
  have hle : Magnitude.le w.limit (.int 0) = .ok (decide (n ≤ 0)) := by
    rw [Value.le_of_numbers hlimit (b := .int 0) rfl]
    rfl
  rw [suggest, hle, Except.ok_bind]
  by_cases hnone : n ≤ 0
  · rw [if_pos (decide_eq_true hnone), Int.toNat_of_nonpos hnone]
    rfl
  · rw [if_neg (by simpa using hnone), h, Except.ok_bind]
    cases hvalue : w.limit with
    | int k =>
      rw [hvalue] at hlimit
      cases hlimit
      rfl
    | bool b =>
      rw [hvalue] at hlimit
      cases b with
      | true =>
        cases hlimit
        rfl
      | false =>
        cases hlimit
        exact absurd le_rfl hnone
    | _ =>
      rw [hvalue] at hlimit
      cases hlimit

/-- An answer only depends on what is found. -/
theorem suggest_congr {w : Wish Value} (h : candidates rules n w = candidates rules m w) :
    suggest rules n w = suggest rules m w := by
  rw [suggest, suggest, h]

/-! ### Two rankings -/

/-- The ranking for a higher threshold begins the one for a lower threshold. -/
theorem Ranked.isPrefix_of_threshold (hrankable : Rankable rules m language recent)
    (hthreshold : threshold.number?.isSome) (hhigher : higher.number?.isSome)
    (hle : Magnitude.le threshold higher = .ok true)
    (h : Ranked rules m language recent threshold all)
    (k : Ranked rules m language recent higher others) : others <+: all := by
  obtain ⟨hlow, hhigh⟩ := Value.onLine_of_le hthreshold hhigher hle
  apply isPrefix_of_closed k.order h.order
  · intro s hs
    have hwanted := (k.mem_iff s).1 hs
    obtain ⟨_, hline⟩ := hrankable.of_wanted hhigher hwanted
    -- The threshold is below the higher one, which is below the score.
    have hreaches : threshold.place ≤ s.score.place :=
      ((hlow.le_iff hhigh).1 hle).trans ((hhigh.le_iff hline).1 hwanted.reaches)
    exact (h.mem_iff s).2 ⟨hwanted.sought, hwanted.score, (hlow.le_iff hline).2 hreaches⟩
  · intro s hs t ht hbefore
    have hwanted := (k.mem_iff s).1 hs
    have hother := (h.mem_iff t).1 ht
    obtain ⟨_, hline⟩ := hrankable.of_wanted hhigher hwanted
    obtain ⟨_, hotherline⟩ := hrankable.of_wanted hthreshold hother
    -- What ranks before something that reaches the higher threshold reaches it as well.
    have hreaches : higher.place ≤ t.score.place :=
      ((hhigh.le_iff hline).1 hwanted.reaches).trans (Scored.score_le_of_place_lt hbefore)
    exact (k.mem_iff t).2 ⟨hother.sought, hother.score, (hhigh.le_iff hotherline).2 hreaches⟩

/-- Two memories that know the same, whatever order their patterns were stored in. -/
structure Rearranged (m n : Memory Value) : Prop where
  patterns : n.store.patterns.Perm m.store.patterns
  preferences : n.preferences = m.preferences

theorem Rearranged.sought_iff (h : Rearranged m n) (hdistinct : Table.Distinct m.store.patterns)
    (p : Pattern Value) : n.Sought language recent p ↔ m.Sought language recent p := by
  have hkinds : n.recentKind? = m.recentKind? := by
    funext reference
    have hget : m.store.get? (.text reference) = n.store.get? (.text reference) :=
      Table.get?_perm h.patterns.symm hdistinct _
    rw [recentKind?, recentKind?, hget]
  have hstored : p ∈ n.store.patterns.map (·.2) ↔ p ∈ m.store.patterns.map (·.2) :=
    (h.patterns.map _).mem_iff
  constructor
  · rintro ⟨hmem, hlive, hlanguage, hrecent⟩
    rw [IsRecent, hkinds] at hrecent
    exact ⟨hstored.1 hmem, hlive, hlanguage, hrecent⟩
  · rintro ⟨hmem, hlive, hlanguage, hrecent⟩
    rw [IsRecent, ← hkinds] at hrecent
    exact ⟨hstored.2 hmem, hlive, hlanguage, hrecent⟩

theorem Rearranged.rankable (h : Rearranged m n) (hm : Rankable rules m language recent) :
    Rankable rules n language recent where
  keyed := fun entry hmem => hm.keyed entry (h.patterns.mem_iff.1 hmem)
  distinct := hm.distinct.perm h.patterns
  measured := fun entry hmem => hm.measured entry (h.patterns.mem_iff.1 hmem)
  serviceable := fun entry hmem => hm.serviceable entry (h.patterns.mem_iff.1 hmem)
  scores := by
    intro p hp
    rw [h.preferences]
    exact hm.scores p ((h.sought_iff hm.distinct p).1 hp)

/-- Memories that know the same have the same ranking. -/
theorem Rearranged.ranked (h : Rearranged m n) (hm : Rankable rules m language recent)
    (hall : Ranked rules m language recent threshold all) :
    Ranked rules n language recent threshold all where
  order := hall.order
  mem_iff := by
    intro s
    rw [hall.mem_iff]
    constructor
    · rintro ⟨hsought, hscore, hreaches⟩
      refine ⟨(h.sought_iff hm.distinct _).2 hsought, ?_, hreaches⟩
      rw [h.preferences]
      exact hscore
    · rintro ⟨hsought, hscore, hreaches⟩
      rw [h.preferences] at hscore
      exact ⟨(h.sought_iff hm.distinct _).1 hsought, hscore, hreaches⟩

end Memory

end CodeHabits
