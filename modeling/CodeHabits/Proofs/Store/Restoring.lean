import CodeHabits.Proofs.Store.Coherence

/-!
# `CodeHabits.Proofs.Store.Restoring`: the store that records describe

A store is rebuilt record by record: each is decoded, its parts become labels,
its confidence is forced into the unit interval, and it is taken in if its id
and its name are new. `ofRecords_eq_ok_iff` says what this comes to: the records
have to describe patterns, one each, whose ids are pairwise different and whose
names are, and the result is the store of these patterns in the order of the
records.

The patterns of a coherent store fulfil this, so a coherent store is the one
that its own patterns describe (`Coherent.eq_ofPatterns`).
-/

set_option autoImplicit false

namespace CodeHabits

variable {ν : Type}

/-- The pattern that a draft is, if all that names it is a label and its
confidence is a number. -/
def Draft.pattern [Magnitude ν] (d : Draft ν) : Except Fault (Pattern ν) := do
  let id ← d.id.toLabel
  let language ← d.language.toLabel
  let signature ← d.signature.toLabel
  return { d.known with id, language, signature, confidence := ← clampConfidence d.known.confidence }

theorem Value.toLabel_eq_ok {value : Value} {label : Label} :
    value.toLabel = .ok label ↔ value = label.value := by
  constructor
  · intro h
    cases value <;> cases h <;> rfl
  · rintro rfl
    rw [toLabel, label?_value]

/-- The id of a draft is that of its pattern. -/
theorem Draft.id_of_pattern [Magnitude ν] {d : Draft ν} {p : Pattern ν} (h : d.pattern = .ok p) :
    d.id = p.id.value := by
  obtain ⟨id, hid, h⟩ := Except.bind_eq_ok.1 h
  obtain ⟨language, _, h⟩ := Except.bind_eq_ok.1 h
  obtain ⟨signature, _, h⟩ := Except.bind_eq_ok.1 h
  obtain ⟨confidence, _, h⟩ := Except.bind_eq_ok.1 h
  cases h
  exact Value.toLabel_eq_ok.1 hid

/-- A label is the null label only if it is null. -/
theorem Label.beq_null_iff {label : Label} : (label == .null) = true ↔ label = .null := by
  rw [Label.beq_iff]
  cases label <;> simp [Label.key, Key.ofReal]
  split <;> simp

namespace Store

/-- No two of several patterns have the same id or the same name. -/
structure Separate (ps : List (Pattern ν)) : Prop where
  ids : ps.Pairwise fun p q => (p.id == q.id) = false
  names : ps.Pairwise fun p q => (p.name == q.name) = false

/-- The store of several patterns, in their order. -/
def ofPatterns (m : Smoothing ν) (ps : List (Pattern ν)) : Store ν :=
  ⟨m, ps.map fun p => (p.id, p), ps.map fun p => (p.name, p.id)⟩

theorem coherent_ofPatterns {m : Smoothing ν} {ps : List (Pattern ν)} (h : Separate ps)
    (hknown : ∀ p ∈ ps, (p.id == .null) = false) : (ofPatterns m ps).Coherent where
  keyed := by simp [ofPatterns]
  ids := List.pairwise_map.2 h.ids
  names := List.pairwise_map.2 h.names
  indexed := by simp [ofPatterns]
  known := by simpa [ofPatterns] using hknown

/-- A coherent store is the one of its patterns. -/
theorem Coherent.eq_ofPatterns {s : Store ν} (h : s.Coherent) :
    s = ofPatterns s.smoothing (s.patterns.map (·.2)) := by
  have hpatterns : (s.patterns.map (·.2)).map (fun p => (p.id, p)) = s.patterns := by
    rw [List.map_map]
    refine (List.map_congr_left fun entry hmem => ?_).trans (List.map_id _)
    show (entry.2.id, entry.2) = entry
    rw [← h.keyed entry hmem]
  have hindex : (s.patterns.map (·.2)).map (fun p => (p.name, p.id)) = s.index := by
    rw [h.indexed, List.map_map]
    rfl
  rw [ofPatterns, hpatterns, hindex]

theorem Coherent.separate {s : Store ν} (h : s.Coherent) : Separate (s.patterns.map (·.2)) where
  ids := by
    rw [List.pairwise_map]
    refine h.ids.imp_of_mem fun {a b} ha hb hab => ?_
    rw [← h.keyed a ha, ← h.keyed b hb]
    exact hab
  names := List.pairwise_map.2 h.names

/-- A pattern that is separate from those of a store is taken in behind them. -/
theorem insert_ofPatterns {m : Smoothing ν} {ps : List (Pattern ν)} {p : Pattern ν}
    (hid : (ofPatterns m ps).has p.id = false) (hname : (ofPatterns m ps).index.has p.name = false) :
    (ofPatterns m ps).insert p = ofPatterns m (ps ++ [p]) := by
  rw [insert_eq hid hname]
  simp [ofPatterns]

/-- What it takes for one more pattern to be separate from others. -/
theorem separate_append_singleton {m : Smoothing ν} {ps : List (Pattern ν)} {p : Pattern ν}
    (h : Separate ps) :
    Separate (ps ++ [p]) ↔
      (ofPatterns m ps).has p.id = false ∧ (ofPatterns m ps).index.has p.name = false := by
  have hids : (ofPatterns m ps).has p.id = false ↔ ∀ q ∈ ps, (q.id == p.id) = false := by
    rw [has, Table.has_eq_false_iff, ofPatterns, List.forall_mem_map]
  have hnames : (ofPatterns m ps).index.has p.name = false ↔
      ∀ q ∈ ps, (q.name == p.name) = false := by
    rw [Table.has_eq_false_iff, ofPatterns, List.forall_mem_map]
  rw [hids, hnames]
  constructor
  · intro hall
    have hid := (List.pairwise_append.1 hall.ids).2.2
    have hname := (List.pairwise_append.1 hall.names).2.2
    exact ⟨fun q hq => hid q hq p (by simp), fun q hq => hname q hq p (by simp)⟩
  · rintro ⟨hid, hname⟩
    constructor
    · refine List.pairwise_append.2 ⟨h.ids, by simp, fun q hq r hr => ?_⟩
      rw [List.mem_singleton.1 hr]
      exact hid q hq
    · refine List.pairwise_append.2 ⟨h.names, by simp, fun q hq r hr => ?_⟩
      rw [List.mem_singleton.1 hr]
      exact hname q hq

theorem Separate.of_append {ps qs : List (Pattern ν)} (h : Separate (ps ++ qs)) : Separate ps :=
  ⟨(List.pairwise_append.1 h.ids).1, (List.pairwise_append.1 h.names).1⟩

section

variable [Magnitude ν]

/-- A draft is taken in when it is a pattern whose id and name are both new. -/
theorem add_eq_ok {s t : Store ν} {d : Draft ν} :
    s.add d = .ok t ↔
      ∃ p, d.pattern = .ok p ∧ s.has p.id = false ∧ s.index.has p.name = false ∧
        t = s.insert p := by
  unfold add Draft.pattern
  constructor
  · intro h
    obtain ⟨id, hid, h⟩ := Except.bind_eq_ok.1 h
    cases hused : s.has id with
    | true => simp [hused] at h
    | false =>
      simp only [hused] at h
      obtain ⟨language, hlanguage, h⟩ := Except.bind_eq_ok.1 h
      obtain ⟨signature, hsignature, h⟩ := Except.bind_eq_ok.1 h
      cases hnamed : s.index.has (language, signature) with
      | true => simp [hnamed] at h
      | false =>
        simp only [hnamed] at h
        obtain ⟨confidence, hconfidence, h⟩ := Except.bind_eq_ok.1 h
        cases h
        refine ⟨{ d.known with id, language, signature, confidence }, ?_, hused, hnamed, rfl⟩
        simp [hid, hlanguage, hsignature, hconfidence]
  · rintro ⟨p, hp, hused, hnamed, rfl⟩
    obtain ⟨id, hid, hp⟩ := Except.bind_eq_ok.1 hp
    obtain ⟨language, hlanguage, hp⟩ := Except.bind_eq_ok.1 hp
    obtain ⟨signature, hsignature, hp⟩ := Except.bind_eq_ok.1 hp
    obtain ⟨confidence, hconfidence, hp⟩ := Except.bind_eq_ok.1 hp
    cases hp
    have hnamed' : s.index.has (language, signature) = false := hnamed
    simp [hid, hused, hlanguage, hsignature, hnamed', hconfidence]

/-! ### Several records -/

variable {α : Type} {decode : α → Except Fault (Draft ν)}

/-- The pattern that a record describes. -/
def patternOf (decode : α → Except Fault (Draft ν)) (record : α) : Except Fault (Pattern ν) := do
  (← (decode record).mapError malformed).pattern

/-- One record after the other, from a store that some patterns make up. -/
theorem foldlM_add_eq_ok {m : Smoothing ν} {records : List α} (before : List (Pattern ν))
    {s : Store ν} (hbefore : Separate before) :
    records.foldlM (fun s record => do s.add (← (decode record).mapError malformed))
        (ofPatterns m before) = .ok s ↔
      ∃ ps, records.mapM (patternOf decode) = .ok ps ∧ Separate (before ++ ps) ∧
        s = ofPatterns m (before ++ ps) := by
  induction records generalizing before with
  | nil =>
    rw [List.foldlM_nil, List.mapM_nil]
    constructor
    · intro h
      cases h
      exact ⟨[], rfl, by simpa using hbefore, by simp⟩
    · rintro ⟨ps, hps, _, rfl⟩
      cases hps
      simp
  | cons record rest ih =>
    rw [List.foldlM_cons, List.mapM_cons]
    constructor
    · intro h
      obtain ⟨t, ht, hrest⟩ := Except.bind_eq_ok.1 h
      obtain ⟨d, hd, hadd⟩ := Except.bind_eq_ok.1 ht
      obtain ⟨p, hp, hid, hname, rfl⟩ := add_eq_ok.1 hadd
      rw [insert_ofPatterns hid hname,
        ih _ ((separate_append_singleton hbefore).2 ⟨hid, hname⟩)] at hrest
      obtain ⟨ps, hps, hall, rfl⟩ := hrest
      refine ⟨p :: ps, ?_, by simpa using hall, by simp⟩
      simp [patternOf, hd, hp, hps]
    · rintro ⟨ps, hps, hall, rfl⟩
      obtain ⟨p, hp, hps⟩ := Except.bind_eq_ok.1 hps
      obtain ⟨qs, hqs, hps⟩ := Except.bind_eq_ok.1 hps
      cases hps
      obtain ⟨d, hd, hp⟩ := Except.bind_eq_ok.1 hp
      have hall' : Separate ((before ++ [p]) ++ qs) := by simpa using hall
      obtain ⟨hid, hname⟩ := (separate_append_singleton (m := m) hbefore).1 hall'.of_append
      have hadd : (ofPatterns m before).add d = .ok (ofPatterns m (before ++ [p])) :=
        add_eq_ok.2 ⟨p, hp, hid, hname, (insert_ofPatterns hid hname).symm⟩
      rw [hd, Except.ok_bind, hadd, Except.ok_bind, ih _ hall'.of_append]
      exact ⟨qs, hqs, hall', by simp⟩

/-- Records describe a store exactly when each describes a pattern and these
are separate. -/
theorem ofRecords_eq_ok_iff {m : Smoothing ν} {records : List α} {s : Store ν} :
    ofRecords decode m records = .ok s ↔
      ∃ ps, records.mapM (patternOf decode) = .ok ps ∧ Separate ps ∧ s = ofPatterns m ps :=
  foldlM_add_eq_ok [] ⟨.nil, .nil⟩

/-- A store that records describe is coherent, if none of them has a null id. -/
theorem coherent_ofRecords {m : Smoothing ν} {records : List α} {s : Store ν}
    (hknown : ∀ record ∈ records, ∀ d, decode record = .ok d → d.id ≠ .null)
    (h : ofRecords decode m records = .ok s) : s.Coherent := by
  obtain ⟨ps, hps, hseparate, rfl⟩ := ofRecords_eq_ok_iff.1 h
  refine coherent_ofPatterns hseparate fun p hp => ?_
  -- Every pattern comes from a record with its id.
  obtain ⟨record, hmem, hrecord⟩ : ∃ record ∈ records, patternOf decode record = .ok p :=
    Except.exists_mem_of_mapM hps hp
  obtain ⟨d, hd, hpattern⟩ := Except.bind_eq_ok.1 hrecord
  have hid := hknown record hmem d (Except.mapError_eq_ok.1 hd)
  rw [Draft.id_of_pattern hpattern] at hid
  rw [← Bool.not_eq_true, Label.beq_null_iff]
  rintro hnull
  rw [hnull] at hid
  exact hid rfl

end

end Store

end CodeHabits
