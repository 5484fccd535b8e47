import CodeHabits.Proofs.Magnitude
import CodeHabits.Proofs.Memory.Restoring
import CodeHabits.Proofs.Pattern.Written

/-!
# `CodeHabits.Proofs.Snapshot.Escaping`: faults of a snapshot that are no corruption

What is wrong with a snapshot is a corruption, and whoever loads a snapshot
relies on that. Two kinds of values lead to another fault. A number may be too
large: a weight or a confidence that is a whole number beyond the
floating-point numbers, or a frequency that is infinite. And a pattern may be
named by a list or an object, which is found out after the record was decoded.

`WeightTooLarge`, `NumberTooLarge` and `Unnamable` say which values these are,
and `Escapes` where in a snapshot they have to stand: what comes before them
has to be in order. `ofSnapshot_stray_iff` says that nothing else makes the
rebuilding of a memory fail with anything but a corruption.
-/

set_option autoImplicit false

namespace CodeHabits

/-! ### Numbers that are too large -/

namespace Value

/-- A whole number too large for a floating-point number. -/
def TooLarge (value : Value) : Prop :=
  ∃ n, value = .int n ∧ (Number.int n).toReal? = none

/-- A floating-point number without an end. -/
def Endless (value : Value) : Prop :=
  ∃ x negative, value = .real x ∧ Binary64.decode x = .infinite negative

theorem toReal_eq_overflow {value : Value} : value.toReal = .error .overflow ↔ value.TooLarge := by
  cases value with
  | int n =>
    simp only [toReal, TooLarge]
    cases hn : (Number.int n).toReal? with
    | none => simp [hn]
    | some x => simp [hn]
  | text s =>
    simp only [toReal, TooLarge]
    cases Decimal.readFloat? s <;> simp
  | _ => simp [toReal, TooLarge]

theorem toWhole_eq_overflow {value : Value} : value.toWhole = .error .overflow ↔ value.Endless := by
  cases value with
  | real x =>
    simp only [toWhole, Endless]
    cases hx : Binary64.decode x <;> simp [hx]
  | text s =>
    simp only [toWhole, Endless]
    cases Decimal.readInt? s <;> simp
  | _ => simp [toWhole, Endless]

/-! ### Readers that never meet such a number -/

theorem needMember_ne_overflow {value : Value} {name : String} :
    value.needMember name ≠ .error .overflow := by
  cases value with
  | object members =>
    simp only [needMember]
    cases Table.get? members name <;> simp
  | _ => simp [needMember]

theorem toMembers_ne_overflow {value : Value} : value.toMembers ≠ .error .overflow := by
  cases value <;> simp [toMembers]

theorem toItems_ne_overflow {value : Value} : value.toItems ≠ .error .overflow := by
  cases value <;> simp [toItems]

theorem toLabel_ne_overflow {value : Value} : value.toLabel ≠ .error .overflow := by
  cases value <;> simp [toLabel, label?]

end Value

theorem PatternKind.ofValue_ne_overflow {value : Value} :
    PatternKind.ofValue value ≠ .error .overflow := by
  unfold PatternKind.ofValue
  cases value.text?.bind PatternKind.ofName? <;> simp

theorem Reaction.ofValue_ne_overflow {value : Value} :
    Reaction.ofValue value ≠ .error .overflow := by
  unfold Reaction.ofValue
  cases value.text?.bind Reaction.ofName? <;> simp

theorem Time.readTimestamp_ne_overflow {value : Value} :
    Time.readTimestamp value ≠ .error .overflow := by
  cases value with
  | text s =>
    simp only [Time.readTimestamp]
    cases Time.readTimestamp? s <;> simp
  | _ => simp [Time.readTimestamp]

theorem Surroundings.read_ne_overflow {value : Value} :
    Surroundings.read value ≠ .error .overflow := by
  refine Except.bind_ne_error Value.toMembers_ne_overflow fun members => ?_
  split
  · refine Except.bind_ne_error (fun h => Time.readTimestamp_ne_overflow
      (Except.map_eq_error.1 h)) fun _ => ?_
    nofun
  · nofun

theorem Event.read_ne_overflow {value : Value} : Event.read value ≠ .error .overflow := by
  refine Except.bind_ne_error Value.needMember_ne_overflow fun _ => ?_
  refine Except.bind_ne_error Value.needMember_ne_overflow fun _ => ?_
  refine Except.bind_ne_error Reaction.ofValue_ne_overflow fun _ => ?_
  refine Except.bind_ne_error Value.needMember_ne_overflow fun _ => ?_
  refine Except.bind_ne_error Time.readTimestamp_ne_overflow fun _ => ?_
  refine Except.bind_ne_error Surroundings.read_ne_overflow fun _ => ?_
  nofun

theorem Value.toEntries_ne_overflow {value : Value} : value.toEntries ≠ .error .overflow := by
  have hentry : ∀ item : Value, item.toEntry ≠ .error .overflow := by
    intro item
    refine Except.bind_ne_error Value.toItems_ne_overflow fun items => ?_
    split
    · refine Except.bind_ne_error Value.toLabel_ne_overflow fun _ => ?_
      nofun
    · nofun
  unfold Value.toEntries
  split
  · nofun
  · refine Except.bind_ne_error Value.toItems_ne_overflow fun items => ?_
    refine Except.bind_ne_error (Except.mapM_ne_error hentry) fun _ => ?_
    nofun

theorem Draft.readTallies_ne_overflow {value : Value} :
    Draft.readTallies value ≠ .error .overflow := by
  refine Except.bind_ne_error Value.toMembers_ne_overflow fun habits => ?_
  refine Except.mapM_ne_error fun habit => ?_
  refine Except.bind_ne_error Value.toEntries_ne_overflow fun _ => ?_
  nofun

/-! ### Records and preferences -/

/-- The members of a record that come before its numbers are in order. -/
def Draft.Introduced (record : Value) : Prop :=
  (∃ v, record.member? "id" = some v) ∧
  (∃ v kind, record.member? "pattern_type" = some v ∧ PatternKind.ofValue v = .ok kind) ∧
  (∃ v, record.member? "language" = some v) ∧ (∃ v, record.member? "signature" = some v)

/-- The confidence or the frequency of a record is a number that is too
large. -/
def Draft.NumberTooLarge (record : Value) : Prop :=
  Introduced record ∧ ∃ confidence, record.member? "confidence" = some confidence ∧
    (confidence.TooLarge ∨
      (∃ x, confidence.toReal = .ok x) ∧
        ∃ frequency, record.member? "frequency" = some frequency ∧ frequency.Endless)

theorem Store.readRecord_eq_overflow {record : Value} :
    Store.readRecord record = .error .overflow ↔ Draft.NumberTooLarge record := by
  constructor
  · intro h
    rcases Except.bind_eq_error.1 h with h | ⟨id, hid, h⟩
    · exact absurd h Value.needMember_ne_overflow
    rcases Except.bind_eq_error.1 h with h | ⟨kindName, hkindName, h⟩
    · exact absurd h Value.needMember_ne_overflow
    rcases Except.bind_eq_error.1 h with h | ⟨kind, hkind, h⟩
    · exact absurd h PatternKind.ofValue_ne_overflow
    rcases Except.bind_eq_error.1 h with h | ⟨language, hlanguage, h⟩
    · exact absurd h Value.needMember_ne_overflow
    rcases Except.bind_eq_error.1 h with h | ⟨signature, hsignature, h⟩
    · exact absurd h Value.needMember_ne_overflow
    rcases Except.bind_eq_error.1 h with h | ⟨confidence, hconfidence, h⟩
    · exact absurd h Value.needMember_ne_overflow
    have hintroduced : Draft.Introduced record :=
      ⟨⟨id, Value.needMember_eq_ok.1 hid⟩, ⟨kindName, kind, Value.needMember_eq_ok.1 hkindName, hkind⟩,
        ⟨language, Value.needMember_eq_ok.1 hlanguage⟩,
        ⟨signature, Value.needMember_eq_ok.1 hsignature⟩⟩
    refine ⟨hintroduced, confidence, Value.needMember_eq_ok.1 hconfidence, ?_⟩
    rcases Except.bind_eq_error.1 h with h | ⟨number, hnumber, h⟩
    · exact .inl (Value.toReal_eq_overflow.1 (Except.map_eq_error.1 h))
    obtain ⟨x, hx, _⟩ := Except.map_eq_ok.1 hnumber
    rcases Except.bind_eq_error.1 h with h | ⟨frequency, hfrequency, h⟩
    · exact absurd h Value.needMember_ne_overflow
    rcases Except.bind_eq_error.1 h with h | ⟨whole, _, h⟩
    · exact .inr ⟨⟨x, hx⟩, frequency, Value.needMember_eq_ok.1 hfrequency,
        Value.toWhole_eq_overflow.1 h⟩
    · refine absurd h ?_
      -- What is read behind the numbers never is too large.
      refine Except.bind_ne_error Value.needMember_ne_overflow fun _ => ?_
      refine Except.bind_ne_error Time.readTimestamp_ne_overflow fun _ => ?_
      refine Except.bind_ne_error Value.needMember_ne_overflow fun _ => ?_
      refine Except.bind_ne_error Time.readTimestamp_ne_overflow fun _ => ?_
      refine Except.bind_ne_error Value.needMember_ne_overflow fun _ => ?_
      refine Except.bind_ne_error Time.readTimestamp_ne_overflow fun _ => ?_
      refine Except.bind_ne_error Value.toItems_ne_overflow fun _ => ?_
      refine Except.bind_ne_error Value.toItems_ne_overflow fun _ => ?_
      refine Except.bind_ne_error (Except.mapM_ne_error fun _ => Event.read_ne_overflow) fun _ => ?_
      refine Except.bind_ne_error Draft.readTallies_ne_overflow fun _ => ?_
      nofun
  · rintro ⟨⟨⟨id, hid⟩, ⟨kindName, kind, hkindName, hkind⟩, ⟨language, hlanguage⟩,
      ⟨signature, hsignature⟩⟩, confidence, hconfidence, hnumbers⟩
    simp only [Store.readRecord, Draft.read, Value.needMember_eq_ok.2 hid,
      Value.needMember_eq_ok.2 hkindName, hkind, Value.needMember_eq_ok.2 hlanguage,
      Value.needMember_eq_ok.2 hsignature, Value.needMember_eq_ok.2 hconfidence, Except.ok_bind]
    rcases hnumbers with hlarge | ⟨⟨x, hx⟩, frequency, hfrequency, hendless⟩
    · rw [Value.toReal_eq_overflow.2 hlarge]
      rfl
    · rw [hx, Value.needMember_eq_ok.2 hfrequency]
      simp only [Except.map, Except.ok_bind, Value.toWhole_eq_overflow.2 hendless]
      rfl

/-- A weight in a member of a document is too large, and those before it can be
read. -/
def Preferences.WeightTooLarge (members : Table String Value) (name : String) : Prop :=
  ∃ before entry after, members.get? name = some (.object (before ++ entry :: after)) ∧
    (∀ other ∈ before, ∃ x, other.2.toReal = .ok x) ∧ entry.2.TooLarge

theorem Preferences.readWeights_eq_overflow {members : Table String Value} {name : String} :
    readWeights (fun value => value.toReal.map Value.real) members name = .error .overflow ↔
      WeightTooLarge members name := by
  -- A weight is read when its number is, and is too large when its number is.
  have hread : ∀ entry : String × Value, (∃ y : String × Value,
      (do return (entry.1, ← entry.2.toReal.map Value.real) : Except Fault (String × Value)) = .ok y)
        ↔ ∃ x, entry.2.toReal = .ok x := by
    intro entry
    cases entry.2.toReal <;> simp [Except.map]
  have hlarge : ∀ entry : String × Value,
      (do return (entry.1, ← entry.2.toReal.map Value.real) : Except Fault (String × Value))
        = .error .overflow ↔ entry.2.TooLarge := by
    intro entry
    rw [← Value.toReal_eq_overflow]
    cases entry.2.toReal <;> simp [Except.map]
  constructor
  · intro h
    rcases Except.bind_eq_error.1 h with h | ⟨weights, hweights, h⟩
    · exact absurd h Value.toMembers_ne_overflow
    · obtain ⟨before, entry, after, rfl, hbefore, hentry⟩ := Except.mapM_eq_error_iff.1 h
      refine ⟨before, entry, after, ?_, fun other hother => ?_, (hlarge entry).1 hentry⟩
      · cases hget : members.get? name with
        | none => simp [hget, Value.toMembers] at hweights
        | some value => cases value <;> simp_all [Value.toMembers]
      · exact (hread other).1 (Except.exists_mapM_eq_ok.1 hbefore other hother)
  · rintro ⟨before, entry, after, hget, hbefore, hentry⟩
    rw [readWeights, hget]
    refine Except.mapM_eq_error_iff.2 ⟨before, entry, after, rfl, ?_, (hlarge entry).2 hentry⟩
    exact Except.exists_mapM_eq_ok.2 fun other hother => (hread other).2 (hbefore other hother)

/-- A weight of the preferences in a snapshot is too large, and all that comes
before it can be read. -/
def Preferences.SomeWeightTooLarge (document : Value) : Prop :=
  ∃ members, document = .object members ∧
    (WeightTooLarge members "type_weights" ∨
      (∃ kinds, readWeights (fun value => value.toReal.map Value.real) members "type_weights"
        = .ok kinds) ∧ WeightTooLarge members "language_weights")

theorem Memory.readPreferences_eq_overflow {document : Value} :
    Memory.readPreferences document = .error .overflow ↔
      Preferences.SomeWeightTooLarge document := by
  have hlabels : ∀ members name, Preferences.readLabels members name ≠ .error .overflow := by
    intro members name
    refine Except.bind_ne_error Value.toItems_ne_overflow fun items => ?_
    refine Except.bind_ne_error (Except.mapM_ne_error fun _ => Value.toLabel_ne_overflow) fun _ => ?_
    nofun
  constructor
  · intro h
    rcases Except.bind_eq_error.1 h with h | ⟨members, hmembers, h⟩
    · exact absurd h Value.toMembers_ne_overflow
    have hdocument : document = .object members := by
      cases document <;> cases hmembers
      rfl
    refine ⟨members, hdocument, ?_⟩
    rcases Except.bind_eq_error.1 h with h | ⟨kinds, hkinds, h⟩
    · exact .inl (Preferences.readWeights_eq_overflow.1 h)
    rcases Except.bind_eq_error.1 h with h | ⟨languages, _, h⟩
    · exact .inr ⟨⟨kinds, hkinds⟩, Preferences.readWeights_eq_overflow.1 h⟩
    · refine absurd h ?_
      refine Except.bind_ne_error (hlabels _ _) fun _ => ?_
      refine Except.bind_ne_error (hlabels _ _) fun _ => ?_
      nofun
  · rintro ⟨members, rfl, hkinds | ⟨⟨kinds, hkinds⟩, hlanguages⟩⟩
    · simp only [Memory.readPreferences, Preferences.read, Value.toMembers, Except.ok_bind,
        Preferences.readWeights_eq_overflow.2 hkinds]
      rfl
    · simp only [Memory.readPreferences, Preferences.read, Value.toMembers, Except.ok_bind, hkinds,
        Preferences.readWeights_eq_overflow.2 hlanguages]
      rfl

/-! ### Names that are no labels -/

/-- A draft is named by a list or an object: by its id, or, if the id is none of
those of the patterns that are known, by its language or signature. -/
def Draft.Unnamable (known : List (Pattern Value)) (d : Draft Value) : Prop :=
  d.id.label? = none ∨
    ∃ id : Label, d.id = id.value ∧ (∀ p ∈ known, (p.id == id) = false) ∧
      (d.language.label? = none ∨ d.signature.label? = none)

theorem Value.toLabel_eq_error {value : Value} {fault : Fault} :
    value.toLabel = .error fault ↔ value.label? = none ∧ fault = .wrongKind := by
  unfold toLabel
  cases value.label? with
  | none => simp [eq_comm]
  | some label => simp

/-- A fault that is no corruption. -/
def Fault.IsStray (fault : Fault) : Prop :=
  ∀ cause, fault ≠ .corrupt cause

theorem Fault.not_isStray_corrupt {cause : Corruption} : ¬(Fault.corrupt cause).IsStray :=
  fun h => h cause rfl

namespace Store

/-- A draft with a floating-point number for its confidence is refused with
anything but a corruption only because of what it is named by. -/
theorem add_stray_iff {m : Smoothing Value} {ps : List (Pattern Value)} {d : Draft Value} {x : Float}
    {fault : Fault} (hconfidence : d.known.confidence = .real x) :
    ((ofPatterns m ps).add d = .error fault ∧ fault.IsStray) ↔
      d.Unnamable ps ∧ fault = .wrongKind := by
  have hnew : ∀ id, (ofPatterns m ps).has id = false ↔ ∀ p ∈ ps, (p.id == id) = false := by
    intro id
    rw [has, Table.has_eq_false_iff, ofPatterns, List.forall_mem_map]
  have hstray : Fault.IsStray .wrongKind := by
    intro cause h
    cases h
  unfold add
  constructor
  · rintro ⟨h, hfault⟩
    rcases Except.bind_eq_error.1 h with h | ⟨id, hid, h⟩
    · obtain ⟨hnone, rfl⟩ := Value.toLabel_eq_error.1 h
      exact ⟨.inl hnone, rfl⟩
    have hvalue := Value.toLabel_eq_ok.1 hid
    cases hused : (ofPatterns m ps).has id with
    | true =>
      simp only [hused] at h
      cases h
      exact absurd hfault Fault.not_isStray_corrupt
    | false =>
      simp only [hused] at h
      rcases Except.bind_eq_error.1 h with h | ⟨language, hlanguage, h⟩
      · obtain ⟨hnone, rfl⟩ := Value.toLabel_eq_error.1 h
        exact ⟨.inr ⟨id, hvalue, (hnew id).1 hused, .inl hnone⟩, rfl⟩
      rcases Except.bind_eq_error.1 h with h | ⟨signature, hsignature, h⟩
      · obtain ⟨hnone, rfl⟩ := Value.toLabel_eq_error.1 h
        exact ⟨.inr ⟨id, hvalue, (hnew id).1 hused, .inr hnone⟩, rfl⟩
      cases hnamed : (ofPatterns m ps).index.has (language, signature) with
      | true =>
        simp only [hnamed] at h
        cases h
        exact absurd hfault Fault.not_isStray_corrupt
      | false =>
        simp only [hnamed, hconfidence, clampConfidence_real] at h
        cases h
  · rintro ⟨hid | ⟨id, hid, hunused, hname⟩, rfl⟩
    · simp [Value.toLabel_eq_error.2 ⟨hid, rfl⟩, hstray]
    · refine ⟨?_, hstray⟩
      rw [Value.toLabel_eq_ok.2 hid, Except.ok_bind, (hnew id).2 hunused]
      simp only [Bool.false_eq_true, if_false]
      cases hlanguage : d.language.label? with
      | none => rw [Value.toLabel_eq_error.2 ⟨hlanguage, rfl⟩, Except.error_bind]
      | some language =>
        have hsignature : d.signature.label? = none := by simpa [hlanguage] using hname
        rw [Value.toLabel, hlanguage]
        simp [Value.toLabel_eq_error.2 ⟨hsignature, rfl⟩]

/-- Of what is wrong with a record only a number that is too large is no
corruption. -/
theorem malformed_stray_iff {cause fault : Fault} :
    (malformed cause = fault ∧ fault.IsStray) ↔ cause = .overflow ∧ fault = .overflow := by
  have hstray : Fault.IsStray .overflow := by
    intro cause h
    cases h
  constructor
  · rintro ⟨rfl, h⟩
    unfold malformed at h ⊢
    split at h
    · exact ⟨rfl, rfl⟩
    · exact absurd h Fault.not_isStray_corrupt
  · rintro ⟨rfl, rfl⟩
    exact ⟨rfl, hstray⟩

/-- A record escapes, behind records that gave some patterns: it holds a number
that is too large, or its names are no labels. -/
inductive Escapes (known : List (Pattern Value)) (record : Value) : Fault → Prop
  | number (h : Draft.NumberTooLarge record) : Escapes known record .overflow
  | name (d : Draft Value) (hread : readRecord record = .ok d) (h : d.Unnamable known) :
    Escapes known record .wrongKind

/-- Records fail with anything but a corruption exactly when one escapes behind
records that are in order. -/
theorem ofRecords_stray_iff {m : Smoothing Value} {records : List Value} {fault : Fault} :
    (ofRecords readRecord m records = .error fault ∧ fault.IsStray) ↔
      ∃ before record after ps, records = before ++ record :: after ∧
        before.mapM (patternOf readRecord) = .ok ps ∧ Separate ps ∧ Escapes ps record fault := by
  have hstep : ∀ (ps : List (Pattern Value)) (record : Value),
      ((do (ofPatterns m ps).add (← (readRecord record).mapError malformed)) = .error fault ∧
        fault.IsStray) ↔ Escapes ps record fault := by
    intro ps record
    constructor
    · rintro ⟨h, hfault⟩
      rcases Except.bind_eq_error.1 h with h | ⟨d, hd, h⟩
      · obtain ⟨cause, hcause, h⟩ := Except.mapError_eq_error.1 h
        obtain ⟨rfl, rfl⟩ := malformed_stray_iff.1 ⟨h, hfault⟩
        exact .number (readRecord_eq_overflow.1 hcause)
      · have hread := Except.mapError_eq_ok.1 hd
        obtain ⟨_, _, hconfidence⟩ := (Draft.read_eq_ok_iff.1 hread).confidence
        obtain ⟨x, _, hx⟩ := Except.map_eq_ok.1 hconfidence
        obtain ⟨hname, rfl⟩ := (add_stray_iff hx.symm).1 ⟨h, hfault⟩
        exact .name d hread hname
    · intro h
      cases h with
      | number h =>
        refine ⟨?_, fun cause h => nomatch h⟩
        rw [readRecord_eq_overflow.2 h]
        rfl
      | name d hread h =>
        obtain ⟨_, _, hconfidence⟩ := (Draft.read_eq_ok_iff.1 hread).confidence
        obtain ⟨x, _, hx⟩ := Except.map_eq_ok.1 hconfidence
        obtain ⟨hadd, hstray⟩ := (add_stray_iff (m := m) hx.symm).2 ⟨h, rfl⟩
        rw [hread]
        exact ⟨hadd, hstray⟩
  constructor
  · rintro ⟨h, hfault⟩
    obtain ⟨before, record, after, t, rfl, hbefore, hrecord⟩ := Except.foldlM_eq_error_iff.1 h
    obtain ⟨ps, hps, hseparate, rfl⟩ := ofRecords_eq_ok_iff.1 hbefore
    exact ⟨before, record, after, ps, rfl, hps, hseparate, (hstep ps record).1 ⟨hrecord, hfault⟩⟩
  · rintro ⟨before, record, after, ps, rfl, hps, hseparate, hescapes⟩
    obtain ⟨hrecord, hfault⟩ := (hstep ps record).2 hescapes
    refine ⟨Except.foldlM_eq_error_iff.2 ⟨before, record, after, ofPatterns m ps, rfl, ?_, hrecord⟩,
      hfault⟩
    exact ofRecords_eq_ok_iff.2 ⟨ps, hps, hseparate, rfl⟩

end Store

/-! ### Whole snapshots -/

/-- A snapshot escapes: a weight of its preferences is too large, or they are in
order and a record escapes behind records that are. -/
inductive Snapshot.Escapes (members : Table String Value) : Fault → Prop
  | weight (h : Preferences.SomeWeightTooLarge (preferences members)) : Escapes members .overflow
  | record {prefs : Preferences Value} {before : List Value} {record : Value} {after : List Value}
    {ps : List (Pattern Value)} {fault : Fault}
    (hprefs : Memory.readPreferences (preferences members) = .ok prefs)
    (hsplit : records members = before ++ record :: after)
    (hbefore : before.mapM (Store.patternOf Store.readRecord) = .ok ps)
    (hseparate : Store.Separate ps) (h : Store.Escapes ps record fault) : Escapes members fault

theorem Memory.ofSnapshot_stray_iff {m : Memory Value} {members : Table String Value}
    {fault : Fault} :
    (m.ofSnapshot members = .error fault ∧ fault.IsStray) ↔ Snapshot.Escapes members fault := by
  constructor
  · rintro ⟨h, hfault⟩
    rcases Except.bind_eq_error.1 h with h | ⟨prefs, hprefs, h⟩
    · obtain ⟨cause, hcause, h⟩ := Except.mapError_eq_error.1 h
      split at h
      · rw [← h]
        exact .weight (readPreferences_eq_overflow.1 hcause)
      · rw [← h] at hfault
        exact absurd hfault Fault.not_isStray_corrupt
    · rcases Except.bind_eq_error.1 h with h | ⟨store, _, h⟩
      · obtain ⟨before, record, after, ps, hsplit, hps, hseparate, hescapes⟩ :=
          Store.ofRecords_stray_iff.1 ⟨h, hfault⟩
        exact .record (Except.mapError_eq_ok.1 hprefs) hsplit hps hseparate hescapes
      · cases h
  · intro h
    cases h with
    | weight h =>
      refine ⟨?_, fun cause h => nomatch h⟩
      have hread := readPreferences_eq_overflow.2 h
      rw [Snapshot.preferences] at hread
      rw [ofSnapshot, restore, hread]
      rfl
    | record hprefs hsplit hps hseparate hescapes =>
      obtain ⟨hrecords, hfault⟩ := Store.ofRecords_stray_iff.2
        ⟨_, _, _, _, hsplit, hps, hseparate, hescapes⟩
      refine ⟨?_, hfault⟩
      rw [Snapshot.preferences] at hprefs
      rw [ofSnapshot, restore, hprefs]
      show (Store.ofRecords Store.readRecord m.store.smoothing _ >>= _) = _
      rw [hrecords, Except.error_bind]

end CodeHabits
