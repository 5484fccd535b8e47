import CodeHabits.Proofs.Binary64.UnitInterval
import CodeHabits.Proofs.Except
import CodeHabits.Proofs.Store.Restoring
import CodeHabits.Proofs.Time.Written
import CodeHabits.Storage
import CodeHabits.Store

/-!
# `CodeHabits.Proofs.Pattern.Written`: patterns read as they were written

A record is read member by member, and the first member that cannot be read
decides. `Draft.Reads` lists what all of them have to be for a record to give a
draft, and `Draft.read_eq_ok_iff` says that nothing else is asked. `Event.Reads`
does the same for the events in a record.

A pattern that is written as a document and read again is the same pattern but
for two things, which `Pattern.reread` says. A reason that says nothing is not
written, and the values of styles come back as the texts that they were spelled
as. Neither makes a difference to the document (`document_reread`).

This asks for a pattern whose times can be written, whose confidence is a
floating-point number from zero to one, whose frequency is a whole number and of
which a truth value says whether it is retired. Patterns that were read and taken
in by a store are of this kind (`writable_of_patternOf`).
-/

set_option autoImplicit false

/-! ## What a record has to hold -/

namespace CodeHabits

theorem Value.needMember_eq_ok {value content : Value} {name : String} :
    value.needMember name = .ok content ↔ value.member? name = some content := by
  cases value with
  | object members =>
    simp only [needMember, member?, members?, Option.bind_some]
    cases Table.get? members name <;> simp
  | _ => simp [needMember, member?, members?]

theorem Value.member?_object (members : Table String Value) (name : String) :
    (Value.object members).member? name = members.get? name :=
  rfl

/-! ### Events -/

namespace Event

/-- The members of a document and the event that they make. -/
structure Reads (document : Value) (e : Event) : Prop where
  patternId : document.member? "pattern_id" = some e.patternId
  reaction : ∃ v, document.member? "action" = some v ∧ Reaction.ofValue v = .ok e.reaction
  timestamp : ∃ v, document.member? "timestamp" = some v ∧
    Time.readTimestamp v = .ok e.timestamp
  surroundings :
    Surroundings.read (((document.member? "context").filter Value.truthy).getD (.object [])) =
      .ok e.surroundings
  reason : e.reason = (document.member? "reason").getD .null
  modifiedContent : e.modifiedContent = (document.member? "modified_content").getD .null

theorem read_eq_ok_iff {document : Value} {e : Event} :
    read document = .ok e ↔ Reads document e := by
  constructor
  · intro h
    simp only [read, Except.bind_eq_ok, Value.needMember_eq_ok] at h
    obtain ⟨patternId, hpatternId, action, haction, reaction, hreaction, time, htime, timestamp,
      htimestamp, surroundings, hsurroundings, h⟩ := h
    cases h
    exact {
      patternId := hpatternId
      reaction := ⟨_, haction, hreaction⟩
      timestamp := ⟨_, htime, htimestamp⟩
      surroundings := hsurroundings
      reason := rfl
      modifiedContent := rfl }
  · intro h
    obtain ⟨_, haction, hreaction⟩ := h.reaction
    obtain ⟨_, htime, htimestamp⟩ := h.timestamp
    simp only [read, Value.needMember_eq_ok.2 h.patternId, Value.needMember_eq_ok.2 haction,
      hreaction, Value.needMember_eq_ok.2 htime, htimestamp, h.surroundings, Except.ok_bind]
    rw [← h.reason, ← h.modifiedContent]
    rfl

end Event

/-! ### Patterns -/

namespace Draft

variable {ν : Type} [Magnitude ν]

/-- The members of a record and the draft that they make. -/
structure Reads (number : Value → Except Fault ν) (document : Value) (d : Draft ν) : Prop where
  id : document.member? "id" = some d.id
  kind : ∃ v, document.member? "pattern_type" = some v ∧ PatternKind.ofValue v = .ok d.known.kind
  language : document.member? "language" = some d.language
  signature : document.member? "signature" = some d.signature
  confidence : ∃ v, document.member? "confidence" = some v ∧ number v = .ok d.known.confidence
  frequency : ∃ v n, document.member? "frequency" = some v ∧ v.toWhole = .ok n ∧
    d.known.frequency = Magnitude.ofInt n
  firstSeen : ∃ v, document.member? "first_seen" = some v ∧
    Time.readTimestamp v = .ok d.known.firstSeen
  lastSeen : ∃ v, document.member? "last_seen" = some v ∧
    Time.readTimestamp v = .ok d.known.lastSeen
  lastTouched : ∃ v, document.member? "last_touched" = some v ∧
    Time.readTimestamp v = .ok d.known.lastTouched
  sourceFiles : ((document.member? "source_files").getD (.list [])).toItems =
    .ok d.known.sourceFiles
  feedback : ∃ items, ((document.member? "feedback").getD (.list [])).toItems = .ok items ∧
    items.mapM Event.read = .ok d.known.feedback
  styles : readTallies ((document.member? "style_counts").getD (.object [])) = .ok d.known.styles
  sample : d.known.sample = (document.member? "example").getD (.text "")
  retired : d.known.retired = .bool (((document.member? "retired").map Value.truthy).getD false)

theorem read_eq_ok_iff {number : Value → Except Fault ν} {document : Value} {d : Draft ν} :
    read number document = .ok d ↔ Reads number document d := by
  constructor
  · intro h
    simp only [read, Except.bind_eq_ok, Value.needMember_eq_ok] at h
    obtain ⟨id, hid, kindName, hkindName, kind, hkind, language, hlanguage, signature, hsignature,
      h⟩ := h
    obtain ⟨confidenceValue, hconfidenceValue, confidence, hconfidence, frequencyValue,
      hfrequencyValue, frequency, hfrequency, h⟩ := h
    obtain ⟨first, hfirst, firstSeen, hfirstSeen, last, hlast, lastSeen, hlastSeen, touched,
      htouched, lastTouched, hlastTouched, h⟩ := h
    obtain ⟨files, hfiles, items, hitems, events, hevents, styles, hstyles, h⟩ := h
    cases h
    exact {
      id := hid, language := hlanguage, signature := hsignature
      kind := ⟨_, hkindName, hkind⟩
      confidence := ⟨_, hconfidenceValue, hconfidence⟩
      frequency := ⟨_, _, hfrequencyValue, hfrequency, rfl⟩
      firstSeen := ⟨_, hfirst, hfirstSeen⟩
      lastSeen := ⟨_, hlast, hlastSeen⟩
      lastTouched := ⟨_, htouched, hlastTouched⟩
      sourceFiles := hfiles
      feedback := ⟨_, hitems, hevents⟩
      styles := hstyles
      sample := rfl
      retired := rfl }
  · intro h
    obtain ⟨_, hkindName, hkind⟩ := h.kind
    obtain ⟨_, hconfidenceValue, hconfidence⟩ := h.confidence
    obtain ⟨_, _, hfrequencyValue, hwhole, hfrequency⟩ := h.frequency
    obtain ⟨_, hfirst, hfirstSeen⟩ := h.firstSeen
    obtain ⟨_, hlast, hlastSeen⟩ := h.lastSeen
    obtain ⟨_, htouched, hlastTouched⟩ := h.lastTouched
    obtain ⟨_, hitems, hevents⟩ := h.feedback
    simp only [read, Value.needMember_eq_ok.2 h.id, Value.needMember_eq_ok.2 hkindName, hkind,
      Value.needMember_eq_ok.2 h.language, Value.needMember_eq_ok.2 h.signature,
      Value.needMember_eq_ok.2 hconfidenceValue, hconfidence,
      Value.needMember_eq_ok.2 hfrequencyValue, hwhole, Value.needMember_eq_ok.2 hfirst,
      hfirstSeen, Value.needMember_eq_ok.2 hlast, hlastSeen, Value.needMember_eq_ok.2 htouched,
      hlastTouched, h.sourceFiles, hitems, hevents, h.styles, Except.ok_bind]
    rw [← h.sample, ← h.retired, ← hfrequency]
    rfl

end Draft

end CodeHabits

/-! ## Reading what was written -/

namespace CodeHabits

open Time (Timestamp)

/-! ### Times and events -/

namespace Time

theorem readTimestamp_value {t : Timestamp} (h : t.Valid) : readTimestamp t.value = .ok t := by
  rw [Timestamp.value, readTimestamp, readTimestamp?_isoformat h]

theorem valid_of_readTimestamp {value : Value} {t : Timestamp}
    (h : readTimestamp value = .ok t) : t.Valid := by
  unfold readTimestamp at h
  split at h
  · split at h
    · rename_i hread
      cases h
      exact valid_of_readTimestamp? hread
    · cases h
  · cases h

theorem truthy_value (t : Timestamp) : t.value.truthy = true := by
  have hchars : t.isoformat ≠ "" := by
    intro h
    have hlist := toList_isoformat t
    rw [h] at hlist
    simp at hlist
  simpa [Timestamp.value, Value.truthy] using hchars

end Time

namespace Event

/-- The times of an event can be written. -/
structure Dated (e : Event) : Prop where
  timestamp : e.timestamp.Valid
  surroundings : ∀ t ∈ e.surroundings.timestamp?, t.Valid

/-- The event that comes back: a reason that says nothing is gone. -/
def reread (e : Event) : Event :=
  { e with reason := if e.reason.truthy then e.reason else .null }

theorem document_reread (e : Event) : e.reread.document = e.document := by
  have hnull : Value.null.truthy = false := rfl
  by_cases h : e.reason.truthy = true
  · simp only [document, reread, if_pos h]
  · simp only [document, reread, if_neg h, hnull]
    rfl

end Event

theorem Surroundings.read_document {s : Surroundings} (h : ∀ t ∈ s.timestamp?, t.Valid) :
    read s.document = .ok s := by
  obtain ⟨language, project, timestamp?⟩ := s
  cases timestamp? with
  | none => rfl
  | some t =>
    have hread : Time.readTimestamp t.value = .ok t := Time.readTimestamp_value (h t rfl)
    have hfilter : (some t.value).filter Value.truthy = some t.value := by
      rw [Option.filter_some, if_pos (Time.truthy_value t)]
    rw [document, Option.map_some, Option.getD_some]
    generalize t.value = v at *
    simp [read, Value.toMembers, Table.get?_cons]
    rw [hfilter]
    show ((Time.readTimestamp v).map some >>= _) = _
    rw [hread]
    rfl

namespace Event

theorem member?_reason (e : Event) :
    e.document.member? "reason" = if e.reason.truthy then some e.reason else none := by
  obtain ⟨patternId, reaction, timestamp, reason, surroundings, content⟩ := e
  rw [document, Value.member?_object]
  split <;> cases content <;> simp [Table.get?_cons, Table.get?_nil]

theorem member?_modifiedContent (e : Event) :
    (e.document.member? "modified_content").getD .null = e.modifiedContent := by
  obtain ⟨patternId, reaction, timestamp, reason, surroundings, content⟩ := e
  rw [document, Value.member?_object]
  split <;> cases content <;> simp [Table.get?_cons, Table.get?_nil]

theorem read_document {e : Event} (h : e.Dated) : read e.document = .ok e.reread := by
  have hreaction : Reaction.ofValue (.text e.reaction.name) = .ok e.reaction := by
    cases e.reaction <;> rfl
  refine read_eq_ok_iff.2 ⟨rfl, ⟨_, rfl, hreaction⟩, ⟨_, rfl, Time.readTimestamp_value h.timestamp⟩,
    Surroundings.read_document h.surroundings, ?_, (member?_modifiedContent e).symm⟩
  rw [member?_reason, reread]
  split <;> rfl

/-- The times of an event that was read can be written. -/
theorem dated_of_read {document : Value} {e : Event} (h : read document = .ok e) : e.Dated := by
  have hreads := read_eq_ok_iff.1 h
  obtain ⟨_, _, htimestamp⟩ := hreads.timestamp
  refine ⟨Time.valid_of_readTimestamp htimestamp, fun t ht => ?_⟩
  obtain ⟨members, _, hsurroundings⟩ := Except.bind_eq_ok.1 hreads.surroundings
  split at hsurroundings
  · obtain ⟨t?, hread, hsurroundings⟩ := Except.bind_eq_ok.1 hsurroundings
    obtain ⟨u, hu, rfl⟩ := Except.map_eq_ok.1 hread
    rw [← Except.ok.inj hsurroundings] at ht
    cases ht
    exact Time.valid_of_readTimestamp hu
  · rw [← Except.ok.inj hsurroundings] at ht
    cases ht

end Event

/-! ### Patterns -/

/-- A manner that keeps numbers and texts as they are. -/
structure Manner.Plain (manner : Manner Value) : Prop where
  number : ∀ value, manner.number value = value
  spell : ∀ text, manner.spell (.text text) = text

theorem Manner.plain_answer : Manner.answer.Plain :=
  ⟨fun _ => rfl, fun _ => rfl⟩

theorem Storage.plain_manner : Storage.manner.Plain :=
  ⟨fun _ => rfl, fun _ => rfl⟩

namespace Pattern

/-- A pattern that can be written and read. -/
structure Writable (p : Pattern Value) : Prop where
  confidence : ∃ c, p.confidence = .real c ∧ Binary64.InUnit c
  frequency : ∃ n, p.frequency = .int n
  firstSeen : p.firstSeen.Valid
  lastSeen : p.lastSeen.Valid
  lastTouched : p.lastTouched.Valid
  feedback : ∀ e ∈ p.feedback, e.Dated
  retired : ∃ b, p.retired = .bool b

/-- Tallies with their values spelled. -/
def respell (spell : Label → String) (styles : Tallies) : Tallies :=
  styles.map fun habit => (habit.1, habit.2.map fun entry => (.text (spell entry.1), entry.2))

/-- The pattern that comes back. -/
def reread (spell : Label → String) (p : Pattern Value) : Pattern Value :=
  { p with feedback := p.feedback.map Event.reread, styles := respell spell p.styles }

theorem countsDocument_respell {manner : Manner Value} (hmanner : manner.Plain)
    (counts : Table Label Value) :
    countsDocument manner.spell (counts.map fun entry => (.text (manner.spell entry.1), entry.2))
      = countsDocument manner.spell counts := by
  rw [countsDocument, List.map_map]
  refine congrArg Value.object (List.map_congr_left fun entry _ => ?_)
  show (manner.spell (.text (manner.spell entry.1)), entry.2) = _
  rw [hmanner.spell]

theorem document_reread {manner : Manner Value} (hmanner : manner.Plain) (p : Pattern Value) :
    (p.reread manner.spell).document manner = p.document manner := by
  have hfeedback : (p.feedback.map Event.reread).map Event.document
      = p.feedback.map Event.document := by
    rw [List.map_map]
    exact List.map_congr_left fun e _ => e.document_reread
  have hstyles : (respell manner.spell p.styles).map
        (fun habit => (habit.1, countsDocument manner.spell habit.2))
      = p.styles.map fun habit => (habit.1, countsDocument manner.spell habit.2) := by
    rw [respell, List.map_map]
    refine List.map_congr_left fun habit _ => ?_
    show (habit.1, countsDocument manner.spell _) = _
    rw [countsDocument_respell hmanner]
  rw [reread, document, document]
  dsimp only
  rw [hfeedback, hstyles]

theorem readTallies_document (spell : Label → String) (styles : Tallies) :
    Draft.readTallies (.object (styles.map fun habit => (habit.1, countsDocument spell habit.2)))
      = .ok (respell spell styles) := by
  show List.mapM _ _ = _
  rw [List.mapM_map]
  refine Except.mapM_ok fun habit _ => ?_
  simp [countsDocument, Value.toEntries]

/-- A pattern is read as it was written. -/
theorem readRecord_document {manner : Manner Value} (hmanner : manner.Plain) {p : Pattern Value}
    (h : p.Writable) :
    Store.readRecord (p.document manner)
      = .ok ⟨p.id.value, p.language.value, p.signature.value,
          (p.reread manner.spell).toKnowledge⟩ := by
  obtain ⟨c, hc, _⟩ := h.confidence
  obtain ⟨n, hn⟩ := h.frequency
  obtain ⟨b, hb⟩ := h.retired
  have hkind : PatternKind.ofValue (.text p.kind.name) = .ok p.kind := by
    cases p.kind <;> rfl
  have hfeedback : (p.feedback.map Event.document).mapM Event.read
      = .ok (p.feedback.map Event.reread) := by
    rw [List.mapM_map]
    exact Except.mapM_ok fun e he => Event.read_document (h.feedback e he)
  refine Draft.read_eq_ok_iff.2 {
    id := rfl, language := rfl, signature := rfl
    kind := ⟨_, rfl, hkind⟩
    confidence := ⟨_, rfl, ?_⟩
    frequency := ⟨_, n, rfl, ?_, hn⟩
    firstSeen := ⟨_, rfl, Time.readTimestamp_value h.firstSeen⟩
    lastSeen := ⟨_, rfl, Time.readTimestamp_value h.lastSeen⟩
    lastTouched := ⟨_, rfl, Time.readTimestamp_value h.lastTouched⟩
    sourceFiles := rfl
    feedback := ⟨_, rfl, hfeedback⟩
    styles := readTallies_document manner.spell p.styles
    sample := rfl
    retired := ?_ }
  · show (manner.number p.confidence).toReal.map Value.real = .ok p.confidence
    rw [hmanner.number, hc]
    rfl
  · rw [hmanner.number, hn]
    rfl
  · show p.retired = .bool p.retired.truthy
    rw [hb]
    rfl

/-- Taken in by a store, it is the pattern that comes back. -/
theorem patternOf_document {manner : Manner Value} (hmanner : manner.Plain) {p : Pattern Value}
    (h : p.Writable) :
    Store.patternOf Store.readRecord (p.document manner) = .ok (p.reread manner.spell) := by
  obtain ⟨c, hc, hunit⟩ := h.confidence
  have hclamp : clampConfidence p.confidence = .ok p.confidence := by
    rw [hc, clampConfidence_real, Binary64.clampReal_of_inUnit hunit]
  have hid (label : Label) : label.value.toLabel = .ok label := Value.toLabel_eq_ok.2 rfl
  rw [Store.patternOf, readRecord_document hmanner h]
  show Draft.pattern _ = _
  simp only [Draft.pattern, hid, Except.ok_bind]
  show (clampConfidence p.confidence >>= _) = _
  rw [hclamp]
  rfl

theorem writable_reread {spell : Label → String} {p : Pattern Value} (h : p.Writable) :
    (p.reread spell).Writable where
  confidence := h.confidence
  frequency := h.frequency
  firstSeen := h.firstSeen
  lastSeen := h.lastSeen
  lastTouched := h.lastTouched
  feedback := by
    intro e he
    obtain ⟨f, hf, rfl⟩ := List.mem_map.1 he
    exact ⟨(h.feedback f hf).timestamp, (h.feedback f hf).surroundings⟩
  retired := h.retired

/-- A pattern that a record describes can be written. -/
theorem writable_of_patternOf {record : Value} {p : Pattern Value}
    (h : Store.patternOf Store.readRecord record = .ok p) : p.Writable := by
  obtain ⟨d, hd, hpattern⟩ := Except.bind_eq_ok.1 h
  have hreads := Draft.read_eq_ok_iff.1 (Except.mapError_eq_ok.1 hd)
  obtain ⟨id, _, hpattern⟩ := Except.bind_eq_ok.1 hpattern
  obtain ⟨language, _, hpattern⟩ := Except.bind_eq_ok.1 hpattern
  obtain ⟨signature, _, hpattern⟩ := Except.bind_eq_ok.1 hpattern
  obtain ⟨confidence, hconfidence, hpattern⟩ := Except.bind_eq_ok.1 hpattern
  obtain ⟨_, _, hnumber⟩ := hreads.confidence
  obtain ⟨_, _, hfirst⟩ := hreads.firstSeen
  obtain ⟨_, _, hlast⟩ := hreads.lastSeen
  obtain ⟨_, _, htouched⟩ := hreads.lastTouched
  obtain ⟨_, n, _, _, hfrequency⟩ := hreads.frequency
  obtain ⟨_, _, hevents⟩ := hreads.feedback
  obtain ⟨x, _, hx⟩ := Except.map_eq_ok.1 hnumber
  rw [← hx, clampConfidence_real] at hconfidence
  cases hpattern
  exact {
    confidence := ⟨_, (Except.ok.inj hconfidence).symm, Binary64.inUnit_clampReal x⟩
    frequency := ⟨n, hfrequency⟩
    firstSeen := Time.valid_of_readTimestamp hfirst
    lastSeen := Time.valid_of_readTimestamp hlast
    lastTouched := Time.valid_of_readTimestamp htouched
    feedback := fun e he => by
      obtain ⟨_, _, hread⟩ := Except.exists_mem_of_mapM hevents he
      exact Event.dated_of_read hread
    retired := ⟨_, hreads.retired⟩ }

end Pattern

end CodeHabits
