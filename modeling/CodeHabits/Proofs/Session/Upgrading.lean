import CodeHabits.Proofs.Pattern.Written
import CodeHabits.Proofs.Session.Adding
import CodeHabits.Proofs.Session.Loading
import CodeHabits.Proofs.Snapshot.Migration

/-!
# `CodeHabits.Proofs.Session.Upgrading`: documents of the first version

A document is brought up to date or refused as corrupt, and `migration_faithful` says which
and what comes of it. That the result can be taken in is only known of documents whose records
were written by a session. Then the patterns come back with all that the first version
knows of them.

Null ids need no condition here. A session with a null id beside other ids cannot put its
patterns in order, so it has no snapshot (`Store.separate_of_inOrder`).
-/

set_option autoImplicit false

/-!
## What comes back from a record of the first version

Four fields of a record are not known to the first version. If they are dropped from the
record of a pattern, then bringing it up to date puts other values in their place, and
`Pattern.recovered` is the pattern that the record describes then. All other fields are those
of the pattern (`recovers_recovered`).

The fields come in another order afterwards. What a record describes does not depend on it,
since each field is looked up by its name (`Draft.Reads.congr`).
-/

namespace CodeHabits

namespace Snapshot

/-- The fields that a record of the first version does not need. -/
def addedNames : List String :=
  ["first_seen", "last_touched", "style_counts", "retired"]

/-- A record without these fields. -/
def withoutAdded : Value → Value
  | .object fields => .object (fields.filter fun field => !addedNames.contains field.1)
  | value => value

theorem member?_withoutAdded (fields : Table String Value) (name : String) :
    (withoutAdded (.object fields)).member? name
      = if name ∈ addedNames then none else fields.get? name := by
  rw [withoutAdded, Value.member?_object,
    Table.get?_filter_keys fields fun name => !addedNames.contains name]
  by_cases hname : name ∈ addedNames <;> simp [hname]

/-- A field of a record that was completed is its own, or else an added one. -/
theorem member?_upgradeRecord (fields : Table String Value) (name : String) :
    (upgradeRecord (.object fields)).member? name
      = (fields.get? name).or ((additions fields).get? name) := by
  rw [upgradeRecord_object, Value.member?_object, Table.get?_append,
    Table.get?_filter_keys (additions fields) fun name => !Table.has fields name]
  cases hfound : fields.get? name with
  | some value => rfl
  | none => simp [Table.has_eq_isSome_get?, hfound]

theorem get?_additions_of_not_mem (fields : Table String Value) {name : String}
    (hname : name ∉ addedNames) : (additions fields).get? name = none := by
  simp only [addedNames, List.mem_cons, List.not_mem_nil, or_false, not_or] at hname
  simp [additions, Table.get?_cons, Table.get?_nil, eq_comm (b := name), hname]

end Snapshot

/-- What a record gives depends on its members only. -/
theorem Draft.Reads.congr {ν : Type} [Magnitude ν] {number : Value → Except Fault ν}
    {document other : Value} {d : Draft ν} (h : Draft.Reads number document d)
    (hsame : ∀ name, other.member? name = document.member? name) : Draft.Reads number other d := by
  constructor <;> simp only [hsame]
  exacts [h.id, h.kind, h.language, h.signature, h.confidence, h.frequency, h.firstSeen, h.lastSeen,
    h.lastTouched, h.sourceFiles, h.feedback, h.styles, h.sample, h.retired]

namespace Pattern

/-- The pattern that comes back from what the first version has of it: it was touched when it
was last seen and first seen then, and nothing is known of styles or of retirement. -/
def recovered (p : Pattern Value) : Pattern Value :=
  { p with
    feedback := p.feedback.map Event.reread
    firstSeen := p.lastSeen
    lastTouched := p.lastSeen
    styles := []
    retired := .bool false }

theorem reread_recovered (spell : Label → String) (p : Pattern Value) :
    p.recovered.reread spell = p.recovered := by
  have hevent (e : Event) : e.reread.reread = e.reread := by
    by_cases h : e.reason.truthy = true <;> simp [Event.reread, h]
  simp [recovered, reread, respell, hevent]

theorem writable_recovered {p : Pattern Value} (h : p.Writable) : p.recovered.Writable where
  confidence := h.confidence
  frequency := h.frequency
  firstSeen := h.lastSeen
  lastSeen := h.lastSeen
  lastTouched := h.lastSeen
  feedback := (@writable_reread (fun _ => "") p h).feedback
  retired := ⟨false, rfl⟩

variable {manner : Manner Value}

/-- The two documents differ in the added fields only. -/
theorem withoutAdded_recovered (manner : Manner Value) (p : Pattern Value) :
    Snapshot.withoutAdded (p.recovered.document manner)
      = Snapshot.withoutAdded (p.document manner) := by
  have hfeedback : (p.feedback.map Event.reread).map Event.document
      = p.feedback.map Event.document := by
    rw [List.map_map]
    exact List.map_congr_left fun e _ => e.document_reread
  simp [Snapshot.withoutAdded, Snapshot.addedNames, document, recovered, hfeedback]

theorem member?_recovered (manner : Manner Value) (p : Pattern Value) {name : String}
    (hname : name ∉ Snapshot.addedNames) :
    (p.recovered.document manner).member? name = (p.document manner).member? name := by
  have hsame := congrArg (Value.member? · name) (withoutAdded_recovered manner p)
  simp only [document, Snapshot.member?_withoutAdded, if_neg hname] at hsame
  exact hsame

/-- What remains of the document of a pattern in the first version, with what it lacks, has the
members of the document of the pattern that comes back. -/
theorem member?_upgradeRecord_withoutAdded (manner : Manner Value) (p : Pattern Value)
    (name : String) :
    (Snapshot.upgradeRecord (Snapshot.withoutAdded (p.document manner))).member? name
      = (p.recovered.document manner).member? name := by
  obtain ⟨fields, hfields⟩ : ∃ fields : Table String Value, p.document manner = .object fields :=
    ⟨_, rfl⟩
  have hremains (other : String) :
      Table.get? (fields.filter fun field => !Snapshot.addedNames.contains field.1) other
        = if other ∈ Snapshot.addedNames then none else fields.get? other :=
    Snapshot.member?_withoutAdded fields other
  rw [hfields, Snapshot.withoutAdded, Snapshot.member?_upgradeRecord, hremains]
  by_cases hname : name ∈ Snapshot.addedNames
  · rw [if_pos hname, Option.none_or, Snapshot.additions, hremains, if_neg (by decide)]
    have hseen : fields.get? "last_seen" = some p.lastSeen.value := by
      rw [← Value.member?_object, ← hfields]
      rfl
    rw [hseen, Option.getD_some]
    simp only [Snapshot.addedNames, List.mem_cons, List.not_mem_nil, or_false] at hname
    rcases hname with rfl | rfl | rfl | rfl
    all_goals rfl
  · rw [if_neg hname, Snapshot.get?_additions_of_not_mem _ hname, Option.or_none,
      member?_recovered manner p hname, hfields, Value.member?_object]

/-- Brought up to date, the record of a pattern in the first version describes the pattern that
comes back. -/
theorem patternOf_upgradeRecord (hmanner : manner.Plain) {p : Pattern Value} (h : p.Writable) :
    Store.patternOf Store.readRecord
        (Snapshot.upgradeRecord (Snapshot.withoutAdded (p.document manner)))
      = .ok p.recovered := by
  have hrecord := readRecord_document hmanner (writable_recovered h)
  have hread : Store.readRecord
        (Snapshot.upgradeRecord (Snapshot.withoutAdded (p.document manner)))
      = Store.readRecord (p.recovered.document manner) := by
    rw [hrecord]
    exact Draft.read_eq_ok_iff.2 ((Draft.read_eq_ok_iff.1 hrecord).congr
      (member?_upgradeRecord_withoutAdded manner p))
  rw [Store.patternOf, hread, ← Store.patternOf, patternOf_document hmanner (writable_recovered h),
    reread_recovered]

/-- The pattern has all other fields from a record. It was first seen and last touched when it
was last seen, and nothing is known of styles or of retirement. -/
structure Recovers (manner : Manner Value) (record : Value) (p : Pattern Value) : Prop where
  others : ∀ name, name ∉ Snapshot.addedNames →
    (p.document manner).member? name = record.member? name
  firstSeen : p.firstSeen = p.lastSeen
  lastTouched : p.lastTouched = p.lastSeen
  styles : p.styles = []
  retired : p.retired = .bool false

theorem recovers_recovered (manner : Manner Value) (p : Pattern Value) :
    Recovers manner (p.document manner) p.recovered where
  others _ hname := member?_recovered manner p hname
  firstSeen := rfl
  lastTouched := rfl
  styles := rfl
  retired := rfl

end Pattern

/-! ## Documents and sessions -/

open Time (Timestamp)

/-- A number is not null. -/
theorem Label.ne_null_of_isNumber {label : Label} (h : label.IsNumber) :
    (label == Label.null) = false := by
  rw [Bool.eq_false_iff]
  intro hnull
  have hnumeric := numeric_key_iff.2 h
  rw [beq_iff.1 hnull] at hnumeric
  cases hnumeric

namespace Store

variable {s : Store Value} {ps : List (Pattern Value)}

/-- Patterns that can be put in order are separate, whatever their ids are. -/
theorem separate_of_inOrder (hkeyed : s.Keyed) (hcoherent : s.Identified → s.Coherent)
    (h : s.inOrder = .ok ps) : Separate ps := by
  have hperm := perm_of_inOrder h
  have hidentified (hids : ∀ entry ∈ s.patterns, (entry.1 == Label.null) = false) :
      Separate ps := by
    refine (hcoherent fun entry hentry => ?_).separate.perm hperm
    rw [← hkeyed entry hentry]
    exact hids entry hentry
  rcases exists_inOrder_iff.1 ⟨ps, h⟩ with hone | htexts | hnumbers
  · -- There is nothing that a single pattern could be the same as.
    have hlength : ps.length ≤ 1 := by
      rw [hperm.length_eq, List.length_map]
      simpa using hone
    clear h hperm hidentified
    rcases ps with _ | ⟨p, _ | ⟨q, rest⟩⟩
    · exact ⟨.nil, .nil⟩
    · exact ⟨List.pairwise_singleton _ p, List.pairwise_singleton _ p⟩
    · simp at hlength
  · refine hidentified fun entry hentry => ?_
    obtain ⟨text, htext⟩ := htexts entry.1 (List.mem_map_of_mem hentry)
    rw [htext]
    exact text_ne_null text
  · refine hidentified fun entry hentry => ?_
    have hnumber := hnumbers entry.1 (List.mem_map_of_mem hentry)
    exact Label.ne_null_of_isNumber hnumber

/-- Nothing that comes back with the first version makes patterns the same. -/
theorem Separate.recovered (h : Separate ps) : Separate (ps.map Pattern.recovered) where
  ids := List.pairwise_map.2 h.ids
  names := List.pairwise_map.2 h.names

end Store

namespace Snapshot

/-- What remains of a document in the first version: the added fields are gone from the records,
and there are no preferences. -/
structure Remains (members old : Table String Value) : Prop where
  version : old.get? "schema_version" = some (.int 1) ∨
    old.get? "schema_version" = some (.bool true)
  patterns : old.get? "patterns" = some (.list ((records members).map withoutAdded))
  preferences : old.get? "preferences" = none

variable {members old : Table String Value}

theorem Remains.outdated (h : Remains members old) (hlayout : LaidOut members) : Outdated old where
  version := h.version
  patterns := by
    intro value hvalue
    rw [h.patterns] at hvalue
    cases hvalue
    obtain ⟨tables, htables⟩ := hlayout.exists_records
    refine ⟨tables.map fun fields => fields.filter fun field => !addedNames.contains field.1, ?_⟩
    rw [htables, List.map_map, List.map_map]
    rfl
  preferences := by
    intro value hvalue
    rw [h.preferences] at hvalue
    cases hvalue

theorem Remains.records_upgrade (h : Remains members old) :
    records (upgrade old)
      = (records members).map fun record => upgradeRecord (withoutAdded record) := by
  rw [records, get?_upgrade, if_neg (by decide), if_neg (by decide), if_pos rfl, h.patterns]
  show (((records members).map withoutAdded).map upgradeRecord) = _
  rw [List.map_map]
  rfl

theorem Remains.preferences_upgrade (h : Remains members old) :
    Snapshot.preferences (upgrade old) = .object [] := by
  rw [Snapshot.preferences, get?_upgrade, if_neg (by decide), if_pos rfl, h.preferences]
  rfl

/-- Everything that cannot be brought up to date is corrupt. -/
theorem migrate_corrupt {document : Value} (h : ¬ Migratable document) :
    ∃ cause, migrate document = .error (.corrupt cause) := by
  cases hmigrate : migrate document with
  | ok ms => exact absurd (exists_migrate_iff.1 ⟨ms, hmigrate⟩) h
  | error fault =>
    by_contra hcause
    have hstray : fault.IsStray := by
      intro cause hfault
      rw [hfault] at hcause
      exact hcause ⟨cause, rfl⟩
    exact migrate_ne_error hstray document hmigrate

end Snapshot

namespace Memory

/-- A snapshot of writable and separate patterns comes back from its remains. -/
theorem exists_ofSnapshot_of_remains {manner : Manner Value} (hmanner : manner.Plain)
    {now : Timestamp} {ps : List (Pattern Value)} {q : Preferences Value}
    (hps : ∀ p ∈ ps, p.Writable) (hseparate : Store.Separate ps) {old : Table String Value}
    (h : Snapshot.Remains (snapshotOf manner now ps q) old) (m : Memory Value) :
    Snapshot.migrate (.object old) = .ok (Snapshot.upgrade old) ∧
      ∃ n, m.ofSnapshot (Snapshot.upgrade old) = .ok n ∧
        n.store = .ofPatterns m.store.smoothing (ps.map Pattern.recovered) := by
  have houtdated := h.outdated (Snapshot.laidOut_of_migrate migrate_snapshotOf)
  refine ⟨Snapshot.migrate_eq_ok_iff.2 ⟨old, rfl, .inr ⟨houtdated, rfl⟩⟩, ?_⟩
  have hrecords : (Snapshot.records (Snapshot.upgrade old)).mapM
      (Store.patternOf Store.readRecord) = .ok (ps.map Pattern.recovered) := by
    rw [h.records_upgrade]
    show ((ps.map (Pattern.document manner)).map _).mapM _ = _
    rw [List.map_map, List.mapM_map]
    exact Except.mapM_ok fun p hp => Pattern.patternOf_upgradeRecord hmanner (hps p hp)
  -- Without preferences, every weight is as in the beginning.
  obtain ⟨prefs, hprefs⟩ : ∃ prefs, readPreferences (.object []) = .ok prefs := ⟨_, rfl⟩
  rw [← h.preferences_upgrade] at hprefs
  exact ⟨_, ofSnapshot_eq_ok_iff.2 ⟨prefs, _, hprefs, hrecords, hseparate.recovered, rfl⟩, rfl⟩

end Memory

namespace Session

/-- Of a document:

- it is brought up to date if it has the layout of one and its version is one or two, and else
  it is refused as corrupt;
- what it is brought up to is of version two, and doing it again changes nothing; a document of
  version two is not changed at all, and one of version one keeps what it has and gets what it
  lacks;
- if it is what remains of the snapshot of a session in the first version, then it is brought up
  to date and taken in, and the patterns come back with all that the first version knows of
  them.
-/
theorem migration_faithful :
    (∀ document,
      ((∃ ms, Snapshot.migrate document = .ok ms) ↔ Snapshot.Migratable document) ∧
      (¬ Snapshot.Migratable document →
        ∃ cause, Snapshot.migrate document = .error (.corrupt cause))) ∧
    (∀ members ms : Table String Value, Snapshot.migrate (.object members) = .ok ms →
      ms.get? "schema_version" = some (.int 2) ∧
      Snapshot.migrate (.object ms) = .ok ms ∧
      (members.get? "schema_version" = some (.int 2) → ms = members) ∧
      (members.get? "schema_version" ≠ some (.int 2) → Snapshot.Upgraded members ms)) ∧
    ∀ (idOf : IdScheme) (l : Life), (∀ c ∈ l.calls, c.Timely) →
      ∀ (manner : Manner Value), manner.Plain → ∀ now members,
        (l.session idOf).memory.snapshot manner now = .ok members →
        ∀ old, Snapshot.Remains members old → ∀ m : Memory Value,
          ∃ ms n ps, Snapshot.migrate (.object old) = .ok ms ∧ m.ofSnapshot ms = .ok n ∧
            n.store = .ofPatterns m.store.smoothing ps ∧
            List.Forall₂ (Pattern.Recovers manner) (Snapshot.records members) ps := by
  refine ⟨fun document => ⟨Snapshot.exists_migrate_iff, Snapshot.migrate_corrupt⟩, ?_, ?_⟩
  · intro members ms h
    obtain ⟨_, hdocument, hversions⟩ := Snapshot.migrate_eq_ok_iff.1 h
    cases hdocument
    refine ⟨?_, Snapshot.migrate_again h, ?_⟩
    · rcases hversions with ⟨hcurrent, rfl⟩ | ⟨houtdated, rfl⟩
      · exact hcurrent.version
      · exact (Snapshot.upgraded_upgrade houtdated.toLaidOut).version
    · rcases hversions with ⟨hcurrent, rfl⟩ | ⟨houtdated, rfl⟩
      · exact ⟨fun _ => rfl, fun hversion => absurd hcurrent.version hversion⟩
      · refine ⟨fun hversion => ?_, fun _ => Snapshot.upgraded_upgrade houtdated.toLaidOut⟩
        rcases houtdated.version with hone | htrue
        · rw [hone] at hversion
          cases hversion
        · rw [htrue] at hversion
          cases hversion
  · intro idOf l htimely manner hmanner now members hmembers old hold m
    obtain ⟨ps, q, horder, _, rfl⟩ := Memory.snapshot_eq_ok.1 hmembers
    have hwritable := Memory.writable_of_inOrder l.measured (l.legible htimely) horder
    have hseparate := Store.separate_of_inOrder (l.structural Store.structural_keyed)
      (l.structural Store.structural_coherent) horder
    obtain ⟨hmigrate, n, hn, hstore⟩ :=
      Memory.exists_ofSnapshot_of_remains hmanner hwritable hseparate hold m
    refine ⟨_, n, _, hmigrate, hn, hstore, ?_⟩
    show List.Forall₂ _ (ps.map _) (ps.map _)
    rw [List.forall₂_map_left_iff, List.forall₂_map_right_iff, List.forall₂_same]
    exact fun p _ => Pattern.recovers_recovered manner p

/-- What is left of the records of a document in a document of the first version. -/
def firstVersion (members : Table String Value) : Table String Value :=
  [("schema_version", .bool true),
    ("patterns", .list ((Snapshot.records members).map Snapshot.withoutAdded))]

/-- A session has found a call, and its pattern comes back from the first version. Version zero
is refused. -/
theorem migration_faithful_of_call :
    (∃ cause, Snapshot.migrate (.object [("schema_version", .bool false)])
      = .error (.corrupt cause)) ∧
    ∃ settings, ∃ h : outlinedGo.settings = .ok settings,
      let s := ((Life.outlined h (callsIn "a.go")).session bySignature).memory
      ∃ members ms n p, s.snapshot Manner.answer ⟨0, 0⟩ = .ok members ∧
        Snapshot.migrate (.object (firstVersion members)) = .ok ms ∧
        Snapshot.Upgraded (firstVersion members) ms ∧ s.ofSnapshot ms = .ok n ∧
        n.store = .ofPatterns s.store.smoothing [p] ∧
        List.Forall₂ (Pattern.Recovers Manner.answer) (Snapshot.records members) [p] := by
  have hcomputed : (outlinedGo.settings.toOption.any fun settings =>
      let s := (run bySignature (withoutGrammars settings) (callsIn "a.go")).memory
      (s.snapshot Manner.answer ⟨0, 0⟩).toOption.any fun members =>
        decide ((Snapshot.records members).length = 1)) = true := by decide +kernel
  obtain ⟨settings, hsettings, hcomputed⟩ := (Option.any_eq_true _ _).1 hcomputed
  obtain ⟨members, hmembers, hone⟩ := (Option.any_eq_true _ _).1 hcomputed
  have h := Except.toOption_eq_some.1 hsettings
  obtain ⟨hdocuments, hversions, hlives⟩ := migration_faithful
  refine ⟨(hdocuments _).2 ?_, settings, h, ?_⟩
  · rintro ⟨_, hdocument, hcurrent | houtdated⟩
    · cases hdocument
      exact absurd hcurrent.version (by simp [Table.get?_cons])
    · cases hdocument
      exact absurd houtdated.version (by simp [Table.get?_cons])
  · obtain ⟨ms, n, ps, hmigrate, hn, hstore, hrecovers⟩ :=
      hlives bySignature (Life.outlined h (callsIn "a.go")) (timely_callsIn "a.go") Manner.answer
        Manner.plain_answer ⟨0, 0⟩ members (Except.toOption_eq_some.1 hmembers)
        (firstVersion members) ⟨.inr rfl, rfl, rfl⟩
        ((Life.outlined h (callsIn "a.go")).session bySignature).memory
    have hlength : ps.length = 1 := by
      rw [← hrecovers.length_eq]
      exact of_decide_eq_true hone
    obtain ⟨p, rfl⟩ := List.length_eq_one_iff.1 hlength
    have hupgraded := (hversions _ ms hmigrate).2.2.2 (by simp [firstVersion, Table.get?_cons])
    exact ⟨members, ms, n, p, Except.toOption_eq_some.1 hmembers, hmigrate, hupgraded, hn, hstore,
      hrecovers⟩

end Session

end CodeHabits
