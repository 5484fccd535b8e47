import CodeHabits.Proofs.Except
import CodeHabits.Proofs.Table
import CodeHabits.Snapshot

/-!
# `CodeHabits.Proofs.Snapshot.Migration`: which documents are brought up to date

`Current` says what a document of the current version has to be, and `Outdated` what one of
the first version has to be. Nothing else is brought up to date (`migrate_eq_ok_iff`), and a
document that is neither is refused as corrupt.

Bringing a record of the first version up to date gives it the fields that it lacks, behind
those that it has (`upgradeRecord_object`). `Upgraded` says what becomes of the document.
-/

set_option autoImplicit false

namespace CodeHabits

namespace Snapshot

/-! ### The layout -/

/-- There are no records, or they are a list of objects, and there are no preferences, or
they are null or an object. -/
structure LaidOut (members : Table String Value) : Prop where
  patterns : ∀ value, members.get? "patterns" = some value →
    ∃ records : List (Table String Value), value = .list (records.map .object)
  preferences : ∀ value, members.get? "preferences" = some value →
    value = .null ∨ ∃ weights, value = .object weights

theorem checkRecords_eq_ok_iff {position : Nat} {records : List Value} :
    checkRecords position records = .ok () ↔
      ∃ tables : List (Table String Value), records = tables.map .object := by
  induction records generalizing position with
  | nil => exact ⟨fun _ => ⟨[], rfl⟩, fun _ => rfl⟩
  | cons record rest ih =>
    have hrecord : (∃ tables : List (Table String Value), record :: rest = tables.map .object) ↔
        (∃ table, record = .object table) ∧
          ∃ tables : List (Table String Value), rest = tables.map .object := by
      constructor
      · rintro ⟨_ | ⟨table, tables⟩, htables⟩
        · cases htables
        · exact ⟨⟨table, (List.cons.inj htables).1⟩, tables, (List.cons.inj htables).2⟩
      · rintro ⟨⟨table, rfl⟩, tables, rfl⟩
        exact ⟨table :: tables, rfl⟩
    rw [hrecord]
    cases record with
    | object table =>
      show checkRecords (position + 1) rest = .ok () ↔ _
      rw [ih]
      simp
    | _ => exact ⟨nofun, fun h => by obtain ⟨⟨_, h⟩, _⟩ := h; cases h⟩

/-- The records are checked first. -/
theorem checkLayout_object (members : Table String Value) :
    checkLayout (.object members)
      = (match (members.get? "patterns").getD (.list []) with
          | .list records => checkRecords 0 records
          | _ => .error (.corrupt .recordsNotAList)) >>= fun _ =>
        match members.get? "preferences" with
        | none | some .null | some (.object _) => .ok members
        | some _ => .error (.corrupt .preferencesNotAnObject) := by
  unfold checkLayout
  dsimp only
  cases (members.get? "patterns").getD (.list []) <;> rfl

theorem checkLayout_eq_ok_iff {document : Value} {members : Table String Value} :
    checkLayout document = .ok members ↔ document = .object members ∧ LaidOut members := by
  constructor
  · intro h
    cases document with
    | object found =>
      rw [checkLayout_object] at h
      obtain ⟨_, hrecords, hpreferences⟩ := Except.bind_eq_ok.1 h
      have hsame : found = members := by
        split at hpreferences <;> cases hpreferences <;> rfl
      subst hsame
      refine ⟨rfl, fun value hvalue => ?_, fun value hvalue => ?_⟩
      · rw [hvalue, Option.getD_some] at hrecords
        cases value with
        | list records =>
          obtain ⟨tables, rfl⟩ := checkRecords_eq_ok_iff.1 hrecords
          exact ⟨tables, rfl⟩
        | _ => cases hrecords
      · rw [hvalue] at hpreferences
        cases value with
        | null => exact .inl rfl
        | object weights => exact .inr ⟨weights, rfl⟩
        | _ => cases hpreferences
    | _ => cases h
  · rintro ⟨rfl, hlayout⟩
    rw [checkLayout_object]
    refine Except.bind_eq_ok.2 ⟨(), ?_, ?_⟩
    · cases hpatterns : members.get? "patterns" with
      | none => rfl
      | some value =>
        obtain ⟨tables, rfl⟩ := hlayout.patterns value hpatterns
        exact checkRecords_eq_ok_iff.2 ⟨tables, rfl⟩
    · cases hpreferences : members.get? "preferences" with
      | none => rfl
      | some value =>
        rcases hlayout.preferences value hpreferences with rfl | ⟨weights, rfl⟩
        · rfl
        · rfl

theorem LaidOut.exists_records {members : Table String Value} (h : LaidOut members) :
    ∃ tables : List (Table String Value), records members = tables.map .object := by
  cases hpatterns : members.get? "patterns" with
  | none => exact ⟨[], by rw [records, hpatterns]; rfl⟩
  | some value =>
    obtain ⟨tables, rfl⟩ := h.patterns value hpatterns
    exact ⟨tables, by rw [records, hpatterns]⟩

/-! ### The versions -/

/-- What a document of the current version has to be. -/
structure Current (members : Table String Value) : Prop extends LaidOut members where
  version : members.get? "schema_version" = some (.int 2)

/-- What a document of the first version has to be. As a version, `true` is one. -/
structure Outdated (members : Table String Value) : Prop extends LaidOut members where
  version : members.get? "schema_version" = some (.int 1) ∨
    members.get? "schema_version" = some (.bool true)

/-- A document that can be brought up to date. -/
def Migratable (document : Value) : Prop :=
  ∃ members, document = .object members ∧ (Current members ∨ Outdated members)

theorem migrate_eq_ok_iff {document : Value} {ms : Table String Value} :
    migrate document = .ok ms ↔ ∃ members, document = .object members ∧
      (Current members ∧ ms = members ∨ Outdated members ∧ ms = upgrade members) := by
  constructor
  · intro hmigrate
    obtain ⟨members, hlayout, h⟩ := Except.bind_eq_ok.1 hmigrate
    obtain ⟨hdocument, hlayout⟩ := checkLayout_eq_ok_iff.1 hlayout
    refine ⟨members, hdocument, ?_⟩
    cases hversion : members.get? "schema_version" with
    | none => rw [hversion] at h; cases h
    | some value =>
      rw [hversion, Option.getD_some] at h
      cases value with
      | int n =>
        simp only [version?] at h
        by_cases hnewer : currentVersion < n
        · rw [if_pos hnewer] at h
          cases h
        by_cases htwo : n = currentVersion
        · rw [if_neg hnewer, if_pos htwo] at h
          cases h
          rw [htwo] at hversion
          exact .inl ⟨⟨hlayout, hversion⟩, rfl⟩
        by_cases hone : n = 1
        · rw [if_neg hnewer, if_neg htwo, if_pos hone] at h
          cases h
          exact .inr ⟨⟨hlayout, .inl (by rw [hversion, hone])⟩, rfl⟩
        · rw [if_neg hnewer, if_neg htwo, if_neg hone] at h
          cases h
      | bool b =>
        cases b with
        | true =>
          cases h
          exact .inr ⟨⟨hlayout, .inr hversion⟩, rfl⟩
        | false => cases h
      | _ => cases h
  · rintro ⟨members, rfl, ⟨hcurrent, rfl⟩ | ⟨houtdated, rfl⟩⟩
    · rw [migrate, checkLayout_eq_ok_iff.2 ⟨rfl, hcurrent.toLaidOut⟩, Except.ok_bind,
        hcurrent.version]
      rfl
    · rw [migrate, checkLayout_eq_ok_iff.2 ⟨rfl, houtdated.toLaidOut⟩, Except.ok_bind]
      rcases houtdated.version with hversion | hversion
      · rw [hversion]
        rfl
      · rw [hversion]
        rfl

theorem laidOut_of_migrate {members ms : Table String Value}
    (h : migrate (.object members) = .ok ms) : LaidOut members := by
  obtain ⟨_, hdocument, ⟨hcurrent, _⟩ | ⟨houtdated, _⟩⟩ := migrate_eq_ok_iff.1 h
  · cases hdocument
    exact hcurrent.toLaidOut
  · cases hdocument
    exact houtdated.toLaidOut

theorem exists_migrate_iff {document : Value} :
    (∃ ms, migrate document = .ok ms) ↔ Migratable document := by
  simp only [migrate_eq_ok_iff, Migratable]
  constructor
  · rintro ⟨_, members, rfl, ⟨h, _⟩ | ⟨h, _⟩⟩
    · exact ⟨members, rfl, .inl h⟩
    · exact ⟨members, rfl, .inr h⟩
  · rintro ⟨members, rfl, h | h⟩
    · exact ⟨members, members, rfl, .inl ⟨h, rfl⟩⟩
    · exact ⟨upgrade members, members, rfl, .inr ⟨h, rfl⟩⟩

/-! ### What is added -/

/-- What the second version has in a record, with what stands in for it. -/
def additions (record : Table String Value) : Table String Value :=
  let seen := (record.get? "last_seen").getD .null
  [("first_seen", seen), ("last_touched", seen), ("style_counts", .object []),
    ("retired", .bool false)]

/-- The record `new` is `old` with what it lacks behind. -/
def Completes (old new : Value) : Prop :=
  ∃ fields : Table String Value, old = .object fields ∧
    new = .object (fields ++ (additions fields).filter fun field => !fields.has field.1)

theorem upgradeRecord_object (fields : Table String Value) :
    upgradeRecord (.object fields)
      = .object (fields ++ (additions fields).filter fun field => !fields.has field.1) := by
  have hdistinct : Table.Distinct (additions fields) := by
    simp [additions, Table.Distinct]
  rw [← Table.foldl_putNew hdistinct]
  rfl

/-- What becomes of a document of the first version: its records have what they lack, and it
has preferences. -/
structure Upgraded (members ms : Table String Value) : Prop where
  records : List.Forall₂ Completes (records members) (records ms)
  patterns : (ms.get? "patterns").isSome = (members.get? "patterns").isSome
  preferences : ms.get? "preferences" = some ((members.get? "preferences").getD (.object []))
  version : ms.get? "schema_version" = some (.int 2)
  others : ∀ name, name ∉ ["patterns", "preferences", "schema_version"] →
    ms.get? name = members.get? name

theorem get?_upgrade (members : Table String Value) (name : String) :
    (upgrade members).get? name
      = if name = "schema_version" then some (.int 2)
        else if name = "preferences" then some ((members.get? "preferences").getD (.object []))
        else if name = "patterns" then (members.get? "patterns").map upgradeRecords
        else members.get? name := by
  have hput (records : Value) : (members.put "patterns" records).get? name
      = if name = "patterns" then some records else members.get? name := by
    rw [Table.get?_put]
    simp [eq_comm (a := name)]
  unfold upgrade
  dsimp only
  rw [Table.get?_put, Table.get?_putNew]
  by_cases hversion : name = "schema_version"
  · simp [hversion, currentVersion]
  by_cases hpreferences : name = "preferences"
  · rw [hpreferences] at hput ⊢
    cases members.get? "patterns" <;> cases hfound : members.get? "preferences" <;>
      simp [hput, hfound]
  · cases hpatterns : members.get? "patterns" with
    | none =>
      by_cases hname : name = "patterns"
      · simp [hname, hpatterns]
      · simp [Ne.symm hversion, Ne.symm hpreferences, hversion, hpreferences, hname]
    | some records =>
      simp [Ne.symm hversion, Ne.symm hpreferences, hversion, hpreferences, hput]

/-- A list of objects is completed record by record. -/
theorem completes_upgradeRecords {records : Value}
    (h : ∃ tables : List (Table String Value), records = .list (tables.map .object)) :
    ∃ olds news, records = .list olds ∧ upgradeRecords records = .list news ∧
      List.Forall₂ Completes olds news := by
  obtain ⟨tables, rfl⟩ := h
  refine ⟨_, _, rfl, rfl, ?_⟩
  rw [List.forall₂_map_right_iff, List.forall₂_same]
  intro record hrecord
  obtain ⟨fields, _, rfl⟩ := List.mem_map.1 hrecord
  exact ⟨fields, rfl, upgradeRecord_object fields⟩

theorem upgraded_upgrade {members : Table String Value} (h : LaidOut members) :
    Upgraded members (upgrade members) where
  records := by
    rw [records, records, get?_upgrade, if_neg (by decide), if_neg (by decide), if_pos rfl]
    cases hpatterns : members.get? "patterns" with
    | none => exact .nil
    | some value =>
      obtain ⟨olds, news, rfl, hnews, hcompletes⟩ :=
        completes_upgradeRecords (h.patterns value hpatterns)
      rw [Option.map_some, hnews]
      exact hcompletes
  patterns := by
    rw [get?_upgrade, if_neg (by decide), if_neg (by decide), if_pos rfl, Option.isSome_map]
  preferences := by
    rw [get?_upgrade, if_neg (by decide), if_pos rfl]
  version := by
    rw [get?_upgrade, if_pos rfl]
  others := by
    intro name hname
    simp only [List.mem_cons, List.not_mem_nil, or_false, not_or] at hname
    rw [get?_upgrade, if_neg hname.2.2, if_neg hname.2.1, if_neg hname.1]

/-- What is brought up to date is a document of the current version. -/
theorem current_upgrade {members : Table String Value} (h : LaidOut members) :
    Current (upgrade members) where
  version := (upgraded_upgrade h).version
  patterns := by
    intro value hvalue
    rw [get?_upgrade, if_neg (by decide), if_neg (by decide), if_pos rfl] at hvalue
    obtain ⟨old, hold, rfl⟩ := Option.map_eq_some_iff.1 hvalue
    obtain ⟨tables, rfl⟩ := h.patterns old hold
    refine ⟨tables.map fun fields =>
      fields ++ (additions fields).filter fun field => !Table.has fields field.1, ?_⟩
    rw [upgradeRecords, List.map_map, List.map_map]
    exact congrArg Value.list (List.map_congr_left fun fields _ => upgradeRecord_object fields)
  preferences := by
    intro value hvalue
    rw [(upgraded_upgrade h).preferences] at hvalue
    cases hpreferences : members.get? "preferences" with
    | none =>
      rw [hpreferences] at hvalue
      exact .inr ⟨[], (Option.some.inj hvalue).symm⟩
    | some old =>
      rw [hpreferences] at hvalue
      cases hvalue
      exact h.preferences old hpreferences

/-- Bringing a document up to date twice is the same as doing it once. -/
theorem migrate_again {document : Value} {ms : Table String Value}
    (h : migrate document = .ok ms) : migrate (.object ms) = .ok ms := by
  obtain ⟨members, _, ⟨hcurrent, rfl⟩ | ⟨houtdated, rfl⟩⟩ := migrate_eq_ok_iff.1 h
  · exact migrate_eq_ok_iff.2 ⟨ms, rfl, .inl ⟨hcurrent, rfl⟩⟩
  · have hcurrent := current_upgrade houtdated.toLaidOut
    exact migrate_eq_ok_iff.2 ⟨_, rfl, .inl ⟨hcurrent, rfl⟩⟩

end Snapshot

end CodeHabits
