import CodeHabits.Proofs.Memory.Keeping
import CodeHabits.Proofs.Pattern.Written
import CodeHabits.Proofs.Store.Invariants
import CodeHabits.Proofs.Store.Restoring
import CodeHabits.Session

/-!
# `CodeHabits.Proofs.Memory.Restoring`: snapshots that a memory takes in

`Snapshot.Describes` spells out what the members of a snapshot have to be for it
to describe a memory, and which one that is: its preferences can be read, each
of its records describes a pattern, and the patterns are separate. A memory is
rebuilt from a snapshot exactly then (`ofSnapshot_eq_ok_iff`). Of the memory
that it replaces only the smoothing matters.

Taking a snapshot in is either that or a merge into the store (`takeSnapshot_eq_ok`). So what
is true of every pattern stays true if it is true of those that the records describe
(`every_takeSnapshot`).
-/

set_option autoImplicit false

namespace CodeHabits

namespace Snapshot

/-- The preferences of a snapshot. -/
def preferences (members : Table String Value) : Value :=
  ((members.get? "preferences").filter Value.truthy).getD (.object [])

/-- The snapshot describes a memory, whose store moves confidences in a given
way. -/
def Describes (members : Table String Value) (smoothing : Smoothing Value)
    (m : Memory Value) : Prop :=
  ∃ prefs ps, Memory.readPreferences (preferences members) = .ok prefs ∧
    (records members).mapM (Store.patternOf Store.readRecord) = .ok ps ∧
    Store.Separate ps ∧ m = ⟨Store.ofPatterns smoothing ps, prefs, 0⟩

end Snapshot

namespace Memory

theorem ofSnapshot_eq_ok_iff {m n : Memory Value} {members : Table String Value} :
    m.ofSnapshot members = .ok n ↔ Snapshot.Describes members m.store.smoothing n := by
  constructor
  · intro h
    obtain ⟨prefs, hprefs, h⟩ := Except.bind_eq_ok.1 h
    obtain ⟨store, hstore, h⟩ := Except.bind_eq_ok.1 h
    obtain ⟨ps, hps, hseparate, rfl⟩ := Store.ofRecords_eq_ok_iff.1 hstore
    cases h
    exact ⟨prefs, ps, Except.mapError_eq_ok.1 hprefs, hps, hseparate, rfl⟩
  · rintro ⟨prefs, ps, hprefs, hps, hseparate, rfl⟩
    rw [Snapshot.preferences] at hprefs
    rw [ofSnapshot, restore, hprefs]
    show (Store.ofRecords Store.readRecord m.store.smoothing _ >>= _) = _
    rw [Store.ofRecords_eq_ok_iff.2 ⟨ps, hps, hseparate, rfl⟩]
    rfl

/-- A memory that was rebuilt from a snapshot is rebuilt from it once more. -/
theorem ofSnapshot_again {m n : Memory Value} {members : Table String Value}
    (h : m.ofSnapshot members = .ok n) : n.ofSnapshot members = .ok n := by
  rw [ofSnapshot_eq_ok_iff] at h ⊢
  obtain ⟨prefs, ps, hprefs, hps, hseparate, rfl⟩ := h
  exact ⟨prefs, ps, hprefs, hps, hseparate, rfl⟩

/-- A snapshot describes one memory at most. -/
theorem describes_unique {members : Table String Value} {smoothing : Smoothing Value}
    {m n : Memory Value} (hm : Snapshot.Describes members smoothing m)
    (hn : Snapshot.Describes members smoothing n) : m = n := by
  obtain ⟨prefs, ps, hprefs, hps, _, rfl⟩ := hm
  obtain ⟨prefs', ps', hprefs', hps', _, rfl⟩ := hn
  rw [hprefs] at hprefs'
  rw [hps] at hps'
  cases hprefs'
  cases hps'
  rfl

/-- A snapshot that is taken in describes the memory that is left, or was merged into the
store. -/
theorem takeSnapshot_eq_ok {idOf : IdScheme} {m n : Memory Value} {document : Value}
    {replace : Bool} {count : Nat}
    (h : (takeSnapshot idOf document replace).outcome m = (.ok count, n)) :
    ∃ members, Snapshot.migrate document = .ok members ∧
      (replace = true → Snapshot.Describes members m.store.smoothing n) ∧
      (replace = false → ∃ s, n = { m with store := s } ∧
        (Store.merge idOf Store.readRecord .default (Snapshot.records members)).outcome m.store
          = (.ok count, s)) := by
  unfold takeSnapshot at h
  obtain ⟨members, u, htaken, h⟩ := Change.bind_eq_ok.1 h
  obtain ⟨hmigrate, rfl⟩ := Change.ofExcept_eq_ok.1 htaken
  refine ⟨members, hmigrate, ?_⟩
  cases replace with
  | true =>
    rw [if_pos rfl, Change.outcome_bind_get] at h
    obtain ⟨rebuilt, u, htaken, h⟩ := Change.bind_eq_ok.1 h
    obtain ⟨hrebuilt, rfl⟩ := Change.ofExcept_eq_ok.1 htaken
    rw [Change.outcome_bind_set, Change.outcome_bind_get] at h
    cases h
    exact ⟨fun _ => ofSnapshot_eq_ok_iff.1 hrebuilt, nofun⟩
  | false =>
    rw [if_neg Bool.false_ne_true, inStore, Change.outcome_within] at h
    obtain ⟨hresult, rfl⟩ := Prod.mk.inj h
    exact ⟨nofun, fun _ => ⟨_, rfl, Prod.ext hresult rfl⟩⟩

/-- What is true of every pattern stays true if it is true of those that are taken in, with
whatever id, and if it is kept by what gains from them. -/
theorem every_takeSnapshot {P : Pattern Value → Prop} (idOf : IdScheme) {document : Value}
    (replace : Bool)
    (hread : ∀ members ps, Snapshot.migrate document = .ok members →
      (Snapshot.records members).mapM (Store.patternOf Store.readRecord) = .ok ps →
        ∀ p ∈ ps, P p ∧ Change.Keeps P (Store.gain p) ∧ ∀ id, P { p with id := .text id }) :
    Change.Keeps (fun m => m.store.Every P) (takeSnapshot idOf document replace) := by
  unfold takeSnapshot
  refine Change.keeps_bind_ofExcept fun members hmigrate => ?_
  cases replace with
  | true =>
    refine Change.keeps_bind Change.keeps_get fun m => ?_
    refine Change.keeps_bind_ofExcept fun n hn => ?_
    refine Change.keeps_bind (fun _ _ => ?_) fun _ => ?_
    · obtain ⟨_, ps, _, hps, _, rfl⟩ := ofSnapshot_eq_ok_iff.1 hn
      exact Store.every_ofPatterns fun p hp => (hread members ps hmigrate hps p hp).1
    · exact Change.keeps_bind Change.keeps_get fun _ => Change.keeps_pure _
  | false =>
    refine keeps_inStore (Store.every_merge fun incoming hincoming => ?_)
    obtain ⟨ps, hps, _, rfl⟩ := Store.ofRecords_eq_ok_iff.1 hincoming
    exact Store.every_ofPatterns fun p hp => (hread members ps hmigrate hps p hp).2

end Memory

/-!
## Learning keeps the store coherent

The steps that learning is made of keep the agreement of patterns and index, and
so does taking in a snapshot. A snapshot may name its patterns in any way, but a
null id would break the agreement later on, so snapshots are `Identified`: none
of their records has one.
-/

open Time (Timestamp)

/-- No record of the document has a null id. -/
def Snapshot.Identified (document : Value) : Prop :=
  ∀ members, Snapshot.migrate document = .ok members →
    ∀ record ∈ Snapshot.records members, record.member? "id" ≠ some .null

namespace Memory

variable {ν : Type}

theorem coherent_empty (m : Smoothing ν) : (empty m).store.Coherent :=
  Store.coherent_empty m

/-- Forgetting changes patterns in their place. -/
theorem outline_forgetEach [Magnitude ν] (rules : Learning ν) (window : Int) (now : Timestamp)
    (passed : List (Pattern ν)) (s : Store ν) :
    { s with patterns := forgetEach rules window now passed s.patterns }.outline = s.outline := by
  rw [Store.outline, Store.outline, forgetEach, List.map_map]
  refine List.map_congr_left fun entry _ => ?_
  show (_ : Label × Label × Label × Label) = _
  simp only [Function.comp_apply]
  split
  · cases hforget : rules.forget window now entry.2 with
    | error fault => rfl
    | ok q =>
      obtain ⟨hid, hname⟩ := Learning.is_forget hforget
      show (entry.1, q.id, q.name) = _
      rw [hid, hname]
  · rfl

variable [Magnitude ν]

/-- Forgetting keeps what the outline and the index decide. -/
theorem ofOutline_decay {P : Store ν → Prop} (hP : Store.OfOutline P) (rules : Learning ν)
    (now : Timestamp) : Change.Keeps (fun m : Memory ν => P m.store) (decay rules now) := by
  refine keeps_decay fun window passed m h => ?_
  exact hP m.store _ h (outline_forgetEach rules window now passed m.store) rfl

/-- So does a reaction. -/
theorem ofOutline_takeIn {P : Store ν → Prop} (hP : Store.OfOutline P) (rules : Learning ν)
    (id : Label) (e : Event) :
    Change.Keeps (fun m : Memory ν => P m.store) (takeIn rules id e) := by
  unfold takeIn
  refine Change.keeps_bind (keeps_inStore (hP.keeps_edit fun id name => ?_)) fun p => ?_
  · exact Change.keeps_bind (Learning.is_learn rules e) fun _ => Change.keeps_get
  · exact Change.keeps_within (Q := fun _ => True) (fun _ _ => trivial) (fun _ _ h _ => h)
      fun _ _ => trivial

theorem coherent_decay (rules : Learning ν) (now : Timestamp) :
    Change.Keeps (fun m : Memory ν => m.store.Coherent) (decay rules now) :=
  ofOutline_decay Store.coherent_ofOutline rules now

theorem coherent_takeIn (rules : Learning ν) (id : Label) (e : Event) :
    Change.Keeps (fun m : Memory ν => m.store.Coherent) (takeIn rules id e) :=
  ofOutline_takeIn Store.coherent_ofOutline rules id e

theorem coherent_learn (idOf : IdScheme) (now : Timestamp) (c : Sighting) :
    Change.Keeps (fun m : Memory ν => m.store.Coherent) (learn idOf now c) :=
  keeps_inStore (Store.coherent_upsert idOf now c)

/-- The store that a snapshot describes. -/
theorem coherent_ofSnapshot {m n : Memory Value} {document : Value} {members : Table String Value}
    (hidentified : Snapshot.Identified document) (hmembers : Snapshot.migrate document = .ok members)
    (h : m.ofSnapshot members = .ok n) : n.store.Coherent := by
  obtain ⟨preferences, _, h⟩ := Except.bind_eq_ok.1 h
  obtain ⟨store, hstore, h⟩ := Except.bind_eq_ok.1 h
  cases h
  refine Store.coherent_ofRecords (fun record hrecord d hd hnull => ?_) hstore
  refine hidentified members hmembers record hrecord ?_
  rw [(Draft.read_eq_ok_iff.1 hd).id, hnull]

/-- A snapshot is taken in place of the store or merged into it. -/
theorem coherent_takeSnapshot (idOf : IdScheme) {document : Value} (replace : Bool)
    (hidentified : Snapshot.Identified document) :
    Change.Keeps (fun m : Memory Value => m.store.Coherent) (takeSnapshot idOf document replace) := by
  unfold takeSnapshot
  refine Change.keeps_bind_ofExcept fun members hmembers => ?_
  cases replace with
  | false => exact keeps_inStore (Store.coherent_merge idOf _ _ _)
  | true =>
    refine Change.keeps_bind Change.keeps_get fun m => ?_
    refine Change.keeps_bind_ofExcept fun n hn => ?_
    refine Change.keeps_bind (fun _ _ => ?_) fun _ => ?_
    · exact coherent_ofSnapshot hidentified hmembers hn
    · exact Change.keeps_bind Change.keeps_get fun _ => Change.keeps_pure _

end Memory

end CodeHabits
