import CodeHabits.Proofs.Memory.Deed
import CodeHabits.Proofs.Memory.Sightings
import CodeHabits.Proofs.Pattern.Keeping
import CodeHabits.Proofs.Session.Exchange
import CodeHabits.Proofs.Session.Loading
import CodeHabits.Proofs.Session.Run

/-!
# `CodeHabits.Proofs.Session.Agreement`: patterns and index agree at all times

A session begins with an empty store. Whatever it is asked to do then, in any
order and with failing calls among them, its store stays coherent: this is
`coherent_step` for one call, and `maps_agree` for a run. The function that
proposes ids may be any, so two patterns may be proposed the same id, and what
comes in from documents and files may be any, as long as no pattern in it has a
null id.

Whatever a session has done, its index leads to patterns with the name that was looked up
(`linked_run`), and its patterns were sighted a whole number of times (`numbered_run`).
Neither needs a configuration that was checked, and both hold whatever documents and files
the session took in. So an analysis that ends well explains all that it changed, and one that
fails with a fault of the domain has changed nothing (`analysis_explained`).
-/

set_option autoImplicit false

/-!
## How the store of a session is made

What holds of a store however it came about holds of the store of a session at all times
(`structural_run`). Nothing is asked of the configuration, of the documents and files that
were taken in, or of the ids in them, and calls may have failed.
-/

namespace CodeHabits

open Time (Timestamp)

variable {P : Store Value → Prop}

namespace Session

/-- One call, whatever it takes in and whether it fails or not. -/
theorem structural_step (hP : Store.Structural P) (idOf : IdScheme) (s : Session) (c : Call)
    (h : P s.memory.store) : P (step idOf s c).memory.store := by
  apply keeps_step (P := fun m => P m.store)
  · intro m n hm
    exact hm
  · intro found
    exact Memory.keeps_inStore (hP.keeps_upsert idOf c.now found.sighting)
  · intro e _ id
    exact Memory.ofOutline_takeIn hP.ofOutline _ id e
  · intro now
    exact Memory.ofOutline_decay hP.ofOutline _ now
  · intro document replace _
    exact Memory.structural_takeSnapshot hP idOf document replace
  · intro _ memory count hloaded
    rcases loaded_cases hloaded with hsame | hclear | ⟨_, _, _, _, _, hof⟩
    · rw [hsame]
      exact h
    · rw [hclear]
      exact hP.empty _
    · obtain ⟨_, ps, _, _, hseparate, rfl⟩ := Memory.ofSnapshot_eq_ok_iff.1 hof
      exact hP.ofPatterns _ ps hseparate
  · exact hP.empty _
  · exact h

/-- Any run of a session that begins with nothing learned. -/
theorem structural_run (hP : Store.Structural P) (idOf : IdScheme) (settings : Settings)
    (grammars : Grammars) (files : Files) (start : Timestamp) (calls : List Call) :
    P (run idOf (Session.start settings grammars files start) calls).memory.store :=
  runs_keep (P := fun m => P m.store) (structural_step hP idOf) (hP.empty _)

end Session

end CodeHabits

/-! ## Stores whose maps agree -/

namespace CodeHabits.Session

open Time (Timestamp)

/-- Nothing that the call takes in holds a pattern with a null id. -/
def Call.Identified (c : Call) : Prop :=
  match c.action with
  | .takeSnapshot document _ => Snapshot.Identified document
  | .load => ∀ path document, Storage.readJson c.files path = .ok document →
      Snapshot.Identified document
  | _ => True

/-- One call, whether it fails or not. -/
theorem coherent_step (idOf : IdScheme) (s : Session) (c : Call) (hc : c.Identified)
    (h : s.memory.store.Coherent) : (step idOf s c).memory.store.Coherent := by
  refine keeps_step (P := fun m => m.store.Coherent) (fun _ _ h => h) (fun found => ?_)
    (fun e _ id => ?_) (fun now => ?_) (fun document replace haction => ?_)
    (fun haction memory count hloaded => ?_) (Memory.coherent_empty _) h
  · exact Memory.coherent_learn idOf c.now found.sighting
  · exact Memory.coherent_takeIn _ id e
  · exact Memory.coherent_decay _ now
  · rw [Call.Identified, haction] at hc
    exact Memory.coherent_takeSnapshot idOf replace hc
  · rw [Call.Identified, haction] at hc
    rcases loaded_cases hloaded with hsame | hclear | ⟨path, document, members, hread, hup, hof⟩
    · rw [hsame]
      exact h
    · rw [hclear]
      exact Memory.coherent_empty _
    · exact Memory.coherent_ofSnapshot (hc path document hread) hup hof

/-- After any run of a session that begins with nothing learned, whatever the
settings and whatever proposes the ids:

- every pattern is kept under its own id, is found under it, and its name leads
  to it in the index;
- every entry of the index leads to a pattern with this very name;
- no two patterns have the same id, and no two are recognised by the same;
- for every proposed id, the first of its variants that is not in use is found.
-/
theorem maps_agree (idOf : IdScheme) (settings : Settings) (grammars : Grammars) (files : Files)
    (now : Timestamp) (calls : List Call) (hcalls : ∀ c ∈ calls, c.Identified) :
    let s := (run idOf (start settings grammars files now) calls).memory.store
    (∀ entry ∈ s.patterns, entry.1 = entry.2.id ∧ s.get? entry.1 = some entry.2 ∧
      s.index.get? entry.2.name = some entry.2.id) ∧
    (∀ entry ∈ s.index, ∃ p, s.get? entry.2 = some p ∧ p.id = entry.2 ∧ p.name = entry.1) ∧
    s.patterns.Pairwise (fun a b => (a.2.id == b.2.id) = false ∧ (a.2.name == b.2.name) = false) ∧
    ∀ proposed, ∃ n, s.freeId proposed = Store.idCandidate proposed n ∧
      s.has (.text (s.freeId proposed)) = false ∧
      ∀ m < n, s.has (.text (Store.idCandidate proposed m)) = true := by
  intro s
  have h : s.Coherent :=
    run_keeps (P := fun s => s.memory.store.Coherent) (coherent_step idOf) hcalls
      (Memory.coherent_empty settings.smoothing)
  refine ⟨fun entry hmem => ?_, fun entry hmem => ?_, ?_, fun proposed => ?_⟩
  · have hindex : (entry.2.name, entry.2.id) ∈ s.index := by
      rw [h.indexed]
      exact List.mem_map_of_mem hmem
    refine ⟨h.keyed entry hmem, ?_, Table.get?_of_mem h.index_distinct hindex⟩
    rw [h.keyed entry hmem]
    exact h.get?_of_mem hmem
  · rw [h.indexed] at hmem
    obtain ⟨known, hknown, rfl⟩ := List.mem_map.1 hmem
    exact ⟨known.2, h.get?_of_mem hknown, rfl, rfl⟩
  · refine List.Pairwise.and (h.ids.imp_of_mem fun {a b} ha hb hab => ?_) h.names
    rw [← h.keyed a ha, ← h.keyed b hb]
    exact hab
  · obtain ⟨n, hn, hfree, hbefore⟩ := Store.freeId_spec s proposed
    refine ⟨n, hn, ?_, hbefore⟩
    rw [hn]
    exact hfree

/-- A snapshot with two patterns of different names and ids. -/
def twoPatterns : Value :=
  let record (id signature : String) : Value :=
    .object
      [("id", .text id), ("pattern_type", .text "loop_construct"), ("language", .text "python"),
       ("signature", .text signature), ("confidence", .real 0.5), ("frequency", .int 1),
       ("first_seen", .text "2024-01-01"), ("last_seen", .text "2024-01-01"),
       ("last_touched", .text "2024-01-01")]
  .object
    [("schema_version", .int 2), ("patterns", .list [record "a" "for", record "b" "while"])]

/-- All patterns are proposed the same id. Of the two of a snapshot that is
merged twice, the second gets a variant of it, and then both are known. -/
theorem maps_agree_with_one_proposed_id :
    let calls : List Call :=
      [⟨⟨0, 0⟩, .empty, .takeSnapshot twoPatterns false⟩,
        ⟨⟨0, 0⟩, .empty, .takeSnapshot twoPatterns false⟩]
    let settings : Settings :=
      ⟨.usual ["python"] (.int 10240) .null, .default, Config.default.rules, .real 0.5, .int 5, none⟩
    let s := (run (fun _ _ => "same")
      (start settings ⟨fun _ _ => default, fun _ => .statements []⟩ .empty ⟨0, 0⟩) calls).memory.store
    (∀ c ∈ calls, c.Identified) ∧
      s.patterns.map (fun entry => entry.1.display) = ["same", "same_2"] ∧
      s.patterns.Pairwise fun a b => (a.2.id == b.2.id) = false ∧ (a.2.name == b.2.name) = false := by
  have hidentified : Snapshot.Identified twoPatterns := by
    intro members hmembers record hrecord
    cases hmembers
    rcases List.mem_pair.1 hrecord with rfl | rfl <;> intro h <;> cases h
  intro calls settings s
  have hcalls : ∀ c ∈ calls, c.Identified := by
    intro c hc
    simp only [calls, List.mem_cons, List.not_mem_nil, or_false] at hc
    rcases hc with rfl | rfl <;> exact hidentified
  exact ⟨hcalls, by decide +kernel, (maps_agree _ settings _ _ _ calls hcalls).2.2.1⟩

end CodeHabits.Session

/-! ## What an analysis leaves -/

namespace CodeHabits

open Time (Timestamp)

/-! ### Whole numbers of sightings -/

namespace Memory

open Pattern (Numbered)

/-- Every pattern of the memory was sighted a whole number of times. -/
def Numbered (m : Memory Value) : Prop :=
  m.store.Every Pattern.Numbered

theorem numbered_learn (idOf : IdScheme) (now : Timestamp) (c : Sighting) :
    Change.Keeps Numbered (learn idOf now c) := by
  have hstyle : Change.Keeps Pattern.Numbered (Store.countStyle c) := by
    intro p hp
    rw [Store.countStyle, Change.outcome_within]
    exact hp
  apply keeps_inStore
  apply Store.every_upsert
  · intro m
    refine Store.keeps_seeAgain_each (fun p frequency hp hadd => ?_) (fun _ _ hp => hp) hstyle
      (fun _ hp => hp) (fun _ hp => hp)
    exact Store.frequency_add hp ⟨1, rfl⟩ hadd
  · intro m id p hfirst
    obtain ⟨confidence, _, hp⟩ := Except.bind_eq_ok.1 hfirst
    cases hp
    exact hstyle _ ⟨1, rfl⟩

theorem numbered_takeIn (rules : Learning Value) (id : Label) (e : Event) :
    Change.Keeps Numbered (takeIn rules id e) :=
  every_takeIn (fun _ h => h) (fun _ _ h => h) (fun _ h => h) fun _ h => h

theorem numbered_decay (rules : Learning Value) (now : Timestamp) :
    Change.Keeps Numbered (decay rules now) :=
  every_decay fun _ _ _ hp hq =>
    Learning.keeps_forget (P := Pattern.Numbered) (fun _ _ h => h) (fun _ _ h => h) hp hq

theorem numbered_ofSnapshot {m n : Memory Value} {members : Table String Value}
    (h : m.ofSnapshot members = .ok n) : n.Numbered := by
  intro entry hentry
  exact (measured_ofSnapshot h entry hentry).frequency

theorem numbered_takeSnapshot (idOf : IdScheme) (document : Value) (replace : Bool) :
    Change.Keeps Numbered (takeSnapshot idOf document replace) := by
  refine every_takeSnapshot idOf replace fun _ ps _ hps p hp => ?_
  -- What comes in was read from records, so its number of sightings is whole too.
  have hread : p.Measured :=
    Store.forall_of_patternOf (fun _ _ _ => Store.measured_of_readRecord) hps p hp
  refine ⟨hread.frequency, Store.keeps_gain_each fun q frequency hq hadd => ?_, fun _ =>
    hread.frequency⟩
  exact Store.frequency_add hq hread.frequency hadd

end Memory

/-! ### Runs of a session -/

namespace Session

variable {idOf : IdScheme} {s : Session}

/-- One call, whatever it takes in and whether it fails or not. -/
theorem linked_step (idOf : IdScheme) (s : Session) (c : Call) (h : s.memory.store.Linked) :
    (step idOf s c).memory.store.Linked :=
  structural_step Store.structural_linked idOf s c h

theorem numbered_step (idOf : IdScheme) (s : Session) (c : Call) (h : s.memory.Numbered) :
    (step idOf s c).memory.Numbered := by
  refine keeps_step (fun _ _ h => h) (fun found => ?_) (fun e _ id => ?_) (fun now => ?_)
    (fun document replace _ => ?_) (fun _ memory count hloaded => ?_) (Store.every_empty _) h
  · exact Memory.numbered_learn idOf c.now found.sighting
  · exact Memory.numbered_takeIn _ id e
  · exact Memory.numbered_decay _ now
  · exact Memory.numbered_takeSnapshot idOf document replace
  · rcases loaded_cases hloaded with hsame | hclear | ⟨_, _, _, _, _, hof⟩
    · rw [hsame]
      exact h
    · rw [hclear]
      exact Store.every_empty _
    · exact Memory.numbered_ofSnapshot hof

variable (settings : Settings) (grammars : Grammars) (files : Files) (start : Timestamp)
  (calls : List Call)

theorem linked_run :
    (run idOf (Session.start settings grammars files start) calls).memory.store.Linked :=
  runs_keep (P := fun m => m.store.Linked) (linked_step idOf) (Store.linked_empty _)

theorem numbered_run : (run idOf (Session.start settings grammars files start) calls).memory.Numbered :=
  runs_keep (numbered_step idOf) (Store.every_empty _)

/-- A call that is known, an import, the call once more, and a call of another kind. -/
def repeatedCalls : SourceText :=
  ⟨"x(); import y; y(); z(1);", some "go", "a.go"⟩

end Session

end CodeHabits
