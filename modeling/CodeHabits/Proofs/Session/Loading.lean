import CodeHabits.Proofs.Session.Run
import CodeHabits.Proofs.Snapshot.Escaping

/-!
# `CodeHabits.Proofs.Session.Loading`: what loading can come to

Loading reads the file, brings its document up to date and rebuilds the memory
from it. A corruption on the way is caught and gives an empty memory; any other
fault ends the loading. `loaded_eq` has one case for each.

Which faults end it is known from the content of the file. `Storage.Escapes`
lists them: a whole number with too many digits for the JSON reader, and what
escapes from a snapshot. `load_outcome` puts everything together. For any file
at all, loading fails exactly if the file escapes; else the memory is the one
that the file describes, or an empty one if it describes none.
-/

set_option autoImplicit false

namespace CodeHabits

/-! ### Reading the file -/

namespace Snapshot

variable {fault : Fault}

theorem corrupt_ne_error {α : Type} {cause : Corruption} (hfault : fault.IsStray) :
    (throw (.corrupt cause) : Except Fault α) ≠ .error fault :=
  fun h => hfault cause (Except.error.inj h).symm

theorem checkRecords_ne_error (hfault : fault.IsStray) (records : List Value) (position : Nat) :
    checkRecords position records ≠ .error fault := by
  induction records generalizing position with
  | nil => nofun
  | cons record rest ih =>
    cases record with
    | object members => exact ih _
    | _ => exact corrupt_ne_error hfault

theorem checkLayout_ne_error (hfault : fault.IsStray) (document : Value) :
    checkLayout document ≠ .error fault := by
  unfold checkLayout
  split
  · -- Whatever the preferences are, the records are checked first.
    split
    all_goals
      dsimp only
      split
      · refine Except.bind_ne_error (checkRecords_ne_error hfault _ _) fun _ => ?_
        first
        | exact corrupt_ne_error hfault
        | simp
      · refine Except.bind_ne_error (corrupt_ne_error hfault) fun _ => ?_
        first
        | exact corrupt_ne_error hfault
        | simp
  · exact corrupt_ne_error hfault

/-- What is wrong with the layout or the version of a document is a
corruption. -/
theorem migrate_ne_error (hfault : fault.IsStray) (document : Value) :
    migrate document ≠ .error fault := by
  refine Except.bind_ne_error (checkLayout_ne_error hfault document) fun members => ?_
  dsimp only
  split
  · exact corrupt_ne_error hfault
  · split
    · exact corrupt_ne_error hfault
    · split
      · nofun
      · split
        · nofun
        · exact corrupt_ne_error hfault

end Snapshot

namespace Storage

/-- A snapshot that is loaded is the up-to-date form of the document in the
file. -/
theorem load_eq_some {files : Files} {path : FilePath} {members : Table String Value}
    (h : load files path = .ok (some members)) :
    ∃ document, readJson files path = .ok document ∧ Snapshot.migrate document = .ok members := by
  unfold load at h
  split at h
  · cases h
  · obtain ⟨document, hread, h⟩ := Except.bind_eq_ok.1 h
    obtain ⟨found, hfound, h⟩ := Except.bind_eq_ok.1 h
    cases h
    exact ⟨document, Except.mapError_eq_ok.1 hread, hfound⟩

/-- Nothing is loaded only if nothing is there. -/
theorem load_eq_none {files : Files} {path : FilePath} :
    load files path = .ok none ↔ files.isThere path = false := by
  unfold load
  cases files.isThere path with
  | false => simp
  | true =>
    simp only [Bool.not_true, Bool.false_eq_true, if_false]
    constructor
    · intro h
      obtain ⟨document, _, h⟩ := Except.bind_eq_ok.1 h
      obtain ⟨found, _, h⟩ := Except.bind_eq_ok.1 h
      cases h
    · nofun

/-- A file holds text whose reading as JSON stops at a whole number with too
many digits. -/
def Overlong (files : Files) (path : FilePath) : Prop :=
  ∃ cs, files.chars path = .ok cs ∧ Json.read (String.ofList cs) = .error .tooLong

/-- A file that can be read is there. -/
theorem isThere_of_chars {files : Files} {path : FilePath} {cs : List Char}
    (h : files.chars path = .ok cs) : files.isThere path = true := by
  obtain ⟨bytes, hbytes, _⟩ := Except.bind_eq_ok.1 h
  have hfile : files.isFile path = true := by
    rw [Files.isFile, Table.has_eq_isSome_get?]
    cases hget : files.contents.get? path with
    | some bytes => rfl
    | none =>
      simp only [Files.bytes, hget] at hbytes
      split at hbytes
      · cases hbytes
      · split at hbytes <;> cases hbytes
  simp [Files.isThere, hfile]

/-- What can be read and is of a known layout is loaded. -/
theorem load_of_readJson {files : Files} {path : FilePath} {document : Value}
    {members : Table String Value} (hread : readJson files path = .ok document)
    (hmigrate : Snapshot.migrate document = .ok members) : load files path = .ok (some members) := by
  obtain ⟨cs, hcs, _⟩ := Except.bind_eq_ok.1 hread
  rw [load, isThere_of_chars hcs, hread]
  show (do let members ← Snapshot.migrate document; return some members) = _
  rw [hmigrate]
  rfl

/-- Of what is wrong with a file only a whole number with too many digits is
refused as such. -/
theorem readJson_eq_refused {files : Files} {path : FilePath} {cause : Refusal} :
    readJson files path = .error (.refused cause) ↔
      Overlong files path ∧ cause = .unreadable := by
  have hchars : files.chars path ≠ .error (.refused cause) := by
    refine Except.bind_ne_error ?_ fun bytes => ?_
    · unfold Files.bytes
      split
      · nofun
      · split
        · nofun
        · split <;> nofun
    · split <;> nofun
  constructor
  · intro h
    rcases Except.bind_eq_error.1 h with h | ⟨cs, hcs, h⟩
    · exact absurd h hchars
    · unfold decode at h
      split at h
      · cases h
      · cases h
      · rename_i hread
        cases h
        exact ⟨⟨cs, hcs, hread⟩, rfl⟩
  · rintro ⟨⟨cs, hcs, hread⟩, rfl⟩
    rw [readJson, hcs, Except.ok_bind, decode, hread]

theorem load_stray_iff {files : Files} {path : FilePath} {fault : Fault} :
    (load files path = .error fault ∧ fault.IsStray) ↔
      Overlong files path ∧ fault = .refused .unreadable := by
  constructor
  · rintro ⟨h, hfault⟩
    unfold load at h
    split at h
    · cases h
    · rcases Except.bind_eq_error.1 h with h | ⟨document, _, h⟩
      · obtain ⟨cause, hcause, h⟩ := Except.mapError_eq_error.1 h
        split at h
        · cases h
          obtain ⟨hlong, rfl⟩ := readJson_eq_refused.1 hcause
          exact ⟨hlong, rfl⟩
        · cases h
          exact absurd hfault Fault.not_isStray_corrupt
      · rcases Except.bind_eq_error.1 h with h | ⟨members, _, h⟩
        · exact absurd h (Snapshot.migrate_ne_error hfault document)
        · cases h
  · rintro ⟨hlong, rfl⟩
    refine ⟨?_, fun cause h => nomatch h⟩
    obtain ⟨cs, hcs, _⟩ := id hlong
    rw [load, isThere_of_chars hcs, readJson_eq_refused.2 ⟨hlong, rfl⟩]
    rfl

/-- A file escapes: by a whole number with too many digits, or by the snapshot
that it holds. -/
inductive Escapes (files : Files) (path : FilePath) : Fault → Prop
  | overlong (h : Overlong files path) : Escapes files path (.refused .unreadable)
  | snapshot {members : Table String Value} {fault : Fault}
    (hload : load files path = .ok (some members)) (h : Snapshot.Escapes members fault) :
    Escapes files path fault

end Storage

/-! ### Loading a session -/

namespace Session

/-- A corruption gives an empty memory. -/
def failClosed (s : Session) : Fault → Except Fault (Memory Value × Nat)
  | .corrupt _ => .ok (s.memory.clear, 0)
  | fault => .error fault

theorem loaded_eq {s : Session} {path : FilePath} (hpath : s.settings.storage? = some path) :
    s.loaded = match Storage.load s.files path with
      | .error fault => s.failClosed fault
      | .ok none => .ok (s.memory, 0)
      | .ok (some members) =>
        match s.memory.ofSnapshot members with
        | .error fault => s.failClosed fault
        | .ok memory => .ok (memory, memory.store.size) := by
  simp only [loaded, hpath]
  cases hload : Storage.load s.files path with
  | error fault => cases fault <;> rfl
  | ok found =>
    cases found with
    | none => rfl
    | some members =>
      simp only [Except.ok_bind]
      cases s.memory.ofSnapshot members with
      | error fault => cases fault <;> rfl
      | ok memory => rfl

/-- Failing closed goes on with nothing learned, unless the fault is no
corruption. -/
theorem failClosed_eq_error {s : Session} {cause fault : Fault} :
    s.failClosed cause = .error fault ↔ cause = fault ∧ fault.IsStray := by
  constructor
  · intro h
    cases cause <;> cases h <;> exact ⟨rfl, fun cause h => nomatch h⟩
  · rintro ⟨rfl, h⟩
    cases cause with
    | corrupt cause => exact absurd h Fault.not_isStray_corrupt
    | _ => rfl

theorem failClosed_eq_ok {s : Session} {cause : Fault} {loaded : Memory Value × Nat} :
    s.failClosed cause = .ok loaded ↔ ¬ cause.IsStray ∧ loaded = (s.memory.clear, 0) := by
  constructor
  · intro h
    cases cause <;> cases h
    exact ⟨Fault.not_isStray_corrupt, rfl⟩
  · rintro ⟨hstray, rfl⟩
    cases cause with
    | corrupt cause => rfl
    | _ => exact absurd (fun cause h => nomatch h) hstray

/-- What is loaded is what was there before, nothing, or what a document
describes. -/
theorem loaded_cases {s : Session} {memory : Memory Value} {count : Nat}
    (h : s.loaded = .ok (memory, count)) :
    memory = s.memory ∨ memory = s.memory.clear ∨
      ∃ path document members, Storage.readJson s.files path = .ok document ∧
        Snapshot.migrate document = .ok members ∧ s.memory.ofSnapshot members = .ok memory := by
  have hclosed : ∀ fault, s.failClosed fault = .ok (memory, count) → memory = s.memory.clear := by
    intro fault h
    cases fault <;> cases h
    rfl
  cases hpath : s.settings.storage? with
  | none =>
    rw [loaded, hpath] at h
    cases h
    exact .inl rfl
  | some path =>
    rw [loaded_eq hpath] at h
    split at h
    · exact .inr (.inl (hclosed _ h))
    · cases h
      exact .inl rfl
    · rename_i members hload
      obtain ⟨document, hread, hmembers⟩ := Storage.load_eq_some hload
      split at h
      · exact .inr (.inl (hclosed _ h))
      · rename_i hmemory
        cases h
        exact .inr (.inr ⟨path, document, members, hread, hmembers, hmemory⟩)

theorem loaded_eq_error_iff {s : Session} {path : FilePath}
    (hpath : s.settings.storage? = some path) {fault : Fault} :
    s.loaded = .error fault ↔ Storage.Escapes s.files path fault := by
  rw [loaded_eq hpath]
  constructor
  · intro h
    split at h
    · rename_i cause hload
      obtain ⟨rfl, hfault⟩ := failClosed_eq_error.1 h
      obtain ⟨hlong, rfl⟩ := Storage.load_stray_iff.1 ⟨hload, hfault⟩
      exact .overlong hlong
    · cases h
    · rename_i members hload
      split at h
      · rename_i cause hof
        obtain ⟨rfl, hfault⟩ := failClosed_eq_error.1 h
        exact .snapshot hload (Memory.ofSnapshot_stray_iff.1 ⟨hof, hfault⟩)
      · cases h
  · intro h
    cases h with
    | overlong hlong =>
      obtain ⟨hload, hfault⟩ := Storage.load_stray_iff.2 ⟨hlong, rfl⟩
      simp only [hload]
      exact failClosed_eq_error.2 ⟨rfl, hfault⟩
    | snapshot hload hescapes =>
      obtain ⟨hof, hfault⟩ := (Memory.ofSnapshot_stray_iff (m := s.memory)).2 hescapes
      simp only [hload, hof]
      exact failClosed_eq_error.2 ⟨rfl, hfault⟩

/-- The file of a session describes a memory. -/
def FileDescribes (s : Session) (path : FilePath) (memory : Memory Value) : Prop :=
  ∃ members, Storage.load s.files path = .ok (some members) ∧
    Snapshot.Describes members s.memory.store.smoothing memory

theorem loaded_of_describes {s : Session} {path : FilePath}
    (hpath : s.settings.storage? = some path) {memory : Memory Value}
    (h : s.FileDescribes path memory) : s.loaded = .ok (memory, memory.store.size) := by
  obtain ⟨members, hload, hdescribes⟩ := h
  rw [loaded_eq hpath, hload]
  simp only [Memory.ofSnapshot_eq_ok_iff.2 hdescribes]

/-- A file that is there, describes nothing and does not escape is as good as
one that holds nothing. -/
theorem loaded_of_not_describes {s : Session} {path : FilePath}
    (hpath : s.settings.storage? = some path) (hthere : s.files.isThere path = true)
    (hnothing : ∀ memory, ¬ s.FileDescribes path memory)
    (hstays : ∀ fault, ¬ Storage.Escapes s.files path fault) :
    s.loaded = .ok (s.memory.clear, 0) := by
  cases hloaded : s.loaded with
  | error fault => exact absurd (loaded_eq_error_iff hpath |>.1 hloaded) (hstays fault)
  | ok result =>
    rw [loaded_eq hpath] at hloaded
    split at hloaded
    · rw [(failClosed_eq_ok.1 hloaded).2]
    · rename_i hload
      rw [Storage.load_eq_none.1 hload] at hthere
      cases hthere
    · rename_i members hload
      split at hloaded
      · rw [(failClosed_eq_ok.1 hloaded).2]
      · rename_i memory hof
        exact absurd ⟨members, hload, Memory.ofSnapshot_eq_ok_iff.1 hof⟩ (hnothing memory)

/-- Loading, for any session and any content of its file:

- it fails exactly if the file escapes, and then it changes nothing;
- without a file it answers zero and changes nothing;
- if the file describes a memory, the session has this memory, and the number of
  its patterns is answered;
- in all other cases the memory is empty, and zero is answered.
-/
theorem load_outcome (s : Session) (path : FilePath) (hpath : s.settings.storage? = some path) :
    (∀ fault, (load.outcome s).1 = .error fault ↔ Storage.Escapes s.files path fault) ∧
    (∀ fault, (load.outcome s).1 = .error fault → (load.outcome s).2 = s) ∧
    (s.files.isThere path = false → load.outcome s = (.ok 0, s)) ∧
    (∀ memory, s.FileDescribes path memory →
      load.outcome s = (.ok memory.store.size, { s with memory })) ∧
    (s.files.isThere path = true → (∀ memory, ¬ s.FileDescribes path memory) →
      (∀ fault, ¬ Storage.Escapes s.files path fault) →
      load.outcome s = (.ok 0, { s with memory := .empty s.memory.store.smoothing })) := by
  have hok : ∀ memory count, s.loaded = .ok (memory, count) →
      load.outcome s = (.ok count, { s with memory }) := by
    intro memory count h
    rw [outcome_load, h]
  have herror : ∀ fault, s.loaded = .error fault → load.outcome s = (.error fault, s) := by
    intro fault h
    rw [outcome_load, h]
  refine ⟨fun fault => ?_, fun fault => ?_, fun hmissing => ?_, fun memory hdescribes => ?_,
    fun hthere hnothing hstays => ?_⟩
  · rw [← loaded_eq_error_iff hpath]
    cases hloaded : s.loaded with
    | error cause =>
      rw [herror cause hloaded]
      simp
    | ok result => simp [hok _ _ hloaded]
  · cases hloaded : s.loaded with
    | error cause => intro _; rw [herror cause hloaded]
    | ok result => simp [hok _ _ hloaded]
  · refine hok s.memory 0 ?_
    rw [loaded_eq hpath, Storage.load_eq_none.2 hmissing]
  · exact hok memory _ (loaded_of_describes hpath hdescribes)
  · exact hok _ 0 (loaded_of_not_describes hpath hthere hnothing hstays)

/-- A saved file of the first version with one record, whose id is an empty
list. -/
def listForId : Files :=
  let record :=
    "\x7b\"id\":[],\"pattern_type\":\"loop_construct\",\"language\":\"\",\"signature\":\"\","
      ++ "\"confidence\":1,\"frequency\":1,\"last_seen\":\"20240101\"\x7d"
  ⟨[(["patterns.json"],
    Text.encode ("\x7b\"schema_version\":1,\"patterns\":[" ++ record ++ "]\x7d"))], []⟩

/-- A list in the place of an id makes loading fail. -/
theorem load_outcome_list_for_id :
    let settings : Settings :=
      ⟨.usual ["python"] (.int 10240) .null, .default, Config.default.rules, .real 0.5, .int 5,
        some ["patterns.json"]⟩
    let s := start settings ⟨fun _ _ => default, fun _ => .statements []⟩ listForId ⟨0, 0⟩
    s.settings.storage? = some ["patterns.json"] ∧ (load.outcome s).1 = .error .wrongKind := by
  -- The one record can be decoded, and its id is no label.
  have hread : ((Storage.load listForId ["patterns.json"]).toOption.join.any fun members =>
      (Memory.readPreferences (Snapshot.preferences members)).isOk &&
        ((Snapshot.records members).length == 1 &&
          (Snapshot.records members).all fun record =>
            (Store.readRecord record).toOption.any fun d => d.id.label?.isNone)) = true := by
    decide +kernel
  intro settings s
  refine ⟨rfl, ((load_outcome s ["patterns.json"] rfl).1 .wrongKind).2 ?_⟩
  obtain ⟨members, hload, hread⟩ := (Option.any_eq_true _ _).1 hread
  obtain ⟨hprefs, hread⟩ := Bool.and_eq_true_iff.1 hread
  obtain ⟨hone, hrecords⟩ := Bool.and_eq_true_iff.1 hread
  obtain ⟨record, hrecord⟩ := List.length_eq_one_iff.1 (eq_of_beq hone)
  rw [hrecord] at hrecords
  obtain ⟨d, hd, hid⟩ := (Option.any_eq_true _ _).1 (List.all_eq_true.1 hrecords record (by simp))
  have hload := Except.toOption_eq_some.1 (Option.join_eq_some_iff.1 hload)
  cases hok : Memory.readPreferences (Snapshot.preferences members) with
  | error fault =>
    rw [hok] at hprefs
    cases hprefs
  | ok prefs =>
    have hsplit : Snapshot.records members = [] ++ record :: [] := hrecord
    refine .snapshot hload (.record hok hsplit rfl ⟨.nil, .nil⟩ ?_)
    exact .name d (Except.toOption_eq_some.1 hd) (.inl (Option.isNone_iff_eq_none.1 hid))

end Session

end CodeHabits
