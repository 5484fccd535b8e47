import CodeHabits.Command.Run
import CodeHabits.Message.Response
import CodeHabits.Proofs.Memory.Settled
import CodeHabits.Proofs.Session.Loading
import CodeHabits.Proofs.Storage.Saving

/-!
# `CodeHabits.Proofs.Session.Closing`: what a session that learns nothing leaves behind

A session begins by loading and ends by saving what it has in mind then, whether
anything was learned or not. What stands in the file afterwards is `leftBehind`.

If the file described a memory, this memory is written again. It is the same up
to order (`Retains`), in the layout of the current version. If the file
described nothing, the session began with nothing learned, and so the file now
holds the snapshot of an empty memory: what stood in it before is lost. Saving
may fail, and then the file stays as it was.
-/

set_option autoImplicit false

namespace CodeHabits

open Time (Timestamp)

/-! ### Asking -/

/-- The request asks for something and teaches nothing. -/
def Request.OnlyAsks : Request → Prop
  | suggest .. | stats | validate .. | languages .. | exportAll => True
  | _ => False

theorem Request.outcome_perform {request : Request} (h : request.OnlyAsks)
    (manner : Manner Value) (s : Session) : ((request.perform manner).outcome s).2 = s := by
  -- Every question reads the session and computes an answer from it.
  have hanswer : ∀ {α β : Type} (x : Session → Except Fault α) (f : α → β),
      ((do return f (← Change.ofExcept (x (← get))) : Change Session β).outcome s).2 = s := by
    intro α β x f
    rw [Change.outcome_bind_get, Change.outcome_bind, Change.outcome_ofExcept]
    cases x s <;> rfl
  have hgiven : ∀ {α : Type} (x : Session → Except Fault α),
      ((do Change.ofExcept (x (← get)) : Change Session α).outcome s).2 = s := by
    intro α x
    rw [Change.outcome_bind_get, Change.outcome_ofExcept]
  cases request with
  | suggest language recent most? threshold? => exact hgiven _
  | stats => exact hanswer _ _
  | validate code language => exact hgiven _
  | languages path? => rfl
  | exportAll => exact hanswer _ _
  | _ => cases h

namespace Session

/-- A message to a session, at a time. -/
structure Visit where
  now : Timestamp
  envelope : Value

/-- The message asks for something, or is refused. -/
def Visit.OnlyAsks (v : Visit) : Prop :=
  ∀ request, Request.read v.envelope = .ok request → request.OnlyAsks

/-- The session after a message. -/
def visit (manner : Manner Value) (s : Session) (v : Visit) : Session :=
  (handle manner { s with now := v.now } v.envelope).2

/-- The session after several messages. -/
def visits (manner : Manner Value) (s : Session) (vs : List Visit) : Session :=
  vs.foldl (visit manner) s

/-- Only the clock moves when nothing but questions are asked. -/
theorem visit_eq {v : Visit} (h : v.OnlyAsks) (manner : Manner Value) (s : Session) :
    visit manner s v = { s with now := v.now } := by
  unfold visit handle
  dsimp only
  cases hread : Request.read v.envelope with
  | error fault => rfl
  | ok request =>
    have hperform := Request.outcome_perform (h request hread) manner { s with now := v.now }
    rcases hrun : (request.perform manner).outcome { s with now := v.now } with ⟨_ | _, t⟩
    all_goals
      rw [hrun] at hperform
      simp only [hrun]
      exact hperform

theorem visits_eq {vs : List Visit} (h : ∀ v ∈ vs, v.OnlyAsks) (manner : Manner Value)
    (s : Session) : ∃ now, visits manner s vs = { s with now } := by
  induction vs generalizing s with
  | nil => exact ⟨s.now, rfl⟩
  | cons v rest ih =>
    obtain ⟨now, hrest⟩ := ih (fun other hother => h other (by simp [hother])) (visit manner s v)
    refine ⟨now, ?_⟩
    rw [visit_eq (h v (by simp))] at hrest
    rw [visits, List.foldl_cons, visit_eq (h v (by simp))]
    exact hrest

/-! ### Saving -/

/-- The files after an attempt to save a memory. -/
def leftBehind (files : Files) (path : FilePath) (now : Timestamp) (m : Memory Value) : Files :=
  match (do Storage.save files path (← m.snapshot Storage.manner now)) with
  | .ok files => files
  | .error _ => files

theorem outcome_save {s : Session} {path : FilePath} (hpath : s.settings.storage? = some path) :
    (save.outcome s).2 = { s with files := leftBehind s.files path s.now s.memory } := by
  rw [save, Change.outcome_bind_get, hpath]
  unfold leftBehind
  dsimp only
  rw [Session.snapshot]
  cases s.memory.snapshot Storage.manner s.now with
  | error fault => rfl
  | ok members =>
    rw [Change.outcome_bind_ofExcept_ok, Except.ok_bind]
    cases Storage.save s.files path members with
    | error fault => rfl
    | ok files => rfl

/-- Ending a session saves, whatever was learned. -/
theorem outcome_close {s : Session} {path : FilePath} (hpath : s.settings.storage? = some path)
    (hopen : s.closed = false) :
    (close.outcome s).2.files = leftBehind s.files path s.now s.memory := by
  have hsave := outcome_save hpath
  rw [close, Change.outcome_bind_get, hopen]
  simp only [Bool.false_eq_true, if_false]
  rw [Change.outcome_bind]
  rcases hrun : save.outcome s with ⟨_ | _, t⟩
  all_goals
    rw [hrun] at hsave
    obtain rfl : t = _ := hsave
    rfl

/-- What is saved is a snapshot, in the place of what stood in the file. Without
a snapshot the files stay as they are. -/
theorem leftBehind_cases (files : Files) (path : FilePath) (now : Timestamp) (m : Memory Value) :
    leftBehind files path now m = files ∨
      ∃ members, m.snapshot Storage.manner now = .ok members ∧
        (leftBehind files path now m).contents
          = files.contents.put path (Storage.savedText members) := by
  unfold leftBehind
  cases hsnapshot : m.snapshot Storage.manner now with
  | error fault => exact .inl rfl
  | ok members =>
    rw [Except.ok_bind]
    cases hsave : Storage.save files path members with
    | error fault => exact .inl rfl
    | ok saved => exact .inr ⟨members, rfl, Storage.contents_of_save hsave⟩

end Session

/-! ### Commands -/

/-- The command shows something and teaches nothing. -/
def Command.OnlyAsks : Command → Prop
  | suggest .. | stats => True
  | _ => False

namespace Command

theorem keeps_perform {c : Command} (h : c.OnlyAsks) (s : Session) :
    Change.Keeps (fun t : Terminal => t.session = s) c.perform := by
  have hprint : ∀ p : Printout, Change.Keeps (fun t : Terminal => t.session = s)
      (Terminal.print p) := fun p => Change.keeps_modify fun t h => h
  cases c with
  | suggest language recent most? threshold? =>
    refine Change.keeps_bind Change.keeps_get fun t => ?_
    refine Change.keeps_bind (Change.keeps_ofExcept _) fun found => ?_
    refine Change.keeps_bind (Change.keeps_ofExcept _) fun rows => ?_
    split
    · exact Change.keeps_bind (hprint _) fun _ => Change.keeps_pure _
    · exact Change.keeps_bind (hprint _) fun _ => Change.keeps_pure _
  | stats =>
    refine Change.keeps_bind Change.keeps_get fun t => ?_
    refine Change.keeps_bind (Change.keeps_ofExcept _) fun stats => ?_
    refine Change.keeps_bind (Change.keeps_ofExcept _) fun acceptance => ?_
    refine Change.keeps_bind (hprint _) fun _ => ?_
    dsimp only
    split
    · exact Change.keeps_bind (hprint _) fun _ => Change.keeps_pure _
    · exact Change.keeps_pure _
  | _ => cases h

theorem keeps_answer {c : Command} (h : c.OnlyAsks) (s : Session) :
    Change.Keeps (fun t : Terminal => t.session = s) c.answer := by
  refine Change.keeps_bind_get fun t ht => ?_
  have hperform := keeps_perform h s t ht
  rcases hrun : c.perform.outcome t with ⟨result, u⟩
  rw [hrun] at hperform
  dsimp only
  rw [Change.outcome_bind_set]
  refine (?_ : Change.Keeps (fun t : Terminal => t.session = s) _) u hperform
  cases result with
  | ok code => exact Change.keeps_pure _
  | error fault =>
    dsimp only
    split
    · exact Change.keeps_bind (Change.keeps_modify fun t h => h) fun _ => Change.keeps_pure _
    · exact Change.keeps_throw _

/-- A command is run between loading and saving. If loading fails, nothing is
saved. -/
theorem outcome_runIn {c : Command} (h : c.OnlyAsks) {s : Session} {path : FilePath}
    (hpath : s.settings.storage? = some path) (hopen : s.closed = false) (printed : List Printout) :
    (c.runIn.outcome ⟨s, printed⟩).2.session.files =
      match s.loaded with
      | .ok (memory, _) => Session.leftBehind s.files path s.now memory
      | .error _ => s.files := by
  rw [runIn, Change.outcome_bind, Terminal.inSession, Change.outcome_within, Session.load,
    Change.outcome_bind_get]
  rcases s.loaded with fault | ⟨memory, count⟩
  · rfl
  · rw [Change.outcome_bind_ofExcept_ok]
    let t : Terminal := ⟨{ s with memory }, printed⟩
    show (Change.outcome _ t).2.session.files = _
    rw [Change.outcome_bind_get]
    have hanswer := keeps_answer h t.session t rfl
    rcases hrun : c.answer.outcome t with ⟨result, u⟩
    rw [hrun] at hanswer
    have hclose : (Session.close.outcome u.session).2.files
        = Session.leftBehind s.files path s.now memory := by
      rw [show u.session = t.session from hanswer]
      exact Session.outcome_close (s := t.session) hpath hopen
    dsimp only
    rw [Change.outcome_bind_set, Change.outcome_bind, Terminal.inSession, Change.outcome_within]
    rcases hended : Session.close.outcome u.session with ⟨ended, v⟩
    rw [hended] at hclose
    cases ended with
    | error fault => exact hclose
    | ok _ =>
      dsimp only
      rw [Change.outcome_ofExcept]
      exact hclose

end Command

/-! ### What the file retains -/

/-- A snapshot holds the patterns of a memory and its preferences, both in order,
and describes them as they come back. -/
def Snapshot.Retains (members : Table String Value) (now : Timestamp) (m : Memory Value) : Prop :=
  ∃ ps q, ps.Perm (m.store.patterns.map (·.2)) ∧ m.preferences.Arranged q ∧
    members = Memory.snapshotOf Storage.manner now ps q ∧
    Snapshot.Describes members m.store.smoothing
      ⟨.ofPatterns m.store.smoothing (ps.map (Pattern.reread Storage.manner.spell)), q, 0⟩

/-- A memory that a snapshot described is retained by its own snapshot. -/
theorem Memory.retains_of_describes {given members : Table String Value}
    {smoothing : Smoothing Value} {m : Memory Value} {now : Timestamp}
    (hm : Snapshot.Describes given smoothing m)
    (h : m.snapshot Storage.manner now = .ok members) : Snapshot.Retains members now m := by
  obtain ⟨prefs, known, hprefs, hknown, hseparate, rfl⟩ := hm
  obtain ⟨ps, q, hps, hq, rfl⟩ := snapshot_eq_ok.1 h
  obtain ⟨hproper, hreal⟩ := Preferences.of_readPreferences hprefs
  rw [Store.inOrder_ofPatterns] at hps
  have hperm := perm_of_sorted hps
  have hpatterns : (Store.ofPatterns smoothing known).patterns.map (·.2) = known := by
    rw [Store.ofPatterns, List.map_map]
    exact List.map_id _
  have hwritable : ∀ p ∈ ps, p.Writable := by
    intro p hp
    obtain ⟨record, _, hrecord⟩ := Except.exists_mem_of_mapM hknown (hperm.mem_iff.1 hp)
    exact Pattern.writable_of_patternOf hrecord
  have hweights : q.Floating :=
    fun weight hweight => hreal weight (hq.weights_perm.mem_iff.1 hweight)
  have hread : readPreferences (.object (q.members Storage.manner)) = .ok q := by
    rw [Preferences.readPreferences_ok Storage.plain_manner (hq.proper hproper) fun weight hweight => ?_,
      hweights.asReal]
    obtain ⟨x, rfl⟩ := hweights weight hweight
    refine ⟨rfl, ?_⟩
    rintro ⟨n, hn, _⟩
    cases hn
  refine ⟨ps, q, ?_, hq, rfl, ?_⟩
  · rw [hpatterns]
    exact hperm
  · exact describes_snapshotOf Storage.plain_manner smoothing hwritable (hseparate.perm hperm) hread

theorem Memory.snapshot_empty (manner : Manner Value) (smoothing : Smoothing Value)
    (now : Timestamp) :
    (Memory.empty smoothing).snapshot manner now = .ok (snapshotOf manner now [] .none) := by
  refine snapshot_eq_ok.2 ⟨[], .none, ?_, ⟨?_, ?_, ?_, ?_⟩, rfl⟩
  all_goals
    simp [empty, Store.empty, Store.inOrder, Preferences.none, Preferences.labelled, sorted,
      allOrdered]

namespace Session

/-- What is loaded into a session that has learned nothing: the memory that the
file describes, and nothing without one. -/
theorem memory_of_load {s : Session} {path : FilePath} (hpath : s.settings.storage? = some path)
    (hnothing : ∀ m, ¬ s.FileDescribes path m) :
    (load.outcome s).2.memory = s.memory ∨ (load.outcome s).2.memory = s.memory.clear := by
  rw [outcome_load]
  cases hloaded : s.loaded with
  | error fault => exact .inl rfl
  | ok result =>
    rw [loaded_eq hpath] at hloaded
    split at hloaded
    · rw [(failClosed_eq_ok.1 hloaded).2]
      exact .inr rfl
    · cases hloaded
      exact .inl rfl
    · rename_i members hload
      split at hloaded
      · rw [(failClosed_eq_ok.1 hloaded).2]
        exact .inr rfl
      · rename_i memory hof
        exact absurd ⟨members, hload, Memory.ofSnapshot_eq_ok_iff.1 hof⟩ (hnothing memory)

/-- A session that begins with nothing learned loads and saves, and is only asked
questions in between, one by one or by a command:

- what stands in the files is what saving the loaded memory leaves behind; only
  a command that cannot load saves nothing;
- this is what stood there before, with a snapshot of the loaded memory in the
  place of the file, unless saving failed;
- if the file described a memory, it is this one that was loaded, and its
  snapshot retains it;
- if the file described none, nothing was loaded, and a file that holds its place
  is replaced by the snapshot of nothing.
-/
theorem unlearned_session_files (settings : Settings) (grammars : Grammars) (files : Files)
    (now : Timestamp) (path : FilePath) (hpath : settings.storage? = some path) :
    let s := start settings grammars files now
    let m := (load.outcome s).2.memory
    (∀ manner vs later, (∀ v ∈ vs, v.OnlyAsks) →
      (close.outcome { visits manner (load.outcome s).2 vs with now := later }).2.files
        = leftBehind files path later m) ∧
    (∀ (c : Command) (printed : List Printout), c.OnlyAsks →
      (c.runIn.outcome ⟨s, printed⟩).2.session.files
        = if (load.outcome s).1.isOk then leftBehind files path now m else files) ∧
    (∀ later, leftBehind files path later m = files ∨
      ∃ members, m.snapshot Storage.manner later = .ok members ∧
        (leftBehind files path later m).contents
          = files.contents.put path (Storage.savedText members)) ∧
    (∀ described, s.FileDescribes path described → m = described ∧
      ∀ later members, m.snapshot Storage.manner later = .ok members →
        Snapshot.Retains members later described) ∧
    ((∀ described, ¬ s.FileDescribes path described) → m = .empty settings.smoothing ∧
      ∀ later, files.Holds path → (leftBehind files path later m).contents
        = files.contents.put path
          (Storage.savedText (Memory.snapshotOf Storage.manner later [] .none))) := by
  intro s m
  have hload : (load.outcome s).2 = { s with memory := m } := by
    show _ = { s with memory := (load.outcome s).2.memory }
    rw [outcome_load]
    cases s.loaded <;> rfl
  refine ⟨fun manner vs later hvs => ?_, fun c printed hc => ?_,
    fun later => leftBehind_cases files path later m, fun described hdescribed => ?_,
    fun hnothing => ?_⟩
  · obtain ⟨last, hvisits⟩ := visits_eq hvs manner (load.outcome s).2
    rw [hvisits, hload]
    exact outcome_close (s := { s with memory := m, now := later }) hpath rfl
  · rw [Command.outcome_runIn hc hpath rfl printed]
    have hresult : (load.outcome s).1.isOk = s.loaded.isOk := by
      rw [outcome_load]
      cases s.loaded <;> rfl
    have hm : (load.outcome s).2.memory = m := rfl
    rw [outcome_load] at hm
    rw [hresult]
    cases hloaded : s.loaded with
    | error fault => rfl
    | ok loaded =>
      rw [hloaded] at hm
      rw [← hm]
      rfl
  · have hm : m = described := by
      show (load.outcome s).2.memory = _
      rw [outcome_load, loaded_of_describes hpath hdescribed]
    obtain ⟨members, _, hdescribes⟩ := hdescribed
    refine ⟨hm, fun later found hfound => ?_⟩
    rw [hm] at hfound
    exact Memory.retains_of_describes hdescribes hfound
  · have hm : m = .empty settings.smoothing := by
      rcases memory_of_load hpath hnothing with h | h <;> exact h
    refine ⟨hm, fun later hholds => ?_⟩
    rw [hm]
    obtain ⟨saved, hsaved⟩ := Storage.exists_save_of_holds hholds
      (Memory.snapshotOf Storage.manner later [] .none)
    unfold leftBehind
    rw [Memory.snapshot_empty, Except.ok_bind, hsaved]
    exact Storage.contents_of_save hsaved

/-- A file with a text in it, in the place of the saved file. -/
def fileWith (text : String) : Files :=
  ⟨[(["patterns.json"], Text.encode text)], []⟩

/-- A session that saves to that place. -/
def besideFile (text : String) : Session :=
  start ⟨.usual ["python"] (.int 10240) .null, .default, Config.default.rules, .real 0.5, .int 5,
      some ["patterns.json"]⟩
    ⟨fun _ _ => default, fun _ => .statements []⟩ (fileWith text) ⟨0, 0⟩

/-- A snapshot in which one pattern is avoided. -/
def oneAvoided : String :=
  "\x7b\"schema_version\":2,\"preferences\":\x7b\"avoided\":[\"a\"]\x7d\x7d"

/-- A look at the statistics loads what is avoided and saves it. -/
theorem unlearned_session_files_one_avoided :
    let s := besideFile oneAvoided
    let m := (load.outcome s).2.memory
    s.settings.storage? = some ["patterns.json"] ∧ m.preferences.avoided.length = 1 ∧
      (Command.stats.runIn.outcome ⟨s, []⟩).2.session.files
        = leftBehind (fileWith oneAvoided) ["patterns.json"] ⟨0, 0⟩ m := by
  intro s m
  have hloaded : (match load.outcome s with
      | (.ok _, t) => t.memory.preferences.avoided.length
      | (.error _, _) => 0) = 1 := by decide +kernel
  split at hloaded
  · rename_i count t hload
    have hok : (load.outcome s).1.isOk = true := by rw [hload]; rfl
    have hfiles := (unlearned_session_files s.settings s.grammars (fileWith oneAvoided) ⟨0, 0⟩
      ["patterns.json"] rfl).2.1 .stats [] trivial
    refine ⟨rfl, ?_, hfiles.trans (if_pos hok)⟩
    show (load.outcome s).2.memory.preferences.avoided.length = 1
    rw [hload]
    exact hloaded
  · cases hloaded

/-- A snapshot of a version that is not known yet. -/
def newerVersion : String :=
  "\x7b\"schema_version\":3,\"patterns\":[]\x7d"

/-- It is rejected, and what stood in the file is lost when the session ends. -/
theorem newer_version_lost :
    let s := besideFile newerVersion
    let (answer, t) := load.outcome s
    let (_, ended) := close.outcome t
    (match answer with | .ok count => count | .error _ => 1) = 0 ∧
      ended.files.contents.get? ["patterns.json"] ≠ s.files.contents.get? ["patterns.json"] := by
  decide +kernel

end Session

end CodeHabits
