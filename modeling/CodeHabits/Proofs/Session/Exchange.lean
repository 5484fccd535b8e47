import CodeHabits.Proofs.Memory.Settled
import CodeHabits.Proofs.Session.Loading
import CodeHabits.Proofs.Session.Run
import CodeHabits.Proofs.Storage.Saving

/-!
# `CodeHabits.Proofs.Session.Exchange`: sessions that take over what others have learned

`Grown` sessions begin with nothing learned, under a configuration that was
checked. They learn and forget, and they take in the snapshots of other grown
sessions, merged into what they know or in its place. Their memories are settled
(`Grown.settled`), and so their snapshots can be written and read again.

`Restored` says how taking in a snapshot ends in any other session, and the same
for loading the file in which it was saved. Weights are read as floating-point
numbers. They are such numbers already where the configuration bounds them by
such (`Grown.floating`), and then nothing at all is lost. Bounds that are whole
numbers allow weights that are whole numbers. Such a weight comes back as the
nearest floating-point number, and one that is too large is refused as a whole
with everything that came with it.
-/

set_option autoImplicit false

namespace CodeHabits

open Time (Timestamp)

namespace Session

variable {idOf : IdScheme} {s t : Session} {manner : Manner Value}

/-! ### Growing -/

/-- The call learns or forgets at times that a text can stand for, and takes
nothing in from elsewhere. -/
def Call.Learns (c : Call) : Prop :=
  c.now.Valid ∧ (∀ e ∈ c.event?, e.Dated) ∧
    match c.action with
    | .takeSnapshot .. | .load => False
    | _ => True

/-- A session that has learned by itself and from others that did. -/
inductive Grown (idOf : IdScheme) : Session → Prop
  | start {config : Config} {settings : Settings} (hvalid : config.validate = .ok ())
      (hsettings : config.settings = .ok settings) (grammars : Grammars) (files : Files)
      (now : Timestamp) : Grown idOf (start settings grammars files now)
  | wait {s : Session} (hs : Grown idOf s) (files : Files) (now : Timestamp) :
      Grown idOf { s with files, now }
  | learn {s : Session} {c : Call} (hs : Grown idOf s) (hc : c.Learns) : Grown idOf (step idOf s c)
  | exchange {s t : Session} {manner : Manner Value} {members : Table String Value}
      (hs : Grown idOf s) (ht : Grown idOf t) (hmanner : manner.Plain)
      (h : t.snapshot manner = .ok members) (now : Timestamp) (files : Files) (replace : Bool) :
      Grown idOf (step idOf s ⟨now, files, .takeSnapshot (.object members) replace⟩)

theorem rules_of_settings {config : Config} {settings : Settings}
    (h : config.settings = .ok settings) : settings.rules = config.rules := by
  obtain ⟨registry, _, h⟩ := Except.bind_eq_ok.1 h
  obtain ⟨storage?, _, h⟩ := Except.bind_eq_ok.1 h
  cases h
  rfl

theorem settled_step_of_learns {c : Call} (hc : c.Learns) (hrules : s.settings.rules.FadesInside)
    (h : s.memory.Settled) : (step idOf s c).memory.Settled := by
  obtain ⟨hnow, hevent, haction⟩ := hc
  refine keeps_step (fun m n hm => hm.with_streak n) (fun found => ?_) (fun e he id => ?_)
    (fun now => ?_) (fun document replace htakes => ?_) (fun hload => ?_)
    (Memory.settled_empty _) h
  · exact Memory.settled_learn idOf hnow ⟨_, rfl⟩
  · exact Memory.settled_takeIn _ id (hevent e he)
  · exact Memory.settled_decay hrules now
  · rw [htakes] at haction
    cases haction
  · rw [hload] at haction
    cases haction

/-- The memory of a grown session is settled, and its rules keep confidences
inside the unit interval. -/
theorem Grown.settled (hs : Grown idOf s) :
    s.memory.Settled ∧ s.settings.rules.FadesInside := by
  induction hs with
  | @start config settings hvalid hsettings grammars files now =>
    refine ⟨Memory.settled_empty _, ?_⟩
    show settings.rules.FadesInside
    rw [rules_of_settings hsettings]
    exact Config.fadesInside_of_validate hvalid
  | wait _ files now ih => exact ih
  | learn _ hc ih =>
    refine ⟨settled_step_of_learns hc ih.2 ih.1, ?_⟩
    rw [settings_step]
    exact ih.2
  | exchange _ _ hmanner h now files replace ihs iht =>
    refine ⟨?_, ?_⟩
    · refine keeps_learning ?_ ihs.1
      exact Memory.settled_takeSnapshot idOf iht.1 hmanner h replace
    · rw [settings_step]
      exact ihs.2

/-- What is true of preferences without weights and of those that were read, and what
reactions keep, is true of the preferences of a grown session. -/
theorem Grown.preferences {P : Preferences Value → Prop} (hs : Grown idOf s) (hnone : P .none)
    (hread : ∀ prefs : Preferences Value, prefs.Floating → P prefs)
    (hprefer : ∀ reaction id p, Change.Keeps P (s.settings.rules.prefer reaction id p)) :
    P s.memory.preferences := by
  induction hs with
  | start hvalid hsettings grammars files now => exact hnone
  | wait _ files now ih => exact ih hprefer
  | @learn s c _ hc ih =>
    rw [settings_step] at hprefer
    refine keeps_step (P := fun m => P m.preferences) (fun m n hm => hm) (fun found => ?_)
      (fun e he id => ?_) (fun now => ?_) (fun document replace _ => ?_) (fun hload => ?_) hnone
      (ih hprefer)
    · exact Memory.preferences_inStore _
    · exact Memory.preferences_takeIn (hprefer e.reaction id)
    · exact Memory.preferences_decay _ now
    · exact Memory.preferences_takeSnapshot hread idOf document replace
    · have haction := hc.2.2
      rw [hload] at haction
      cases haction
  | @exchange s t manner members _ _ hmanner h now files replace ihs _ =>
    rw [settings_step] at hprefer
    refine keeps_learning (P := fun m => P m.preferences) ?_ (ihs hprefer)
    exact Memory.preferences_takeSnapshot hread idOf _ replace

/-- Under bounds that are floating-point numbers, all weights of a grown session
are such numbers. -/
theorem Grown.floating (hs : Grown idOf s) (hleast : ∃ x, s.settings.rules.minWeight = .real x)
    (hmost : ∃ x, s.settings.rules.maxWeight = .real x) : s.memory.preferences.Floating := by
  refine hs.preferences (fun weight hweight => ?_) (fun _ h => h) fun reaction id p => ?_
  · cases hweight
  · exact Preferences.floating_prefer hleast hmost reaction id p

/-! ### Taking over -/

/-- Taking over what another session has learned gives the memory that the
snapshot describes, or fails and changes nothing. -/
theorem outcome_takeSnapshot_replace {document : Value} {members : Table String Value}
    (h : Snapshot.migrate document = .ok members) (t : Session) :
    (takeSnapshot document true).outcome t
      = match t.memory.ofSnapshot members with
        | .ok n => (.ok n.store.size, { t with memory := n })
        | .error fault => (.error fault, t) := by
  rw [takeSnapshot, outcome_learning, Memory.takeSnapshot, h, Change.outcome_bind_ofExcept_ok,
    if_pos rfl, Change.outcome_bind_get]
  cases t.memory.ofSnapshot members with
  | error fault => rw [Change.outcome_bind_ofExcept_error]
  | ok n =>
    rw [Change.outcome_bind_ofExcept_ok, Change.outcome_bind_set]
    rfl

/-- How it ends when a session takes over what `s` has learned. -/
structure Restored (manner : Manner Value) (s t : Session)
    (outcome : Except Fault Nat × Session) : Prop where
  /-- With a weight that is too large nothing is taken over. -/
  refused : (∃ weight ∈ s.memory.preferences.weights, weight.TooLarge) →
    outcome = (.error .overflow, t)
  /-- Without one, all of the memory is. -/
  restored : (∀ weight ∈ s.memory.preferences.weights, ¬ weight.TooLarge) →
    ∃ n, outcome = (.ok s.memory.store.size, { t with memory := n }) ∧
      Memory.Restores manner s.memory n
  /-- If floating-point numbers bound the weights, then the snapshots are the
  same as well. -/
  same : (∃ x, s.settings.rules.minWeight = .real x) → (∃ x, s.settings.rules.maxWeight = .real x) →
    ∃ n, outcome = (.ok s.memory.store.size, { t with memory := n }) ∧
      Memory.Restores manner s.memory n ∧
      ∀ now, n.snapshot manner now = s.memory.snapshot manner now

theorem restored_of_ofSnapshot (hs : Grown idOf s) (hmanner : manner.Plain) {now : Timestamp}
    {members : Table String Value} (h : s.memory.snapshot manner now = .ok members)
    {outcome : Except Fault Nat × Session}
    (hok : ∀ n, t.memory.ofSnapshot members = .ok n →
      outcome = (.ok n.store.size, { t with memory := n }))
    (herror : t.memory.ofSnapshot members = .error .overflow → outcome = (.error .overflow, t)) :
    Restored manner s t outcome := by
  obtain ⟨hm, _⟩ := hs.settled
  obtain ⟨ps, q, horder⟩ := hm.exists_inOrder
  rw [horder.snapshot] at h
  cases h
  have hrestored : (∀ weight ∈ s.memory.preferences.weights, ¬ weight.TooLarge) →
      ∃ n, outcome = (.ok s.memory.store.size, { t with memory := n }) ∧
        Memory.Restores manner s.memory n := by
    intro hsmall
    have hrestores := horder.restores_comesBack hm hmanner t.memory.store.smoothing
    refine ⟨_, ?_, hrestores⟩
    rw [hok _ (horder.ofSnapshot_ok hm hmanner hsmall t.memory), hrestores.size]
  refine ⟨fun hlarge => ?_, hrestored, fun hleast hmost => ?_⟩
  · exact herror (horder.ofSnapshot_overflow hm hmanner hlarge t.memory)
  · have hfloating := hs.floating hleast hmost
    obtain ⟨n, hn, hrestores⟩ := hrestored fun weight hweight hlarge => by
      obtain ⟨x, rfl⟩ := hfloating weight hweight
      obtain ⟨k, hk, _⟩ := hlarge
      cases hk
    refine ⟨n, hn, hrestores, fun now => ?_⟩
    obtain ⟨records, hbefore, hafter⟩ := hrestores.patterns
    rw [Memory.snapshot, Memory.snapshot, hbefore, hafter, hrestores.same hfloating]

/-- What a grown session has learned can be written as a snapshot, and:

- any session that takes the snapshot over ends as `Restored` says;
- taking it over once more changes nothing;
- so does any session that loads the file in which it was saved, if the JSON text
  in this file is read as the document that was written.
-/
theorem exchange_restores (hs : Grown idOf s) (hmanner : manner.Plain) :
    ∃ members, s.snapshot manner = .ok members ∧
      (∀ t, Restored manner s t ((takeSnapshot (.object members) true).outcome t)) ∧
      (∀ t count u, (takeSnapshot (.object members) true).outcome t = (.ok count, u) →
        (takeSnapshot (.object members) true).outcome u = (.ok count, u)) ∧
      ∃ saved, s.snapshot Storage.manner = .ok saved ∧
        ∀ path, s.settings.storage? = some path → (save.outcome s).1 = .ok (some path) →
          Storage.decode (Json.saved (.object saved)).toList = .ok (.object saved) →
          ∀ t, t.settings.storage? = some path → t.files = (save.outcome s).2.files →
            Restored Storage.manner s t (load.outcome t) := by
  obtain ⟨hm, _⟩ := hs.settled
  obtain ⟨ps, q, horder⟩ := hm.exists_inOrder
  have hsnapshot : ∀ manner, s.snapshot manner = .ok (Memory.snapshotOf manner s.now ps q) :=
    fun manner => horder.snapshot manner s.now
  refine ⟨_, hsnapshot manner, fun t => ?_, fun t count u h => ?_, _, hsnapshot Storage.manner,
    fun path hpath hsave hdecode t htpath hfiles => ?_⟩
  · rw [outcome_takeSnapshot_replace Memory.migrate_snapshotOf]
    refine restored_of_ofSnapshot hs hmanner (hsnapshot manner) (fun n hn => ?_) fun hfault => ?_
    · rw [hn]
    · rw [hfault]
  · rw [outcome_takeSnapshot_replace Memory.migrate_snapshotOf] at h ⊢
    cases hof : t.memory.ofSnapshot (Memory.snapshotOf manner s.now ps q) with
    | error fault =>
      rw [hof] at h
      cases h
    | ok n =>
      rw [hof] at h
      cases h
      rw [Memory.ofSnapshot_again hof]
  · have hread : Storage.readJson t.files path
        = .ok (.object (Memory.snapshotOf Storage.manner s.now ps q)) := by
      rw [save, Change.outcome_bind_get, hpath] at hsave hfiles
      dsimp only at hsave hfiles
      rw [hsnapshot, Change.outcome_bind_ofExcept_ok] at hsave hfiles
      cases hwritten : Storage.save s.files path (Memory.snapshotOf Storage.manner s.now ps q) with
      | error fault =>
        rw [hwritten, Change.outcome_bind_ofExcept_error] at hsave
        cases hsave
      | ok saved =>
        rw [hwritten, Change.outcome_bind_ofExcept_ok, Change.outcome_bind_set] at hfiles
        have hread := Storage.readJson_of_save hwritten
        rw [Memory.put_snapshotOf, hdecode] at hread
        rw [hfiles]
        exact hread
    have hload := Storage.load_of_readJson hread Memory.migrate_snapshotOf
    have hloaded := loaded_eq htpath
    rw [hload] at hloaded
    refine restored_of_ofSnapshot hs Storage.plain_manner (hsnapshot Storage.manner)
      (fun n hn => ?_) fun hfault => ?_
    · simp only [hn] at hloaded
      rw [outcome_load, hloaded]
    · simp only [hfault] at hloaded
      rw [outcome_load, hloaded]
      rfl

/-- The default configuration for a language that has no grammar. -/
def outlinedGo : Config :=
  { Config.default with
    engine := Config.default.engine.put "supported_languages" (.list [.text "go"]) }

/-- The same with a bound of weights that no floating-point number is equal to,
and a step that reaches it at once. -/
def wholeBound : Config :=
  { outlinedGo with
    learning := (outlinedGo.learning.put "max_weight" (.int 9007199254740993)).put "weight_step"
      (.real 1e17) }

/-- A session that has nothing to parse with. -/
def withoutGrammars (settings : Settings) : Session :=
  start settings ⟨fun _ _ => default, fun _ => .statements []⟩ .empty ⟨0, 0⟩

/-- A text is analysed, and the pattern that is found in it accepted. -/
def acceptedCalls : List Call :=
  [⟨⟨0, 0⟩, .empty, .analyze ⟨"x();\n", some "go", "a.go"⟩⟩,
    ⟨⟨0, 0⟩, .empty,
      .feedback (.text "pat_a84972b418f6") .accepted none ⟨.null, .null, none⟩ none none⟩]

theorem grown_analyzed {config : Config} {settings : Settings} (hvalid : config.validate = .ok ())
    (hsettings : config.settings = .ok settings) :
    Grown .usual (run .usual (withoutGrammars settings) (acceptedCalls.take 1)) := by
  have hstart : Grown .usual (withoutGrammars settings) := .start hvalid hsettings _ _ _
  exact hstart.learn ⟨⟨by decide, by decide, by decide⟩, nofun, trivial⟩

theorem grown_accepted {config : Config} {settings : Settings} (hvalid : config.validate = .ok ())
    (hsettings : config.settings = .ok settings) :
    Grown .usual (run .usual (withoutGrammars settings) acceptedCalls) := by
  have hnow : Timestamp.Valid ⟨0, 0⟩ := ⟨by decide, by decide, by decide⟩
  refine (grown_analyzed hvalid hsettings).learn ⟨hnow, fun e he => ?_, trivial⟩
  cases he
  exact ⟨hnow, nofun⟩

/-- Under the default bounds a session takes over what another one has learned
from a text and a reaction. -/
theorem exchange_restores_accepted :
    ∃ settings, outlinedGo.settings = .ok settings ∧
      let s := run .usual (withoutGrammars settings) acceptedCalls
      s.memory.store.size = 1 ∧ ∃ members, s.snapshot Manner.answer = .ok members ∧
        ∀ t, Restored Manner.answer s t ((takeSnapshot (.object members) true).outcome t) := by
  have hvalid : outlinedGo.validate = .ok () := Except.eq_ok_unit (by decide +kernel)
  have hsize : (match outlinedGo.settings with
      | .ok settings => (run .usual (withoutGrammars settings) acceptedCalls).memory.store.size
      | .error _ => 0) = 1 := by decide +kernel
  split at hsize
  · rename_i settings hsettings
    obtain ⟨members, hmembers, hrestored, _⟩ :=
      exchange_restores (grown_accepted hvalid hsettings) Manner.plain_answer
    exact ⟨settings, hsettings, hsize, members, hmembers, hrestored⟩
  · cases hsize

/-- With the other bound the weights come back changed. -/
theorem whole_weights_change :
    wholeBound.validate = .ok () ∧ ∃ settings, wholeBound.settings = .ok settings ∧
      let s := run .usual (withoutGrammars settings) acceptedCalls
      Grown .usual s ∧ ∃ members t before after,
        s.snapshot Manner.answer = .ok members ∧
          (takeSnapshot (.object members) true).outcome (withoutGrammars settings) = (.ok 1, t) ∧
          s.memory.preferences.document Manner.answer = .ok before ∧
          t.memory.preferences.document Manner.answer = .ok after ∧ after.same before = false := by
  have hvalid : wholeBound.validate = .ok () := Except.eq_ok_unit (by decide +kernel)
  have hchanged : (wholeBound.settings.toOption.any fun settings =>
      let s := run .usual (withoutGrammars settings) acceptedCalls
      (s.snapshot Manner.answer).toOption.any fun members =>
        let taken := (takeSnapshot (.object members) true).outcome (withoutGrammars settings)
        (taken.1.toOption.any (· == 1)) &&
          (s.memory.preferences.document Manner.answer).toOption.any fun before =>
            (taken.2.memory.preferences.document Manner.answer).toOption.any fun after =>
              !after.same before) = true := by decide +kernel
  obtain ⟨settings, hsettings, hchanged⟩ := (Option.any_eq_true _ _).1 hchanged
  obtain ⟨members, hmembers, hchanged⟩ := (Option.any_eq_true _ _).1 hchanged
  obtain ⟨hone, hchanged⟩ := Bool.and_eq_true_iff.1 hchanged
  obtain ⟨before, hbefore, hchanged⟩ := (Option.any_eq_true _ _).1 hchanged
  obtain ⟨after, hafter, hsame⟩ := (Option.any_eq_true _ _).1 hchanged
  obtain ⟨count, hcount, hone⟩ := (Option.any_eq_true _ _).1 hone
  have hsettings := Except.toOption_eq_some.1 hsettings
  refine ⟨hvalid, settings, hsettings, grown_accepted hvalid hsettings, members, _, before, after,
    Except.toOption_eq_some.1 hmembers, Prod.ext ?_ rfl, Except.toOption_eq_some.1 hbefore,
    Except.toOption_eq_some.1 hafter, by simpa using hsame⟩
  rw [Except.toOption_eq_some.1 hcount, eq_of_beq hone]

end Session

end CodeHabits
