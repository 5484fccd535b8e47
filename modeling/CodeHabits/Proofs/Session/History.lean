import CodeHabits.Proofs.Memory.Logged
import CodeHabits.Proofs.Memory.Serviceable
import CodeHabits.Proofs.Session.Agreement
import CodeHabits.Proofs.Session.FailedRequest

/-!
# `CodeHabits.Proofs.Session.History`: what a session only adds to

A session forgets nothing of its history unless it is told to: by clearing, by loading, or
by a snapshot that takes the place of everything. Whatever else it is asked to do, every
pattern keeps its id, its name and what was there at its first sighting, and its files, its
log and its counts only grow (`Call.Recorded`).

A log grows by the event of a reaction, once, as soon as the pattern is known and the content
can be read. What is taken in is logged. The converse fails where a checked configuration
lets it fail: the step of the weights is not looked at, so a reaction can be logged and then
fail to move the weights (`logged_but_refused`). And an ignored suggestion that forces a pass
of forgetting is logged even if the ids that were merged in have no order.

A session that only learned by itself has ids that are texts. So with a step that can be added
to the weights, the total that is told is the number of reactions that were taken in
(`history_recorded`).
-/

set_option autoImplicit false

namespace CodeHabits

open Time (Timestamp)

namespace Memory

/-- A memory in which every reaction that is logged can be taken in. -/
structure Attentive (rules : Learning Value) (m : Memory Value) : Prop where
  ready : m.store.Ready
  ids : m.store.Every fun p => p.id.IsText
  weights : rules.CarriesAll m.preferences

variable {rules : Learning Value}

theorem attentive_empty {smoothing : Smoothing Value} (h : smoothing.Usable) :
    (empty smoothing).Attentive rules where
  ready := ready_empty h
  ids := Store.every_empty smoothing
  weights := Learning.carriesAll_none

theorem attentive_learn (idOf : IdScheme) (now : Timestamp) (c : Sighting) :
    Change.Keeps (Attentive rules) (learn idOf now c) := by
  intro m hm
  exact ⟨ready_learn idOf now c m hm.ready, texts_learn idOf now c m hm.ids,
    preferences_inStore (P := rules.CarriesAll) _ m hm.weights⟩

theorem attentive_takeIn (husable : rules.Usable) (hweighs : rules.Weighs) (id : Label)
    (e : Event) : Change.Keeps (Attentive rules) (takeIn rules id e) := by
  intro m hm
  exact ⟨ready_takeIn husable id e m hm.ready, texts_takeIn rules id e m hm.ids,
    preferences_takeIn (fun p => Learning.carriesAll_prefer hweighs _ id p) m hm.weights⟩

theorem attentive_decay (hfades : rules.FadesInside) (now : Timestamp) :
    Change.Keeps (Attentive rules) (decay rules now) := by
  intro m hm
  exact ⟨ready_decay hfades now m hm.ready, texts_decay rules now m hm.ids,
    preferences_decay (P := rules.CarriesAll) rules now m hm.weights⟩

end Memory

namespace Session

open Memory (Deed)

variable {idOf : IdScheme} {s : Session} {c : Call} {e : Event}

/-! ### One call -/

/-- The call leaves what was learned before: it does not replace it. -/
def Call.Adds (c : Call) : Prop :=
  match c.action with
  | .takeSnapshot _ replace => replace = false
  | .clear | .load => False
  | _ => True

/-- The call learns or forgets, and takes nothing in from elsewhere. -/
def Call.LearnsAlone (c : Call) : Prop :=
  match c.action with
  | .takeSnapshot .. | .clear | .load => False
  | _ => True

theorem Call.LearnsAlone.adds (h : c.LearnsAlone) : c.Adds := by
  obtain ⟨now, files, action⟩ := c
  cases action with
  | takeSnapshot document replace => cases h
  | _ => exact h

theorem Call.LearnsAlone.exists_deed (h : c.LearnsAlone) :
    ∃ deed, c.action.deed? c.now = some deed ∧ deed.Learns := by
  obtain ⟨now, files, action⟩ := c
  cases action with
  | clear => cases h
  | load => cases h
  | takeSnapshot document replace => cases h
  | _ => exact ⟨_, rfl, trivial⟩

theorem Call.Adds.exists_deed (h : c.Adds) :
    ∃ deed, c.action.deed? c.now = some deed ∧ deed.Adds := by
  obtain ⟨now, files, action⟩ := c
  cases action with
  | clear => cases h
  | load => cases h
  | takeSnapshot document replace => exact ⟨_, rfl, h⟩
  | _ => exact ⟨_, rfl, trivial⟩

/-- The event that a call logs, and the label of the pattern in whose log it is then. -/
def Call.logs? (idOf : IdScheme) (s : Session) (c : Call) : Option (Label × Event) :=
  c.event?.bind fun e => Deed.logs? { s.setup with idOf } s.memory (.feedback e)

/-- The call takes in a reaction, and does not fail. -/
def Call.answered (idOf : IdScheme) (s : Session) (c : Call) : Bool :=
  c.event?.isSome &&
    ((act idOf c.action).outcome { s with now := c.now, files := c.files }).1.isOk

theorem logs?_eq_deed {deed : Deed} (h : c.action.deed? c.now = some deed) :
    c.logs? idOf s = deed.logs? { s.setup with idOf } s.memory := by
  obtain ⟨now, files, action⟩ := c
  cases action <;> cases h <;> rfl

/-- Dropping the result, a change of what was learned fails where it fails in the memory. -/
theorem isOk_drop {α : Type} (x : Setup Value → Timestamp → Change (Memory Value) α)
    (s : Session) :
    ((do let _ ← learning x : Change Session Unit).outcome s).1.isOk
      = ((x s.setup s.now).outcome s.memory).1.isOk := by
  rw [Change.outcome_bind, outcome_learning]
  rcases (x s.setup s.now).outcome s.memory with ⟨_ | _, _⟩ <;> rfl

/-- The call takes in a reaction exactly if the memory does. -/
theorem answered_eq (h : c.event? = some e) :
    c.answered idOf s
      = ((({ s.setup with idOf } : Setup Value).feedback c.now e).outcome s.memory).1.isOk := by
  obtain ⟨now, files, action⟩ := c
  cases action with
  | feedback id reaction reason surroundings content at? =>
    cases h
    exact isOk_drop _ _
  | _ => cases h

/-- What a call that adds leaves of the history, and what it adds. -/
structure Call.Recorded (idOf : IdScheme) (s : Session) (c : Call) : Prop where
  /-- Every pattern goes on under its id, with no other events in its log than that of the
  call, if it is the target. -/
  patterns : s.memory.store.Carries
    (fun id => Pattern.Extends (Memory.news (c.logs? idOf s) id)) (step idOf s c).memory.store
  /-- The call logs its own event and no other, in the log of the target. -/
  target : ∀ id e, c.logs? idOf s = some (id, e) →
    c.event? = some e ∧ ∃ before, s.memory.target e.patternId = .ok (id, before)
  /-- What is taken in is logged. -/
  answered : c.answered idOf s = true → (c.logs? idOf s).isSome
  /-- What is logged is taken in, unless the weights cannot be moved, or a pass of
  forgetting may be forced and the ids have no order. -/
  logged : s.memory.store.Every Pattern.Counted → ∀ id e, c.logs? idOf s = some (id, e) →
    c.answered idOf s = true ∨
      (∃ before fault prefs, s.memory.target e.patternId = .ok (id, before) ∧
        s.settings.rules.Unmoved e.reaction before s.memory.preferences fault prefs) ∨
      (e.reaction = .ignored ∧ ¬ Label.Sortable (s.memory.store.patterns.map (·.1)))

theorem logs?_eq_some {id : Label} (h : c.logs? idOf s = some (id, e)) :
    c.event? = some e ∧ Deed.logs? { s.setup with idOf } s.memory (.feedback e) = some (id, e) := by
  obtain ⟨other, hevent, hlogs⟩ := Option.bind_eq_some_iff.1 h
  obtain ⟨rfl, _⟩ := Memory.logs?_eq_some.1 hlogs
  exact ⟨hevent, hlogs⟩

theorem recorded (hrules : s.settings.rules.Usable) (hlinked : s.memory.store.Linked)
    (hmeasured : s.memory.Measured) (hsmoothing : s.memory.store.smoothing.Usable)
    {window : Int} (hwindow : s.settings.rules.window = .ok window) (hc : c.Adds) :
    c.Recorded idOf s where
  patterns := by
    obtain ⟨deed, hdeed, hadds⟩ := hc.exists_deed
    rw [memory_step hdeed, logs?_eq_deed hdeed]
    exact Memory.carries_perform .usual { s.setup with idOf } c.now hadds s.memory
  target id e hlogs := by
    obtain ⟨hevent, hlogs⟩ := logs?_eq_some hlogs
    obtain ⟨_, before, _, htarget, _⟩ := Memory.logs?_eq_some.1 hlogs
    exact ⟨hevent, before, htarget⟩
  answered hanswered := by
    obtain ⟨e, hevent⟩ := Option.isSome_iff_exists.1 (Bool.and_eq_true_iff.1 hanswered).1
    rw [answered_eq hevent] at hanswered
    obtain ⟨effect, heffect⟩ := Except.exists_of_isOk hanswered
    obtain ⟨id, hlogs⟩ := Memory.logs_of_taken (Prod.ext heffect rfl)
    rw [Call.logs?, hevent]
    exact Option.isSome_of_eq_some hlogs
  logged hcounted id e hlogs := by
    obtain ⟨hevent, hlogs⟩ := logs?_eq_some hlogs
    have hteachable : s.memory.store.Teachable := ⟨hlinked, hmeasured, hcounted, hsmoothing⟩
    rcases Memory.taken_of_logs { s.setup with idOf } hrules hteachable hwindow c.now
      hlogs with ⟨effect, n, hrun⟩ | hother
    · rw [answered_eq hevent, hrun]
      exact .inl rfl
    · exact .inr hother

/-! ### Runs -/

/-- How many calls of a run are as asked, each in the session that those before it left. -/
def countCalls (idOf : IdScheme) (asked : Session → Call → Bool) : Session → List Call → Nat
  | _, [] => 0
  | s, c :: rest => (if asked s c then 1 else 0) + countCalls idOf asked (step idOf s c) rest

/-- A call that learns alone adds to the logs what it logs. -/
theorem logged_step (idOf : IdScheme) (s : Session) (hc : c.LearnsAlone) :
    (step idOf s c).memory.logged
      = s.memory.logged + if (c.logs? idOf s).isSome then 1 else 0 := by
  obtain ⟨deed, hdeed, hlearns⟩ := hc.exists_deed
  rw [memory_step hdeed, logs?_eq_deed hdeed]
  rw [Memory.logged_perform .usual { s.setup with idOf } c.now hlearns s.memory]
  cases deed.logs? { s.setup with idOf } s.memory <;> rfl

theorem attentive_step (idOf : IdScheme) (husable : s.settings.rules.Usable) (hfades : s.settings.rules.FadesInside)
    (hweighs : s.settings.rules.Weighs) (hc : c.LearnsAlone)
    (h : s.memory.Attentive s.settings.rules) :
    (step idOf s c).memory.Attentive s.settings.rules := by
  refine keeps_step (fun m n hm => ⟨hm.ready, hm.ids, hm.weights⟩) (fun found => ?_)
    (fun e _ id => ?_) (fun now => ?_) (fun document replace htakes => ?_) (fun hload => ?_)
    (Memory.attentive_empty h.ready.smoothing) h
  · exact Memory.attentive_learn idOf c.now found.sighting
  · exact Memory.attentive_takeIn husable hweighs id e
  · exact Memory.attentive_decay hfades now
  · rw [Call.LearnsAlone, htakes] at hc
    cases hc
  · rw [Call.LearnsAlone, hload] at hc
    cases hc

/-- In an attentive session what is logged is taken in. -/
theorem answered_eq_logs (husable : s.settings.rules.Usable) (hweighs : s.settings.rules.Weighs)
    {window : Int} (hwindow : s.settings.rules.window = .ok window)
    (h : s.memory.Attentive s.settings.rules) (hc : c.LearnsAlone) :
    c.answered idOf s = (c.logs? idOf s).isSome := by
  have hrecorded : c.Recorded idOf s :=
    recorded husable h.ready.coherent.linked h.ready.measured h.ready.smoothing hwindow hc.adds
  rw [Bool.eq_iff_iff]
  constructor
  · exact hrecorded.answered
  · intro hsome
    obtain ⟨⟨id, e⟩, hlogs⟩ := Option.isSome_iff_exists.1 hsome
    rcases hrecorded.logged h.ready.counted id e hlogs with hanswered | hunmoved | hunsortable
    · exact hanswered
    · obtain ⟨before, fault, prefs, _, hunmoved⟩ := hunmoved
      exact absurd hunmoved (Learning.not_unmoved hweighs h.weights)
    · exact absurd (Memory.sortable_ids_of_text h.ready.coherent h.ids) hunsortable.2

/-- The logs of a session that learned alone hold as many events as reactions were taken
in. -/
theorem logged_run (idOf : IdScheme) (husable : s.settings.rules.Usable) (hfades : s.settings.rules.FadesInside)
    (hweighs : s.settings.rules.Weighs) {window : Int}
    (hwindow : s.settings.rules.window = .ok window) {calls : List Call}
    (hcalls : ∀ c ∈ calls, c.LearnsAlone) (h : s.memory.Attentive s.settings.rules) :
    (run idOf s calls).memory.logged
      = s.memory.logged + countCalls idOf (fun s c => c.answered idOf s) s calls := by
  induction calls generalizing s with
  | nil => simp [run, countCalls]
  | cons c rest ih =>
    obtain ⟨hc, hrest⟩ := List.forall_mem_cons.1 hcalls
    have hsettings := settings_step idOf s c
    have hnext := attentive_step idOf husable hfades hweighs hc h
    have hleft := @ih (step idOf s c) (by rwa [hsettings]) (by rwa [hsettings]) (by rwa [hsettings])
      (by rwa [hsettings]) hrest (by rwa [hsettings])
    have hfirst := logged_step idOf s hc
    rw [← answered_eq_logs husable hweighs hwindow h hc] at hfirst
    show (run idOf (step idOf s c) rest).memory.logged = _
    rw [hleft, hfirst, countCalls]
    split
    · simp only [Nat.cast_add, Nat.cast_one]
      omega
    · simp only [Nat.zero_add]
      omega

/-- The reactions of a session that learned alone can be told about, if the events can. -/
theorem serviceable_run {calls : List Call} (hcalls : ∀ c ∈ calls, c.LearnsAlone)
    (htellable : ∀ c ∈ calls, ∀ e ∈ c.event?, e.Tellable)
    (h : s.memory.store.Every Pattern.Serviceable) :
    (run idOf s calls).memory.store.Every Pattern.Serviceable := by
  have hboth : ∀ c ∈ calls, c.LearnsAlone ∧ ∀ e ∈ c.event?, e.Tellable :=
    fun c hc => ⟨hcalls c hc, htellable c hc⟩
  refine run_keeps (P := fun s => s.memory.store.Every Pattern.Serviceable) (fun s c hc h => ?_)
    hboth h
  obtain ⟨deed, hdeed, hordinary⟩ : ∃ deed, c.action.deed? c.now = some deed ∧ deed.Ordinary := by
    obtain ⟨now, files, action⟩ := c
    cases action with
    | clear => cases hc.1
    | load => cases hc.1
    | takeSnapshot document replace => cases hc.1
    | feedback id reaction reason surroundings content at? => exact ⟨_, rfl, hc.2 _ rfl⟩
    | _ => exact ⟨_, rfl, trivial⟩
  rw [memory_step hdeed]
  exact Memory.patterns_perform hordinary s.memory h

theorem smoothing_run {P : Smoothing Value → Prop} (calls : List Call)
    (h : P s.memory.store.smoothing) : P (run idOf s calls).memory.store.smoothing := by
  refine runs_keep (P := fun m => P m.store.smoothing) (fun s c h => ?_) h
  refine keeps_step (P := fun m => P m.store.smoothing) (fun _ _ h => h) (fun found => ?_)
    (fun e _ id => ?_) (fun now => ?_) (fun document replace _ => ?_)
    (fun _ memory count hloaded => ?_) h h
  · exact Memory.keeps_inStore (Store.smoothing_upsert idOf c.now found.sighting)
  · exact Memory.smoothing_takeIn _ id e
  · exact Memory.keeps_decay fun _ _ _ h => h
  · exact Memory.smoothing_takeSnapshot idOf document replace
  · rcases loaded_cases hloaded with hsame | hclear | ⟨_, _, _, _, _, hof⟩
    · rw [hsame]
      exact h
    · rw [hclear]
      exact h
    · obtain ⟨_, _, _, _, _, rfl⟩ := Memory.ofSnapshot_eq_ok_iff.1 hof
      exact h

variable {config : Config} {settings : Settings}

/-- After any run of a session under a configuration that was checked, whatever the session
took in and whatever proposes the ids, a call that adds to what was learned leaves the
history, and adds to it as recorded. Questions change nothing at all. If the session has
only learned by itself, then the total of reactions is told unless their events keep it from
being told, and it is the number of reactions that were taken in. -/
theorem history_recorded (hvalid : config.validate = .ok ())
    (hsettings : config.settings = .ok settings)
    (hwindow : ∃ window, settings.rules.window = .ok window) (grammars : Grammars) (files : Files)
    (start : Timestamp) (calls : List Call) :
    let first := Session.start settings grammars files start
    let s := run idOf first calls
    (∀ c : Call, c.Adds → c.Recorded idOf s) ∧
      (∀ (request : Request) (manner : Manner Value), request.OnlyAsks →
        ((request.perform manner).outcome s).2 = s) ∧
      ((∀ c ∈ calls, c.LearnsAlone) →
        (settings.rules.Weighs → ∀ spell numbers, s.memory.feedbackStats spell = .ok numbers →
          numbers.member? "total"
            = some (.ofNat (countCalls idOf (fun s c => c.answered idOf s) first calls))) ∧
        ((∀ c ∈ calls, ∀ e ∈ c.event?, e.Tellable) →
          ∀ spell, ∃ numbers, s.memory.feedbackStats spell = .ok numbers)) := by
  intro first s
  obtain ⟨window, hwindow⟩ := hwindow
  have hrules := rules_of_settings hsettings
  have husable : settings.rules.Usable := by
    rw [hrules]
    exact Config.usable_rules hvalid
  have hfades : settings.rules.FadesInside := by
    rw [hrules]
    exact Config.fadesInside_of_validate hvalid
  have hsmoothing : settings.smoothing.Usable := by
    rw [smoothing_of_settings hsettings]
    exact Config.usable_smoothing hvalid
  have hkept : s.settings = settings := settings_run idOf first calls
  have hmeasured : s.memory.Measured := measured_run hvalid hsettings grammars files start calls
  refine ⟨fun c hc => ?_, fun request manner hasks => request.outcome_perform hasks manner s,
    fun hcalls => ⟨fun hweighs spell numbers htold => ?_, fun htellable spell => ?_⟩⟩
  · refine recorded (by rwa [hkept]) (linked_run settings grammars files start calls) hmeasured ?_
      (by rwa [hkept]) hc
    exact smoothing_run (P := Smoothing.Usable) calls hsmoothing
  · have hlogged := logged_run idOf (s := first) husable hfades hweighs hwindow hcalls
      (Memory.attentive_empty hsmoothing)
    rw [Memory.total_feedbackStats htold, hlogged]
    exact congrArg (fun n => some (Value.int n)) (Int.zero_add _)
  · refine Memory.exists_feedbackStats hmeasured ?_ spell
    exact serviceable_run hcalls htellable (Store.every_empty _)

theorem learnsAlone_accepted : ∀ c ∈ acceptedCalls, c.LearnsAlone :=
  List.forall_mem_cons.2 ⟨trivial, List.forall_mem_singleton.2 trivial⟩

theorem tellable_accepted : ∀ c ∈ acceptedCalls, ∀ e ∈ c.event?, e.Tellable := by
  refine List.forall_mem_cons.2 ⟨nofun, List.forall_mem_singleton.2 fun e he => ?_⟩
  cases he
  exact ⟨nofun, nofun⟩

/-- A text is analysed and its pattern accepted: one reaction is taken in, and the total is
one. -/
theorem history_recorded_of_acceptance :
    outlinedGo.validate = .ok () ∧ ∃ settings, outlinedGo.settings = .ok settings ∧
      (∃ window, settings.rules.window = .ok window) ∧ settings.rules.Weighs ∧
      (∀ c ∈ acceptedCalls, c.LearnsAlone) ∧
      let s := run .usual (withoutGrammars settings) acceptedCalls
      (∀ c : Call, c.Adds → c.Recorded .usual s) ∧
        ∃ numbers, s.memory.feedbackStats Manner.answer.spell = .ok numbers ∧
          numbers.member? "total" = some (.int 1) := by
  have hvalid : outlinedGo.validate = .ok () := Except.eq_ok_unit (by decide +kernel)
  have hcounted : (outlinedGo.settings.toOption.any fun settings =>
      settings.rules.window.isOk &&
        countCalls .usual (fun s c => c.answered .usual s) (withoutGrammars settings) acceptedCalls
          == 1) = true := by decide +kernel
  obtain ⟨settings, hsettings, hcounted⟩ := (Option.any_eq_true _ _).1 hcounted
  have hsettings := Except.toOption_eq_some.1 hsettings
  obtain ⟨hwindow, hcounted⟩ := Bool.and_eq_true_iff.1 hcounted
  have hwindow := Except.exists_of_isOk hwindow
  have hweighs : settings.rules.Weighs := by
    rw [rules_of_settings hsettings]
    exact ⟨Value.mixes_real _, Value.mixes_real _, Value.mixes_real _⟩
  obtain ⟨hrecorded, _, halone⟩ := @history_recorded .usual _ _ hvalid hsettings hwindow
    ⟨fun _ _ => default, fun _ => .statements []⟩ .empty ⟨0, 0⟩ acceptedCalls
  obtain ⟨htotal, htold⟩ := halone learnsAlone_accepted
  obtain ⟨numbers, hnumbers⟩ := htold tellable_accepted Manner.answer.spell
  refine ⟨hvalid, settings, hsettings, hwindow, hweighs, learnsAlone_accepted, hrecorded, numbers,
    hnumbers, ?_⟩
  rw [htotal hweighs _ numbers hnumbers]
  exact congrArg (fun n => some (Value.ofNat n)) (eq_of_beq hcounted)

/-- With a step of the weights that is text, the acceptance is in the log and in the total,
although it was not taken in. -/
theorem logged_but_refused :
    textStep.validate = .ok () ∧ ∃ settings, textStep.settings = .ok settings ∧
      (∃ window, settings.rules.window = .ok window) ∧ (∀ c ∈ acceptedCalls, c.LearnsAlone) ∧
      let first := withoutGrammars settings
      countCalls .usual (fun s c => c.answered .usual s) first acceptedCalls = 0 ∧
        ∃ numbers, (run .usual first acceptedCalls).memory.feedbackStats Manner.answer.spell
            = .ok numbers ∧ numbers.member? "total" = some (.int 1) := by
  have hvalid : textStep.validate = .ok () := Except.eq_ok_unit (by decide +kernel)
  have hcounted : (textStep.settings.toOption.any fun settings =>
      let first := withoutGrammars settings
      let s := run .usual first acceptedCalls
      settings.rules.window.isOk && (s.memory.feedbackStats Manner.answer.spell).isOk &&
        decide (countCalls .usual (fun s c => c.answered .usual s) first acceptedCalls = 0 ∧
          s.memory.logged = 1)) = true := by decide +kernel
  obtain ⟨settings, hsettings, hcounted⟩ := (Option.any_eq_true _ _).1 hcounted
  obtain ⟨hcounted, hnumbers⟩ := Bool.and_eq_true_iff.1 hcounted
  obtain ⟨hwindow, htold⟩ := Bool.and_eq_true_iff.1 hcounted
  obtain ⟨hnone, hone⟩ := of_decide_eq_true hnumbers
  obtain ⟨numbers, htold⟩ := Except.exists_of_isOk htold
  refine ⟨hvalid, settings, Except.toOption_eq_some.1 hsettings, Except.exists_of_isOk hwindow,
    learnsAlone_accepted, hnone, numbers, htold, ?_⟩
  rw [Memory.total_feedbackStats htold, hone]

end Session

end CodeHabits
