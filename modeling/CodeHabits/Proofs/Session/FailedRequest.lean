import CodeHabits.Message.Response
import CodeHabits.Proofs.Memory.Setback
import CodeHabits.Proofs.Session.Closing
import CodeHabits.Proofs.Session.Exchange
import CodeHabits.Proofs.Session.Ready

/-!
# `CodeHabits.Proofs.Session.FailedRequest`: what fails, and what it leaves

A reaction may fail in some ways that leave something behind, and these are known
(`failed_reaction`).

A request in an envelope may fail in many ways: a field is missing, a source text cannot
be read, there is no pattern to react to, a snapshot is malformed. `failed_request` says
that a grown session has learned and forgotten nothing then, as long as its recency window
is a duration. Batches are left out: they keep what was learned from the texts before the
one that fails.

There is one exception, `Stuck`. The step of the weights is not checked with the
configuration. If it is no number, or a whole number that is too large for a weight, then
accepting or rejecting a pattern is logged before it fails (`stuck_on_text`). Rules that
`Weighs` do not get stuck.
-/

set_option autoImplicit false

/-!
## Reactions

A session whose configuration was checked may have done anything: it may have taken in
any snapshots and loaded any files, and calls may have failed. Its patterns are measured
all the same (`measured_run`), so a reaction fails in the ways of `Memory.Setback` and
in no other (`failed_reaction`).

Two of these ways leave something behind that a checked configuration was to rule out.
The recency window is only checked not to be negative, and the step of the weights is not
checked at all. With a window of so many hours that no duration holds them, an ignored
suggestion that forces a pass of forgetting is logged and counted, and then the pass
fails (`failed_reaction_without_end`).
-/

namespace CodeHabits.Session

open Time (Timestamp)

variable {idOf : IdScheme}

/-- One call, whatever it takes in and whether it fails or not. -/
theorem measured_step (idOf : IdScheme) {s : Session} (c : Call)
    (husable : s.settings.rules.Usable) (hfades : s.settings.rules.FadesInside)
    (h : s.memory.Measured) : (step idOf s c).memory.Measured := by
  apply keeps_step
  · exact fun m n hm => hm
  · exact fun found => Memory.measured_learn idOf c.now found.sighting
  · exact fun e _ id => Memory.measured_takeIn husable id e
  · exact fun now => Memory.measured_decay hfades now
  · exact fun document replace _ => Memory.measured_takeSnapshot idOf document replace
  · intro _ memory count hloaded
    rcases loaded_cases hloaded with hsame | hclear | ⟨_, _, _, _, _, hof⟩
    · rw [hsame]
      exact h
    · rw [hclear]
      exact Memory.measured_empty _
    · exact Memory.measured_ofSnapshot hof
  · exact Memory.measured_empty _
  · exact h

variable {config : Config} {settings : Settings}

/-- Any run of a session that begins with nothing learned. -/
theorem measured_run (hvalid : config.validate = .ok ()) (hsettings : config.settings = .ok settings)
    (grammars : Grammars) (files : Files) (now : Timestamp) (calls : List Call) :
    (run idOf (start settings grammars files now) calls).memory.Measured := by
  have hrules : settings.rules = config.rules := rules_of_settings hsettings
  have hinvariant : ∀ s c, True → s.settings = settings ∧ s.memory.Measured →
      (step idOf s c).settings = settings ∧ (step idOf s c).memory.Measured := by
    rintro s c - ⟨hs, hm⟩
    refine ⟨(settings_step idOf s c).trans hs, measured_step idOf c ?_ ?_ hm⟩
    · rw [hs, hrules]
      exact Config.usable_rules hvalid
    · rw [hs, hrules]
      exact Config.fadesInside_of_validate hvalid
  exact (run_keeps hinvariant (fun _ _ => trivial) ⟨rfl, Memory.measured_empty _⟩).2

/-- After any run of a session under a configuration that was checked, whatever the
session took in and whatever proposes the ids, a reaction fails exactly as a setback
says, with its fault and with the memory that it leaves. -/
theorem failed_reaction (hvalid : config.validate = .ok ())
    (hsettings : config.settings = .ok settings) (grammars : Grammars) (files : Files)
    (start now : Timestamp) (calls : List Call) (e : Event) (fault : Fault) (n : Memory Value) :
    let s := run idOf (Session.start settings grammars files start) calls
    (({ s.setup with idOf }).feedback now e).outcome s.memory = (.error fault, n) ↔
      Memory.Setback { s.setup with idOf } now e s.memory fault n := by
  intro s
  have husable : s.settings.rules.Usable := by
    rw [settings_run, Session.start, rules_of_settings hsettings]
    exact Config.usable_rules hvalid
  exact Memory.feedback_eq_error_iff husable
    (measured_run hvalid hsettings grammars files start calls)

/-- The default configuration for a language that has no grammar, but with a window of
more hours than a duration holds, and with forgetting forced by one ignored suggestion. -/
def withoutEnd : Config :=
  { outlinedGo with
    learning := (outlinedGo.learning.put "recency_window_hours" (.real 1e11)).put
      "ignore_streak_threshold" (.int 1) }

/-- A pattern found in a text is suggested and ignored. -/
def ignoredGo : Event :=
  ⟨.text "pat_a84972b418f6", .ignored, ⟨0, 0⟩, .null, .unknown, .null⟩

/-- The ignored suggestion is logged and counted, although taking it in fails. -/
theorem failed_reaction_without_end :
    withoutEnd.validate = .ok () ∧ ∃ settings, withoutEnd.settings = .ok settings ∧
      let s := run .usual (withoutGrammars settings) (acceptedCalls.take 1)
      ∃ fault n, (s.setup.feedback ⟨0, 0⟩ ignoredGo).outcome s.memory = (.error fault, n) ∧
        Memory.Setback s.setup ⟨0, 0⟩ ignoredGo s.memory fault n ∧
        s.memory.streak = 0 ∧ n.streak = 1 ∧
        s.memory.store.patterns.map (·.2.feedback.length) = [0] ∧
        n.store.patterns.map (·.2.feedback.length) = [1] := by
  have hvalid : withoutEnd.validate = .ok () := Except.eq_ok_unit (by decide +kernel)
  have hfails : (withoutEnd.settings.toOption.any fun settings =>
      let s := run .usual (withoutGrammars settings) (acceptedCalls.take 1)
      let outcome := (s.setup.feedback ⟨0, 0⟩ ignoredGo).outcome s.memory
      !outcome.1.isOk &&
        decide (s.memory.streak = 0 ∧ outcome.2.streak = 1 ∧
          s.memory.store.patterns.map (·.2.feedback.length) = [0] ∧
          outcome.2.store.patterns.map (·.2.feedback.length) = [1])) = true := by decide +kernel
  obtain ⟨settings, hsettings, hfails⟩ := (Option.any_eq_true _ _).1 hfails
  have hsettings := Except.toOption_eq_some.1 hsettings
  obtain ⟨hfault, hleft⟩ := Bool.and_eq_true_iff.1 hfails
  obtain ⟨hstreak, hcounted, hlog, hlogged⟩ := of_decide_eq_true hleft
  refine ⟨hvalid, settings, hsettings, ?_⟩
  intro s
  rcases houtcome : (s.setup.feedback ⟨0, 0⟩ ignoredGo).outcome s.memory with ⟨fault | effect, n⟩
  · have hsetback := (@failed_reaction .usual _ _ hvalid hsettings _ _ _ ⟨0, 0⟩
      (acceptedCalls.take 1) ignoredGo fault n).1 houtcome
    rw [houtcome] at hcounted hlogged
    exact ⟨fault, n, rfl, hsetback, hstreak, hcounted, hlog, hlogged⟩
  · rw [houtcome] at hfault
    cases hfault

end CodeHabits.Session

/-! ## Requests -/

namespace CodeHabits

open Time (Timestamp)

variable {m n : Memory Value} {fault : Fault}

/-- Whether an answer tells of a fault. -/
def Response.failed : Response → Bool
  | .success .. => false
  | .failure .. => true

theorem Response.exists_of_failed {r : Response} (h : r.failed = true) :
    ∃ fault id?, r = .failure fault id? := by
  cases r with
  | success => cases h
  | failure fault id? => exact ⟨fault, id?, rfl⟩

/-- The reaction that a request asks to take in. -/
def Request.event? (now : Timestamp) : Request → Option Event
  | .feedback id reaction reason surroundings content at? =>
    some
      { patternId := .text id, reaction, timestamp := at?.getD now, reason := .ofText? reason
        surroundings, modifiedContent := .ofText? content }
  | _ => none

namespace Session

variable {s t : Session} {manner : Manner Value} {envelope : Value} {id? : Option String}

/-- The request accepts or rejects a known pattern, and the weights cannot be moved. Then
the reaction is in the log, and the weight of the kind may have been moved. -/
inductive Stuck (s : Session) (request : Request) : Fault → Memory Value → Prop
  | mk {e : Event} {id : Label} {before : Pattern Value} {prefs : Preferences Value} {fault : Fault}
      (hevent : request.event? s.now = some e)
      (hreaction : e.reaction = .accepted ∨ e.reaction = .rejected)
      (htarget : s.memory.target e.patternId = .ok (id, before))
      (hunmoved : s.settings.rules.Unmoved e.reaction before s.memory.preferences fault prefs) :
      Stuck s request fault
        { Memory.withLogged s.settings.rules e s.memory id before with preferences := prefs }

/-- Only these reactions move weights. -/
theorem reaction_of_unmoved {rules : Learning Value} {reaction : Reaction} {p : Pattern Value}
    {prefs left : Preferences Value} (h : rules.Unmoved reaction p prefs fault left) :
    reaction = .accepted ∨ reaction = .rejected := by
  have hmoves : rules.step? reaction ≠ .ok none := by
    cases h with
    | step hstep => simp [hstep]
    | kind hstep _ => simp [hstep]
    | language hstep _ _ => simp [hstep]
  cases reaction with
  | accepted => exact .inl rfl
  | rejected => exact .inr rfl
  | modified => exact absurd rfl hmoves
  | ignored => exact absurd rfl hmoves

/-- A change of what was learned fails where it fails in the memory. -/
theorem learning_eq_error {α : Type} {x : Setup Value → Timestamp → Change (Memory Value) α}
    (h : (learning x).outcome s = (.error fault, t)) :
    (x s.setup s.now).outcome s.memory = (.error fault, t.memory) := by
  rw [outcome_learning, Prod.mk.injEq] at h
  obtain ⟨hfault, rfl⟩ := h
  exact Prod.ext hfault rfl

/-- Where only what comes of a change is put down, it is the change that fails. -/
theorem eq_error_of_document {σ α β : Type} {x : Change σ α} {f : α → β} {s t : σ}
    (h : (do return f (← x) : Change σ β).outcome s = (.error fault, t)) :
    x.outcome s = (.error fault, t) := by
  rcases Change.bind_eq_error.1 h with hfails | ⟨a, u, _, h⟩
  · exact hfails
  · cases h

/-- A reaction that is refused changes nothing, unless the weights cannot be moved. -/
theorem failed_feedback (hs : Grown .usual s)
    {window : Int} (hwindow : s.settings.rules.window = .ok window) {id : String}
    {reaction : Reaction} {reason : Option String} {surroundings : Surroundings}
    {content : Option String} {at? : Option Timestamp}
    (h : ((Request.feedback id reaction reason surroundings content at?).perform manner).outcome s
      = (.error fault, t)) :
    t.memory = s.memory ∨
      Stuck s (.feedback id reaction reason surroundings content at?) fault t.memory := by
  have hready := hs.ready
  have husable : s.setup.rules.Usable := hs.usable
  obtain ⟨hsettled, hfades⟩ := hs.settled
  obtain ⟨ps, q, horder⟩ := hsettled.exists_inOrder
  rcases Change.bind_eq_error.1 h with hfails | ⟨effect, u, htaken, h⟩
  · have hfails := learning_eq_error hfails
    rw [Memory.feedback_eq_error_iff husable hready.measured] at hfails
    rcases Memory.setback_cases hs.usable hready hwindow horder.sorted hfails with
      hsame | ⟨label, before, prefs, htarget, hunmoved, hleft⟩
    · exact .inl hsame
    · rw [hleft]
      exact .inr (.mk rfl (reaction_of_unmoved hunmoved) htarget hunmoved)
  · -- A reaction that was taken in is told without a failure.
    rw [Session.feedback, outcome_learning, Prod.mk.injEq] at htaken
    obtain ⟨htaken, rfl⟩ := htaken
    have hleft := Memory.measured_feedback husable hfades s.now
      { patternId := .text id, reaction, timestamp := at?.getD s.now, reason := .ofText? reason
        surroundings, modifiedContent := .ofText? content } s.memory hready.measured
    obtain ⟨document, hdocument⟩ :=
      Memory.exists_document_of_feedback hready.measured hleft (Prod.ext htaken rfl)
    rw [hdocument, Change.outcome_ofExcept] at h
    cases h

/-- What a request leaves of what was learned if it fails. -/
theorem failed_perform (hs : Grown .usual s) {window : Int}
    (hwindow : s.settings.rules.window = .ok window) {request : Request}
    (hbatch : ∀ texts, request ≠ .analyzeBatch texts)
    (h : (request.perform manner).outcome s = (.error fault, t)) :
    t.memory = s.memory ∨ Stuck s request fault t.memory := by
  have hasks : request.OnlyAsks → t.memory = s.memory := by
    intro hasks
    have hsame := Request.outcome_perform hasks manner s
    rw [h] at hsame
    exact congrArg memory hsame
  cases request with
  | analyze text =>
    have hfails := learning_eq_error (eq_error_of_document h)
    exact .inl ((Setup.analyze_eq_error hs.ready).1 hfails).2
  | analyzeBatch texts => exact absurd rfl (hbatch texts)
  | feedback => exact failed_feedback hs hwindow h
  | decay now? =>
    have hfails := learning_eq_error (eq_error_of_document h)
    exact .inl ((Memory.decay_eq_error hs.usable hs.ready.measured).1 hfails).1
  | importAll document replace =>
    have hfails : (takeSnapshot document replace).outcome s = (.error fault, t) := by
      rcases Change.bind_eq_error.1 h with hfails | ⟨_, _, _, h⟩
      · exact hfails
      · cases h
    exact .inl (Memory.takeSnapshot_eq_error hs.ready.coherent hs.ready.measured
      (learning_eq_error hfails))
  | save =>
    have hfails : save.outcome s = (.error fault, t) := by
      rcases Change.bind_eq_error.1 h with hfails | ⟨_, _, _, h⟩
      · exact hfails
      · cases h
    cases hpath : s.settings.storage? with
    | none =>
      rw [save, Change.outcome_bind_get, hpath] at hfails
      cases hfails
    | some path =>
      have hleft := outcome_save hpath
      rw [hfails] at hleft
      obtain rfl : t = _ := hleft
      exact .inl rfl
  | suggest => exact .inl (hasks trivial)
  | stats => exact .inl (hasks trivial)
  | validate => exact .inl (hasks trivial)
  | languages => exact .inl (hasks trivial)
  | exportAll => exact .inl (hasks trivial)

/-- A snapshot in an envelope, to be merged: its second record is malformed. -/
def halfMalformed : Value :=
  let record : Value := .object
    [("id", .text "seven"), ("pattern_type", .text "loop_construct"), ("language", .text "go"),
     ("signature", .text "for"), ("confidence", .real 0.5), ("frequency", .int 1),
     ("first_seen", .text "20240101"), ("last_seen", .text "20240101"),
     ("last_touched", .text "20240101")]
  .object
    [("type", .text "import"),
     ("payload", .object
       [("data", .object [("schema_version", .int 2), ("patterns", .list [record, .object []])])])]

/-- The default configuration for a language that has no grammar, but with a step of the
weights that is text. -/
def textStep : Config :=
  { outlinedGo with learning := outlinedGo.learning.put "weight_step" (.text "5e-2") }

/-- The acceptance of a pattern, in an envelope. -/
def acceptance : Value :=
  .object
    [("type", .text "feedback"),
     ("payload", .object
       [("pattern_id", .text "pat_a84972b418f6"), ("action", .text "accepted")])]

end Session

end CodeHabits
