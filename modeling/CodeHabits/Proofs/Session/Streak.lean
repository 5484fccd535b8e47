import CodeHabits.Proofs.Memory.Streak
import CodeHabits.Proofs.Session.Adding

/-!
# `CodeHabits.Proofs.Session.Streak`: the streak of a session

`ignoredSince` goes through the calls of a run and counts the suggestions that were ignored
since the row was last ended. Up to multiples of the limit the streak of the session is that
number (`ignored_counted`), and the suggestion that makes it a multiple of the limit forces a
pass of forgetting. Calls that fail leave the streak alone, and so do calls that take no
reaction in.

There is one exception. A modification that was logged ends the row even if nothing can be
learned from it, and then the call fails (`Call.loses`). It takes a merged snapshot for that,
with counts of styles that are no whole numbers: merging does not look at them
(`streak_lost`). Without such snapshots the row is ended only by reactions that are taken in.
-/

set_option autoImplicit false

namespace CodeHabits.Session

open Time (Timestamp)
open Memory (Counts Deed)

variable {idOf : IdScheme} {s : Session} {c : Call} {e : Event} {limit k : Nat}

/-! ### Calls and the streak -/

/-- The call takes in an ignored suggestion. -/
def Call.ignores (idOf : IdScheme) (s : Session) (c : Call) : Bool :=
  c.answered idOf s && c.event?.any fun e => e.reaction == .ignored

/-- The call takes in another reaction. -/
def Call.ends (idOf : IdScheme) (s : Session) (c : Call) : Bool :=
  c.answered idOf s && c.event?.any fun e => e.reaction != .ignored

/-- The call logs a modification, and fails. -/
def Call.loses (idOf : IdScheme) (s : Session) (c : Call) : Bool :=
  !c.answered idOf s && (c.event?.any fun e => e.reaction == .modified) && (c.logs? idOf s).isSome

/-- The number of suggestions that were ignored since the row was ended, after one more
call. -/
def Call.recount (idOf : IdScheme) (breaks : Session → Call → Bool) (s : Session) (c : Call)
    (k : Nat) : Nat :=
  if breaks s c then 0 else if c.ignores idOf s then k + 1 else k

/-- The same after several calls. -/
def ignoredSince (idOf : IdScheme) (breaks : Session → Call → Bool) : Session → Nat → List Call → Nat
  | _, k, [] => k
  | s, k, c :: rest =>
    ignoredSince idOf breaks (step idOf s c) (c.recount idOf breaks s k) rest

/-- Where two ways to end a row are the same, the same suggestions are counted. -/
theorem ignoredSince_congr {P : Session → Prop} {allowed : Call → Prop}
    {breaks others : Session → Call → Bool} (hstep : ∀ s c, allowed c → P s → P (step idOf s c))
    (hsame : ∀ s c, allowed c → P s → breaks s c = others s c) {calls : List Call}
    (hcalls : ∀ c ∈ calls, allowed c) (h : P s) (k : Nat) :
    ignoredSince idOf breaks s k calls = ignoredSince idOf others s k calls := by
  induction calls generalizing s k with
  | nil => rfl
  | cons c rest ih =>
    obtain ⟨hc, hrest⟩ := List.forall_mem_cons.1 hcalls
    have hfirst : c.recount idOf breaks s k = c.recount idOf others s k := by
      rw [Call.recount, Call.recount, hsame s c hc h]
    rw [ignoredSince, ignoredSince, hfirst]
    exact ih hrest (hstep s c hc h) _

/-- A call that takes a reaction in does what the memory does. -/
theorem memory_step_of_event (hevent : c.event? = some e) :
    (step idOf s c).memory
      = ((({ s.setup with idOf } : Setup Value).feedback c.now e).outcome s.memory).2 := by
  have hdeed : c.action.deed? c.now = some (.feedback e) := by
    obtain ⟨now, files, action⟩ := c
    cases action with
    | feedback id reaction reason surroundings content at? =>
      cases hevent
      rfl
    | _ => cases hevent
  rw [memory_step hdeed, Memory.perform, Change.outcome_drop]

/-- Any other call that adds to what was learned leaves the streak alone. -/
theorem streak_step_of_no_event (idOf : IdScheme) (hc : c.Adds) (hnone : c.event? = none) :
    (step idOf s c).memory.streak = s.memory.streak := by
  obtain ⟨deed, hdeed, hadds⟩ := hc.exists_deed
  have hother : ∀ e, deed ≠ .feedback e := by
    rintro e rfl
    obtain ⟨now, files, action⟩ := c
    cases action with
    | feedback id reaction reason surroundings content at? => cases hnone
    | _ => cases hdeed
  rw [memory_step hdeed]
  exact Memory.streak_perform .usual { s.setup with idOf } c.now hadds hother s.memory rfl

/-! ### Patient sessions -/

/-- A session that bears with fewer than `limit` ignored suggestions in a row, and can run a
pass of forgetting. -/
structure Patient (limit : Nat) (s : Session) : Prop where
  usable : s.settings.rules.Usable
  fades : s.settings.rules.FadesInside
  window : ∃ window, s.settings.rules.window = .ok window
  threshold : s.settings.rules.ignoreThreshold.number? = some (.int limit)
  pos : 0 < limit
  coherent : s.memory.store.Coherent
  measured : s.memory.Measured
  ids : s.memory.store.Every fun p => p.id.IsText
  smoothing : s.memory.store.smoothing.Usable

/-- The ids stay texts, whatever is merged. -/
theorem texts_step (idOf : IdScheme) (hc : c.Adds)
    (h : s.memory.store.Every fun p => p.id.IsText) :
    (step idOf s c).memory.store.Every fun p => p.id.IsText := by
  apply keeps_step (P := fun m => m.store.Every fun p => p.id.IsText)
  · exact fun m n hm => hm
  · exact fun found => Memory.texts_learn idOf c.now found.sighting
  · exact fun e _ id => Memory.texts_takeIn _ id e
  · exact fun now => Memory.texts_decay _ now
  · intro document replace htakes
    obtain rfl : replace = false := by simpa [Call.Adds, htakes] using hc
    exact Memory.texts_merge idOf document
  · intro hload
    simp [Call.Adds, hload] at hc
  · exact Store.every_empty _
  · exact h

theorem Patient.step (h : s.Patient limit) (idOf : IdScheme) (hc : c.Adds) :
    (step idOf s c).Patient limit := by
  have hsettings := settings_step idOf s c
  have hids := texts_step idOf hc h.ids
  have hidentified : (Session.step idOf s c).memory.store.Identified := by
    intro entry hentry
    obtain ⟨text, htext⟩ := hids entry hentry
    rw [htext]
    rfl
  exact {
    usable := by rw [hsettings]; exact h.usable
    fades := by rw [hsettings]; exact h.fades
    window := by rw [hsettings]; exact h.window
    threshold := by rw [hsettings]; exact h.threshold
    pos := h.pos
    coherent := structural_step Store.structural_coherent idOf s c (fun _ => h.coherent) hidentified
    measured := measured_step idOf c h.usable h.fades h.measured
    ids := hids
    smoothing := by
      -- One call is a run of one call.
      show (run idOf s [c]).memory.store.smoothing.Usable
      exact smoothing_run [c] h.smoothing }

/-- Whatever reaction comes next, it comes to one of the things that are listed. -/
theorem Patient.counts (h : s.Patient limit) (idOf : IdScheme) (now : Timestamp) (e : Event)
    {result : Except Fault (Effect Value)} {n : Memory Value}
    (hrun : (({ s.setup with idOf } : Setup Value).feedback now e).outcome s.memory = (result, n)) :
    Counts { s.setup with idOf } limit now e s.memory result n :=
  Memory.counts_feedback h.usable h.measured h.threshold h.window
    (Store.exists_inOrder_iff.2 (Memory.sortable_ids_of_text h.coherent h.ids)) hrun

/-- One call keeps the streak equal to what is counted, up to multiples of the limit. -/
theorem Patient.streak_step (h : s.Patient limit) (hc : c.Adds)
    (hk : s.memory.streak = k % limit) :
    (Session.step idOf s c).memory.streak
      = c.recount idOf (fun s c => c.ends idOf s || c.loses idOf s) s k % limit := by
  cases hevent : c.event? with
  | none =>
    rw [streak_step_of_no_event idOf hc hevent, hk]
    simp [Call.recount, Call.ends, Call.loses, Call.ignores, hevent]
  | some e =>
    have hlogs : c.logs? idOf s = Deed.logs? { s.setup with idOf } s.memory (.feedback e) := by
      rw [Call.logs?, hevent]
      rfl
    rw [memory_step_of_event hevent, Call.recount, Call.ends, Call.loses, Call.ignores,
      answered_eq hevent, hlogs, hevent]
    rcases hrun : (({ s.setup with idOf } : Setup Value).feedback c.now e).outcome s.memory
      with ⟨result, n⟩
    have hcounts := h.counts idOf c.now e hrun
    cases result with
    | ok effect =>
      rw [hcounts.streak_of_ok h.pos hk]
      by_cases hignored : e.reaction = .ignored
      · simp [hignored, Except.isOk, Except.toBool]
      · simp [hignored, Except.isOk, Except.toBool]
    | error fault =>
      -- Of what fails only a modification that is logged touches the streak.
      cases hcounts with
      | refused hnothing => simp [hnothing, hk, Except.isOk, Except.toBool]
      | unmoved _ hjudged _ =>
        have hother : e.reaction ≠ .modified := by
          rcases hjudged with haccepted | hrejected
          · simp [haccepted]
          · simp [hrejected]
        simp [hother, hk, Except.isOk, Except.toBool, Memory.withLogged]
      | unlearned htarget hread hmodified _ hstreak =>
        have hlogged : (Deed.logs? { s.setup with idOf } s.memory (.feedback e)).isSome :=
          Option.isSome_of_eq_some (Memory.logs?_eq_some.2 ⟨rfl, _, _, htarget, hread⟩)
        simp [hmodified, hlogged, hstreak, Except.isOk, Except.toBool]

/-- And so does a run. -/
theorem Patient.streak_run (h : s.Patient limit) {calls : List Call}
    (hcalls : ∀ c ∈ calls, c.Adds) (hk : s.memory.streak = k % limit) :
    (run idOf s calls).Patient limit ∧
      (run idOf s calls).memory.streak
        = ignoredSince idOf (fun s c => c.ends idOf s || c.loses idOf s) s k calls % limit := by
  induction calls generalizing s k with
  | nil => exact ⟨h, hk⟩
  | cons c rest ih =>
    obtain ⟨hc, hrest⟩ := List.forall_mem_cons.1 hcalls
    exact ih (h.step idOf hc) hrest (h.streak_step hc hk)

/-! ### Whole counts -/

/-- If the call merges a snapshot, then all counts in it are whole numbers. -/
def Call.WholeCounts (c : Call) : Prop :=
  ∀ document replace ps, c.action = .takeSnapshot document replace →
    patternsIn document = .ok ps → ∀ p ∈ ps, p.Counted

theorem counted_step (idOf : IdScheme) (hc : c.Adds) (hwhole : c.WholeCounts)
    (h : s.memory.store.Every Pattern.Counted) :
    (step idOf s c).memory.store.Every Pattern.Counted := by
  apply keeps_step (P := fun m => m.store.Every Pattern.Counted)
  · exact fun m n hm => hm
  · exact fun found => Memory.keeps_inStore (Store.counted_upsert idOf c.now found.sighting)
  · exact fun e _ id => Memory.counted_takeIn _ id e
  · exact fun now => Memory.counted_decay _ now
  · intro document replace htakes
    apply Memory.every_takeSnapshot
    intro members ps hmembers hps p hp
    have hread : patternsIn document = .ok ps := by
      rw [patternsIn, hmembers]
      exact hps
    have hp : p.Counted := hwhole document replace ps htakes hread p hp
    exact ⟨hp, Store.counted_gain p, fun _ => hp⟩
  · intro hload
    simp [Call.Adds, hload] at hc
  · exact Store.every_empty _
  · exact h

/-- With whole counts a modification that is logged is also taken in. -/
theorem Patient.not_loses (h : s.Patient limit) (hcounted : s.memory.store.Every Pattern.Counted)
    (hc : c.Adds) : c.loses idOf s = false := by
  rw [← Bool.not_eq_true]
  intro hloses
  simp only [Call.loses, Bool.and_eq_true, Bool.not_eq_true', Option.any_eq_true,
    Option.isSome_iff_exists, beq_iff_eq] at hloses
  obtain ⟨⟨hfails, e, hevent, hmodified⟩, ⟨id, logged⟩, hlogs⟩ := hloses
  obtain ⟨window, hwindow⟩ := h.window
  have hrecorded : c.Recorded idOf s :=
    recorded h.usable h.coherent.linked h.measured h.smoothing hwindow hc
  obtain ⟨hsame, _⟩ := hrecorded.target id logged hlogs
  rw [hevent] at hsame
  cases hsame
  rcases hrecorded.logged hcounted id e hlogs with hanswered | ⟨_, _, _, _, hunmoved⟩ | hignored
  · rw [hfails] at hanswered
    cases hanswered
  · simpa [hmodified] using hunmoved.judged
  · simpa [hmodified] using hignored.1

/-- So with whole counts the row is ended by reactions that are taken in, and by nothing
else. -/
theorem Patient.whole_run (h : s.Patient limit) (idOf : IdScheme)
    (hcounted : s.memory.store.Every Pattern.Counted) {calls : List Call}
    (hcalls : ∀ c ∈ calls, c.Adds) (hwhole : ∀ c ∈ calls, c.WholeCounts) (k : Nat) :
    (run idOf s calls).memory.store.Every Pattern.Counted ∧
      ignoredSince idOf (fun s c => c.ends idOf s || c.loses idOf s) s k calls
        = ignoredSince idOf (fun s c => c.ends idOf s) s k calls := by
  have hboth : ∀ c ∈ calls, c.Adds ∧ c.WholeCounts := fun c hc => ⟨hcalls c hc, hwhole c hc⟩
  have hstep : ∀ s c, Call.Adds c ∧ c.WholeCounts →
      Patient limit s ∧ s.memory.store.Every Pattern.Counted →
      (Session.step idOf s c).Patient limit ∧
        (Session.step idOf s c).memory.store.Every Pattern.Counted :=
    fun s c hc hs => ⟨hs.1.step idOf hc.1, counted_step idOf hc.1 hc.2 hs.2⟩
  constructor
  · exact (run_keeps hstep hboth ⟨h, hcounted⟩).2
  · apply ignoredSince_congr hstep _ hboth ⟨h, hcounted⟩
    intro s c hc hs
    show (c.ends idOf s || c.loses idOf s) = c.ends idOf s
    rw [hs.1.not_loses hs.2 hc.1, Bool.or_false]

/-! ### Lives -/

/-- A session under a checked configuration is patient up to the threshold that the
configuration sets. -/
theorem Life.patient_start (l : Life) (hwindow : ∃ window, l.settings.rules.window = .ok window)
    (hlimit : l.settings.rules.ignoreThreshold.number? = some (.int limit)) :
    (Session.start l.settings l.grammars l.files l.start).Patient limit := by
  have hrules : l.settings.rules = l.config.rules := rules_of_settings l.made
  have hpos : 0 < limit := by
    obtain ⟨n, hn, hnotBelow⟩ := (Config.validate_eq_ok_iff.1 l.valid).ignored
    have hn : l.settings.rules.ignoreThreshold.number? = some n := by
      rw [hrules]
      exact hn
    rw [hlimit] at hn
    cases hn
    have hone : ¬ (limit : Int) < 1 := of_decide_eq_false hnotBelow
    omega
  exact {
    usable := by
      show l.settings.rules.Usable
      rw [hrules]
      exact Config.usable_rules l.valid
    fades := by
      show l.settings.rules.FadesInside
      rw [hrules]
      exact Config.fadesInside_of_validate l.valid
    window := hwindow
    threshold := hlimit
    pos := hpos
    coherent := Store.coherent_empty _
    measured := Memory.measured_empty _
    ids := Store.every_empty _
    smoothing := by
      show l.settings.smoothing.Usable
      rw [smoothing_of_settings l.made]
      exact Config.usable_smoothing l.valid }

/-- After any life of a session that adds to what it knows, with a window that can be reckoned
with and a whole number of ignored suggestions that are not borne:

- the streak is below that limit, and up to multiples of it the number of suggestions that
  were ignored since the row was last ended;
- a reaction comes to one of the things that `Memory.Counts` lists, and it runs a pass of
  forgetting exactly if it is taken in, is ignored, and makes that number a multiple of the
  limit;
- calls that take no reaction in leave the streak alone, and so do questions;
- if all counts that were merged are whole numbers, then the row is only ended by reactions
  that are taken in, and reactions that fail leave the streak alone.
-/
theorem ignored_counted (idOf : IdScheme) (l : Life) (hcalls : ∀ c ∈ l.calls, c.Adds)
    (hwindow : ∃ window, l.settings.rules.window = .ok window) {limit : Nat}
    (hlimit : l.settings.rules.ignoreThreshold.number? = some (.int limit)) :
    let first := Session.start l.settings l.grammars l.files l.start
    let s := l.session idOf
    let setup : Setup Value := { s.setup with idOf }
    let count := ignoredSince idOf (fun s c => c.ends idOf s || c.loses idOf s) first 0 l.calls
    s.memory.streak < limit ∧ s.memory.streak = count % limit ∧
      (∀ now e result n, (setup.feedback now e).outcome s.memory = (result, n) →
        Counts setup limit now e s.memory result n ∧
          ∀ effect, result = .ok effect →
            (effect.decay?.isSome ↔ e.reaction = .ignored ∧ limit ∣ count + 1)) ∧
      (∀ c : Call, c.Adds → c.event? = none →
        (step idOf s c).memory.streak = s.memory.streak) ∧
      (∀ (request : Request) (manner : Manner Value), request.OnlyAsks →
        ((request.perform manner).outcome s).2 = s) ∧
      ((∀ c ∈ l.calls, c.WholeCounts) →
        count = ignoredSince idOf (fun s c => c.ends idOf s) first 0 l.calls ∧
        ∀ now e fault n, (setup.feedback now e).outcome s.memory = (.error fault, n) →
          n.streak = s.memory.streak) := by
  intro first s setup count
  have hfirst : first.Patient limit := l.patient_start hwindow hlimit
  obtain ⟨hs, hstreak⟩ : s.Patient limit ∧ s.memory.streak = count % limit :=
    hfirst.streak_run hcalls (Nat.zero_mod limit).symm
  refine ⟨?_, hstreak, ?_, ?_, ?_, ?_⟩
  · rw [hstreak]
    exact Nat.mod_lt count hs.pos
  · intro now e result n hrun
    have hcounts := hs.counts idOf now e hrun
    refine ⟨hcounts, ?_⟩
    rintro effect rfl
    exact hcounts.isSome_decay_iff hs.pos hstreak
  · exact fun c hc hnone => streak_step_of_no_event idOf hc hnone
  · exact fun request manner hasks => Request.outcome_perform hasks manner s
  · intro hwhole
    obtain ⟨hcounted, hcount⟩ := hfirst.whole_run idOf (Store.every_empty _) hcalls hwhole 0
    refine ⟨hcount, ?_⟩
    intro now e fault n hrun
    have hteachable : s.memory.store.Teachable :=
      ⟨hs.coherent.linked, hs.measured, hcounted, hs.smoothing⟩
    exact (hs.counts idOf now e hrun).streak_of_error hs.usable hteachable

/-- The label of the call in a text, where signatures are ids. -/
def calledId : Value :=
  .text "Call|arg_count=0|depth=0|shape="

/-- A call is found in a text, and then it is suggested and ignored several times. -/
def callsIgnored (times : Nat) : List Call :=
  callsIn "a.go" ++ List.replicate times
    ⟨⟨0, 0⟩, .empty, .feedback calledId .ignored none ⟨.null, .null, none⟩ none none⟩

theorem adds_ignored (times : Nat) : ∀ c ∈ callsIgnored times, c.Adds := by
  intro c hc
  rcases List.mem_append.1 hc with hfound | hignored
  · rw [List.mem_singleton.1 hfound]
    trivial
  · rw [List.eq_of_mem_replicate hignored]
    trivial

/-- What is suggested is ignored once more. -/
def ignoredAgain : Event :=
  ⟨calledId, .ignored, ⟨0, 0⟩, .null, .unknown, .null⟩

/-- Four suggestions in a row are borne under the default threshold, and the fifth one forces
a pass of forgetting. -/
theorem ignored_counted_of_five :
    ∃ settings, ∃ h : outlinedGo.settings = .ok settings,
      let l := Life.outlined h (callsIgnored 4)
      let s := l.session bySignature
      (∀ c ∈ l.calls, c.Adds) ∧ (∃ window, l.settings.rules.window = .ok window) ∧
        l.settings.rules.ignoreThreshold.number? = some (.int (5 : Nat)) ∧ s.memory.streak = 4 ∧
        ∃ effect n, (({ s.setup with idOf := bySignature } : Setup Value).feedback ⟨0, 0⟩
            ignoredAgain).outcome s.memory = (.ok effect, n) ∧
          effect.decay?.isSome ∧ n.streak = 0 := by
  have hcomputed : (outlinedGo.settings.toOption.any fun settings =>
      let first := withoutGrammars settings
      let s := run bySignature first (callsIgnored 4)
      settings.rules.window.isOk &&
        decide (ignoredSince bySignature (fun s c => c.ends bySignature s || c.loses bySignature s)
          first 0 (callsIgnored 4) = 4) &&
        ((({ s.setup with idOf := bySignature } : Setup Value).feedback ⟨0, 0⟩
          ignoredAgain).outcome s.memory).1.isOk) = true := by decide +kernel
  obtain ⟨settings, hsettings, hcomputed⟩ := (Option.any_eq_true _ _).1 hcomputed
  have h := Except.toOption_eq_some.1 hsettings
  simp only [Bool.and_eq_true, decide_eq_true_eq] at hcomputed
  obtain ⟨⟨hwindow, hfour⟩, htaken⟩ := hcomputed
  have hwindow := Except.exists_of_isOk hwindow
  have hlimit : settings.rules.ignoreThreshold.number? = some (.int (5 : Nat)) := by
    rw [rules_of_settings h]
    rfl
  refine ⟨settings, h, ?_⟩
  have hcounted := ignored_counted bySignature (Life.outlined h (callsIgnored 4)) (adds_ignored 4)
    hwindow hlimit
  have hsession : (Life.outlined h (callsIgnored 4)).session bySignature
      = run bySignature (withoutGrammars settings) (callsIgnored 4) := rfl
  have hfirst : Session.start (Life.outlined h (callsIgnored 4)).settings
      (Life.outlined h (callsIgnored 4)).grammars (Life.outlined h (callsIgnored 4)).files
      (Life.outlined h (callsIgnored 4)).start = withoutGrammars settings := rfl
  have hcalls : (Life.outlined h (callsIgnored 4)).calls = callsIgnored 4 := rfl
  simp only [hsession, hfirst, hcalls, hfour] at hcounted ⊢
  -- Of the session only this is needed from here on.
  generalize run bySignature (withoutGrammars settings) (callsIgnored 4) = s
    at hcounted htaken ⊢
  obtain ⟨_, hstreak, hreaction, _⟩ := hcounted
  obtain ⟨effect, heffect⟩ := Except.exists_of_isOk htaken
  obtain ⟨hcounts, hpass⟩ := hreaction ⟨0, 0⟩ ignoredAgain _ _ (Prod.ext heffect rfl)
  have hforced : effect.decay?.isSome := (hpass effect rfl).2 ⟨rfl, by decide⟩
  have hleft := hcounts.streak_of_ok (by decide) hstreak
  exact ⟨adds_ignored 4, hwindow, hlimit, hstreak, effect, _, Prod.ext heffect rfl, hforced, hleft⟩

/-- A snapshot with the same call, in which a count of the style is text. -/
def calledInText : Value :=
  .object
    [("schema_version", .int 2),
     ("patterns", .list
       [.object
         [("id", .text "a"), ("pattern_type", .text "function_call"), ("language", .text "go"),
          ("signature", calledId), ("confidence", .real 0.5), ("frequency", .int 1),
          ("first_seen", .text "20240101"), ("last_seen", .text "20240101"),
          ("last_touched", .text "20240101"),
          ("style_counts", .object [("line_length", .object [("80", .text "1")])])]])]

/-- The snapshot is merged, and the call is suggested and ignored. -/
def callsAfterText : List Call :=
  [⟨⟨0, 0⟩, .empty, .takeSnapshot calledInText false⟩,
   ⟨⟨0, 0⟩, .empty, .feedback calledId .ignored none ⟨.null, .null, none⟩ none none⟩]

/-- What is suggested is modified. -/
def modifiedGo : Event :=
  ⟨calledId, .modified, ⟨0, 0⟩, .null, .unknown, .text "x();\n"⟩

/-- Taking the modification in fails, since the count cannot be continued, and the streak is
lost all the same. -/
theorem streak_lost :
    (∀ c ∈ callsAfterText, c.Adds) ∧ ∃ settings, outlinedGo.settings = .ok settings ∧
      let s := run bySignature (withoutGrammars settings) callsAfterText
      s.memory.streak = 1 ∧
        ∃ fault n, (({ s.setup with idOf := bySignature } : Setup Value).feedback ⟨0, 0⟩
            modifiedGo).outcome s.memory = (.error fault, n) ∧ n.streak = 0 := by
  have hcomputed : (outlinedGo.settings.toOption.any fun settings =>
      let s := run bySignature (withoutGrammars settings) callsAfterText
      let outcome := (({ s.setup with idOf := bySignature } : Setup Value).feedback ⟨0, 0⟩
        modifiedGo).outcome s.memory
      decide (s.memory.streak = 1 ∧ outcome.2.streak = 0) && !outcome.1.isOk) = true := by
    decide +kernel
  obtain ⟨settings, hsettings, hcomputed⟩ := (Option.any_eq_true _ _).1 hcomputed
  have hadds : ∀ c ∈ callsAfterText, c.Adds :=
    List.forall_mem_cons.2 ⟨rfl, List.forall_mem_singleton.2 trivial⟩
  refine ⟨hadds, settings, Except.toOption_eq_some.1 hsettings, ?_⟩
  -- Of the session only this is needed from here on.
  generalize run bySignature (withoutGrammars settings) callsAfterText = s at hcomputed ⊢
  obtain ⟨hstreaks, hfails⟩ := Bool.and_eq_true_iff.1 hcomputed
  obtain ⟨hone, hlost⟩ := of_decide_eq_true hstreaks
  refine ⟨hone, ?_⟩
  rcases hrun : (({ s.setup with idOf := bySignature } : Setup Value).feedback ⟨0, 0⟩
    modifiedGo).outcome s.memory with ⟨fault | effect, n⟩
  · rw [hrun] at hlost
    exact ⟨fault, n, rfl, hlost⟩
  · rw [hrun] at hfails
    cases hfails

end CodeHabits.Session
