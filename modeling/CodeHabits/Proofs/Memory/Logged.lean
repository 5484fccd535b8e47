import CodeHabits.Proofs.Memory.History
import CodeHabits.Proofs.Memory.Ready
import CodeHabits.Proofs.Session.Agreement
import CodeHabits.Proofs.Store.Merging
import CodeHabits.Proofs.Store.Telling

/-!
# `CodeHabits.Proofs.Memory.Logged`: which reactions are logged, and where

`logged` counts the events in all logs. New patterns come with empty logs, and a pattern
that is seen again or forgotten keeps its log, so only reactions add to the number. A
reaction adds one if it logs its event, and nothing if it does not (`logged_perform`).

This number is the total that is told about all reactions (`total_feedbackStats`).

A reaction that is taken in has logged its event. The converse holds too, unless the weights
cannot be moved, or an ignored suggestion forces a pass of forgetting and the ids have no
order (`taken_of_logs`).

An event says which pattern it is about, and it is logged in a pattern. A pattern owns its
log if all events in it are about this pattern (`Pattern.OwnsLog`). Reactions are logged
where they belong, and nothing else that is done here writes to a log or to an id, so all
patterns go on owning their logs (`ownsLog_perform`). A merge gives new ids, and it leaves
the events as they came. So a new pattern owns its log afterwards exactly if the log is empty
or the new id is the old one (`Merged.ownsLog_iff`).
-/

set_option autoImplicit false

/-! ## How many reactions are logged -/

namespace CodeHabits

open Time (Timestamp)

variable {ν : Type} [Magnitude ν]

namespace Store

variable {f : Pattern ν → Int} {total : Int}

omit [Magnitude ν] in
/-- A change of one pattern keeps a sum if it keeps what the pattern adds to it. -/
theorem sum_alter {α : Type} {id : Label} {x : Change (Pattern ν) α}
    (hx : ∀ p, f (x.outcome p).2 = f p) :
    Change.Keeps (fun s => s.sum f = total) (alter id x) := by
  intro s h
  rw [outcome_alter]
  cases hget : s.get? id with
  | none => exact h
  | some p =>
    have hsum := sum_replace f hget (x.outcome p).2
    rw [hx p, h] at hsum
    show (s.replace id (x.outcome p).2).sum f = total
    omega

/-- A sighting keeps a sum to which new patterns add nothing. -/
theorem sum_upsert {idOf : IdScheme} {now : Timestamp} {c : Sighting}
    (hagain : ∀ m p, f ((seeAgain m now c).outcome p).2 = f p)
    (hnew : ∀ m id p, firstSighting m id now c = .ok p → f ((countStyle c).outcome p).2 = 0) :
    Change.Keeps (fun s => s.sum f = total) (upsert idOf now c) := by
  intro s h
  cases hlookup : s.lookup? c.language c.signature with
  | some id =>
    rw [upsert, Change.outcome_bind_get, hlookup]
    exact Change.keeps_bind (sum_alter (hagain _)) (fun _ => Change.keeps_pure _) s h
  | none =>
    rcases outcome_upsert_new idOf now hlookup with hsame | ⟨p, hp, hafter⟩
    · rw [hsame]
      exact h
    · obtain ⟨hid, _⟩ := is_countStyle c p (is_firstSighting hp)
      have hsum := sum_insert f (s := s) (p := ((countStyle c).outcome p).2) (by
        rw [hid]
        exact get?_freeId s _)
      rw [hnew _ _ p hp, h] at hsum
      rw [hafter]
      omega

end Store

namespace Memory

variable {rules : Learning ν} {setup : Setup ν} {m : Memory ν} {now : Timestamp} {total : Int}

/-- How many reactions are logged. -/
def logged (m : Memory ν) : Int :=
  m.store.sum fun p => p.feedback.length

theorem logged_learn (idOf : IdScheme) (now : Timestamp) (c : Sighting) :
    Change.Keeps (fun m : Memory ν => m.logged = total) (learn idOf now c) := by
  refine keeps_inStore (Store.sum_upsert (fun m p => ?_) fun m id p hp => ?_)
  · have hlog := (Store.extends_seeAgain m now c p p.extends_refl).log
    rw [hlog, List.append_nil]
  · have hlog := (Store.extends_countStyle c p p.extends_refl).log
    obtain ⟨confidence, _, hp⟩ := Except.bind_eq_ok.1 hp
    cases hp
    rw [hlog]
    rfl

theorem sum_forgetEach {f : Pattern ν → Int} {window : Int}
    (hf : ∀ p q, rules.forget window now p = .ok q → f q = f p) (passed : List (Pattern ν))
    (patterns : Table Label (Pattern ν)) :
    ((forgetEach rules window now passed patterns).map fun entry => f entry.2).sum
      = (patterns.map fun entry => f entry.2).sum := by
  induction patterns with
  | nil => rfl
  | cons entry rest ih =>
    obtain ⟨q, hcons, hforgotten⟩ := forgetEach_cons rules window now passed entry rest
    have hq : f q = f entry.2 := by
      rcases hforgotten with rfl | hforgotten
      · rfl
      · exact hf entry.2 q hforgotten
    rw [hcons, List.map_cons, List.map_cons, List.sum_cons, List.sum_cons, ih]
    rw [hq]

theorem logged_decay (rules : Learning ν) (now : Timestamp) :
    Change.Keeps (fun m : Memory ν => m.logged = total) (decay rules now) := by
  refine keeps_decay fun window passed m h => Eq.trans ?_ h
  have hsame : ∀ p q, rules.forget window now p = .ok q →
      (q.feedback.length : Int) = p.feedback.length := by
    intro p q hforget
    rw [(Learning.extends_forget p.extends_refl hforget).log, List.append_nil]
  exact sum_forgetEach hsame passed m.store.patterns

/-- A reaction to a pattern that is known is logged once, whatever fails after that. -/
theorem logged_takeIn (rules : Learning ν) {id : Label} {p : Pattern ν} (e : Event)
    (hget : m.store.get? id = some p) :
    ((takeIn rules id e).outcome m).2.logged = m.logged + 1 := by
  rw [logged, store_takeIn, Store.outcome_edit, hget]
  dsimp only
  rw [Store.sum_replace _ hget, (rules.extends_taken e p).log, List.length_append]
  show m.logged - p.feedback.length + ((p.feedback.length + 1 : Nat) : Int) = m.logged + 1
  omega

/-- A reaction adds one to the number if it logs its event. -/
theorem logged_feedback (setup : Setup ν) (now : Timestamp) (e : Event) (m : Memory ν) :
    ((setup.feedback now e).outcome m).2.logged
      = m.logged + (Deed.logs? setup m (.feedback e)).toList.length := by
  have hidle : m.logged = m.logged + (none : Option (Label × Event)).toList.length := by simp
  rw [Setup.feedback, outcome_feedback, Deed.logs?]
  cases htarget : m.target e.patternId with
  | error fault => exact hidle
  | ok target =>
    obtain ⟨id, before⟩ := target
    dsimp only
    cases hread : m.resighted setup.reparse id e with
    | error fault => exact hidle
    | ok found =>
      have hlogged := logged_takeIn setup.rules e (target_eq_ok.1 htarget).2
      -- What follows the logging adds nothing to it.
      refine Change.left_bind (P := fun n : Memory ν => n.logged = m.logged + 1) hlogged
        fun _ => ?_
      refine Change.keeps_bind (keeps_countIgnored (fun _ _ h => h)
        (logged_decay setup.rules e.timestamp)) fun _ => ?_
      refine Change.keeps_bind (Change.keeps_mapM fun c _ => logged_learn setup.idOf now c)
        fun _ => ?_
      exact Change.keeps_bind Change.keeps_get fun _ => Change.keeps_pure _

/-- The deed learns or forgets, and takes nothing in from elsewhere. -/
def Deed.Learns : Deed → Prop
  | .takeSnapshot _ _ | .clear => False
  | .analyze _ | .analyzeBatch _ _ | .feedback _ | .decay _ => True

/-- Of what learns and forgets, only reactions that log their event add to the number. -/
theorem logged_perform (intake : Intake ν) (setup : Setup ν) (now : Timestamp) {deed : Deed}
    (hdeed : deed.Learns) (m : Memory ν) :
    ((perform intake setup now deed).outcome m).2.logged
      = m.logged + (deed.logs? setup m).toList.length := by
  let P := fun n : Memory ν => n.logged = m.logged + (none : Option (Label × Event)).toList.length
  have hstart : P m := by simp [P]
  have hlearn : ∀ c : Candidate, Change.Keeps P (learn setup.idOf now c.sighting) :=
    fun c => logged_learn setup.idOf now c.sighting
  cases deed with
  | analyze text => exact keeps_drop (Setup.keeps_analyze hlearn) m hstart
  | analyzeBatch cancelAfter texts =>
    exact keeps_drop (Setup.keeps_analyzeBatch hlearn _ _ _) m hstart
  | feedback e =>
    exact Change.left_bind (P := fun n : Memory ν => n.logged
      = m.logged + (Deed.logs? setup m (.feedback e)).toList.length)
      (logged_feedback setup now e m) fun _ => Change.keeps_pure _
  | decay time => exact keeps_drop (P := P) (logged_decay setup.rules time) m hstart
  | takeSnapshot document replace => cases hdeed
  | clear => cases hdeed

/-! ### Logged and taken in -/

/-- What is taken in is logged. -/
theorem logs_of_taken {e : Event} {effect : Effect ν} {n : Memory ν}
    (h : (setup.feedback now e).outcome m = (.ok effect, n)) :
    ∃ id, Deed.logs? setup m (.feedback e) = some (id, e) := by
  obtain ⟨id, before, found, htarget, hread, _⟩ := feedback_eq_ok h
  exact ⟨id, logs?_eq_some.2 ⟨rfl, before, found, htarget, hread⟩⟩

/-- What is logged is taken in, but for two reasons. -/
theorem taken_of_logs (setup : Setup Value) {m : Memory Value} {id : Label} {e logged : Event}
    (hrules : setup.rules.Usable) (hteachable : m.store.Teachable) {window : Int}
    (hwindow : setup.rules.window = .ok window) (now : Timestamp)
    (hlogs : Deed.logs? setup m (.feedback e) = some (id, logged)) :
    (∃ effect n, (setup.feedback now e).outcome m = (.ok effect, n)) ∨
      (∃ before fault prefs, m.target e.patternId = .ok (id, before) ∧
        setup.rules.Unmoved e.reaction before m.preferences fault prefs) ∨
      (e.reaction = .ignored ∧ ¬ Label.Sortable (m.store.patterns.map (·.1))) := by
  obtain ⟨_, before, found, htarget, hread⟩ := logs?_eq_some.1 hlogs
  rcases hrun : (setup.feedback now e).outcome m with ⟨fault | effect, n⟩
  · refine .inr ?_
    cases (feedback_eq_error_iff hrules hteachable.measured).1 hrun with
    | unknown hunknown =>
      rw [htarget] at hunknown
      cases hunknown
    | unread hknown hunread =>
      rw [htarget] at hknown
      cases hknown
      rw [hread] at hunread
      cases hunread
    | unmoved hknown _ hunmoved =>
      rw [htarget] at hknown
      cases hknown
      exact .inl ⟨before, _, _, htarget, hunmoved⟩
    | unforgotten _ hignored _ hpass =>
      refine .inr ⟨hignored, fun hsortable => ?_⟩
      -- A pass of forgetting fails at the window or at the order of the ids.
      obtain ⟨ps, horder⟩ := Store.exists_inOrder_iff.2 hsortable
      rcases hpass with hfails | ⟨_, _, hfails⟩
      · rw [hwindow] at hfails
        cases hfails
      · rw [horder] at hfails
        cases hfails
    | unlearned hknown hfound hmodified hfails =>
      exact absurd hfails (learns_resighted hrules hteachable hknown hfound hmodified)
  · exact .inl ⟨effect, n, rfl⟩

/-! ### The total -/

/-- The total that is told is the number of events in all logs. -/
theorem total_feedbackStats {spell : Label → String} {numbers : Value}
    (h : m.feedbackStats spell = .ok numbers) :
    numbers.member? "total" = some (.int m.logged) := by
  obtain ⟨patterns, hpatterns, h⟩ := Except.bind_eq_ok.1 h
  obtain ⟨languages, _, h⟩ := Except.bind_eq_ok.1 h
  obtain ⟨reasons, _, h⟩ := Except.bind_eq_ok.1 h
  obtain ⟨totals, _, h⟩ := Except.bind_eq_ok.1 h
  cases h
  have hlogs : ∀ ps : List (Pattern ν),
      ((ps.flatMap fun p => p.feedback.map fun e => (p, e)).length : Int)
        = (ps.map fun p => (p.feedback.length : Int)).sum := by
    intro ps
    induction ps with
    | nil => rfl
    | cons p rest ih =>
      rw [List.flatMap_cons, List.length_append, List.length_map, List.map_cons, List.sum_cons, ← ih]
      exact Int.natCast_add _ _
  have htotal : (patterns.map fun p => (p.feedback.length : Int)).sum = m.logged := by
    -- A query that asks for nothing is answered with all patterns.
    have hperm := (Store.perm_of_query rfl hpatterns).map fun p => (p.feedback.length : Int)
    have hall : (m.store.patterns.map (·.2)).filter
        (Store.Query.wants { Store.Query.live with withRetired := true })
          = m.store.patterns.map (·.2) := List.filter_eq_self.2 fun p _ => rfl
    rw [hperm.sum_eq, hall, List.map_map]
    rfl
  show some (Value.int _) = _
  exact congrArg (fun n => some (Value.int n)) ((hlogs patterns).trans htotal)

end Memory

end CodeHabits

/-! ## Whether events name their pattern -/

namespace CodeHabits

open Time (Timestamp)

variable {ν : Type}

/-- A value says the same as a label if it is a label that names the same. -/
theorem Value.same_value_iff {value : Value} {label : Label} :
    value.same label.value = true ↔ ∃ other, value = other.value ∧ (other == label) = true := by
  have hlabel (other : Label) :
      other.value.same label.value = true ↔ (other == label) = true := by
    cases other <;> cases label <;> rfl
  constructor
  · intro h
    cases value with
    | list items => cases label <;> cases h
    | object members => cases label <;> cases h
    | null => exact ⟨.null, rfl, (hlabel .null).1 h⟩
    | bool b => exact ⟨.bool b, rfl, (hlabel (.bool b)).1 h⟩
    | int n => exact ⟨.int n, rfl, (hlabel (.int n)).1 h⟩
    | real x => exact ⟨.real x, rfl, (hlabel (.real x)).1 h⟩
    | text s => exact ⟨.text s, rfl, (hlabel (.text s)).1 h⟩
  · rintro ⟨other, rfl, h⟩
    exact (hlabel other).2 h

/-- The event is about the pattern of an id. -/
def Event.IsAbout (e : Event) (id : Label) : Prop :=
  e.patternId.same id.value = true

/-- An event is about one pattern at most. -/
theorem Event.IsAbout.iff_beq {e : Event} {id other : Label} (h : e.IsAbout id) :
    e.IsAbout other ↔ (id == other) = true := by
  obtain ⟨named, hnamed, hid⟩ := Value.same_value_iff.1 h
  unfold IsAbout
  rw [Value.same_value_iff]
  constructor
  · rintro ⟨label, hlabel, hother⟩
    -- The event names one label, and both ids are the same as this one.
    have hsame : label = named := Except.ok.inj
      ((Value.toLabel_eq_ok.2 hlabel).symm.trans (Value.toLabel_eq_ok.2 hnamed))
    rw [hsame] at hother
    exact PartialEquivBEq.trans (PartialEquivBEq.symm hid) hother
  · intro hother
    exact ⟨named, hnamed, PartialEquivBEq.trans hid hother⟩

namespace Pattern

/-- Every event in the log of the pattern is about this pattern. -/
def OwnsLog (p : Pattern ν) : Prop :=
  ∀ e ∈ p.feedback, e.IsAbout p.id

instance : DecidablePred (OwnsLog (ν := ν)) := fun p =>
  inferInstanceAs (Decidable (∀ e ∈ p.feedback, e.patternId.same p.id.value = true))

variable {p q : Pattern ν} {es : List Event}

theorem ownsLog_nil (h : p.feedback = []) : p.OwnsLog := by
  intro e he
  rw [h] at he
  cases he

/-- A pattern that goes on with more events owns its log if these are about it too. -/
theorem Extends.ownsLog (h : p.Extends es q) (hp : p.OwnsLog) (hes : ∀ e ∈ es, e.IsAbout p.id) :
    q.OwnsLog := by
  intro e he
  rw [h.log] at he
  rw [h.id]
  rcases List.mem_append.1 he with hold | hnew
  · exact hp e hold
  · exact hes e hnew

/-- Under another id a pattern goes on owning its log if the id is no other one, or if there
is nothing in the log. -/
theorem OwnsLog.with_id_iff (hp : p.OwnsLog) (id : Label) :
    OwnsLog { p with id } ↔ p.feedback = [] ∨ (p.id == id) = true := by
  constructor
  · intro h
    cases hlog : p.feedback with
    | nil => exact .inl rfl
    | cons first rest =>
      have hfirst : first ∈ p.feedback := by
        rw [hlog]
        exact List.mem_cons_self
      exact .inr ((hp first hfirst).iff_beq.1 (h first hfirst))
  · rintro (hempty | hsame)
    · exact ownsLog_nil hempty
    · intro e he
      exact (hp e he).iff_beq.2 hsame

end Pattern

/-! ### Merging -/

namespace Store

variable {s t : Store ν} {q r : Pattern ν} {ps : List (Pattern ν)}

instance {P : Pattern ν → Prop} [DecidablePred P] : DecidablePred (Every P) := fun s =>
  inferInstanceAs (Decidable (∀ entry ∈ s.patterns, P entry.2))

/-- Every pattern that was new and has something in its log got the id that it came with. -/
def KeepsIds (ps : List (Pattern ν)) (s t : Store ν) : Prop :=
  ∀ r ∈ ps, s.known? r = none → r.feedback ≠ [] → ∃ q ∈ t.known? r, (r.id == q.id) = true

instance : Decidable (KeepsIds ps s t) :=
  inferInstanceAs (Decidable (∀ r ∈ ps, s.known? r = none → r.feedback ≠ [] →
    ∃ q ∈ t.known? r, (r.id == q.id) = true))

variable [Magnitude ν]

/-- What becomes of a pattern that comes in owns its log if it is known. Else its new id has
to be the old one, or there must be nothing in the log. -/
theorem Joined.ownsLog_iff (hs : s.Every Pattern.OwnsLog) (hr : r.OwnsLog)
    (h : Joined (s.known? r) r q) :
    q.OwnsLog ↔ (s.known? r = none → r.feedback = [] ∨ (r.id == q.id) = true) := by
  cases hknown : s.known? r with
  | none =>
    rw [hknown] at h
    obtain ⟨id, rfl⟩ := h
    simp [hr.with_id_iff (.text id)]
  | some p =>
    rw [hknown] at h
    obtain ⟨entry, hentry, rfl⟩ := exists_mem_of_known? hknown
    obtain ⟨frequency, _, rfl⟩ := h
    -- Of a pattern that is known, the merge touches neither the id nor the log.
    exact ⟨fun _ => nofun, fun _ => hs entry hentry⟩

/-- After a merge all patterns own their logs exactly if no pattern that is new and has
something in its log got another id. -/
theorem Merged.ownsLog_iff (h : Merged ps s t) (hs : s.Every Pattern.OwnsLog)
    (hps : ∀ r ∈ ps, r.OwnsLog) : t.Every Pattern.OwnsLog ↔ KeepsIds ps s t := by
  constructor
  · intro ht r hr hknown hlog
    obtain ⟨q, hq, hjoined⟩ := h.joined r hr
    obtain ⟨entry, hentry, rfl⟩ := exists_mem_of_known? hq
    have howns := (hjoined.ownsLog_iff hs (hps r hr)).1 (ht entry hentry) hknown
    exact ⟨entry.2, hq, howns.resolve_left hlog⟩
  · intro hall entry hentry
    rcases h.entries entry hentry with hold | ⟨r, hr, hknown⟩
    · exact hs entry hold
    · obtain ⟨q, hq, hjoined⟩ := h.joined r hr
      rw [hknown] at hq
      cases hq
      refine (hjoined.ownsLog_iff hs (hps r hr)).2 fun hnew => ?_
      by_cases hlog : r.feedback = []
      · exact .inl hlog
      · obtain ⟨q, hq, hid⟩ := hall r hr hnew hlog
        rw [hknown] at hq
        cases hq
        exact .inr hid

end Store

/-! ### Everything else -/

namespace Memory

variable [Magnitude ν] {setup : Setup ν} {rules : Learning ν} {m : Memory ν} {now : Timestamp}
  {id : Label} {e : Event}

theorem ownsLog_learn (idOf : IdScheme) (now : Timestamp) (c : Sighting) :
    Change.Keeps (fun m : Memory ν => m.store.Every Pattern.OwnsLog) (learn idOf now c) := by
  apply keeps_inStore
  apply Store.every_upsert
  · intro smoothing p hp
    exact (Store.extends_seeAgain smoothing now c p p.extends_refl).ownsLog hp (by simp)
  · intro smoothing id p hfirst
    obtain ⟨confidence, _, hfirst⟩ := Except.bind_eq_ok.1 hfirst
    cases hfirst
    exact (Store.extends_countStyle c _ (Pattern.extends_refl _)).ownsLog
      (Pattern.ownsLog_nil rfl) (by simp)

theorem ownsLog_decay (rules : Learning ν) (now : Timestamp) :
    Change.Keeps (fun m : Memory ν => m.store.Every Pattern.OwnsLog) (decay rules now) := by
  apply every_decay
  intro window p q hp hforget
  exact (Learning.extends_forget p.extends_refl hforget).ownsLog hp (by simp)

/-- A reaction is logged in the pattern that it is about. -/
theorem ownsLog_takeIn (rules : Learning ν) (hkeyed : m.store.Keyed)
    (h : m.store.Every Pattern.OwnsLog) (hlabel : e.patternId.toLabel = .ok id) :
    ((takeIn rules id e).outcome m).2.store.Every Pattern.OwnsLog := by
  rw [store_takeIn, Store.outcome_edit]
  cases hget : m.store.get? id with
  | none => exact h
  | some p =>
    have habout : e.IsAbout p.id := by
      refine Value.same_value_iff.2 ⟨id, Value.toLabel_eq_ok.1 hlabel, ?_⟩
      exact PartialEquivBEq.symm (hkeyed.id_of_get? hget)
    refine h.replace id ?_
    exact (rules.extends_taken e p).ownsLog (h.of_get? hget) (by simpa using habout)

/-- A reaction, whether it fails or not. -/
theorem ownsLog_feedback (setup : Setup ν) (now : Timestamp) (e : Event) (hkeyed : m.store.Keyed)
    (h : m.store.Every Pattern.OwnsLog) :
    ((setup.feedback now e).outcome m).2.store.Every Pattern.OwnsLog := by
  rw [Setup.feedback, outcome_feedback]
  cases htarget : m.target e.patternId with
  | error fault => exact h
  | ok target =>
    obtain ⟨id, before⟩ := target
    dsimp only
    cases m.resighted setup.reparse id e with
    | error fault => exact h
    | ok found =>
      have hlogged := ownsLog_takeIn setup.rules hkeyed h (target_eq_ok.1 htarget).1
      -- Nothing that follows the logging writes to a log.
      refine Change.left_bind (P := fun n : Memory ν => n.store.Every Pattern.OwnsLog) hlogged
        fun _ => ?_
      refine Change.keeps_bind (keeps_countIgnored (fun _ _ h => h)
        (ownsLog_decay setup.rules e.timestamp)) fun _ => ?_
      refine Change.keeps_bind (Change.keeps_mapM fun c _ => ownsLog_learn setup.idOf now c)
        fun _ => ?_
      exact Change.keeps_bind Change.keeps_get fun _ => Change.keeps_pure _

/-- Whatever is learned or forgotten here, all patterns go on owning their logs. -/
theorem ownsLog_perform (intake : Intake ν) (setup : Setup ν) (now : Timestamp) {deed : Deed}
    (hdeed : deed.Learns) (hkeyed : m.store.Keyed) (h : m.store.Every Pattern.OwnsLog) :
    ((perform intake setup now deed).outcome m).2.store.Every Pattern.OwnsLog := by
  let P := fun n : Memory ν => n.store.Every Pattern.OwnsLog
  have hlearn : ∀ c : Candidate, Change.Keeps P (learn setup.idOf now c.sighting) :=
    fun c => ownsLog_learn setup.idOf now c.sighting
  cases deed with
  | analyze text => exact keeps_drop (Setup.keeps_analyze hlearn) m h
  | analyzeBatch cancelAfter texts =>
    exact keeps_drop (Setup.keeps_analyzeBatch hlearn _ _ _) m h
  | feedback e =>
    exact Change.left_bind (P := P) (ownsLog_feedback setup now e hkeyed h) fun _ =>
      Change.keeps_pure _
  | decay time => exact keeps_drop (P := P) (ownsLog_decay setup.rules time) m h
  | takeSnapshot document replace => cases hdeed
  | clear => cases hdeed

end Memory

end CodeHabits
