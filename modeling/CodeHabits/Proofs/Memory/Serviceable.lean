import CodeHabits.Proofs.Memory.Ready
import CodeHabits.Proofs.Memory.Telling
import CodeHabits.Proofs.Store.Merging

/-!
# `CodeHabits.Proofs.Memory.Serviceable`: memories that nothing fails at

A snapshot is checked by reading it once. What is read is used in many more ways later:
ids and languages are sorted, counts are added to, weights are multiplied with
confidences. `Serves` says that everything that can be asked of a memory completes, and
`Serviceable` what it takes: a store that is ready, serviceable patterns, preferences for
patterns with texts for ids, and weights that mix.

The two halves are those of a safety proof. A serviceable memory serves
(`Serviceable.serves`), and learning, reactions and time keep a memory serviceable
(`serviceable_perform`), so nothing that is done to it later makes it fail
(`serviceable_runFrom`).
-/

set_option autoImplicit false

namespace CodeHabits

open Time (Timestamp)

/-- Rules under which nothing fails in a serviceable memory: those of a checked
configuration, with a window that is a duration, and with numbers that weights and scores
can be worked out with. -/
structure Learning.Steady (rules : Learning Value) : Prop extends Scores rules where
  usable : rules.Usable
  fades : rules.FadesInside
  window : ∃ window, rules.window = .ok window

/-- A reaction that can be taken in: what is counted of it can be, and no front-end breaks
at modified content. A content that is refused as such is no obstacle. -/
structure Event.Sound (setup : Setup Value) (e : Event) : Prop extends Tellable e where
  content : ∀ code language fault, e.modifiedContent = .text code →
    setup.reparse code (.text language) = .error fault → fault.isDomain = true

namespace Memory

variable {setup : Setup Value} {rules : Learning Value} {m n : Memory Value} {now : Timestamp}
  {e : Event}

/-- The memory can be written down. -/
def Exports (m : Memory Value) : Prop :=
  ∀ manner now, ∃ members, m.snapshot manner now = .ok members

/-- Passes of forgetting complete. -/
def Forgets (rules : Learning Value) (m : Memory Value) : Prop :=
  ∀ now, ∃ report n, (decay rules now).outcome m = (.ok report, n)

/-- Everything that can be asked of a memory completes. -/
structure Serves (setup : Setup Value) (m : Memory Value) : Prop where
  exported : m.Exports
  told : ∀ manner languages, ∃ numbers, m.statistics manner languages = .ok numbers
  suggested : ∀ w : Wish Value, w.Sound → ∃ found, suggest setup.rules m w = .ok found ∧
    ∀ s ∈ found, ∃ document, s.document m.preferences = .ok document
  analyzed : ∀ now t findings, setup.find t.code (Setup.languageOf t) t.file = .ok findings →
    ∃ a n, (setup.analyze now t).outcome m = (.ok a, n)
  reacted : ∀ now e target, e.Sound setup → m.target e.patternId = .ok target →
    ∃ effect n document, (setup.feedback now e).outcome m = (.ok effect, n) ∧
      effect.document = .ok document
  forgets : Forgets setup.rules m

/-- A memory that nothing fails at. -/
structure Serviceable (m : Memory Value) : Prop where
  ready : m.store.Ready
  patterns : m.store.Every Pattern.Serviceable
  sortable : m.preferences.Sortable
  weights : ∀ weight ∈ m.preferences.weights, weight.Mixes

/-! ### What depends on the order of ids -/

/-- A memory can be written down exactly if its ids can be sorted, and the ids of liked and
avoided patterns as well. -/
theorem exports_iff (hlanguages : ∀ entry ∈ m.preferences.languageWeights, entry.1.IsText) :
    m.Exports ↔ Label.Sortable (m.store.patterns.map (·.1)) ∧
      Label.Sortable m.preferences.preferred ∧ Label.Sortable m.preferences.avoided := by
  rw [← Store.exists_inOrder_iff, ← Label.exists_sorted_label_iff, ← Label.exists_sorted_label_iff]
  constructor
  · -- Any snapshot at all needs the orders.
    intro h
    obtain ⟨members, hmembers⟩ := h .answer ⟨0, 0⟩
    obtain ⟨ps, q, horder, hq, _⟩ := snapshot_eq_ok.1 hmembers
    exact ⟨⟨ps, horder⟩, ⟨_, hq.preferred⟩, ⟨_, hq.avoided⟩⟩
  · rintro ⟨⟨ps, horder⟩, ⟨preferred, hpreferred⟩, ⟨avoided, havoided⟩⟩ manner now
    -- The names of kinds and languages are texts, so their weights have an order anyway.
    have hkindTexts : ∀ entry ∈ Preferences.labelled m.preferences.kindWeights, entry.1.IsText :=
      List.forall_mem_map.2 fun entry _ => ⟨entry.1, rfl⟩
    obtain ⟨entries, hkinds, hperm, _⟩ := exists_sorted hkindTexts
    obtain ⟨kinds, rfl⟩ := Preferences.exists_labelled hperm
    obtain ⟨languages, hlanguages, _⟩ := exists_sorted hlanguages
    have harranged : m.preferences.Arranged ⟨kinds, languages, preferred, avoided⟩ :=
      ⟨hkinds, hlanguages, hpreferred, havoided⟩
    exact ⟨_, snapshot_eq_ok.2 ⟨ps, _, horder, harranged, rfl⟩⟩

/-- Passes of forgetting complete exactly if the ids can be sorted. -/
theorem forgets_iff (hrules : rules.Usable) (hwindow : ∃ window, rules.window = .ok window)
    (hm : m.Measured) : Forgets rules m ↔ Label.Sortable (m.store.patterns.map (·.1)) := by
  obtain ⟨window, hwindow⟩ := hwindow
  rw [← Store.exists_inOrder_iff]
  constructor
  · intro h
    cases horder : m.store.inOrder with
    | ok ps => exact ⟨ps, rfl⟩
    | error fault =>
      -- Patterns are gone over in order, so a pass would fail as well.
      obtain ⟨report, n, hrun⟩ := h ⟨0, 0⟩
      rw [(decay_eq_error hrules hm).2 ⟨rfl, .inr ⟨window, hwindow, horder⟩⟩] at hrun
      cases hrun
  · rintro ⟨ps, horder⟩ now
    rcases hrun : (decay rules now).outcome m with ⟨fault | report, n⟩
    · obtain ⟨_, hfails | ⟨_, _, hfails⟩⟩ := (decay_eq_error hrules hm).1 hrun
      · rw [hwindow] at hfails
        cases hfails
      · rw [horder] at hfails
        cases hfails
    · exact ⟨report, n, rfl⟩

/-- Texts have an order. -/
theorem sortable_ids_of_text {s : Store Value} (h : s.Coherent)
    (hids : s.Every fun p => p.id.IsText) : Label.Sortable (s.patterns.map (·.1)) :=
  .inr (.inl (List.forall_mem_map.2 (h.keys_isText hids)))

/-! ### A serviceable memory serves -/

namespace Serviceable

/-- A pattern that is known under a label is serviceable, and the label is a text. -/
theorem of_get? (h : m.Serviceable) {id : Label} {p : Pattern Value}
    (hget : m.store.get? id = some p) : p.Serviceable ∧ id.IsText := by
  have hp := h.patterns.of_get? hget
  obtain ⟨_, _, rfl, hid⟩ := h.ready.coherent.exists_mem_of_get? hget
  exact ⟨hp, hp.id.of_beq hid⟩

theorem sortable_ids (h : m.Serviceable) : Label.Sortable (m.store.patterns.map (·.1)) :=
  sortable_ids_of_text h.ready.coherent fun entry hentry => (h.patterns entry hentry).id

theorem exports (h : m.Serviceable) : m.Exports :=
  (exports_iff h.sortable.languages).2
    ⟨h.sortable_ids, .inr (.inl h.sortable.preferredTexts), .inr (.inl h.sortable.avoidedTexts)⟩

/-- Modified content is read, or told to be refused. -/
theorem exists_resighted (h : m.Serviceable) (he : e.Sound setup) {id : Label} {p : Pattern Value}
    (hget : m.store.get? id = some p) : ∃ found, m.resighted setup.reparse id e = .ok found := by
  unfold resighted
  split
  · rename_i code _ hcode
    split
    · exact ⟨_, rfl⟩
    · dsimp only
      split
      · exact ⟨_, rfl⟩
      · rename_i fault hfails
        -- The language that the content is read in is a text, wherever it comes from.
        have hdomain : fault.isDomain = true := by
          by_cases htruthy : e.surroundings.language.truthy = true
          · obtain ⟨name, hname⟩ := he.language htruthy
            rw [hname] at htruthy
            rw [hname, Option.filter_some, htruthy] at hfails
            exact he.content code name fault hcode hfails
          · obtain ⟨name, hname⟩ := (h.of_get? hget).1.language
            rw [Option.filter_some, if_neg htruthy, hget] at hfails
            dsimp only [Option.elim] at hfails
            rw [hname] at hfails
            exact he.content code name fault hcode hfails
        exact ⟨_, if_pos hdomain⟩
  · exact ⟨_, rfl⟩

/-- A reaction is taken in, and its effect can be told. -/
theorem exists_feedback (h : m.Serviceable) (hrules : setup.rules.Steady) (he : e.Sound setup)
    {id : Label} {before : Pattern Value} (htarget : m.target e.patternId = .ok (id, before)) :
    ∃ effect n document, (setup.feedback now e).outcome m = (.ok effect, n) ∧
      effect.document = .ok document := by
  have hmeasured : m.Measured := h.ready.measured
  have hget := (target_eq_ok.1 htarget).2
  obtain ⟨window, hwindow⟩ := hrules.window
  obtain ⟨ps, horder⟩ := Store.exists_inOrder_iff.2 h.sortable_ids
  have hcarries : setup.rules.CarriesAll m.preferences :=
    fun weight hweight => .of_mixes (h.weights weight hweight)
  rcases hrun : (setup.feedback now e).outcome m with ⟨fault | effect, n⟩
  · -- None of the ways to fail is open.
    exfalso
    cases (feedback_eq_error_iff hrules.usable hmeasured).1 hrun with
    | unknown hunknown =>
      rw [htarget] at hunknown
      cases hunknown
    | unread htarget' hunread =>
      rw [htarget] at htarget'
      cases htarget'
      obtain ⟨found, hfound⟩ := h.exists_resighted he hget
      rw [hfound] at hunread
      cases hunread
    | unmoved _ _ hunmoved =>
      exact Learning.not_unmoved hrules.weighs hcarries hunmoved
    | unforgotten _ _ _ hfails =>
      rcases hfails with hfails | ⟨_, _, hfails⟩
      · rw [hwindow] at hfails
        cases hfails
      · rw [horder] at hfails
        cases hfails
    | unlearned htarget' hread hmodified hfails =>
      exact learns_resighted hrules.usable h.ready.teachable htarget' hread hmodified hfails
  · have hn := (measured_feedback hrules.usable hrules.fades now e).of_outcome hrun hmeasured
    obtain ⟨document, hdocument⟩ := exists_document_of_feedback hmeasured hn hrun
    exact ⟨effect, n, document, rfl, hdocument⟩

/-- A serviceable memory serves. -/
theorem serves (h : m.Serviceable) (hrules : setup.rules.Steady) : Serves setup m where
  exported := h.exports
  told := exists_statistics h.ready.measured h.patterns h.sortable
  suggested _ hw :=
    exists_suggest hrules.boost hrules.avoidance h.ready.measured h.patterns h.weights hw
  analyzed now t findings hfound := by
    rcases hrun : (setup.analyze now t).outcome m with ⟨fault | a, n⟩
    · rw [((Setup.analyze_eq_error h.ready).1 hrun).1] at hfound
      cases hfound
    · exact ⟨a, n, rfl⟩
  reacted _ _ _ he htarget := h.exists_feedback hrules he htarget
  forgets := (forgets_iff hrules.usable hrules.window h.ready.measured).2 h.sortable_ids

end Serviceable

/-! ### What keeps a memory serviceable -/

/-- A sighting leaves all patterns serviceable. -/
theorem patterns_learn (idOf : IdScheme) (now : Timestamp) {c : Sighting} (hc : c.Countable)
    (hlanguage : c.language.IsText) :
    Change.Keeps (fun m => m.store.Every Pattern.Serviceable) (learn idOf now c) := by
  refine keeps_inStore (Store.every_upsert (fun s => Store.serviceable_seeAgain s hc) ?_)
  exact fun s id p hp => Store.serviceable_countStyle hc p
    (Store.serviceable_firstSighting ⟨id, rfl⟩ hlanguage hp)

theorem patterns_takeIn (rules : Learning Value) (id : Label) (he : e.Tellable) :
    Change.Keeps (fun m => m.store.Every Pattern.Serviceable) (takeIn rules id e) := by
  unfold takeIn
  refine Change.keeps_bind (keeps_inStore (Store.every_edit fun p hp => ?_)) fun _ => ?_
  · refine Store.serviceable_clampPattern _ ?_
    exact Change.left_bind (Learning.serviceable_learn rules he p hp) fun _ => Change.keeps_get
  · exact Change.keeps_within (Q := fun _ => True) (fun _ _ => trivial) (fun _ _ h _ => h)
      fun _ _ => trivial

theorem patterns_decay (rules : Learning Value) (now : Timestamp) :
    Change.Keeps (fun m => m.store.Every Pattern.Serviceable) (decay rules now) :=
  every_decay fun _ _ _ hp hq => Learning.serviceable_forget hp hq

theorem serviceable_learn (idOf : IdScheme) (now : Timestamp) {c : Sighting} (hc : c.Countable)
    (hlanguage : c.language.IsText) : Change.Keeps Serviceable (learn idOf now c) := by
  intro m hm
  -- Sightings are about the store alone, so the preferences are not even looked at.
  have hpreferences := preferences_inStore (P := fun prefs => prefs.Sortable ∧
    ∀ weight ∈ prefs.weights, weight.Mixes) (Store.upsert idOf now c) m ⟨hm.sortable, hm.weights⟩
  exact ⟨ready_learn idOf now c m hm.ready, patterns_learn idOf now hc hlanguage m hm.patterns,
    hpreferences.1, hpreferences.2⟩

/-- A reaction is logged, and moves the preferences of a pattern with texts for its id and
its language. -/
theorem serviceable_takeIn (hrules : rules.Steady) (id : Label) (he : e.Tellable) :
    Change.Keeps Serviceable (takeIn rules id e) := by
  intro m hm
  have hready := ready_takeIn hrules.usable id e m hm.ready
  cases hget : m.store.get? id with
  | none =>
    rw [outcome_takeIn_unknown hget]
    exact hm
  | some p =>
    -- The preferences are moved for the id and for the language that the pattern had before.
    obtain ⟨hp, hid⟩ := hm.of_get? hget
    have hmeasured : p.Measured := hm.ready.measured.of_get? hget
    have hlogged : (rules.logged e p).Serviceable :=
      Store.serviceable_clampPattern _ (Learning.serviceable_learn rules he p hp)
    have hlanguage : (rules.after e p).language.IsText := by
      rw [(Learning.after_name hrules.usable hmeasured).2]
      exact hp.language
    rw [outcome_takeIn hrules.usable hget hmeasured] at hready ⊢
    exact
      { ready := hready
        patterns := hm.patterns.replace id hlogged
        sortable := Preferences.sortable_prefer hid hlanguage m.preferences hm.sortable
        weights := Learning.mixes_prefer hrules.toScores e.reaction id _ m.preferences hm.weights }

theorem serviceable_decay (hrules : rules.FadesInside) (now : Timestamp) :
    Change.Keeps Serviceable (decay rules now) := by
  intro m hm
  have hpreferences := preferences_decay (P := fun prefs => prefs.Sortable ∧
    ∀ weight ∈ prefs.weights, weight.Mixes) rules now m ⟨hm.sortable, hm.weights⟩
  exact ⟨ready_decay hrules now m hm.ready, patterns_decay rules now m hm.patterns,
    hpreferences.1, hpreferences.2⟩

/-- With nothing learned a memory is serviceable. -/
theorem serviceable_empty {smoothing : Smoothing Value} (h : smoothing.Usable) :
    (empty smoothing).Serviceable where
  ready := ready_empty h
  patterns := Store.every_empty smoothing
  sortable := Preferences.settled_none.toSortable
  weights := by simp [empty, Preferences.none, Preferences.weights]

/-! ### Runs -/

/-- Everything but taking snapshots in, with reactions that can be counted. -/
def Deed.Ordinary : Deed → Prop
  | .feedback e => e.Tellable
  | .takeSnapshot _ _ => False
  | .analyze _ | .analyzeBatch _ _ | .decay _ | .clear => True

/-- What learning from things that can be counted keeps, what tellable reactions keep, and
what passes of forgetting keep, every ordinary deed keeps. -/
theorem keeps_ordinary {P : Memory Value → Prop} {intake : Intake Value}
    (hstreak : ∀ m n, P m → P { m with streak := n })
    (hlearn : ∀ c : Sighting, c.Countable → c.language.IsText →
      Change.Keeps P (learn setup.idOf now c))
    (htake : ∀ e : Event, e.Tellable → ∀ id, Change.Keeps P (takeIn setup.rules id e))
    (hdecay : ∀ time, Change.Keeps P (decay setup.rules time)) (hclear : ∀ m, P m → P m.clear)
    {deed : Deed} (hdeed : deed.Ordinary) : Change.Keeps P (perform intake setup now deed) := by
  refine keeps_found hstreak hlearn (fun e he id => ?_) hdecay hclear fun document replace htakes => ?_
  · rw [he] at hdeed
    exact htake e hdeed id
  · rw [htakes] at hdeed
    exact hdeed

/-- One thing that is done leaves all patterns serviceable, whatever the rules. -/
theorem patterns_perform {intake : Intake Value} {deed : Deed} (hdeed : deed.Ordinary) :
    Change.Keeps (fun m => m.store.Every Pattern.Serviceable) (perform intake setup now deed) :=
  keeps_ordinary (fun _ _ h => h) (fun _ hc hlanguage => patterns_learn setup.idOf now hc hlanguage)
    (fun _ he id => patterns_takeIn setup.rules id he) (patterns_decay setup.rules)
    (fun m _ => Store.every_empty m.store.smoothing) hdeed

theorem serviceable_perform (hrules : setup.rules.Steady) {deed : Deed} (hdeed : deed.Ordinary) :
    Change.Keeps Serviceable (perform .usual setup now deed) :=
  keeps_ordinary (fun _ _ hm => ⟨hm.ready, hm.patterns, hm.sortable, hm.weights⟩)
    (fun _ hc hlanguage => serviceable_learn setup.idOf now hc hlanguage)
    (fun _ he id => serviceable_takeIn hrules id he) (serviceable_decay hrules.fades)
    (fun _ hm => serviceable_empty hm.ready.smoothing) hdeed

/-- Several things that are done, one after the other, some of them perhaps in vain. -/
theorem serviceable_runFrom (hrules : setup.rules.Steady) {deeds : List (Timestamp × Deed)}
    (hdeeds : ∀ deed ∈ deeds, deed.2.Ordinary) (h : m.Serviceable) :
    (runFrom .usual setup m deeds).Serviceable := by
  induction deeds generalizing m with
  | nil => exact h
  | cons deed rest ih =>
    -- A deed that fails leaves a memory as well, and it is serviceable like any other one.
    obtain ⟨hfirst, hrest⟩ := List.forall_mem_cons.1 hdeeds
    exact ih hrest (serviceable_perform hrules hfirst m h)

end Memory

end CodeHabits
