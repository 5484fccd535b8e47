import CodeHabits.Proofs.Memory.Setback
import CodeHabits.Proofs.Memory.Settled
import CodeHabits.Proofs.Store.Ready

/-!
# `CodeHabits.Proofs.Memory.Ready`: learning that fails before it changes anything

In a memory whose store is ready, learning from what was found does not fail. So a source
text fails only where nothing is found in it, and a reaction only where it is refused,
where the weights cannot be moved or where a forced pass of forgetting fails
(`analyze_eq_error`, `setback_cases`). A snapshot is refused before anything of it is
taken in (`takeSnapshot_eq_error`).

Everything that a session learns by itself keeps its store ready, and so does taking in
what another such memory has learned.
-/

set_option autoImplicit false

namespace CodeHabits

open Time (Timestamp)

namespace Memory

variable {setup : Setup Value} {rules : Learning Value} {m n : Memory Value} {now : Timestamp}
  {fault : Fault}

theorem ready_empty {smoothing : Smoothing Value} (h : smoothing.Usable) :
    (empty smoothing).store.Ready where
  coherent := Store.coherent_empty smoothing
  measured := Store.every_empty smoothing
  counted := Store.every_empty smoothing
  smoothing := h

/-! ### What keeps a store ready -/

theorem ready_learn (idOf : IdScheme) (now : Timestamp) (c : Sighting) :
    Change.Keeps (fun m => m.store.Ready) (learn idOf now c) :=
  keeps_inStore (Store.ready_upsert idOf now c)

theorem smoothing_takeIn {P : Smoothing Value → Prop} (rules : Learning Value) (id : Label)
    (e : Event) : Change.Keeps (fun m => P m.store.smoothing) (takeIn rules id e) := by
  unfold takeIn
  refine Change.keeps_bind (keeps_inStore (Store.smoothing_edit id _)) fun _ => ?_
  exact Change.keeps_within (Q := fun _ => True) (fun _ _ => trivial) (fun _ _ h _ => h)
    fun _ _ => trivial

theorem counted_takeIn (rules : Learning Value) (id : Label) (e : Event) :
    Change.Keeps (fun m => m.store.Every Pattern.Counted) (takeIn rules id e) :=
  every_takeIn (fun _ h => h) (fun _ _ h => h) (fun _ h => h) fun _ h => h

theorem counted_decay (rules : Learning Value) (now : Timestamp) :
    Change.Keeps (fun m => m.store.Every Pattern.Counted) (decay rules now) :=
  every_decay fun _ _ _ hp hq => Learning.counted_forget hp hq

theorem teachable_takeIn (hrules : rules.Usable) (id : Label) (e : Event) :
    Change.Keeps (fun m => m.store.Teachable) (takeIn rules id e) := by
  intro m h
  exact ⟨ofOutline_takeIn Store.linked_ofOutline rules id e m h.linked,
    measured_takeIn hrules id e m h.measured, counted_takeIn rules id e m h.counted,
    smoothing_takeIn (P := Smoothing.Usable) rules id e m h.smoothing⟩

theorem ready_takeIn (hrules : rules.Usable) (id : Label) (e : Event) :
    Change.Keeps (fun m => m.store.Ready) (takeIn rules id e) := by
  intro m h
  have hleft := teachable_takeIn hrules id e m h.teachable
  exact ⟨coherent_takeIn rules id e m h.coherent, hleft.measured, hleft.counted, hleft.smoothing⟩

theorem ready_decay (hrules : rules.FadesInside) (now : Timestamp) :
    Change.Keeps (fun m => m.store.Ready) (decay rules now) := by
  have hsmoothing : Change.Keeps (fun m : Memory Value => m.store.smoothing.Usable)
      (decay rules now) := keeps_decay fun _ _ _ h => h
  intro m h
  exact ⟨coherent_decay rules now m h.coherent, measured_decay hrules now m h.measured,
    counted_decay rules now m h.counted, hsmoothing m h.smoothing⟩

/-- The smoothing stays, whatever is taken in. -/
theorem smoothing_takeSnapshot {P : Smoothing Value → Prop} (idOf : IdScheme) (document : Value)
    (replace : Bool) :
    Change.Keeps (fun m => P m.store.smoothing) (takeSnapshot idOf document replace) := by
  unfold takeSnapshot
  refine Change.keeps_bind (Change.keeps_ofExcept _) fun members => ?_
  cases replace with
  | true =>
    refine Change.keeps_bind_get fun m hm => ?_
    cases hof : m.ofSnapshot members with
    | error fault =>
      rw [Change.outcome_bind_ofExcept_error]
      exact hm
    | ok n =>
      obtain ⟨_, _, _, _, _, rfl⟩ := ofSnapshot_eq_ok_iff.1 hof
      rw [Change.outcome_bind_ofExcept_ok]
      exact hm
  | false => exact keeps_inStore (Store.smoothing_merge idOf _ _ _)

/-- Taking in the snapshot of such a memory keeps a store ready. -/
theorem ready_takeSnapshot (idOf : IdScheme) {manner : Manner Value} (hm : m.Settled)
    (hready : m.store.Ready) (hmanner : manner.Plain) {members : Table String Value}
    (h : m.snapshot manner now = .ok members) (replace : Bool) :
    Change.Keeps (fun m => m.store.Ready) (takeSnapshot idOf (.object members) replace) := by
  have hcounted : Change.Keeps (fun m => m.store.Every Pattern.Counted)
      (takeSnapshot idOf (.object members) replace) := by
    refine hm.every_takeSnapshot hmanner h (fun entry hentry => ?_) idOf replace
    have hback := Pattern.counted_reread (hready.counted entry hentry) manner.spell
    exact ⟨hback, Store.counted_gain _, fun _ => hback⟩
  intro n hn
  exact ⟨coherent_takeSnapshot idOf replace (hm.identified h) n hn.coherent,
    measured_takeSnapshot idOf _ replace n hn.measured, hcounted n hn.counted,
    smoothing_takeSnapshot idOf _ replace n hn.smoothing⟩

/-! ### What does not fail -/

theorem gives_learn (idOf : IdScheme) (now : Timestamp) {c : Sighting} (hc : c.Countable) :
    Change.Gives (fun m => m.store.Teachable) (learn idOf now c) fun _ m => m.store.Teachable := by
  intro m hm
  obtain ⟨id, s, hrun, hs⟩ := Store.gives_upsert idOf now hc m.store hm
  refine ⟨id, { m with store := s }, ?_, hs⟩
  rw [learn, inStore, Change.outcome_within, hrun]

theorem gives_learnAll (idOf : IdScheme) (now : Timestamp) {sightings : List Sighting}
    (h : ∀ c ∈ sightings, c.Countable) :
    Change.Gives (fun m => m.store.Teachable) (learnAll idOf now sightings)
      fun _ m => m.store.Teachable :=
  Change.gives_mapM fun c hc => gives_learn idOf now (h c hc)

/-- What modified content shows can be counted. -/
theorem countable_of_resighted {ν : Type} {setup : Setup ν} {m : Memory ν} {id : Label} {e : Event}
    {found : List Sighting × Option String} (h : m.resighted setup.reparse id e = .ok found) :
    ∀ c ∈ found.1, c.Countable := by
  rcases resighted_eq_ok h with hnone | ⟨content, language, hread⟩
  · rw [hnone]
    simp
  · exact Setup.countable_of_reparse hread

/-- What modified content shows is learned from once the reaction is logged. -/
theorem learns_resighted {e : Event} {id : Label} {before : Pattern Value}
    {found : List Sighting × Option String} (hrules : setup.rules.Usable)
    (hteachable : m.store.Teachable) (htarget : m.target e.patternId = .ok (id, before))
    (hread : m.resighted setup.reparse id e = .ok found) (hmodified : e.reaction = .modified) :
    ¬ (learnAll setup.idOf now found.1).outcome
      { withLogged setup.rules e m id before with streak := 0 } = (.error fault, n) := by
  have hget := (target_eq_ok.1 htarget).2
  have hlogged := outcome_takeIn_of_neither (e := e) (m := m) hrules hget
    (hteachable.measured.of_get? hget) (by simp [hmodified]) (by simp [hmodified])
  have hleft : (withLogged setup.rules e m id before).store.Teachable :=
    (teachable_takeIn hrules id e).of_outcome hlogged hteachable
  have hlearns := gives_learnAll setup.idOf now (countable_of_resighted hread)
  exact hlearns.not_error (s := { withLogged setup.rules e m id before with streak := 0 }) hleft

/-- In a memory that is ready, whose ids have an order and whose rules have a window, a
reaction changes nothing where it fails, unless the weights cannot be moved. -/
theorem setback_cases {e : Event} (hrules : setup.rules.Usable) (hready : m.store.Ready)
    {window : Int} (hwindow : setup.rules.window = .ok window) {ps : List (Pattern Value)}
    (horder : m.store.inOrder = .ok ps) (h : Setback setup now e m fault n) :
    n = m ∨ ∃ id before prefs, m.target e.patternId = .ok (id, before) ∧
      setup.rules.Unmoved e.reaction before m.preferences fault prefs ∧
      n = { withLogged setup.rules e m id before with preferences := prefs } := by
  cases h with
  | unknown _ => exact .inl rfl
  | unread _ _ => exact .inl rfl
  | unmoved htarget _ hunmoved => exact .inr ⟨_, _, _, htarget, hunmoved, rfl⟩
  | unforgotten _ _ _ hfails =>
    rcases hfails with hfails | ⟨_, _, hfails⟩
    · rw [hwindow] at hfails
      cases hfails
    · rw [horder] at hfails
      cases hfails
  | unlearned htarget hread hmodified hfails =>
    exact absurd hfails (learns_resighted hrules hready.teachable htarget hread hmodified)

/-- A snapshot is refused as a whole. -/
theorem takeSnapshot_eq_error {idOf : IdScheme} {document : Value} {replace : Bool}
    (hcoherent : m.store.Coherent) (hmeasured : m.Measured)
    (h : (takeSnapshot idOf document replace).outcome m = (.error fault, n)) : n = m := by
  unfold takeSnapshot at h
  rcases Change.bind_eq_error.1 h with hmigrate | ⟨members, _, hmigrate, h⟩
  · exact (Change.ofExcept_eq_error.1 hmigrate).2.symm
  obtain ⟨_, rfl⟩ := Change.ofExcept_eq_ok.1 hmigrate
  cases replace with
  | true =>
    rw [if_pos rfl, Change.outcome_bind_get] at h
    rcases Change.bind_eq_error.1 h with hrestore | ⟨other, _, _, h⟩
    · exact (Change.ofExcept_eq_error.1 hrestore).2.symm
    · rw [Change.outcome_bind_set] at h
      cases h
  | false =>
    rw [if_neg Bool.false_ne_true, inStore, Change.outcome_within, Prod.mk.injEq] at h
    obtain ⟨hmerge, rfl⟩ := h
    have hsame : ((Store.merge idOf Store.readRecord .default (Snapshot.records members)).outcome
        m.store).2 = m.store := Store.merge_eq_error hcoherent.linked hmeasured (Prod.ext hmerge rfl)
    rw [hsame]

end Memory

namespace Setup

variable {setup : Setup Value} {m n : Memory Value} {now : Timestamp} {t : SourceText}
  {fault : Fault}

/-- Learning from a candidate that was found. -/
theorem gives_learn (setup : Setup Value) (now : Timestamp) {c : Sighting} (hc : c.Countable) :
    Change.Gives (fun m => m.store.Teachable) (setup.learn now c) fun _ m => m.store.Teachable := by
  refine Change.gives_bind_get fun m hm => ?_
  refine Change.gives_bind (Q := fun _ m => m.store.Teachable) (fun n hn => ?_) fun _ =>
    Change.gives_pure fun _ h => h
  rw [hn]
  exact Memory.gives_learn setup.idOf now hc m hm

/-- A source text fails where nothing is found in it, and then nothing changes. -/
theorem analyze_eq_error (hm : m.store.Ready) :
    (setup.analyze now t).outcome m = (.error fault, n) ↔
      setup.find t.code (languageOf t) t.file = .error fault ∧ n = m := by
  unfold analyze
  cases hfind : setup.find t.code (languageOf t) t.file with
  | error other =>
    rw [Change.outcome_bind_ofExcept_error]
    simp [eq_comm]
  | ok findings =>
    have hlearn := Change.gives_mapM (f := fun c : Candidate => setup.learn now c.sighting)
      fun c hc => setup.gives_learn now (countable_of_find hfind c hc)
    obtain ⟨learned, left, hlearned, _⟩ := hlearn m hm.teachable
    rw [Change.outcome_bind_ofExcept_ok, Change.outcome_bind, hlearned]
    simp

end Setup

end CodeHabits
