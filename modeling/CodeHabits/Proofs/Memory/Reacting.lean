import CodeHabits.Memory
import CodeHabits.Proofs.Change
import CodeHabits.Proofs.Except
import CodeHabits.Proofs.Memory.Deed
import CodeHabits.Proofs.Pattern.Measured

/-!
# `CodeHabits.Proofs.Memory.Reacting`: reactions in a memory, step by step

Taking a reaction in looks up the pattern and reads modified content first, and
neither of these changes anything. Then `respond` logs the reaction, counts ignored
suggestions, and learns from what the content shows. `feedback_eq_ok` and
`feedback_eq_error` tell from the result and from the memory that is left which of
these steps were taken.

A memory is measured when its patterns are. Every way of learning keeps this, and so does
taking in any snapshot whatsoever. In a measured memory usable rules can always be applied to
a pattern. What is left to go wrong in the steps of a reaction is told exactly: logging fails
only if the preferences cannot be moved (`outcome_takeIn`), and a pass of forgetting only if
the window is unusable or the ids have no order, in both cases before it has changed anything
(`decay_eq_error`).
-/

set_option autoImplicit false

/-! ## The steps -/

namespace CodeHabits.Memory

open Time (Timestamp)

variable {ν : Type} [Magnitude ν] {idOf : IdScheme} {rules : Learning ν} {reparse : Reparse}
  {now : Timestamp} {e : Event} {m n : Memory ν} {id : Label} {before : Pattern ν}
  {found : List Sighting × Option String} {fault : Fault}

omit [Magnitude ν] in
/-- A reaction is one to the pattern that is known under the id. -/
theorem target_eq_ok {value : Value} :
    m.target value = .ok (id, before) ↔ value.toLabel = .ok id ∧ m.store.get? id = some before := by
  unfold target
  rw [Except.bind_eq_ok]
  constructor
  · rintro ⟨label, hlabel, h⟩
    cases hget : m.store.get? label with
    | none =>
      rw [hget] at h
      cases h
    | some p =>
      rw [hget] at h
      cases h
      exact ⟨hlabel, hget⟩
  · rintro ⟨hlabel, hget⟩
    refine ⟨id, hlabel, ?_⟩
    rw [hget]
    rfl

/-- The effect of a reaction on a pattern. The confidence before is that of the
pattern that was found, and the confidence after is that of the pattern that is left
under the same id. -/
def effectOf (e : Event) (n : Memory ν) (id : Label) (before : Pattern ν)
    (problem? : Option String) (decay? : Option DecayReport) (learned : List Label) : Effect ν :=
  let after := (n.store.get? id).getD before
  ⟨e.patternId, e.reaction, before.confidence, after.confidence, after.retired, learned, problem?,
    decay?⟩

/-- What a reaction to a known pattern does, once its content is read. -/
def respond (idOf : IdScheme) (rules : Learning ν) (now : Timestamp) (e : Event) (id : Label)
    (before : Pattern ν) (found : List Sighting × Option String) : Change (Memory ν) (Effect ν) := do
  takeIn rules id e
  let decay? ← countIgnored rules e
  let learned ← learnAll idOf now found.1
  return effectOf e (← get) id before found.2 decay? learned

/-! ### Counting ignored suggestions -/

/-- Any other reaction ends the row. -/
theorem outcome_countIgnored_of_not_ignored (h : e.reaction ≠ .ignored) :
    (countIgnored rules e).outcome m = (.ok none, { m with streak := 0 }) := by
  unfold countIgnored
  rw [if_neg h]
  rfl

/-- An ignored suggestion is counted. If there are enough in a row, a pass of forgetting is
run, which ends the row unless it fails. -/
theorem outcome_countIgnored_of_ignored {enough : Bool} (hignored : e.reaction = .ignored)
    (henough : Magnitude.le rules.ignoreThreshold (Magnitude.ofInt (m.streak + 1 : Nat))
      = .ok enough) :
    (countIgnored rules e).outcome m
      = if enough then
          match (decay rules e.timestamp).outcome { m with streak := m.streak + 1 } with
          | (.error fault, n) => (.error fault, n)
          | (.ok report, n) => (.ok (some report), { n with streak := 0 })
        else (.ok none, { m with streak := m.streak + 1 }) := by
  unfold countIgnored
  rw [if_pos hignored, Change.outcome_bind, Change.outcome_modify]
  dsimp only
  rw [Change.outcome_bind_get]
  dsimp only
  rw [henough, Change.outcome_bind_ofExcept_ok]
  cases enough with
  | false => rfl
  | true =>
    rw [if_pos rfl, if_pos rfl, Change.outcome_bind]
    rcases (decay rules e.timestamp).outcome { m with streak := m.streak + 1 } with ⟨_ | _, _⟩
    · rfl
    · rfl

/-! ### Reactions -/

/-- The pattern is looked up first, its content is read next, and then the reaction is
responded to. -/
theorem outcome_feedback :
    (feedback idOf rules reparse now e).outcome m
      = match m.target e.patternId with
        | .error fault => (.error fault, m)
        | .ok (id, before) =>
          match m.resighted reparse id e with
          | .error fault => (.error fault, m)
          | .ok found => (respond idOf rules now e id before found).outcome m := by
  rw [feedback, Change.outcome_bind_get]
  rcases m.target e.patternId with fault | ⟨id, before⟩
  · rw [Change.outcome_bind_ofExcept_error]
  · rw [Change.outcome_bind_ofExcept_ok]
    dsimp only
    cases m.resighted reparse id e with
    | error fault => rw [Change.outcome_bind_ofExcept_error]
    | ok found =>
      rw [Change.outcome_bind_ofExcept_ok]
      rfl

theorem respond_eq_ok {effect : Effect ν} :
    (respond idOf rules now e id before found).outcome m = (.ok effect, n) ↔
      ∃ logged counted decay? learned, (takeIn rules id e).outcome m = (.ok (), logged) ∧
        (countIgnored rules e).outcome logged = (.ok decay?, counted) ∧
        (learnAll idOf now found.1).outcome counted = (.ok learned, n) ∧
        effect = effectOf e n id before found.2 decay? learned := by
  unfold respond
  constructor
  · intro h
    obtain ⟨_, logged, hlogged, h⟩ := Change.bind_eq_ok.1 h
    obtain ⟨decay?, counted, hcounted, h⟩ := Change.bind_eq_ok.1 h
    obtain ⟨learned, left, hlearned, h⟩ := Change.bind_eq_ok.1 h
    cases h
    exact ⟨logged, counted, decay?, learned, hlogged, hcounted, hlearned, rfl⟩
  · rintro ⟨logged, counted, decay?, learned, hlogged, hcounted, hlearned, rfl⟩
    refine Change.bind_eq_ok.2 ⟨(), logged, hlogged, ?_⟩
    refine Change.bind_eq_ok.2 ⟨decay?, counted, hcounted, ?_⟩
    exact Change.bind_eq_ok.2 ⟨learned, n, hlearned, rfl⟩

/-- A response fails in one of its three steps, and keeps what the steps before it
did. -/
theorem respond_eq_error :
    (respond idOf rules now e id before found).outcome m = (.error fault, n) ↔
      (takeIn rules id e).outcome m = (.error fault, n) ∨
        ∃ logged, (takeIn rules id e).outcome m = (.ok (), logged) ∧
          ((countIgnored rules e).outcome logged = (.error fault, n) ∨
            ∃ decay? counted, (countIgnored rules e).outcome logged = (.ok decay?, counted) ∧
              (learnAll idOf now found.1).outcome counted = (.error fault, n)) := by
  unfold respond
  rw [Change.bind_eq_error]
  refine or_congr_right ?_
  constructor
  · rintro ⟨_, logged, hlogged, h⟩
    refine ⟨logged, hlogged, ?_⟩
    rcases Change.bind_eq_error.1 h with hcounts | ⟨decay?, counted, hcounted, h⟩
    · exact .inl hcounts
    · rcases Change.bind_eq_error.1 h with hlearns | ⟨learned, left, _, h⟩
      · exact .inr ⟨decay?, counted, hcounted, hlearns⟩
      · cases h
  · rintro ⟨logged, hlogged, hcounts | ⟨decay?, counted, hcounted, hlearns⟩⟩
    · exact ⟨(), logged, hlogged, Change.bind_eq_error.2 (.inl hcounts)⟩
    · refine ⟨(), logged, hlogged, Change.bind_eq_error.2 (.inr ⟨decay?, counted, hcounted, ?_⟩)⟩
      exact Change.bind_eq_error.2 (.inl hlearns)

/-- The effect tells of the pattern that was found and of what is left of it. -/
theorem feedback_eq_ok {effect : Effect ν}
    (h : (feedback idOf rules reparse now e).outcome m = (.ok effect, n)) :
    ∃ id before found, m.target e.patternId = .ok (id, before) ∧
      m.resighted reparse id e = .ok found ∧
      (respond idOf rules now e id before found).outcome m = (.ok effect, n) := by
  rw [outcome_feedback] at h
  rcases htarget : m.target e.patternId with fault | ⟨id, before⟩
  · rw [htarget] at h
    cases h
  · simp only [htarget] at h
    cases hfound : m.resighted reparse id e with
    | error fault =>
      rw [hfound] at h
      cases h
    | ok found =>
      rw [hfound] at h
      exact ⟨id, before, found, rfl, hfound, h⟩

/-- A reaction is refused before anything is changed, or the response fails. -/
theorem feedback_eq_error :
    (feedback idOf rules reparse now e).outcome m = (.error fault, n) ↔
      (m.target e.patternId = .error fault ∧ n = m) ∨
        ∃ id before, m.target e.patternId = .ok (id, before) ∧
          ((m.resighted reparse id e = .error fault ∧ n = m) ∨
            ∃ found, m.resighted reparse id e = .ok found ∧
              (respond idOf rules now e id before found).outcome m = (.error fault, n)) := by
  rw [outcome_feedback]
  rcases htarget : m.target e.patternId with fault' | ⟨id, before⟩
  · simp [eq_comm]
  · cases hfound : m.resighted reparse id e with
    | error fault' => simp [hfound, eq_comm]
    | ok found => simp [hfound, -Prod.exists]

end CodeHabits.Memory

/-! ## Measured memories -/

namespace CodeHabits.Memory

open Time (Timestamp)

/-- Every pattern of the memory is measured. -/
def Measured (m : Memory Value) : Prop :=
  m.store.Every Pattern.Measured

theorem measured_empty (smoothing : Smoothing Value) : (empty smoothing).Measured :=
  Store.every_empty smoothing

/-! ### What every way of learning keeps -/

theorem measured_learn (idOf : IdScheme) (now : Timestamp) (c : Sighting) :
    Change.Keeps Measured (learn idOf now c) := by
  apply keeps_inStore
  apply Store.every_upsert
  · intro m
    exact Store.measured_seeAgain m c
  · intro m id p h
    exact Store.measured_countStyle c p (Store.measured_firstSighting h)

theorem measured_takeIn {rules : Learning Value} (hrules : rules.Usable) (id : Label) (e : Event) :
    Change.Keeps Measured (takeIn rules id e) := by
  have hedit : Change.Keeps (Store.Every Pattern.Measured)
      (Store.edit id (do rules.learn e; get : Change (Pattern Value) (Pattern Value))) := by
    apply Store.every_edit
    intro p hp
    obtain ⟨hlearn, _⟩ := Learning.outcome_learn_measured (e := e) hrules hp
    rw [Change.outcome_bind, hlearn]
    exact Learning.measured_logged hrules hp
  refine Change.keeps_bind (keeps_inStore hedit) fun p => ?_
  exact Change.keeps_within (Q := fun _ => True) (fun _ _ => trivial) (fun _ _ h _ => h)
    fun _ _ => trivial

theorem measured_decay {rules : Learning Value} (hrules : rules.FadesInside) (now : Timestamp) :
    Change.Keeps Measured (decay rules now) :=
  every_decay fun _ _ _ hp hq => Learning.measured_forget hrules hp hq

theorem measured_ofSnapshot {m n : Memory Value} {members : Table String Value}
    (h : m.ofSnapshot members = .ok n) : n.Measured := by
  obtain ⟨prefs, _, h⟩ := Except.bind_eq_ok.1 h
  obtain ⟨store, hstore, h⟩ := Except.bind_eq_ok.1 h
  cases h
  exact Store.every_ofRecords (fun _ _ _ => Store.measured_of_readRecord) hstore

/-- Any snapshot may be taken in. -/
theorem measured_takeSnapshot (idOf : IdScheme) (document : Value) (replace : Bool) :
    Change.Keeps Measured (takeSnapshot idOf document replace) := by
  refine every_takeSnapshot idOf replace fun _ ps _ hps p hp => ?_
  have hread : p.Measured :=
    Store.forall_of_patternOf (fun _ _ _ => Store.measured_of_readRecord) hps p hp
  exact ⟨hread, Store.measured_gain hread, fun _ => ⟨hread.confidence, hread.frequency⟩⟩

/-! ### How the steps of a reaction end -/

variable {rules : Learning Value} {e : Event} {m n : Memory Value} {id : Label}
  {before : Pattern Value} {now : Timestamp} {fault : Fault}

/-- The memory with a reaction in the log of a pattern. -/
def withLogged (rules : Learning Value) (e : Event) (m : Memory Value) (id : Label)
    (p : Pattern Value) : Memory Value :=
  { m with store := m.store.replace id (rules.logged e p) }

/-- Logging a reaction does not fail, and the preferences are moved after it. -/
theorem outcome_takeIn (hrules : rules.Usable) (hget : m.store.get? id = some before)
    (hbefore : before.Measured) :
    (takeIn rules id e).outcome m
      = (((rules.prefer e.reaction id (rules.after e before)).outcome m.preferences).1,
          { withLogged rules e m id before with
            preferences :=
              ((rules.prefer e.reaction id (rules.after e before)).outcome m.preferences).2 }) := by
  obtain ⟨hlearn, hclamp⟩ := Learning.outcome_learn_measured (e := e) hrules hbefore
  have hedit : (Store.edit id (do rules.learn e; get)).outcome m.store
      = (.ok (rules.after e before), m.store.replace id (rules.logged e before)) := by
    apply Store.outcome_edit_known hget _ hclamp
    rw [Change.outcome_bind, hlearn]
    rfl
  rw [takeIn, inStore, Change.outcome_bind, Change.outcome_within, hedit]
  dsimp only
  rw [inPreferences, Change.outcome_within]
  rfl

/-- Where there is no pattern nothing is taken in. -/
theorem outcome_takeIn_unknown (hget : m.store.get? id = none) :
    ((takeIn rules id e).outcome m).2 = m := by
  rcases hrun : (Store.edit id (do rules.learn e; get)).outcome m.store with ⟨result, s⟩
  cases result with
  | ok p =>
    obtain ⟨known, hknown, _⟩ := Store.edit_eq_ok (congrArg Prod.fst hrun)
    rw [hget] at hknown
    cases hknown
  | error fault =>
    have hs : s = m.store := by
      have hleft := Store.outcome_edit id (do rules.learn e; get) m.store
      rw [hrun, hget] at hleft
      exact hleft
    rw [takeIn, inStore, Change.outcome_bind, Change.outcome_within, hrun, hs]

/-- A pass of forgetting fails before it changes anything, or not at all. -/
theorem decay_eq_error (hrules : rules.Usable) (hm : m.Measured) :
    (decay rules now).outcome m = (.error fault, n) ↔
      n = m ∧ (rules.window = .error fault ∨
        ∃ window, rules.window = .ok window ∧ m.store.inOrder = .error fault) := by
  rw [decay]
  cases hwindow : rules.window with
  | error other =>
    rw [Change.outcome_bind_ofExcept_error]
    simp [eq_comm, and_comm]
  | ok window =>
    rw [Change.outcome_bind_ofExcept_ok, Change.outcome_bind_get]
    cases horder : m.store.inOrder with
    | error other =>
      rw [Change.outcome_bind_ofExcept_error]
      simp [eq_comm, and_comm]
    | ok ps =>
      -- The patterns in order are those of the store, and no rule fails at them.
      have hps : ∀ p ∈ ps, p.Measured := by
        obtain ⟨entries, hentries, rfl⟩ : ∃ entries, sorted (.on (·.1) .label) m.store.patterns
            = .ok entries ∧ entries.map (·.2) = ps := by
          obtain ⟨entries, hentries, h⟩ := Except.bind_eq_ok.1 horder
          exact ⟨entries, hentries, Except.ok.inj h⟩
        refine List.forall_mem_map.2 fun entry hentry => ?_
        exact hm entry ((perm_of_sorted hentries).mem_iff.1 hentry)
      have hlive : ∀ p ∈ ps.filter fun p => !p.isRetired, p.Measured :=
        fun p hp => hps p (List.mem_filter.1 hp).1
      obtain ⟨after, hafter⟩ : ∃ after,
          (ps.filter fun p => !p.isRetired).mapM (rules.forget window now) = .ok after := by
        refine Except.exists_mapM_eq_ok.2 fun p hp => ?_
        obtain ⟨x, hx, _⟩ := (hlive p hp).confidence
        exact Learning.exists_forget hrules window now hx
      obtain ⟨fading, hfading⟩ : ∃ fading,
          (ps.filter fun p => !p.isRetired).filterM (rules.fades window now) = .ok fading := by
        refine Except.exists_filterM_eq_ok fun p hp => ?_
        obtain ⟨x, hx, _⟩ := (hlive p hp).confidence
        exact Learning.exists_fades hrules (by rw [hx]; rfl)
      rw [Change.outcome_bind_ofExcept_ok, Change.outcome_bind, Change.outcome_modify]
      dsimp only
      rw [hafter, Change.outcome_bind_ofExcept_ok, hfading, Change.outcome_bind_ofExcept_ok,
        Change.outcome_pure]
      simp

/-! ### Reactions that are taken in -/

/-- What the effect of a reaction tells can be written. -/
theorem exists_document_of_feedback {setup : Setup Value} {now : Timestamp} {e : Event}
    {effect : Effect Value} (hm : m.Measured) (hn : n.Measured)
    (h : (setup.feedback now e).outcome m = (.ok effect, n)) :
    ∃ document, effect.document = .ok document := by
  obtain ⟨id, before, found, htarget, _, h⟩ := feedback_eq_ok h
  obtain ⟨logged, counted, decay?, learned, _, _, _, rfl⟩ := respond_eq_ok.1 h
  have hbefore : before.Measured := hm.of_get? (target_eq_ok.1 htarget).2
  have hafter : ((n.store.get? id).getD before).Measured := by
    cases hget : n.store.get? id with
    | none => exact hbefore
    | some p => exact hn.of_get? hget
  have hrounded : ∀ p : Pattern Value, p.Measured →
      ∃ value, p.confidence.rounded 6 = .ok value := by
    intro p hp
    obtain ⟨x, hx, _⟩ := hp.confidence
    rw [hx]
    exact ⟨_, rfl⟩
  obtain ⟨previous, hprevious⟩ := hrounded before hbefore
  obtain ⟨confidence, hconfidence⟩ := hrounded _ hafter
  unfold Effect.document effectOf
  dsimp only
  rw [hprevious, Except.ok_bind, hconfidence, Except.ok_bind]
  exact ⟨_, rfl⟩

/-- Whether a reaction is taken in or not, the patterns stay measured. -/
theorem measured_feedback {setup : Setup Value} (husable : setup.rules.Usable)
    (hfades : setup.rules.FadesInside) (now : Timestamp) (e : Event) :
    Change.Keeps Measured (setup.feedback now e) := by
  apply Setup.keeps_feedback
  · exact fun m n h => h
  · exact fun id => measured_takeIn husable id e
  · exact measured_decay hfades e.timestamp
  · exact fun found => measured_learn setup.idOf now found.sighting

end CodeHabits.Memory
