import CodeHabits.Proofs.Memory.Reacting

/-!
# `CodeHabits.Proofs.Memory.Setback`: how taking a reaction in fails

A reaction is refused if there is no pattern to react to or if modified content cannot
be read, and then nothing changes. After that the reaction is logged first, so whatever
fails later leaves it in the log. `Setback` lists the three things that still may fail,
each with the memory that it leaves:

- the weights cannot be moved, since the step is no number that can be added to them;
- a pass of forgetting that ignored suggestions have forced fails, since the window is
  unusable or the ids have no order, when the suggestion is logged and counted already;
- what modified content shows cannot be learned.

`feedback_eq_error_iff` says that a reaction fails in these ways and in no other, under
usable rules and in any memory whose patterns are measured.
-/

set_option autoImplicit false

namespace CodeHabits

open Time (Timestamp)

/-- Which weights cannot be moved depends on the kind and the language of the pattern. -/
theorem Learning.Unmoved.congr {rules : Learning Value} {reaction : Reaction} {p q : Pattern Value}
    {prefs left : Preferences Value} {fault : Fault} (hkind : q.kind = p.kind)
    (hlanguage : q.language = p.language) (h : Unmoved rules reaction p prefs fault left) :
    Unmoved rules reaction q prefs fault left := by
  cases h with
  | step hstep => exact .step hstep
  | kind hstep hadd => exact .kind hstep (by rw [hkind]; exact hadd)
  | language hstep hkinds hadd =>
    exact .language hstep (by rw [hkind]; exact hkinds) (by rw [hlanguage]; exact hadd)

namespace Memory

variable {setup : Setup Value} {rules : Learning Value} {now : Timestamp} {e : Event}
  {m n : Memory Value} {id : Label} {before : Pattern Value} {fault : Fault}

/-- How taking a reaction in fails: with what fault, and with which memory left. -/
inductive Setback (setup : Setup Value) (now : Timestamp) (e : Event) (m : Memory Value) :
    Fault → Memory Value → Prop
  /-- There is no pattern to react to. -/
  | unknown {fault : Fault} (h : m.target e.patternId = .error fault) : Setback setup now e m fault m
  /-- Modified content cannot be read. -/
  | unread {id : Label} {before : Pattern Value} {fault : Fault}
      (htarget : m.target e.patternId = .ok (id, before))
      (h : m.resighted setup.reparse id e = .error fault) : Setback setup now e m fault m
  /-- The reaction is logged, and the weights are not moved, or not all of them. -/
  | unmoved {id : Label} {before : Pattern Value} {found : List Sighting × Option String}
      {fault : Fault} {prefs : Preferences Value}
      (htarget : m.target e.patternId = .ok (id, before))
      (hread : m.resighted setup.reparse id e = .ok found)
      (h : setup.rules.Unmoved e.reaction before m.preferences fault prefs) :
      Setback setup now e m fault { withLogged setup.rules e m id before with preferences := prefs }
  /-- The ignored suggestion is logged and counted, and nothing is forgotten. -/
  | unforgotten {id : Label} {before : Pattern Value} {fault : Fault}
      (htarget : m.target e.patternId = .ok (id, before)) (hreaction : e.reaction = .ignored)
      (henough : Magnitude.le setup.rules.ignoreThreshold (.ofNat (m.streak + 1)) = .ok true)
      (h : setup.rules.window = .error fault ∨
        ∃ window, setup.rules.window = .ok window ∧ m.store.inOrder = .error fault) :
      Setback setup now e m fault
        { m with
          store := m.store.replace id { before with feedback := before.feedback ++ [e] }
          streak := m.streak + 1 }
  /-- The modification is logged, and not all that its content shows is learned. -/
  | unlearned {id : Label} {before : Pattern Value} {found : List Sighting × Option String}
      {fault : Fault} {n : Memory Value} (htarget : m.target e.patternId = .ok (id, before))
      (hread : m.resighted setup.reparse id e = .ok found) (hreaction : e.reaction = .modified)
      (h : (learnAll setup.idOf now found.1).outcome
        { withLogged setup.rules e m id before with streak := 0 } = (.error fault, n)) :
      Setback setup now e m fault n

/-! ### The steps -/

/-- Reactions that are neither acceptance nor rejection leave the preferences alone. -/
theorem outcome_prefer_of_neither {reaction : Reaction} (ha : reaction ≠ .accepted)
    (hr : reaction ≠ .rejected) (p : Pattern Value) (prefs : Preferences Value) :
    (rules.prefer reaction id p).outcome prefs = (.ok (), prefs) := by
  cases reaction with
  | accepted => exact absurd rfl ha
  | rejected => exact absurd rfl hr
  | modified => rfl
  | ignored => rfl

/-- Such a reaction is logged and nothing else. -/
theorem outcome_takeIn_of_neither (hrules : rules.Usable) (hget : m.store.get? id = some before)
    (hbefore : before.Measured) (ha : e.reaction ≠ .accepted) (hr : e.reaction ≠ .rejected) :
    (takeIn rules id e).outcome m = (.ok (), withLogged rules e m id before) := by
  rw [outcome_takeIn hrules hget hbefore, outcome_prefer_of_neither ha hr]
  rfl

/-- Only modified content shows anything. -/
theorem resighted_of_not_modified {reparse : Reparse} {ν : Type} (m : Memory ν) (id : Label)
    (h : e.reaction ≠ .modified) : m.resighted reparse id e = .ok ([], none) := by
  unfold resighted
  split
  · rename_i hmodified _
    exact absurd hmodified h
  · rfl

/-- Putting a pattern in the place of another one does not change which ids there are. -/
theorem inOrder_replace_eq_error {s : Store Value} {p : Pattern Value}
    (hget : s.get? id = some before) :
    (s.replace id p).inOrder = .error fault ↔ s.inOrder = .error fault := by
  have hkeys : (s.patterns.put id p).map (·.1) = s.patterns.map (·.1) :=
    Table.map_put_of_get? (·.1) hget fun _ => rfl
  have hsorted : ∀ patterns : Table Label (Pattern Value),
      sorted (.on (·.1) .label) patterns = .error fault ↔
        sorted .label (patterns.map (·.1)) = .error fault := by
    intro patterns
    rw [sorted_map (p := .on (·.1) .label) (q := .label) fun _ _ => rfl, Except.map_eq_error]
  have hstore : ∀ s : Store Value,
      s.inOrder = .error fault ↔ sorted (.on (·.1) .label) s.patterns = .error fault := by
    intro s
    unfold Store.inOrder
    cases sorted (.on (·.1) .label) s.patterns <;> simp
  rw [hstore, hstore, hsorted, hsorted]
  show sorted .label ((s.patterns.put id p).map (·.1)) = _ ↔ _
  rw [hkeys]

/-- Counting ignored suggestions fails only where it forces a pass of forgetting that
fails. -/
theorem countIgnored_eq_error (hrules : rules.Usable) (hm : m.Measured) :
    (countIgnored rules e).outcome m = (.error fault, n) ↔
      e.reaction = .ignored ∧
        Magnitude.le rules.ignoreThreshold (.ofNat (m.streak + 1)) = .ok true ∧
        n = { m with streak := m.streak + 1 } ∧
        (rules.window = .error fault ∨
          ∃ window, rules.window = .ok window ∧ m.store.inOrder = .error fault) := by
  by_cases hignored : e.reaction = .ignored
  · have hnumber : (Value.ofNat (m.streak + 1)).number?.isSome = true := rfl
    obtain ⟨enough, henough⟩ := Value.exists_le hrules.ignoreThreshold hnumber
    have hcounted : Measured { m with streak := m.streak + 1 } := hm
    have hpass := @decay_eq_error rules _ n e.timestamp fault hrules hcounted
    rw [outcome_countIgnored_of_ignored hignored henough, henough]
    cases enough with
    | false => simp
    | true =>
      rw [if_pos rfl]
      rcases hdecay : (decay rules e.timestamp).outcome { m with streak := m.streak + 1 } with
        ⟨other | report, left⟩
      · rw [hdecay, Prod.mk.injEq, Except.error.injEq] at hpass
        rw [Prod.mk.injEq, Except.error.injEq, hpass]
        simp [hignored]
      · rw [hdecay] at hpass
        simpa [hignored] using hpass
  · rw [outcome_countIgnored_of_not_ignored hignored]
    simp [hignored]

theorem measured_withLogged (hrules : rules.Usable) (hm : m.Measured)
    (hget : m.store.get? id = some before) : (withLogged rules e m id before).Measured :=
  Store.Every.replace hm id (Learning.measured_logged hrules (hm.of_get? hget))

/-! ### The ways to fail, and no other -/

/-- The response to a known pattern fails in the last three ways. -/
theorem setback_of_respond {found : List Sighting × Option String} (hrules : setup.rules.Usable)
    (hm : m.Measured) (htarget : m.target e.patternId = .ok (id, before))
    (hread : m.resighted setup.reparse id e = .ok found)
    (h : (respond setup.idOf setup.rules now e id before found).outcome m = (.error fault, n)) :
    Setback setup now e m fault n := by
  have hget := (target_eq_ok.1 htarget).2
  have hbefore : before.Measured := hm.of_get? hget
  rcases respond_eq_error.1 h with hfails | ⟨logged, hlogged, hfails | ⟨decay?, counted, hcounted, hfails⟩⟩
  · -- The weights are moved after the reaction is logged.
    rw [outcome_takeIn hrules hget hbefore, Prod.mk.injEq] at hfails
    obtain ⟨hprefer, rfl⟩ := hfails
    obtain ⟨hkind, hlanguage⟩ := Learning.after_name (e := e) hrules hbefore
    have hunmoved := (Learning.prefer_eq_error hrules).1 (Prod.ext hprefer rfl)
    exact .unmoved htarget hread (hunmoved.congr hkind.symm hlanguage.symm)
  · have hmeasured : logged.Measured := (measured_takeIn hrules id e).of_outcome hlogged hm
    obtain ⟨hignored, henough, rfl, hpass⟩ := (countIgnored_eq_error hrules hmeasured).1 hfails
    -- An ignored suggestion leaves the preferences and, but for the log, the pattern.
    rw [outcome_takeIn_of_neither hrules hget hbefore (by simp [hignored]) (by simp [hignored])]
      at hlogged
    cases hlogged
    have hpass : setup.rules.window = .error fault ∨
        ∃ window, setup.rules.window = .ok window ∧ m.store.inOrder = .error fault := by
      rcases hpass with hwindow | ⟨window, hwindow, horder⟩
      · exact .inl hwindow
      · exact .inr ⟨window, hwindow, (inOrder_replace_eq_error hget).1 horder⟩
    rw [withLogged, Learning.logged_of_ignored hrules hbefore hignored]
    exact .unforgotten htarget hignored henough hpass
  · -- Where nothing was modified there is nothing to learn.
    have hmodified : e.reaction = .modified := by
      by_contra hother
      rw [resighted_of_not_modified m id hother] at hread
      cases hread
      cases hfails
    rw [outcome_takeIn_of_neither hrules hget hbefore (by simp [hmodified]) (by simp [hmodified])]
      at hlogged
    cases hlogged
    rw [outcome_countIgnored_of_not_ignored (by simp [hmodified])] at hcounted
    cases hcounted
    exact .unlearned htarget hread hmodified hfails

/-- And in each of these ways a reaction fails. -/
theorem feedback_of_setback (hrules : setup.rules.Usable) (hm : m.Measured)
    (h : Setback setup now e m fault n) : (setup.feedback now e).outcome m = (.error fault, n) := by
  refine feedback_eq_error.2 ?_
  cases h with
  | unknown htarget => exact .inl ⟨htarget, rfl⟩
  | unread htarget hread => exact .inr ⟨_, _, htarget, .inl ⟨hread, rfl⟩⟩
  | @unmoved id before found _ prefs htarget hread hunmoved =>
    have hget := (target_eq_ok.1 htarget).2
    have hbefore : before.Measured := hm.of_get? hget
    obtain ⟨hkind, hlanguage⟩ := Learning.after_name (e := e) hrules hbefore
    have hprefer : (setup.rules.prefer e.reaction id (setup.rules.after e before)).outcome
        m.preferences = (.error fault, prefs) :=
      (Learning.prefer_eq_error hrules).2 (hunmoved.congr hkind hlanguage)
    refine .inr ⟨id, before, htarget, .inr ⟨found, hread, respond_eq_error.2 (.inl ?_)⟩⟩
    rw [outcome_takeIn hrules hget hbefore, hprefer]
  | @unforgotten id before _ htarget hignored henough hpass =>
    have hget := (target_eq_ok.1 htarget).2
    have hbefore : before.Measured := hm.of_get? hget
    have hlogged := outcome_takeIn_of_neither (e := e) hrules hget hbefore (by simp [hignored])
      (by simp [hignored])
    have hread : m.resighted setup.reparse id e = .ok ([], none) :=
      resighted_of_not_modified m id (by simp [hignored])
    have hpass : setup.rules.window = .error fault ∨ ∃ window, setup.rules.window = .ok window ∧
        (withLogged setup.rules e m id before).store.inOrder = .error fault := by
      rcases hpass with hwindow | ⟨window, hwindow, horder⟩
      · exact .inl hwindow
      · exact .inr ⟨window, hwindow, (inOrder_replace_eq_error hget).2 horder⟩
    refine .inr ⟨id, before, htarget, .inr ⟨_, hread, respond_eq_error.2 (.inr ⟨_, hlogged, .inl ?_⟩)⟩⟩
    refine (countIgnored_eq_error hrules (measured_withLogged hrules hm hget)).2
      ⟨hignored, henough, ?_, hpass⟩
    rw [withLogged, Learning.logged_of_ignored hrules hbefore hignored]
  | @unlearned id before found _ _ htarget hread hmodified hfails =>
    have hget := (target_eq_ok.1 htarget).2
    have hbefore : before.Measured := hm.of_get? hget
    have hlogged := outcome_takeIn_of_neither (e := e) hrules hget hbefore (by simp [hmodified])
      (by simp [hmodified])
    have hcounted : (countIgnored setup.rules e).outcome (withLogged setup.rules e m id before)
        = (.ok none, { withLogged setup.rules e m id before with streak := 0 }) :=
      outcome_countIgnored_of_not_ignored (by simp [hmodified])
    exact .inr ⟨id, before, htarget, .inr ⟨found, hread,
      respond_eq_error.2 (.inr ⟨_, hlogged, .inr ⟨_, _, hcounted, hfails⟩⟩)⟩⟩

/-- A reaction fails as a setback says, and leaves what the setback leaves. -/
theorem feedback_eq_error_iff (hrules : setup.rules.Usable) (hm : m.Measured) :
    (setup.feedback now e).outcome m = (.error fault, n) ↔ Setback setup now e m fault n := by
  constructor
  · intro h
    rcases feedback_eq_error.1 h with ⟨htarget, rfl⟩ | ⟨id, before, htarget, hfails⟩
    · exact .unknown htarget
    · rcases hfails with ⟨hread, rfl⟩ | ⟨found, hread, hfails⟩
      · exact .unread htarget hread
      · exact setback_of_respond hrules hm htarget hread hfails
  · exact feedback_of_setback hrules hm

end Memory

end CodeHabits
