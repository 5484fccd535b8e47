import CodeHabits.Proofs.Memory.Logged

/-!
# `CodeHabits.Proofs.Memory.Streak`: how ignored suggestions are counted

The streak is the number of suggestions that were ignored in a row. A memory bears with fewer
of them than a limit says; the one that reaches the limit forces a pass of forgetting at its
own time, and then the row begins anew.

`Counts` lists what a reaction may come to, with the streak before and after it. If the rules
are usable, the window can be reckoned with and the ids have an order, then every reaction
comes to one of these (`counts_feedback`). Nothing else touches the streak, as long as what
was learned is not replaced or cleared (`streak_perform`).

A reaction that fails leaves the streak as it is, but for one case (`Counts.unlearned`). A
modification ends the row before its content is learned from, and learning fails where the
counts of the style are no whole numbers. Only merging brings such counts in
(`Counts.streak_of_error`).
-/

set_option autoImplicit false

namespace CodeHabits

open Time (Timestamp)

/-- Only acceptance and rejection move weights, so nothing else can fail to. -/
theorem Learning.Unmoved.judged {rules : Learning Value} {reaction : Reaction} {p : Pattern Value}
    {prefs left : Preferences Value} {fault : Fault}
    (h : Unmoved rules reaction p prefs fault left) :
    reaction = .accepted ∨ reaction = .rejected := by
  cases reaction with
  | accepted => exact .inl rfl
  | rejected => exact .inr rfl
  | modified | ignored =>
    cases h with
    | step hstep | kind hstep _ | language hstep _ _ => cases hstep

namespace Memory

/-! ### What leaves the streak alone -/

section

variable {ν : Type} {k : Nat}

/-- What happens in the store leaves the streak alone. -/
theorem streak_inStore {α : Type} (x : Change (Store ν) α) :
    Change.Keeps (fun m : Memory ν => m.streak = k) (inStore x) :=
  Change.keeps_within (Q := fun _ => True) (fun _ _ => trivial) (fun _ _ h _ => h)
    fun _ _ => trivial

variable [Magnitude ν]

theorem streak_learnAll (idOf : IdScheme) (now : Timestamp) (sightings : List Sighting) :
    Change.Keeps (fun m : Memory ν => m.streak = k) (learnAll idOf now sightings) :=
  Change.keeps_mapM fun _ _ => streak_inStore _

theorem streak_decay (rules : Learning ν) (now : Timestamp) :
    Change.Keeps (fun m : Memory ν => m.streak = k) (decay rules now) :=
  keeps_decay fun _ _ _ h => h

/-- Of all deeds that add to what was learned only reactions are counted. -/
theorem streak_perform (intake : Intake ν) (setup : Setup ν) (now : Timestamp) {deed : Deed}
    (hdeed : deed.Adds) (hother : ∀ e, deed ≠ .feedback e) :
    Change.Keeps (fun m : Memory ν => m.streak = k) (perform intake setup now deed) := by
  have hlearn : ∀ c : Candidate,
      Change.Keeps (fun m : Memory ν => m.streak = k) (learn setup.idOf now c.sighting) :=
    fun c => streak_inStore _
  cases deed with
  | analyze text => exact keeps_drop (Setup.keeps_analyze hlearn)
  | analyzeBatch cancelAfter texts => exact keeps_drop (Setup.keeps_analyzeBatch hlearn _ _ _)
  | feedback e => exact absurd rfl (hother e)
  | decay time => exact keeps_drop (streak_decay setup.rules time)
  | clear => cases hdeed
  | takeSnapshot document replace =>
    obtain rfl : replace = false := hdeed
    apply keeps_drop
    unfold takeIntake
    refine Change.keeps_bind (Change.keeps_ofExcept _) fun members => ?_
    exact streak_inStore _

end

/-! ### Reactions -/

variable {setup : Setup Value} {rules : Learning Value} {limit : Nat} {now : Timestamp} {e : Event}
  {m n : Memory Value} {result : Except Fault (Effect Value)}

/-- What a reaction comes to, where `limit` suggestions that are ignored in a row are not
borne: with what result, and with which memory left. -/
inductive Counts (setup : Setup Value) (limit : Nat) (now : Timestamp) (e : Event)
    (m : Memory Value) : Except Fault (Effect Value) → Memory Value → Prop
  /-- There is no pattern to react to, or modified content cannot be read. -/
  | refused {fault : Fault} (hnothing : Deed.logs? setup m (.feedback e) = none) :
      Counts setup limit now e m (.error fault) m
  /-- The reaction is logged, and the weights are not moved, or not all of them. -/
  | unmoved {id : Label} {before : Pattern Value} {fault : Fault} {prefs : Preferences Value}
      (htarget : m.target e.patternId = .ok (id, before))
      (hjudged : e.reaction = .accepted ∨ e.reaction = .rejected)
      (hunmoved : setup.rules.Unmoved e.reaction before m.preferences fault prefs) :
      Counts setup limit now e m (.error fault)
        { withLogged setup.rules e m id before with preferences := prefs }
  /-- The modification is logged and ends the row, and then not all is learned. -/
  | unlearned {id : Label} {before : Pattern Value} {found : List Sighting × Option String}
      {fault : Fault} {n : Memory Value} (htarget : m.target e.patternId = .ok (id, before))
      (hread : m.resighted setup.reparse id e = .ok found) (hmodified : e.reaction = .modified)
      (hfails : (learnAll setup.idOf now found.1).outcome
        { withLogged setup.rules e m id before with streak := 0 } = (.error fault, n))
      (hstreak : n.streak = 0) : Counts setup limit now e m (.error fault) n
  /-- A reaction is taken in that ends the row. -/
  | ended {effect : Effect Value} {n : Memory Value} (hother : e.reaction ≠ .ignored)
      (hidle : effect.decay? = none) (hstreak : n.streak = 0) :
      Counts setup limit now e m (.ok effect) n
  /-- The ignored suggestion is logged, counted and borne. -/
  | borne {id : Label} {before : Pattern Value} {effect : Effect Value}
      (htarget : m.target e.patternId = .ok (id, before)) (hignored : e.reaction = .ignored)
      (hfew : m.streak + 1 < limit) (hidle : effect.decay? = none) :
      Counts setup limit now e m (.ok effect)
        { withLogged setup.rules e m id before with streak := m.streak + 1 }
  /-- The ignored suggestion is logged and counted, and the pass of forgetting that it forces
  is run at its time. -/
  | forced {id : Label} {before : Pattern Value} {effect : Effect Value} {report : DecayReport}
      {left : Memory Value} (htarget : m.target e.patternId = .ok (id, before))
      (hignored : e.reaction = .ignored) (henough : limit ≤ m.streak + 1)
      (hpass : (decay setup.rules e.timestamp).outcome
        { withLogged setup.rules e m id before with streak := m.streak + 1 } = (.ok report, left))
      (htold : effect.decay? = some report) :
      Counts setup limit now e m (.ok effect) { left with streak := 0 }

/-- Whether there are enough of something goes by the whole number that the limit is. -/
theorem le_ignoreThreshold (hlimit : rules.ignoreThreshold.number? = some (.int limit))
    (count : Nat) :
    Magnitude.le rules.ignoreThreshold (Magnitude.ofInt count) = .ok (decide (limit ≤ count)) := by
  have hcount : (Magnitude.ofInt count : Value).number? = some (.int count) := rfl
  rw [Value.le_of_numbers hlimit hcount, Number.le]
  simp

/-- An ignored suggestion that is taken in is borne, or forces a pass. -/
theorem counts_of_ignored {id : Label} {before : Pattern Value} {effect : Effect Value}
    (hrules : setup.rules.Usable) (hm : m.Measured)
    (hlimit : setup.rules.ignoreThreshold.number? = some (.int limit))
    (htarget : m.target e.patternId = .ok (id, before)) (hignored : e.reaction = .ignored)
    (h : (respond setup.idOf setup.rules now e id before ([], none)).outcome m = (.ok effect, n)) :
    Counts setup limit now e m (.ok effect) n := by
  obtain ⟨logged, counted, decay?, learned, hlogged, hcounted, hlearned, rfl⟩ := respond_eq_ok.1 h
  -- There is nothing to learn, so counting is the last thing that happens.
  obtain ⟨_, rfl⟩ : learned = [] ∧ n = counted := by
    cases hlearned
    exact ⟨rfl, rfl⟩
  have hget := (target_eq_ok.1 htarget).2
  rw [outcome_takeIn_of_neither hrules hget (hm.of_get? hget) (by simp [hignored])
    (by simp [hignored])] at hlogged
  cases hlogged
  rw [outcome_countIgnored_of_ignored hignored (le_ignoreThreshold hlimit _)] at hcounted
  rw [show (withLogged setup.rules e m id before).streak = m.streak from rfl] at hcounted
  by_cases henough : limit ≤ m.streak + 1
  · rw [if_pos (decide_eq_true henough)] at hcounted
    rcases hpass : (decay setup.rules e.timestamp).outcome
        { withLogged setup.rules e m id before with streak := m.streak + 1 } with ⟨fault | report, left⟩
    · rw [hpass] at hcounted
      cases hcounted
    · rw [hpass] at hcounted
      cases hcounted
      exact .forced htarget hignored henough hpass rfl
  · rw [if_neg (by simpa using henough)] at hcounted
    cases hcounted
    exact .borne htarget hignored (by omega) rfl

/-- Any other reaction that is taken in ends the row. -/
theorem counts_of_other {id : Label} {before : Pattern Value} {effect : Effect Value}
    {found : List Sighting × Option String} (hother : e.reaction ≠ .ignored)
    (h : (respond setup.idOf setup.rules now e id before found).outcome m = (.ok effect, n)) :
    Counts setup limit now e m (.ok effect) n := by
  obtain ⟨logged, counted, decay?, learned, _, hcounted, hlearned, rfl⟩ := respond_eq_ok.1 h
  rw [outcome_countIgnored_of_not_ignored hother] at hcounted
  cases hcounted
  have hstreak : n.streak = 0 :=
    (streak_learnAll setup.idOf now found.1).of_outcome hlearned rfl
  exact .ended hother rfl hstreak

/-- Every reaction comes to one of the things that are listed, if the rules are usable, the
window can be reckoned with and the ids have an order. -/
theorem counts_feedback (hrules : setup.rules.Usable) (hm : m.Measured)
    (hlimit : setup.rules.ignoreThreshold.number? = some (.int limit))
    (hwindow : ∃ window, setup.rules.window = .ok window) (horder : ∃ ps, m.store.inOrder = .ok ps)
    (h : (setup.feedback now e).outcome m = (result, n)) : Counts setup limit now e m result n := by
  cases result with
  | error fault =>
    cases (feedback_eq_error_iff hrules hm).1 h with
    | unknown htarget => exact .refused (by simp [Deed.logs?, htarget])
    | unread htarget hread => exact .refused (by simp [Deed.logs?, htarget, hread, Except.isOk, Except.toBool])
    | unmoved htarget _ hunmoved => exact .unmoved htarget hunmoved.judged hunmoved
    | unlearned htarget hread hmodified hfails =>
      have hstreak : n.streak = 0 := (streak_learnAll setup.idOf now _).of_outcome hfails rfl
      exact .unlearned htarget hread hmodified hfails hstreak
    | unforgotten _ _ _ hpass =>
      -- A pass of forgetting can only fail at the window or at the order of the ids.
      obtain ⟨window, hwindow⟩ := hwindow
      obtain ⟨ps, horder⟩ := horder
      rcases hpass with hfails | ⟨_, _, hfails⟩
      · rw [hwindow] at hfails
        cases hfails
      · rw [horder] at hfails
        cases hfails
  | ok effect =>
    obtain ⟨id, before, found, htarget, hread, hrespond⟩ := feedback_eq_ok h
    by_cases hignored : e.reaction = .ignored
    · rw [resighted_of_not_modified m id (by simp [hignored])] at hread
      cases hread
      exact counts_of_ignored hrules hm hlimit htarget hignored hrespond
    · exact counts_of_other hignored hrespond

/-! ### What it comes to for the streak -/

/-- Adding one to a count leaves a remainder that is larger by one, or a multiple of the
limit. -/
theorem succ_mod_cases (hpos : 0 < limit) (k : Nat) :
    k % limit + 1 < limit ∧ (k + 1) % limit = k % limit + 1 ∨
      k % limit + 1 = limit ∧ (k + 1) % limit = 0 := by
  have hlt : k % limit < limit := Nat.mod_lt k hpos
  rcases Nat.lt_or_eq_of_le hlt with hless | hequal
  · left
    refine ⟨hless, ?_⟩
    rw [← Nat.mod_add_mod, Nat.mod_eq_of_lt hless]
  · right
    refine ⟨hequal, ?_⟩
    rw [← Nat.mod_add_mod, show k % limit + 1 = limit from hequal, Nat.mod_self]

namespace Counts

/-- Where what is modified can be learned, a reaction that fails leaves the streak. -/
theorem streak_of_error {fault : Fault} (hrules : setup.rules.Usable) (hteachable : m.store.Teachable)
    (h : Counts setup limit now e m (.error fault) n) : n.streak = m.streak := by
  cases h with
  | refused _ => rfl
  | unmoved _ _ _ => rfl
  | unlearned htarget hread hmodified hfails _ =>
    exact absurd hfails (learns_resighted hrules hteachable htarget hread hmodified)

/-- A reaction that is taken in adds one if it is ignored, and else the count begins anew. -/
theorem streak_of_ok {effect : Effect Value} {k : Nat} (hpos : 0 < limit)
    (hk : m.streak = k % limit) (h : Counts setup limit now e m (.ok effect) n) :
    n.streak = (if e.reaction = .ignored then k + 1 else 0) % limit := by
  cases h with
  | ended hother _ hstreak => rw [if_neg hother, hstreak, Nat.zero_mod]
  | borne _ hignored hfew _ =>
    rw [hk] at hfew
    rcases succ_mod_cases hpos k with ⟨_, hnext⟩ | ⟨hfull, _⟩
    · rw [if_pos hignored, hnext, ← hk]
    · omega
  | forced _ hignored henough _ _ =>
    rw [hk] at henough
    rcases succ_mod_cases hpos k with ⟨hless, _⟩ | ⟨_, hnext⟩
    · omega
    · rw [if_pos hignored, hnext]

/-- A reaction that is taken in runs a pass exactly if it is ignored and makes what is counted
a multiple of the limit. -/
theorem isSome_decay_iff {effect : Effect Value} {k : Nat} (hpos : 0 < limit)
    (hk : m.streak = k % limit) (h : Counts setup limit now e m (.ok effect) n) :
    effect.decay?.isSome ↔ e.reaction = .ignored ∧ limit ∣ k + 1 := by
  rw [Nat.dvd_iff_mod_eq_zero]
  cases h with
  | ended hother hidle _ => simp [hother, hidle]
  | borne _ hignored hfew hidle =>
    rw [hk] at hfew
    rcases succ_mod_cases hpos k with ⟨_, hnext⟩ | ⟨hfull, _⟩
    · simp [hidle, hnext]
    · omega
  | forced _ hignored henough _ htold =>
    rw [hk] at henough
    rcases succ_mod_cases hpos k with ⟨hless, _⟩ | ⟨_, hnext⟩
    · omega
    · simp [htold, hignored, hnext]

end Counts

end Memory

end CodeHabits
