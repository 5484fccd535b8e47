import CodeHabits.Proofs.Memory.Done

/-!
# `CodeHabits.Proofs.Memory.Retirement`: which patterns are retired

A pass of forgetting retires the live patterns at or below the floor, and only it does. A
sighting and an accepted suggestion revive a retired pattern that they lift above the
floor, and only they do. The comparison is made in three places, each time with the
confidence that is left, and reactions may lower a live pattern below the floor in
between. So a retired pattern is always at or below the floor (`Faded`), and the converse
is true right after a pass (`isRetired_forgotten_iff`).

`retired_iff_faded` says this of all runs of deeds without snapshots, and of any deed
after them. For the two statements about one deed the memory before it is compared with
the memory after it, record by record. A deed may sight a pattern several times. Once a
sighting has lifted a pattern above the floor the base score is above the floor as well,
and then no further sighting takes the pattern below it again (`lt_pulled`).
-/

set_option autoImplicit false

namespace CodeHabits

open Time (Timestamp)

namespace Pattern

/-- If the pattern is retired, its confidence is not above the floor. -/
def Faded (floor : Rat) (p : Pattern Rat) : Prop :=
  p.isRetired = true → p.confidence ≤ floor

end Pattern

variable {rules : Learning Rat} {p : Pattern Rat} {floor : Rat}

/-! ### One pattern -/

namespace Store

theorem isRetired_again {m : Smoothing Rat} {now : Timestamp} {c : Sighting} {styles : Tallies} :
    (again m now c styles p).isRetired = true ↔
      p.isRetired = true ∧ (again m now c styles p).confidence ≤ m.floor := by
  show Value.truthy (if _ then _ else _) = true ↔ _ ∧ m.pulled p.confidence ≤ m.floor
  -- Only a retired pattern is tested, and a live one stays live whatever the test would say.
  cases hretired : p.isRetired with
  | false =>
    have hlive : p.retired.truthy = false := hretired
    simp [hlive]
  | true =>
    by_cases habove : m.floor < m.pulled p.confidence
    · simp [habove, Value.truthy]
    · have hstays : p.retired.truthy = true := hretired
      simp [habove, hstays, not_lt.1 habove]

end Store

namespace Learning

/-- A reaction leaves a pattern retired unless it is accepted and lifted above the
floor. -/
theorem isRetired_noted {e : Event} :
    (rules.noted e p).isRetired = true ↔
      p.isRetired = true ∧
        ¬ (rules.floor < (rules.noted e p).confidence ∧ e.reaction = .accepted) := by
  show Value.truthy (if _ then _ else _) = true ↔ _ ∧
    ¬ (rules.floor < rules.reckoned e.reaction p.confidence ∧ _)
  cases hretired : p.isRetired with
  | false =>
    have hlive : p.retired.truthy = false := hretired
    simp [hlive]
  | true =>
    have hstays : p.retired.truthy = true := hretired
    by_cases hrevived :
      rules.floor < rules.reckoned e.reaction p.confidence ∧ e.reaction = .accepted
    · have htest : (decide (rules.floor < rules.reckoned e.reaction p.confidence)
          && e.reaction == .accepted) = true := by
        simpa using hrevived
      rw [Bool.true_and, if_pos htest]
      exact ⟨fun h => absurd h Bool.false_ne_true, fun h => absurd hrevived h.2⟩
    · have htest : (decide (rules.floor < rules.reckoned e.reaction p.confidence)
          && e.reaction == .accepted) = false := by
        rw [Bool.eq_false_iff]
        simpa using hrevived
      rw [Bool.true_and, htest, if_neg Bool.false_ne_true, hstays]
      simp only [hrevived, not_false_eq_true, and_self]

theorem faded_noted (hrules : rules.Bounded) {e : Event} (hunit : p.InUnit)
    (h : p.Faded rules.floor) : (rules.noted e p).Faded rules.floor := by
  intro hretired
  obtain ⟨hbefore, hstays⟩ := isRetired_noted.1 hretired
  by_cases haccepted : e.reaction = .accepted
  · exact not_lt.1 fun habove => hstays ⟨habove, haccepted⟩
  · -- What is not accepted is not lifted.
    exact le_trans (reckoned_le hrules haccepted hunit) (h hbefore)

/-- A retired pattern is not touched by a pass of forgetting. -/
theorem forgotten_of_retired {window : Int} {now : Timestamp} (h : p.isRetired = true) :
    rules.forgotten window now p = p := by
  rw [forgotten, if_pos h]

/-- Right after a pass of forgetting a pattern is retired exactly if it is not above the
floor. -/
theorem isRetired_forgotten_iff {window : Int} {now : Timestamp} (h : p.Faded rules.floor) :
    (rules.forgotten window now p).isRetired = true ↔
      (rules.forgotten window now p).confidence ≤ rules.floor := by
  by_cases hretired : p.isRetired = true
  · rw [forgotten_of_retired hretired]
    exact ⟨h, fun _ => hretired⟩
  · -- A live pattern is retired by the confidence that is left.
    have hlive : p.retired.truthy = false := by simpa [Pattern.isRetired] using hretired
    rw [forgotten, if_neg hretired]
    generalize (if window < now.instant - p.lastTouched.instant ∧ rules.floor < p.confidence then
      max (p.confidence * rules.decayFactor) rules.floor else p.confidence) = confidence
    show Value.truthy (if confidence ≤ rules.floor then _ else _) = true ↔ confidence ≤ rules.floor
    by_cases hlow : confidence ≤ rules.floor
    · simp [hlow, Value.truthy]
    · simp [hlow, hlive]

end Learning

namespace Memory

variable {smoothing : Smoothing Rat} {setup : Setup Rat} {m n : Memory Rat} {deed : Deed}
  {idOf : IdScheme} {now : Timestamp} {id : Label} {q : Pattern Rat}

/-! ### Retired patterns are at or below the floor -/

/-- Every retired pattern is at or below the floor. -/
def Faded (rules : Learning Rat) (m : Memory Rat) : Prop :=
  m.store.Every (Pattern.Faded rules.floor)

theorem Faded.shown (hfloor : smoothing.floor = rules.floor) (hexact : Exact smoothing m)
    (h : Faded rules m) {sightings : List Sighting} (hall : ∀ c ∈ sightings, c.Countable) :
    Faded rules (shown idOf now sightings m) := by
  refine (hexact.shown_induction hall (fun c _ n s hexact h hs => ?_) h).2
  cases hs with
  | again _ _ _ =>
    -- A pattern that is still retired was tested with the confidence that is left.
    refine h.replace _ fun hretired => ?_
    rw [← hfloor, ← hexact.smoothing]
    exact (Store.isRetired_again.1 hretired).2
  | first _ =>
    exact h.insert fun hretired => absurd hretired Bool.false_ne_true

theorem Faded.noted (hrules : rules.Bounded) (hexact : Exact smoothing m) (h : Faded rules m)
    {e : Event} (hget : m.store.get? id = some p) : Faded rules (noted rules e m id p) := by
  refine Store.Every.replace h id ?_
  exact Learning.faded_noted hrules (hexact.patterns.of_get? hget).unit (h.of_get? hget)

/-- After a pass a pattern is retired exactly if it is at or below the floor. -/
theorem Faded.retired_iff (h : Faded rules m) (window : Int) (now : Timestamp) :
    ∀ entry ∈ (forgotten rules window now m).store.patterns,
      entry.2.isRetired = true ↔ entry.2.confidence ≤ rules.floor :=
  List.forall_mem_map.2 fun entry hentry => Learning.isRetired_forgotten_iff (h entry hentry)

theorem Faded.done (hrules : setup.rules.Bounded) (hfloor : smoothing.floor = setup.rules.floor)
    (hexact : Exact smoothing m) (h : Faded setup.rules m) (hdone : Done setup now m deed n) :
    Faded setup.rules n := by
  -- A pass decides by the confidence that it leaves, which is more than is asked here.
  have hpass : ∀ {m : Memory Rat}, Faded setup.rules m → ∀ window time,
      Faded setup.rules (forgotten setup.rules window time m) :=
    fun h window time entry hentry => (h.retired_iff window time entry hentry).1
  cases hdone with
  | analyze t => exact Faded.shown hfloor hexact h countable_of_sightings
  | analyzeBatch cancelAfter texts => exact Faded.shown hfloor hexact h countable_of_sightings
  | decay time _ => exact hpass h _ time
  | idle time _ => exact h
  | clear => exact Store.every_empty m.store.smoothing
  | feedback hanswered =>
    cases hanswered with
    | refused _ _ => exact h
    | judged htarget _ => exact Faded.noted hrules hexact h (target_eq_ok.1 htarget).2
    | modified htarget _ =>
      have hget := (target_eq_ok.1 htarget).2
      exact Faded.shown hfloor ((hexact.noted hrules hget).with_streak 0)
        (Faded.noted hrules hexact h hget) countable_of_sightings
    | ignored htarget _ _ => exact Faded.noted hrules hexact h (target_eq_ok.1 htarget).2
    | passed htarget _ _ _ =>
      exact hpass (Faded.noted hrules hexact h (target_eq_ok.1 htarget).2) _ _

/-! ### What retires -/

/-- Whatever is retired in the second memory was retired in the first one. -/
def Rests (m n : Memory Rat) : Prop :=
  ∀ id q, n.store.get? id = some q → q.isRetired = true →
    ∃ p, m.store.get? id = some p ∧ p.isRetired = true

theorem Rests.refl (m : Memory Rat) : Rests m m :=
  fun _ q hget hretired => ⟨q, hget, hretired⟩

theorem Rests.trans {k : Memory Rat} (h : Rests k m) (h' : Rests m n) : Rests k n := by
  intro id q hget hretired
  obtain ⟨p, hp, hbefore⟩ := h' id q hget hretired
  exact h id p hp hbefore

theorem rests_noted {e : Event} (hget : m.store.get? id = some p) :
    Rests m (noted rules e m id p) := by
  intro other q hother hretired
  rw [show (noted rules e m id p).store = m.store.replace id (rules.noted e p) from rfl,
    Store.get?_replace] at hother
  split at hother
  · rename_i hid
    cases hother
    rw [m.store.get?_congr hid] at hget
    exact ⟨p, hget, (Learning.isRetired_noted.1 hretired).1⟩
  · exact ⟨q, hother, hretired⟩

/-- No sighting retires anything. -/
theorem rests_shown (hexact : Exact smoothing m) {sightings : List Sighting}
    (hall : ∀ c ∈ sightings, c.Countable) : Rests m (shown idOf now sightings m) := by
  refine (hexact.shown_induction hall (fun c _ n s _ hrests hs => ?_) (Rests.refl m)).2
  refine hrests.trans fun other q hother hretired => ?_
  -- A sighting leaves a pattern alone, sees it again, or brings in a new one, which is live.
  rcases hs.cases hother with hsame | ⟨p, styles, hp, rfl⟩ | ⟨_, known, styles, rfl⟩
  · exact ⟨q, hsame, hretired⟩
  · exact ⟨p, hp, (Store.isRetired_again.1 hretired).1⟩
  · exact absurd hretired Bool.false_ne_true

/-- A deed that does not run a pass of forgetting retires nothing. -/
theorem rests_done (hrules : setup.rules.Bounded) (hexact : Exact smoothing m)
    (hdone : Done setup now m deed n) (hidle : ¬ deed.Passes setup m) : Rests m n := by
  cases hdone with
  | analyze t => exact rests_shown hexact countable_of_sightings
  | analyzeBatch cancelAfter texts => exact rests_shown hexact countable_of_sightings
  | decay time hwindow => exact absurd ⟨_, hwindow⟩ hidle
  | idle time _ => exact Rests.refl m
  | clear =>
    intro id q hget _
    simp [clear, empty, Store.empty, Store.get?, Table.get?] at hget
  | @feedback e _ hanswered =>
    cases hanswered with
    | refused _ _ => exact Rests.refl m
    | judged htarget _ => exact rests_noted (target_eq_ok.1 htarget).2
    | @modified id p htarget _ =>
      -- A modification is a reaction and then sightings.
      have hget := (target_eq_ok.1 htarget).2
      have hnoted : Rests m { noted setup.rules e m id p with streak := 0 } := rests_noted hget
      exact hnoted.trans
        (rests_shown ((hexact.noted hrules hget).with_streak 0) countable_of_sightings)
    | ignored htarget _ _ => exact rests_noted (target_eq_ok.1 htarget).2
    | passed htarget hignored hunborne hwindow =>
      exact absurd ⟨⟨_, _, htarget⟩, hignored, hunborne, _, hwindow⟩ hidle

/-! ### What revives -/

/-- A deed renews a pattern: it learns from a sighting of it, or it accepts it. -/
def Deed.Renews {ν : Type} (setup : Setup ν) (m : Memory ν) (id : Label) (p : Pattern ν)
    (deed : Deed) : Prop :=
  (∃ c ∈ deed.sightings setup m, (p.name == (c.language, c.signature)) = true) ∨
    ∃ e label, deed = .feedback e ∧ e.reaction = .accepted ∧
      e.patternId.toLabel = .ok label ∧ (label == id) = true

/-- What is known and not sighted stays as it is. -/
theorem shown_of_unseen (hexact : Exact smoothing m) {sightings : List Sighting}
    (hall : ∀ c ∈ sightings, c.Countable) (hget : m.store.get? id = some p)
    (hunseen : ∀ c ∈ sightings, (p.name == (c.language, c.signature)) = false) :
    (shown idOf now sightings m).store.get? id = some p := by
  refine (hexact.shown_induction (P := fun n => n.store.get? id = some p) hall
    (fun c hc n s _ hget hs => ?_) hget).2
  rcases hs.of_known hget with hsame | ⟨hseen, _⟩
  · exact hsame
  · rw [hunseen c hc] at hseen
    cases hseen

/-- However often a retired pattern is sighted, it is still retired or it is above the
floor. -/
theorem shown_of_retired (hbounded : smoothing.Bounded) (hexact : Exact smoothing m)
    {sightings : List Sighting} (hall : ∀ c ∈ sightings, c.Countable)
    (hget : m.store.get? id = some p) (hretired : p.isRetired = true)
    (hfaded : p.Faded smoothing.floor) :
    ∃ q, (shown idOf now sightings m).store.get? id = some q ∧
      (q.isRetired = true ∨ smoothing.floor < q.confidence) := by
  -- Above the floor the base score has to be above it too, for the next sighting.
  let Standing (q : Pattern Rat) : Prop :=
    q.isRetired = true ∧ q.confidence ≤ smoothing.floor ∨
      smoothing.floor < q.confidence ∧ smoothing.floor < smoothing.base
  suffices hkept : ∃ q, (shown idOf now sightings m).store.get? id = some q ∧ Standing q by
    obtain ⟨q, hq, hstanding⟩ := hkept
    exact ⟨q, hq, hstanding.imp And.left And.left⟩
  -- The induction is over the sightings, and each of them keeps `Standing`.
  refine (hexact.shown_induction (P := fun n => ∃ q, n.store.get? id = some q ∧ Standing q) hall
    (fun c _ n s hexact ⟨q, hq, hstanding⟩ hs => ?_)
    ⟨p, hget, .inl ⟨hretired, hfaded hretired⟩⟩).2
  rcases hs.of_known hq with hsame | ⟨_, styles, _, hagain⟩
  · exact ⟨q, hsame, hstanding⟩
  rw [hexact.smoothing] at hagain
  refine ⟨_, hagain, ?_⟩
  have hunit : UnitRat q.confidence := (hexact.patterns.of_get? hq).unit
  rcases hstanding with ⟨hretired, hbelow⟩ | ⟨habove, hbase⟩
  · by_cases hlifted : smoothing.floor < smoothing.pulled q.confidence
    · exact .inr ⟨hlifted, Smoothing.lt_base_of_pulled hbounded hunit hbelow hlifted⟩
    · exact .inl ⟨Store.isRetired_again.2 ⟨hretired, not_lt.1 hlifted⟩, not_lt.1 hlifted⟩
  · exact .inr ⟨Smoothing.lt_pulled hbounded hunit hbase habove, hbase⟩

/-- A reaction leaves a retired pattern under its name, and it is retired then too unless
it was accepted and lifted above the floor. -/
theorem noted_of_retired {e : Event} {known : Label} {r : Pattern Rat}
    (hknown : m.store.get? known = some r) (hget : m.store.get? id = some p)
    (hretired : p.isRetired = true) :
    ∃ q, (noted rules e m known r).store.get? id = some q ∧ q.name = p.name ∧
      (q.isRetired = true ∨
        ((known == id) = true ∧ e.reaction = .accepted ∧ rules.floor < q.confidence)) := by
  rw [show (noted rules e m known r).store = m.store.replace known (rules.noted e r) from rfl,
    Store.get?_replace]
  by_cases hid : (known == id) = true
  · rw [← m.store.get?_congr hid, hknown] at hget
    cases hget
    refine ⟨_, if_pos hid, rfl, ?_⟩
    by_cases hrevived : rules.floor < (rules.noted e p).confidence ∧ e.reaction = .accepted
    · exact .inr ⟨hid, hrevived.2, hrevived.1⟩
    · exact .inl (Learning.isRetired_noted.2 ⟨hretired, hrevived⟩)
  · rw [if_neg hid]
    exact ⟨p, hget, rfl, .inl hretired⟩

/-- So it is still retired after any other reaction. -/
theorem noted_of_unaccepted {e : Event} {known : Label} {r : Pattern Rat}
    (haccepted : e.reaction ≠ .accepted) (hknown : m.store.get? known = some r)
    (hget : m.store.get? id = some p) (hretired : p.isRetired = true) :
    ∃ q, (noted rules e m known r).store.get? id = some q ∧ q.name = p.name ∧
      q.isRetired = true := by
  obtain ⟨q, hq, hname, hstays | ⟨_, hreaction, _⟩⟩ :=
    noted_of_retired (e := e) hknown hget hretired
  · exact ⟨q, hq, hname, hstays⟩
  · exact absurd hreaction haccepted

theorem get?_forgotten (window : Int) (now : Timestamp) (id : Label) :
    (forgotten rules window now m).store.get? id
      = (m.store.get? id).map (rules.forgotten window now) :=
  Table.get?_map_values _ _ _

/-- If a retired pattern is live after several sightings, it was among what was sighted, and
is above the floor. -/
theorem sighted_of_live (hbounded : smoothing.Bounded) (hexact : Exact smoothing m)
    {sightings : List Sighting} (hall : ∀ c ∈ sightings, c.Countable)
    (hget : m.store.get? id = some p) (hretired : p.isRetired = true)
    (hfaded : p.Faded smoothing.floor)
    (hleft : (shown idOf now sightings m).store.get? id = some q) (hlive : q.isRetired = false) :
    (∃ c ∈ sightings, (p.name == (c.language, c.signature)) = true) ∧
      smoothing.floor < q.confidence := by
  constructor
  · -- If nothing had been seen of the pattern it would still be the retired one.
    by_contra hunseen
    have hstays : (shown idOf now sightings m).store.get? id = some p := by
      refine shown_of_unseen hexact hall hget fun c hc => ?_
      rw [Bool.eq_false_iff]
      exact fun hseen => hunseen ⟨c, hc, hseen⟩
    rw [hleft] at hstays
    cases hstays
    rw [hretired] at hlive
    cases hlive
  · obtain ⟨r, hr, hstanding⟩ := shown_of_retired hbounded hexact hall hget hretired hfaded
    rw [hleft] at hr
    cases hr
    exact hstanding.resolve_left (by simp [hlive])

/-- A retired pattern that is not retired after a deed was renewed by it, and is above
the floor. -/
theorem renews_of_done (hrules : setup.rules.Bounded) (hbounded : smoothing.Bounded)
    (hfloor : smoothing.floor = setup.rules.floor) (hexact : Exact smoothing m)
    (hfaded : Faded setup.rules m) (hdone : Done setup now m deed n)
    (hget : m.store.get? id = some p) (hretired : p.isRetired = true)
    (hleft : n.store.get? id = some q) (hlive : q.isRetired = false) :
    deed.Renews setup m id p ∧ setup.rules.floor < q.confidence := by
  have hbelow : p.Faded smoothing.floor := by
    rw [hfloor]
    exact hfaded.of_get? hget
  -- A pattern that is left retired is not the live one that is left.
  have hnot : ∀ {r : Pattern Rat}, n.store.get? id = some r → r.isRetired = true → False := by
    intro r hr hretired
    rw [hr] at hleft
    cases hleft
    rw [hretired] at hlive
    cases hlive
  cases hdone with
  | analyze t | analyzeBatch cancelAfter texts =>
    obtain ⟨hseen, habove⟩ :=
      sighted_of_live hbounded hexact countable_of_sightings hget hretired hbelow hleft hlive
    rw [hfloor] at habove
    exact ⟨.inl hseen, habove⟩
  | decay time hwindow =>
    refine (hnot ?_ hretired).elim
    rw [get?_forgotten, hget, Option.map_some, Learning.forgotten_of_retired hretired]
  | idle time _ => exact (hnot hget hretired).elim
  | clear => simp [clear, empty, Store.empty, Store.get?, Table.get?] at hleft
  | @feedback e _ hanswered =>
    cases hanswered with
    | refused _ _ => exact (hnot hget hretired).elim
    | @judged known r htarget _ =>
      obtain ⟨hlabel, hknown⟩ := target_eq_ok.1 htarget
      obtain ⟨q', hq', _, hstays | ⟨hid, haccepted, habove⟩⟩ :=
        noted_of_retired (e := e) hknown hget hretired
      · exact (hnot hq' hstays).elim
      · cases hq'.symm.trans hleft
        exact ⟨.inr ⟨e, known, rfl, haccepted, hlabel, hid⟩, habove⟩
    | @modified known r htarget hmodified =>
      -- The modification leaves the pattern retired under its name, so it was sighted then.
      have hknown := (target_eq_ok.1 htarget).2
      obtain ⟨q', hq', hname, hstays⟩ :=
        noted_of_unaccepted (e := e) (by simp [hmodified]) hknown hget hretired
      have hnoted : Exact smoothing { noted setup.rules e m known r with streak := 0 } :=
        (hexact.noted hrules hknown).with_streak 0
      have hbelow' : q'.Faded smoothing.floor := by
        rw [hfloor]
        exact (Faded.noted hrules hexact hfaded hknown).of_get? hq'
      obtain ⟨hseen, habove⟩ :=
        sighted_of_live hbounded hnoted countable_of_sightings hq' hstays hbelow' hleft hlive
      rw [hname] at hseen
      rw [hfloor] at habove
      exact ⟨.inl hseen, habove⟩
    | @ignored known r htarget hignored _ =>
      obtain ⟨q', hq', _, hstays⟩ := noted_of_unaccepted (e := e) (by simp [hignored])
        (target_eq_ok.1 htarget).2 hget hretired
      exact (hnot hq' hstays).elim
    | @passed known r window htarget hignored _ hwindow =>
      obtain ⟨q', hq', _, hstays⟩ := noted_of_unaccepted (e := e) (by simp [hignored])
        (target_eq_ok.1 htarget).2 hget hretired
      refine (hnot ?_ hstays).elim
      show (forgotten setup.rules window e.timestamp _).store.get? id = some q'
      rw [get?_forgotten, hq', Option.map_some, Learning.forgotten_of_retired hstays]

/-! ### Runs -/

/-- Right after a deed that runs a pass, a pattern is retired exactly if it is at or below
the floor. -/
theorem retired_iff_of_passes (hrules : setup.rules.Bounded) (hexact : Exact smoothing m)
    (hfaded : Faded setup.rules m) (hdone : Done setup now m deed n)
    (hpasses : deed.Passes setup m) :
    ∀ entry ∈ n.store.patterns,
      entry.2.isRetired = true ↔ entry.2.confidence ≤ setup.rules.floor := by
  cases hdone with
  | analyze t => exact hpasses.elim
  | analyzeBatch cancelAfter texts => exact hpasses.elim
  | decay time _ => exact hfaded.retired_iff _ time
  | idle time hidle => exact absurd hpasses hidle
  | clear => exact hpasses.elim
  | @feedback e _ hanswered =>
    have hignored : e.reaction = .ignored := hpasses.2.1
    cases hanswered with
    | refused hidle _ => exact absurd hpasses hidle
    | judged _ hjudged => simp [hignored] at hjudged
    | modified _ hmodified => simp [hignored] at hmodified
    | ignored _ _ hidle => exact absurd hpasses hidle
    | passed htarget _ _ _ =>
      exact (Faded.noted hrules hexact hfaded (target_eq_ok.1 htarget).2).retired_iff _ _

/-- Whatever is done, without snapshots, to a memory that began with nothing learned,
under rules that an accepted configuration gives: every retired pattern is at or below the
floor. After one more deed, if it runs a pass, then a pattern is retired exactly if it is
at or below the floor. If it does not, then nothing is retired that was not retired
before. And a retired pattern is live after it exactly if the deed renews it and leaves it
above the floor. -/
theorem retired_iff_faded {intake : Intake Rat} {c : Config} (hvalid : c.validate = .ok ())
    (hrules : c.rules.ReadsAs setup.rules) (hsmoothing : c.smoothing.ReadsAs smoothing)
    {deeds : List (Timestamp × Deed)} (hown : ∀ done ∈ deeds, done.2.IsOwn) :
    let m := runFrom intake setup (empty smoothing) deeds
    let floor := setup.rules.floor
    (∀ entry ∈ m.store.patterns, entry.2.isRetired = true → entry.2.confidence ≤ floor) ∧
      ∀ now deed, deed.IsOwn →
        let n := ((perform intake setup now deed).outcome m).2
        (deed.Passes setup m →
          ∀ entry ∈ n.store.patterns, entry.2.isRetired = true ↔ entry.2.confidence ≤ floor) ∧
        (∀ id q, n.store.get? id = some q → q.isRetired = true →
          deed.Passes setup m ∨ ∃ p, m.store.get? id = some p ∧ p.isRetired = true) ∧
        ∀ id p q, m.store.get? id = some p → p.isRetired = true → n.store.get? id = some q →
          (q.isRetired = false ↔ deed.Renews setup m id p ∧ floor < q.confidence) := by
  have hbounded := hrules.bounded hvalid
  have hfloor := hsmoothing.floor_eq hrules hvalid
  obtain ⟨hexact, hfaded⟩ := runFrom_own (P := Faded setup.rules) hbounded
    (fun now deed m n hexact hfaded hdone => hfaded.done hbounded hfloor hexact hdone)
    hown (exact_empty smoothing) (Store.every_empty smoothing)
  refine ⟨hfaded, fun now deed hdeed => ?_⟩
  have hdone := done_perform intake hexact hbounded now hdeed
  refine ⟨retired_iff_of_passes hbounded hexact hfaded hdone, fun id q hq hretired => ?_,
    fun id p q hp hretired hq => ⟨fun hlive => ?_, fun ⟨_, habove⟩ => ?_⟩⟩
  · exact or_iff_not_imp_left.2 fun hidle => rests_done hbounded hexact hdone hidle id q hq hretired
  · exact renews_of_done hbounded (hsmoothing.bounded hvalid) hfloor hexact hfaded hdone hp
      hretired hq hlive
  · -- A retired pattern is not above the floor, after this deed as after any.
    rw [Bool.eq_false_iff]
    intro hretired
    exact not_lt.2 ((hfaded.done hbounded hfloor hexact hdone).of_get? hq hretired) habove

/-- A pattern is rejected five times and is then retired by a pass. Accepting it once
revives it. -/
theorem retired_iff_faded_of_rejections :
    let intake : Intake Rat := .exact ⟨0, 0, 0⟩
    let floor := defaultsForGo.rules.floor
    let m := runFrom intake defaultsForGo (empty Config.default.smoothing.exactly)
      (importSeen :: List.replicate 5 (reactionToP .rejected) ++ [(⟨0, 0⟩, .decay ⟨0, 0⟩)])
    let n := ((perform intake defaultsForGo ⟨0, 0⟩ (reactionToP .accepted).2).outcome m).2
    ∃ p q, m.store.get? (.text "p") = some p ∧ n.store.get? (.text "p") = some q ∧
      p.isRetired = true ∧ p.confidence ≤ floor ∧ q.isRetired = false ∧ floor < q.confidence := by
  intro intake floor m n
  have hvalid : Config.default.validate = .ok () := Except.eq_ok_unit (by decide +kernel)
  obtain ⟨p, hp, hretired⟩ : ∃ p, m.store.get? (.text "p") = some p ∧ p.isRetired = true :=
    (Option.any_eq_true _ _).1 (by decide +kernel)
  obtain ⟨q, hq, hlive⟩ : ∃ q, n.store.get? (.text "p") = some q ∧ (!q.isRetired) = true :=
    (Option.any_eq_true _ _).1 (by decide +kernel)
  have hlive : q.isRetired = false := by simpa using hlive
  have hown : ∀ done ∈ importSeen :: List.replicate 5 (reactionToP .rejected) ++
      [(⟨0, 0⟩, .decay ⟨0, 0⟩)], done.2.IsOwn := by
    simp [Deed.IsOwn, importSeen, reactionToP]
  obtain ⟨hfaded, hstep⟩ := @retired_iff_faded _ defaultsForGo intake _ hvalid
    (Learning.readsAs_exactly _) (Smoothing.readsAs_exactly _) _ hown
  obtain ⟨_, _, hrevived⟩ := hstep ⟨0, 0⟩ (reactionToP .accepted).2 trivial
  have hbelow : p.confidence ≤ floor :=
    Store.Every.of_get? (P := Pattern.Faded floor) hfaded hp hretired
  exact ⟨p, q, hp, hq, hretired, hbelow, hlive, ((hrevived _ p q hp hretired hq).1 hlive).2⟩

end Memory

end CodeHabits
