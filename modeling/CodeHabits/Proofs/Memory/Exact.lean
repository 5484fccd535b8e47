import CodeHabits.Proofs.Learning.Exact
import CodeHabits.Proofs.Memory.Ready
import CodeHabits.Proofs.Preferences.Weights
import CodeHabits.Proofs.Store.Invariants
import CodeHabits.Proofs.Store.Ready
import CodeHabits.Proofs.Store.Telling
import Mathlib.Data.List.TakeWhile

/-!
# `CodeHabits.Proofs.Memory.Exact`: learning in exact numbers

`Memory.Exact` is the invariant of memories that have learned by themselves, without
snapshots, in rational numbers. From such a memory every step of learning can be written
out, and it leaves such a memory again. Sightings leave what they leave one after the other
(`shown`). A reaction is `noted` in the pattern and in the preferences. A pass of forgetting
changes every pattern by one function (`forgotten`), unless the recency window cannot be
reckoned with, and then it changes nothing.
-/

set_option autoImplicit false

/-!
## Sightings

A store of which the maps agree and the counts are whole learns from every sighting that
can be counted. With rational numbers it can be written down what it then holds. A
pattern that is recognised is sighted again in its place (`again`), and any other one is
taken in under an id that was free (`first`). `Sighted` names these two cases, and
`exists_upsert` says that there are no others. What becomes of the counts of styles is
left open, apart from that they stay whole.
-/

namespace CodeHabits.Store

open Time (Timestamp)

section

variable {ν : Type}

/-- The style of a sighting that can be counted is added to whole counts. -/
theorem exists_countStyle {p : Pattern ν} (hp : p.styles.Whole) {c : Sighting}
    (hc : c.Countable) : ∃ styles : Tallies, styles.Whole ∧
      (countStyle c).outcome p = (.ok (), { p with styles }) := by
  obtain ⟨_, styles, hrun, hstyles⟩ := Tallies.gives_tally hc p.styles hp
  refine ⟨styles, hstyles, ?_⟩
  rw [countStyle, Change.outcome_within, hrun]

end

variable {m : Smoothing Rat} {now : Timestamp} {c : Sighting} {s : Store Rat} {p : Pattern Rat}

/-- A pattern after a further sighting. -/
def again (m : Smoothing Rat) (now : Timestamp) (c : Sighting) (styles : Tallies)
    (p : Pattern Rat) : Pattern Rat :=
  { p with
    frequency := p.frequency + 1
    sourceFiles := Pattern.addSource p.sourceFiles c.sourceFile
    confidence := m.pulled p.confidence
    styles
    lastSeen := now
    lastTouched := now
    retired :=
      if p.isRetired && decide (m.floor < m.pulled p.confidence) then .bool false
      else p.retired }

theorem exists_seeAgain (hp : p.styles.Whole) (hc : c.Countable) :
    ∃ styles : Tallies, styles.Whole ∧
      (seeAgain m now c).outcome p = (.ok (), again m now c styles p) := by
  -- The style is counted when the frequency, the file and the confidence are changed already.
  let moved : Pattern Rat :=
    { p with
      frequency := p.frequency + 1
      sourceFiles := Pattern.addSource p.sourceFiles c.sourceFile
      confidence := m.pulled p.confidence }
  obtain ⟨styles, hstyles, hcount⟩ := exists_countStyle (p := moved) hp hc
  refine ⟨styles, hstyles, ?_⟩
  unfold seeAgain
  rw [Change.outcome_bind_get]
  show (Change.ofExcept (.ok (p.frequency + 1)) >>= fun _ => _ : Change (Pattern Rat) Unit).outcome
    p = _
  rw [Change.outcome_bind_ofExcept_ok, Change.outcome_bind, Change.outcome_modify]
  dsimp only
  rw [Change.outcome_bind_get]
  dsimp only
  rw [Smoothing.toward_rat, Change.outcome_bind_ofExcept_ok, Change.outcome_bind,
    Change.outcome_modify]
  dsimp only
  rw [Change.outcome_bind, hcount]
  dsimp only
  rw [Change.outcome_bind, Change.outcome_modify]
  exact outcome_revive id _

/-- A pattern at its first sighting. -/
def first (m : Smoothing Rat) (id : Label) (now : Timestamp) (c : Sighting) (styles : Tallies) :
    Pattern Rat where
  id
  language := c.language
  signature := c.signature
  kind := c.kind
  confidence := min 1 (max 0 m.base)
  frequency := 1
  firstSeen := now
  lastSeen := now
  lastTouched := now
  sourceFiles := [c.sourceFile]
  feedback := []
  styles
  sample := c.sample
  retired := .bool false

theorem firstSighting_rat (m : Smoothing Rat) (id : Label) (now : Timestamp) (c : Sighting) :
    firstSighting m id now c = .ok (first m id now c []) := by
  unfold firstSighting
  rw [clampConfidence_rat]
  rfl

/-- What a store is like after a sighting. -/
inductive Sighted (idOf : IdScheme) (now : Timestamp) (c : Sighting) (s : Store Rat) :
    Store Rat → Prop
  | again {id : Label} {p : Pattern Rat} {styles : Tallies} (hget : s.get? id = some p)
      (hname : (p.name == (c.language, c.signature)) = true) (hwhole : styles.Whole) :
      Sighted idOf now c s (s.replace id (Store.again s.smoothing now c styles p))
  | first {styles : Tallies} (hwhole : styles.Whole) :
      Sighted idOf now c s
        (s.insert
          (Store.first s.smoothing (.text (s.freeId (idOf c.language c.signature))) now c styles))

/-- A sighting that can be counted is learned, in one of the two ways. -/
theorem exists_upsert (idOf : IdScheme) (now : Timestamp) (hcoherent : s.Coherent)
    (hwhole : s.Every fun p => p.styles.Whole) (hc : c.Countable) :
    ∃ id t, (upsert idOf now c).outcome s = (.ok id, t) ∧ Sighted idOf now c s t := by
  unfold upsert
  rw [Change.outcome_bind_get]
  cases hlookup : s.lookup? c.language c.signature with
  | some id =>
    -- In a coherent store what is recognised is found, so the sighting has a pattern to go to.
    obtain ⟨entry, hmem, rfl, hname⟩ := hcoherent.lookup?_some hlookup
    have hget := hcoherent.get?_of_mem hmem
    obtain ⟨styles, hstyles, hagain⟩ :=
      exists_seeAgain (m := s.smoothing) (hwhole entry hmem) hc
    refine ⟨entry.2.id, _, ?_, .again hget hname hstyles⟩
    dsimp only
    rw [Change.outcome_bind, alter, Change.outcome_bind_get, hget]
    dsimp only
    rw [Change.outcome_within, hagain]
    rfl
  | none =>
    let id : Label := .text (s.freeId (idOf c.language c.signature))
    have hnone : (first s.smoothing id now c []).styles.Whole := by
      simp [first, Tallies.Whole]
    obtain ⟨styles, hstyles, hcount⟩ := exists_countStyle hnone hc
    refine ⟨id, _, ?_, .first hstyles⟩
    dsimp only
    rw [firstSighting_rat, Change.outcome_bind_ofExcept_ok, hcount]
    rfl

/-! ### Looking up after a sighting -/

variable {idOf : IdScheme} {t : Store Rat} {id : Label} {q : Pattern Rat}

/-- What is known stays known: it is sighted again or stays as it is. -/
theorem Sighted.of_known (h : Sighted idOf now c s t) (hget : s.get? id = some p) :
    t.get? id = some p ∨ (p.name == (c.language, c.signature)) = true ∧
      ∃ styles : Tallies, styles.Whole ∧
        t.get? id = some (Store.again s.smoothing now c styles p) := by
  cases h with
  | @again known r styles hknown hname hwhole =>
    rw [get?_replace]
    by_cases hid : (known == id) = true
    · have hsame : s.get? known = s.get? id := s.get?_congr hid
      rw [hknown, hget] at hsame
      cases hsame
      rw [if_pos hid]
      exact .inr ⟨hname, styles, hwhole, rfl⟩
    · rw [if_neg hid]
      exact .inl hget
  | @first styles hwhole =>
    -- The new pattern has an id that was free, so it is another one.
    exact .inl (get?_insert_of_free (get?_freeId s _) hget)

/-- What is known after a sighting was known before, or is new and of its first sighting. -/
theorem Sighted.cases (h : Sighted idOf now c s t) (hget : t.get? id = some q) :
    s.get? id = some q ∨
      (∃ p styles, s.get? id = some p ∧ q = Store.again s.smoothing now c styles p) ∨
      s.get? id = none ∧ ∃ known styles, q = Store.first s.smoothing known now c styles := by
  cases hbefore : s.get? id with
  | some p =>
    rcases h.of_known hbefore with hsame | ⟨_, styles, _, hagain⟩
    · rw [hsame] at hget
      exact .inl hget
    · rw [hagain] at hget
      exact .inr (.inl ⟨p, styles, rfl, (Option.some.inj hget).symm⟩)
  | none =>
    -- A further sighting adds no id, so a pattern under one that was free came in at its first.
    refine .inr (.inr ⟨rfl, ?_⟩)
    cases h with
    | @again known r styles hknown _ _ =>
      rw [get?_replace] at hget
      split at hget
      · rename_i hid
        rw [← s.get?_congr hid, hknown] at hbefore
        cases hbefore
      · rw [hbefore] at hget
        cases hget
    | @first styles hwhole =>
      rw [get?_insert] at hget
      split at hget
      · exact ⟨_, styles, (Option.some.inj hget).symm⟩
      · rw [hbefore] at hget
        cases hget

end CodeHabits.Store

/-! ## Memories -/

namespace CodeHabits

open Time (Timestamp)

/-- A pattern as it is learned in exact numbers. -/
structure Pattern.Exact (p : Pattern Rat) : Prop where
  id : p.id.IsText
  whole : p.styles.Whole
  unit : p.InUnit

namespace Memory

/-- A memory that has learned by itself in exact numbers. -/
structure Exact (smoothing : Smoothing Rat) (m : Memory Rat) : Prop where
  coherent : m.store.Coherent
  smoothing : m.store.smoothing = smoothing
  patterns : m.store.Every Pattern.Exact

variable {smoothing : Smoothing Rat} {setup : Setup Rat} {rules : Learning Rat} {m : Memory Rat}
  {now : Timestamp} {e : Event} {id : Label} {p : Pattern Rat}

theorem exact_empty (smoothing : Smoothing Rat) : Exact smoothing (empty smoothing) where
  coherent := coherent_empty smoothing
  smoothing := rfl
  patterns := Store.every_empty smoothing

theorem Exact.with_streak (h : Exact smoothing m) (n : Nat) :
    Exact smoothing { m with streak := n } :=
  ⟨h.coherent, h.smoothing, h.patterns⟩

/-- What is written into a pattern in its place leaves the memory exact. -/
theorem Exact.replace (h : Exact smoothing m) {q : Pattern Rat} (hget : m.store.get? id = some p)
    (hsame : q.Is p.id p.name) (hwhole : q.styles.Whole) (hunit : q.InUnit) :
    Exact smoothing { m with store := m.store.replace id q } where
  coherent := h.coherent.congr (Store.outline_replace hget hsame) rfl
  smoothing := h.smoothing
  patterns := by
    refine h.patterns.replace id ⟨?_, hwhole, hunit⟩
    rw [hsame.1]
    exact (h.patterns.of_get? hget).id

/-! ### Sightings -/

/-- The store after a sighting is one of the two that it may leave. -/
theorem Exact.exists_learn (h : Exact smoothing m) (idOf : IdScheme) (now : Timestamp)
    {c : Sighting} (hc : c.Countable) :
    ∃ id s, (learn idOf now c).outcome m = (.ok id, { m with store := s }) ∧
      Store.Sighted idOf now c m.store s := by
  have hwhole : m.store.Every fun p => p.styles.Whole :=
    fun entry hentry => (h.patterns entry hentry).whole
  obtain ⟨id, s, hrun, hs⟩ := Store.exists_upsert idOf now h.coherent hwhole hc
  refine ⟨id, s, ?_, hs⟩
  rw [learn, inStore, Change.outcome_within, hrun]

theorem gives_learn_rat (idOf : IdScheme) (now : Timestamp) {c : Sighting} (hc : c.Countable) :
    Change.Gives (Exact smoothing) (learn idOf now c) fun _ => Exact smoothing := by
  intro m h
  obtain ⟨id, s, hrun, hs⟩ := h.exists_learn idOf now hc
  have hcoherent : s.Coherent := (coherent_learn idOf now c).of_outcome hrun h.coherent
  refine ⟨id, _, hrun, hcoherent, ?_, ?_⟩
  · cases hs <;> exact h.smoothing
  · -- A known pattern moves towards one, and a new one starts at the base.
    cases hs with
    | again hget _ hwhole =>
      have hp := h.patterns.of_get? hget
      exact h.patterns.replace _ ⟨hp.id, hwhole, Smoothing.unitRat_pulled _ _⟩
    | first hwhole =>
      have hbase : UnitRat (min 1 (max 0 m.store.smoothing.base)) :=
        unitRat_of_clampConfidence (clampConfidence_rat _)
      exact h.patterns.insert ⟨⟨_, rfl⟩, hwhole, hbase⟩

/-- The memory after several sightings. -/
def shown (idOf : IdScheme) (now : Timestamp) (sightings : List Sighting) (m : Memory Rat) :
    Memory Rat :=
  sightings.foldl (fun m c => ((learn idOf now c).outcome m).2) m

theorem shown_append (idOf : IdScheme) (now : Timestamp) (sightings others : List Sighting)
    (m : Memory Rat) :
    shown idOf now (sightings ++ others) m = shown idOf now others (shown idOf now sightings m) :=
  List.foldl_append

/-- What each sighting keeps, several keep. -/
theorem shown_keeps {P : Memory Rat → Prop} {idOf : IdScheme} {sightings : List Sighting}
    (h : ∀ c ∈ sightings, Change.Keeps P (learn idOf now c)) (hm : P m) :
    P (shown idOf now sightings m) := by
  induction sightings generalizing m with
  | nil => exact hm
  | cons c rest ih => exact ih (fun other hother => h other (by simp [hother])) (h c (by simp) m hm)

/-- What a sighting keeps in an exact memory, whatever of the two it does to the store,
several sightings keep. They also leave the memory exact. -/
theorem Exact.shown_induction {P : Memory Rat → Prop} (h : Exact smoothing m) {idOf : IdScheme}
    {sightings : List Sighting} (hall : ∀ c ∈ sightings, c.Countable)
    (hstep : ∀ c ∈ sightings, ∀ n s, Exact smoothing n → P n →
      Store.Sighted idOf now c n.store s → P { n with store := s }) (hm : P m) :
    Exact smoothing (shown idOf now sightings m) ∧ P (shown idOf now sightings m) := by
  -- The two are shown together, since a sighting is only known to complete in an exact memory.
  refine shown_keeps (P := fun n => Exact smoothing n ∧ P n) (fun c hc n ⟨hexact, hn⟩ => ?_) ⟨h, hm⟩
  obtain ⟨id, s, hrun, hs⟩ := hexact.exists_learn idOf now (hall c hc)
  obtain ⟨_, _, hagain, hleft⟩ := gives_learn_rat idOf now (hall c hc) n hexact
  rw [hrun] at hagain ⊢
  cases hagain
  exact ⟨hleft, hstep c hc n s hexact hn hs⟩

theorem Exact.shown (h : Exact smoothing m) {idOf : IdScheme} {sightings : List Sighting}
    (hall : ∀ c ∈ sightings, c.Countable) : Exact smoothing (shown idOf now sightings m) :=
  (h.shown_induction (P := fun _ => True) hall (fun _ _ _ _ _ _ _ => trivial) trivial).1

theorem left_learnAll (h : Exact smoothing m) {idOf : IdScheme} {sightings : List Sighting}
    (hall : ∀ c ∈ sightings, c.Countable) :
    ((learnAll idOf now sightings).outcome m).2 = Memory.shown idOf now sightings m := by
  obtain ⟨_, hrun⟩ :=
    Change.exists_mapM_outcome (fun c hc => gives_learn_rat idOf now (hall c hc)) h
  rw [learnAll, hrun]
  rfl

/-! ### Reactions -/

/-- The memory with a reaction to a pattern in it. -/
def noted (rules : Learning Rat) (e : Event) (m : Memory Rat) (id : Label) (p : Pattern Rat) :
    Memory Rat :=
  { m with
    store := m.store.replace id (rules.noted e p)
    preferences := rules.swayed e.reaction id (rules.noted e p) m.preferences }

theorem outcome_takeIn_rat (hrules : rules.Bounded) (hget : m.store.get? id = some p)
    (hp : p.InUnit) : (takeIn rules id e).outcome m = (.ok (), noted rules e m id p) := by
  rw [takeIn, inStore, Change.outcome_bind, Change.outcome_within,
    Learning.outcome_edit_rat hrules hp hget]
  dsimp only
  rw [inPreferences, Change.outcome_within, Learning.outcome_prefer_rat]
  rfl

theorem Exact.noted (h : Exact smoothing m) (hrules : rules.Bounded)
    (hget : m.store.get? id = some p) : Exact smoothing (noted rules e m id p) := by
  have hp := h.patterns.of_get? hget
  have hreplaced := h.replace (q := rules.noted e p) hget ⟨rfl, rfl⟩ hp.whole
    (Learning.unitRat_reckoned hrules e.reaction hp.unit)
  exact ⟨hreplaced.coherent, hreplaced.smoothing, hreplaced.patterns⟩

/-! ### Forgetting -/

/-- The memory after a pass of forgetting. -/
def forgotten (rules : Learning Rat) (window : Int) (now : Timestamp) (m : Memory Rat) :
    Memory Rat :=
  { m with
    store :=
      { m.store with
        patterns :=
          m.store.patterns.map fun entry => (entry.1, rules.forgotten window now entry.2) } }

/-- The report of a pass of forgetting over patterns in the order of their ids. -/
def reported (rules : Learning Rat) (window : Int) (now : Timestamp) (ps : List (Pattern Rat)) :
    DecayReport :=
  let live := ps.filter fun p => !p.isRetired
  { examined := live.length
    decayed :=
      (live.filter fun p => decide (window < now.instant - p.lastTouched.instant ∧
        rules.floor < p.confidence)).length
    retiredIds := ((live.map (rules.forgotten window now)).filter Pattern.isRetired).map (·.id) }

/-- Every pattern that is not retired is among those that a pass goes over. -/
theorem forgetEach_rat (hkeyed : m.store.Keyed) {window : Int} {live : List (Pattern Rat)}
    (hlive : ∀ entry ∈ m.store.patterns, entry.2.isRetired = false → entry.2 ∈ live) :
    forgetEach rules window now live m.store.patterns
      = m.store.patterns.map fun entry => (entry.1, rules.forgotten window now entry.2) := by
  refine List.map_congr_left fun entry hentry => ?_
  rw [Learning.forget_rat]
  by_cases hretired : entry.2.isRetired = true
  · -- A retired pattern stays as it is, whether it is gone over or not.
    have hsame : rules.forgotten window now entry.2 = entry.2 := by
      rw [Learning.forgotten, if_pos hretired]
    rw [hsame]
    split <;> rfl
  · -- The pass looks for what patterns are kept under, and that is their id.
    have hmem := hlive entry hentry (by simpa using hretired)
    have hany : (live.any fun p => p.id == entry.1) = true := by
      refine List.any_eq_true.2 ⟨entry.2, hmem, ?_⟩
      rw [hkeyed entry hentry]
      exact BEq.rfl
    rw [if_pos hany]
    rfl

/-- A pass completes if there is an order to go in. -/
theorem outcome_decay_rat (hkeyed : m.store.Keyed) {ps : List (Pattern Rat)}
    (horder : m.store.inOrder = .ok ps) {window : Int} (hwindow : rules.window = .ok window) :
    (decay rules now).outcome m
      = (.ok (reported rules window now ps), forgotten rules window now m) := by
  let live := ps.filter fun p => !p.isRetired
  -- Rational numbers never fail to fade, so the pass reaches every live pattern.
  have hreached : reached rules window now live = live := by
    refine List.takeWhile_eq_self_iff.2 fun p _ => ?_
    rw [Learning.forget_rat]
    rfl
  have hmem : ∀ entry ∈ m.store.patterns, entry.2.isRetired = false → entry.2 ∈ live := by
    intro entry hentry hretired
    have hlisted : entry.2 ∈ m.store.patterns.map (·.2) := List.mem_map_of_mem hentry
    refine List.mem_filter.2 ⟨(Store.perm_of_inOrder horder).mem_iff.2 hlisted, ?_⟩
    rw [hretired]
    rfl
  have hafter : live.mapM (rules.forget window now) = .ok (live.map (rules.forgotten window now)) :=
    Except.mapM_ok fun p _ => Learning.forget_rat rules window now p
  have hfading := Except.filterM_eq_filter fun p (_ : p ∈ live) =>
    Learning.fades_rat rules window now p
  -- What is left to do is to run the pass, one line of `decay` after the other.
  unfold decay
  rw [hwindow, Change.outcome_bind_ofExcept_ok, Change.outcome_bind_get, horder,
    Change.outcome_bind_ofExcept_ok, Change.outcome_bind, Change.outcome_modify]
  show (Change.ofExcept (live.mapM _) >>= fun _ => _ : Change (Memory Rat) DecayReport).outcome
    { m with
      store :=
        { m.store with
          patterns :=
            forgetEach rules window now (reached rules window now live) m.store.patterns } } = _
  rw [hreached, forgetEach_rat hkeyed hmem, hafter, Change.outcome_bind_ofExcept_ok]
  show (Change.ofExcept (live.filterM _) >>= fun _ => _
    : Change (Memory Rat) DecayReport).outcome (forgotten rules window now m) = _
  rw [hfading, Change.outcome_bind_ofExcept_ok]
  rfl

/-- Ids are texts in what was learned exactly, so a pass has an order to go in. -/
theorem exists_decay (h : Exact smoothing m) {window : Int} (hwindow : rules.window = .ok window) :
    ∃ report, (decay rules now).outcome m = (.ok report, forgotten rules window now m) := by
  obtain ⟨ps, horder, _⟩ := Store.exists_ascending h.coherent.keyed
    fun entry hentry => (h.patterns entry hentry).id
  exact ⟨_, outcome_decay_rat h.coherent.keyed horder hwindow⟩

theorem outcome_decay_of_error {fault : Fault} (hwindow : rules.window = .error fault) :
    (decay rules now).outcome m = (.error fault, m) := by
  unfold decay
  rw [hwindow, Change.outcome_bind_ofExcept_error]

/-- A pass keeps ids, names and counts, and within the bounds it keeps confidences in the
unit interval. -/
theorem Exact.forgotten (h : Exact smoothing m) (hrules : rules.Bounded) (window : Int)
    (now : Timestamp) : Exact smoothing (forgotten rules window now m) where
  coherent := by
    refine h.coherent.congr ?_ rfl
    rw [Store.outline, Store.outline, Memory.forgotten, List.map_map]
    refine List.map_congr_left fun entry _ => ?_
    obtain ⟨hid, hname⟩ := Learning.is_forget (Learning.forget_rat rules window now entry.2)
    show (entry.1, (rules.forgotten window now entry.2).id,
      (rules.forgotten window now entry.2).name) = _
    rw [hid, hname]
  smoothing := h.smoothing
  patterns := by
    refine List.forall_mem_map.2 fun entry hentry => ?_
    have hp := h.patterns entry hentry
    have hforget := Learning.forget_rat rules window now entry.2
    obtain ⟨hid, _⟩ := Learning.is_forget hforget
    obtain ⟨confidence, retired, hq, _⟩ := Learning.forget_cases hforget
    refine ⟨?_, ?_, Learning.inUnit_forget hrules.decayFactor hrules.floor hp.unit hforget⟩
    · rw [hid]
      exact hp.id
    · rw [hq]
      exact hp.whole

end Memory

end CodeHabits
