import CodeHabits.Proofs.FrontEnd
import CodeHabits.Proofs.Learning.Usable
import CodeHabits.Proofs.Pattern.Keeping
import CodeHabits.Proofs.Pattern.Settled

/-!
# `CodeHabits.Proofs.Pattern.Measured`: patterns that can be learned from

Whatever is taken in from a snapshot, the confidence of a pattern is a floating-point
number from zero to one and its frequency is a whole number. Such a pattern is measured.
Everything that changes patterns keeps this, and usable rules do not fail at such a pattern.
`Learning.logged` is what an edit leaves of a pattern when a reaction is taken in.

A document may give anything for how often a style was seen, and then the next sighting
of the pattern fails half way. What was learned from source texts is different: all
counts are whole numbers. Such a pattern is counted, and everything that changes
patterns keeps it so.

A measured and counted pattern can be sighted again under usable smoothing, and nothing
fails on the way (`gives_seeAgain`). The same goes for a first sighting
(`exists_firstSighting`) and for what another store knows (`gives_gain`).
-/

set_option autoImplicit false

/-! ## Measured patterns -/

namespace CodeHabits

open Binary64 (InUnit)
open Time (Timestamp)

namespace Pattern

/-- The confidence and the frequency are numbers of the right kind. -/
structure Measured (p : Pattern Value) : Prop where
  confidence : ∃ x, p.confidence = .real x ∧ InUnit x
  frequency : ∃ n, p.frequency = .int n

theorem Settled.measured {p : Pattern Value} (h : p.Settled) : p.Measured :=
  ⟨h.confidence, h.frequency⟩

theorem Measured.numbers {p : Pattern Value} (h : p.Measured) :
    p.confidence.number?.isSome ∧ p.frequency.number?.isSome := by
  obtain ⟨x, hx, _⟩ := h.confidence
  obtain ⟨n, hn⟩ := h.frequency
  rw [hx, hn]
  exact ⟨rfl, rfl⟩

end Pattern

namespace Store

open Pattern (Measured)

variable {now : Timestamp}

/-! ### Sightings -/

theorem measured_countStyle (c : Sighting) : Change.Keeps Measured (countStyle c) := by
  intro p h
  rw [countStyle, Change.outcome_within]
  exact ⟨h.confidence, h.frequency⟩

theorem measured_firstSighting {m : Smoothing Value} {id : Label} {c : Sighting}
    {p : Pattern Value} (h : firstSighting m id now c = .ok p) : p.Measured := by
  obtain ⟨confidence, hconfidence, h⟩ := Except.bind_eq_ok.1 h
  cases h
  exact ⟨real_of_clampConfidence hconfidence, 1, rfl⟩

theorem measured_seeAgain (m : Smoothing Value) (c : Sighting) :
    Change.Keeps Measured (seeAgain m now c) := by
  unfold seeAgain
  refine Change.keeps_bind_get fun p hp => ?_
  refine (?_ : Change.Keeps Measured _) p hp
  refine Change.keeps_bind_ofExcept fun frequency hfrequency => ?_
  have hwhole := frequency_add hp.frequency ⟨1, rfl⟩ hfrequency
  refine Change.keeps_bind (Change.keeps_modify fun q hq => ⟨hq.confidence, hwhole⟩) fun _ => ?_
  refine Change.keeps_bind Change.keeps_get fun _ => ?_
  refine Change.keeps_bind_ofExcept fun confidence hconfidence => ?_
  obtain ⟨pulled, _, hconfidence⟩ := Except.bind_eq_ok.1 hconfidence
  obtain ⟨rest, _, hconfidence⟩ := Except.bind_eq_ok.1 hconfidence
  obtain ⟨kept, _, hconfidence⟩ := Except.bind_eq_ok.1 hconfidence
  obtain ⟨sum, _, hconfidence⟩ := Except.bind_eq_ok.1 hconfidence
  have hreal := real_of_clampConfidence hconfidence
  refine Change.keeps_bind (Change.keeps_modify fun q hq => ⟨hreal, hq.frequency⟩) fun _ => ?_
  refine Change.keeps_bind (measured_countStyle c) fun _ => ?_
  refine Change.keeps_bind
    (Change.keeps_modify fun q hq => ⟨hq.confidence, hq.frequency⟩) fun _ => ?_
  refine Change.keeps_bind Change.keeps_get fun _ => ?_
  split
  · refine Change.keeps_bind (Change.keeps_ofExcept _) fun _ => ?_
    split
    · exact Change.keeps_modify fun q hq => ⟨hq.confidence, hq.frequency⟩
    · exact Change.keeps_pure _
  · exact Change.keeps_pure _

theorem measured_gain {other : Pattern Value} (hother : other.Measured) :
    Change.Keeps Measured (gain other) := by
  unfold gain
  refine Change.keeps_bind_get fun p hp => ?_
  refine (?_ : Change.Keeps Measured _) p hp
  refine Change.keeps_bind_ofExcept fun frequency hfrequency => ?_
  have hwhole := frequency_add hp.frequency hother.frequency hfrequency
  exact Change.keeps_modify fun q hq => ⟨hq.confidence, hwhole⟩

/-- Every pattern that comes out of a record is measured. -/
theorem measured_of_readRecord {record : Value} {d : Draft Value} {p : Pattern Value}
    (hd : readRecord record = .ok d) (h : d.pattern = .ok p) : p.Measured := by
  obtain ⟨_, n, _, _, hfrequency⟩ := (Draft.read_eq_ok_iff.1 hd).frequency
  obtain ⟨id, _, h⟩ := Except.bind_eq_ok.1 h
  obtain ⟨language, _, h⟩ := Except.bind_eq_ok.1 h
  obtain ⟨signature, _, h⟩ := Except.bind_eq_ok.1 h
  obtain ⟨confidence, hconfidence, h⟩ := Except.bind_eq_ok.1 h
  cases h
  exact ⟨real_of_clampConfidence hconfidence, n, hfrequency⟩

theorem measured_of_mapM {records : List Value} {ps : List (Pattern Value)}
    (h : records.mapM (patternOf readRecord) = .ok ps) : ∀ p ∈ ps, p.Measured := by
  intro p hp
  obtain ⟨record, _, hrecord⟩ := Except.exists_mem_of_mapM h hp
  obtain ⟨d, hd, hpattern⟩ := Except.bind_eq_ok.1 hrecord
  exact measured_of_readRecord (Except.mapError_eq_ok.1 hd) hpattern

end Store

/-! ### Reactions -/

namespace Learning

open Pattern (Measured)

variable {rules : Learning Value} {e : Event} {p : Pattern Value}

/-- The pattern after a reaction, as the rules leave it. -/
def after (rules : Learning Value) (e : Event) (p : Pattern Value) : Pattern Value :=
  ((rules.learn e).outcome p).2

/-- The pattern after a reaction, as an edit leaves it: with its confidence forced into
the unit interval. -/
def logged (rules : Learning Value) (e : Event) (p : Pattern Value) : Pattern Value :=
  (Store.clampPattern.outcome (rules.after e p)).2

/-- Forcing a floating-point confidence into the unit interval always works. -/
theorem outcome_clampPattern {q : Pattern Value} {x : Float} (hq : q.confidence = .real x) :
    ∃ y, Store.clampPattern.outcome q = (.ok (), { q with confidence := .real y }) ∧ InUnit y ∧
      (InUnit x → y = x) := by
  refine ⟨clampReal x, ?_, Binary64.inUnit_clampReal x, fun h => Binary64.clampReal_of_inUnit h⟩
  rw [Store.clampPattern, Change.outcome_bind_get, hq, clampConfidence_real,
    Change.outcome_bind_ofExcept_ok]
  rfl

/-- A reaction is taken in by a pattern without a failure. -/
theorem outcome_learn_measured (h : rules.Usable) (hp : p.Measured) :
    (rules.learn e).outcome p = (.ok (), rules.after e p) ∧
      Store.clampPattern.outcome (rules.after e p) = (.ok (), rules.logged e p) := by
  obtain ⟨x, hx, _⟩ := hp.confidence
  obtain ⟨y, retired, _, hrun, _⟩ := outcome_learn (e := e) h hx
  have hafter : rules.after e p = reacted e p (.real y) retired := by rw [after, hrun]
  obtain ⟨z, hclamp, _⟩ :=
    outcome_clampPattern (rfl : (reacted e p (.real y) retired).confidence = .real y)
  refine ⟨by rw [hrun, hafter], ?_⟩
  rw [logged, hafter, hclamp]

/-- The rules only add to the log of a pattern and to what follows from it. -/
theorem after_name (h : rules.Usable) (hp : p.Measured) :
    (rules.after e p).kind = p.kind ∧ (rules.after e p).language = p.language := by
  obtain ⟨x, hx, _⟩ := hp.confidence
  obtain ⟨y, retired, _, hrun, _⟩ := outcome_learn (e := e) h hx
  rw [after, hrun]
  exact ⟨rfl, rfl⟩

theorem measured_logged (h : rules.Usable) (hp : p.Measured) : (rules.logged e p).Measured := by
  obtain ⟨x, hx, _⟩ := hp.confidence
  obtain ⟨y, retired, _, hrun, _⟩ := outcome_learn (e := e) h hx
  obtain ⟨z, hclamp, hz, _⟩ :=
    outcome_clampPattern (rfl : (reacted e p (.real y) retired).confidence = .real y)
  rw [logged, after, hrun, hclamp]
  exact ⟨⟨z, rfl, hz⟩, hp.frequency⟩

/-- Of an ignored suggestion nothing is left but the reaction in the log. -/
theorem logged_of_ignored (h : rules.Usable) (hp : p.Measured) (he : e.reaction = .ignored) :
    rules.logged e p = { p with feedback := p.feedback ++ [e] } := by
  obtain ⟨x, hx, hunit⟩ := hp.confidence
  obtain ⟨y, retired, hreact, hrun, hretired⟩ := outcome_learn (e := e) h hx
  rw [he] at hreact hretired
  obtain rfl : x = y := Value.real.inj (Except.ok.inj hreact)
  obtain rfl : retired = p.retired := by
    rcases hretired with hsame | ⟨haccepted, _⟩
    · exact hsame
    · cases haccepted
  obtain ⟨z, hclamp, _, hsame⟩ :=
    outcome_clampPattern (rfl : (reacted e p (.real x) p.retired).confidence = .real x)
  rw [logged, after, hrun, hclamp, hsame hunit, reacted, if_pos he, hx]

/-- Forgetting keeps the confidence a number from zero to one, and leaves the
frequency. -/
theorem measured_forget (hrules : rules.FadesInside) {window : Int} {now : Timestamp}
    {q : Pattern Value} (hp : p.Measured) (h : rules.forget window now p = .ok q) :
    q.Measured := by
  obtain ⟨confidence, retired, rfl, hconfidence, _⟩ := forget_cases h
  obtain ⟨c, hc, hunit⟩ := hp.confidence
  refine ⟨?_, hp.frequency⟩
  rcases hconfidence with rfl | ⟨habove, faded, hmul, hlarger⟩
  · exact hp.confidence
  · rw [hc] at habove hmul
    exact hrules c faded confidence hunit habove hmul hlarger

end Learning

end CodeHabits

/-! ## Counted patterns -/

namespace CodeHabits

open Time (Timestamp)

namespace Tallies

/-- All counts are whole numbers. -/
def Whole (tallies : Tallies) : Prop :=
  ∀ habit ∈ tallies, ∀ entry ∈ habit.2, ∃ n, entry.2 = .int n

theorem Whole.putNew {tallies : Tallies} (h : tallies.Whole) (habit : String) :
    Whole (Table.putNew tallies habit []) := by
  unfold Table.putNew
  split
  · exact h
  · exact Table.forall_values_put
      (P := fun counts : Table Label Value => ∀ entry ∈ counts, ∃ n, entry.2 = .int n) h (by simp)

/-- One more can be counted, and the count is whole again. -/
theorem Whole.exists_next {tallies : Tallies} (h : tallies.Whole) (habit : String) (label : Label) :
    ∃ count, next (((tallies.get? habit).getD []).get? label) = .ok count ∧
      Whole (tallies.put habit (((tallies.get? habit).getD []).put label count)) := by
  have hcounts : ∀ entry ∈ (tallies.get? habit).getD [], ∃ n, entry.2 = .int n := by
    cases hget : tallies.get? habit with
    | none => simp
    | some counts =>
      obtain ⟨known, hmem, _, rfl⟩ := Table.exists_mem_of_get? hget
      exact h known hmem
  obtain ⟨n, hn⟩ : ∃ n, next (((tallies.get? habit).getD []).get? label) = .ok (.int n) := by
    cases hget : ((tallies.get? habit).getD []).get? label with
    | none => exact ⟨1, rfl⟩
    | some count =>
      obtain ⟨entry, hmem, _, rfl⟩ := Table.exists_mem_of_get? hget
      obtain ⟨n, hn⟩ := hcounts entry hmem
      rw [hn]
      exact ⟨n + 1, rfl⟩
  refine ⟨.int n, hn, ?_⟩
  exact Table.forall_values_put
    (P := fun counts : Table Label Value => ∀ entry ∈ counts, ∃ n, entry.2 = .int n) h
    (Table.forall_values_put (P := fun count : Value => ∃ n, count = .int n) hcounts ⟨n, rfl⟩)

theorem whole_tallyOne (habit : String) (seen : Value) :
    Change.Keeps Whole (tallyOne habit seen) := by
  unfold tallyOne
  refine Change.keeps_bind (Change.keeps_modify fun tallies h => h.putNew habit) fun _ => ?_
  refine Change.keeps_bind (Change.keeps_ofExcept _) fun label => ?_
  refine Change.keeps_bind_get fun tallies h => ?_
  obtain ⟨count, hcount, hleft⟩ := h.exists_next habit label
  dsimp only
  rw [hcount, Change.outcome_bind_ofExcept_ok]
  exact hleft

theorem whole_tally (style : Value) : Change.Keeps Whole (tally style) := by
  refine Change.keeps_bind (Change.keeps_ofExcept _) fun members => ?_
  exact Change.keeps_forM fun entry _ => whole_tallyOne entry.1 entry.2

/-- A text can be counted. -/
theorem gives_tallyOne (habit text : String) :
    Change.Gives Whole (tallyOne habit (.text text)) fun _ => Whole := by
  unfold tallyOne
  refine Change.gives_bind (Q := fun _ => Whole)
    (Change.gives_modify fun tallies h => h.putNew habit) fun _ => ?_
  refine Change.gives_bind_ofExcept (a := .text text) rfl ?_
  refine Change.gives_bind_get fun tallies h => ?_
  obtain ⟨count, hcount, hleft⟩ := h.exists_next habit (.text text)
  refine Change.gives_bind_ofExcept hcount (Change.gives_modify fun other hother => ?_)
  rw [hother]
  exact hleft

theorem gives_tally {c : Sighting} (hc : c.Countable) :
    Change.Gives Whole (tally c.style) fun _ => Whole := by
  obtain ⟨style, hstyle, htexts⟩ := hc
  rw [hstyle]
  refine Change.gives_bind_ofExcept (a := style) rfl (Change.gives_forM fun habit hhabit => ?_)
  obtain ⟨text, htext⟩ := htexts habit hhabit
  rw [htext]
  exact gives_tallyOne habit.1 text

end Tallies

/-- The styles of the pattern can be counted further. -/
def Pattern.Counted (p : Pattern Value) : Prop :=
  p.styles.Whole

namespace Store

open Pattern (Counted Measured)

variable {now : Timestamp} {c : Sighting}

/-! ### What keeps the counts whole -/

theorem counted_countStyle (c : Sighting) : Change.Keeps Counted (countStyle c) :=
  Change.keeps_within (fun _ h => h) (fun _ _ _ h => h) (Tallies.whole_tally c.style)

theorem counted_firstSighting {m : Smoothing Value} {id : Label} {p : Pattern Value}
    (h : firstSighting m id now c = .ok p) : p.Counted := by
  obtain ⟨confidence, _, h⟩ := Except.bind_eq_ok.1 h
  cases h
  simp [Counted, Tallies.Whole]

theorem counted_seeAgain (m : Smoothing Value) (c : Sighting) :
    Change.Keeps Counted (seeAgain m now c) :=
  keeps_seeAgain_each (fun _ _ hp _ => hp) (fun _ _ hp => hp) (counted_countStyle c) (fun _ hp => hp)
    fun _ hp => hp

theorem counted_gain (other : Pattern Value) : Change.Keeps Counted (gain other) :=
  keeps_gain_each fun _ _ hp _ => hp

/-! ### What can be learned -/

/-- The style of a sighting can be counted. -/
theorem gives_countStyle (hc : c.Countable) :
    Change.Gives Counted (countStyle (ν := Value) c) fun _ => Counted :=
  Change.gives_within (Tallies.gives_tally hc) (fun _ h => h) fun _ _ _ _ h => h

/-- A first sighting gives a pattern. -/
theorem exists_firstSighting {m : Smoothing Value} (hm : m.Usable) (id : Label) (now : Timestamp)
    (c : Sighting) : ∃ p, firstSighting m id now c = .ok p := by
  obtain ⟨base, hbase, _⟩ := hm.base
  obtain ⟨x, hx, _⟩ := clampConfidence_of_number (Option.isSome_of_eq_some hbase)
  unfold firstSighting
  rw [hx]
  exact ⟨_, rfl⟩

/-- A further sighting of a pattern can be taken in. -/
theorem gives_seeAgain {m : Smoothing Value} (hm : m.Usable) (hc : c.Countable) :
    Change.Gives (fun p => p.Measured ∧ p.Counted) (seeAgain m now c) fun _ _ => True := by
  unfold seeAgain
  refine Change.gives_bind_get fun p hp => ?_
  obtain ⟨hmeasured, hcounted⟩ := hp
  obtain ⟨n, hn⟩ := hmeasured.frequency
  obtain ⟨x, hx, _⟩ := hmeasured.confidence
  have hadd : Magnitude.add p.frequency (Magnitude.ofInt 1) = .ok (.int (n + 1)) := by
    rw [hn]
    rfl
  refine Change.gives_bind_ofExcept hadd ?_
  refine Change.gives_bind (Q := fun _ q => q.confidence = .real x ∧ q.Counted)
    (Change.gives_modify fun q hq => ?_) fun _ => ?_
  · rw [hq]
    exact ⟨hx, hcounted⟩
  refine Change.gives_bind_get fun q hq => ?_
  obtain ⟨hconfidence, hcounted⟩ := hq
  obtain ⟨y, hy, _⟩ := Smoothing.exists_toward hm x
  rw [hconfidence]
  refine Change.gives_bind_ofExcept hy ?_
  refine Change.gives_bind (Q := fun _ => Counted) (Change.gives_modify fun r hr => ?_) fun _ => ?_
  · rw [hr]
    exact hcounted
  refine Change.gives_bind (gives_countStyle hc) fun _ => ?_
  refine Change.gives_bind (Q := fun _ => Counted) (Change.gives_modify fun r hr => hr) fun _ => ?_
  -- The confidence is a number and so is the floor: whether to revive has an answer.
  obtain ⟨above, habove⟩ :=
    Value.exists_lt hm.floor (rfl : (Value.real y).number?.isSome = true)
  refine Change.gives_bind_get fun r _ => ?_
  split
  · refine Change.gives_bind_ofExcept habove ?_
    split
    · exact Change.gives_modify fun _ _ => trivial
    · exact Change.gives_pure fun _ _ => trivial
  · exact Change.gives_pure fun _ _ => trivial

/-- What another store knows of a pattern can be taken in. -/
theorem gives_gain {other : Pattern Value} (hother : other.Measured) :
    Change.Gives Measured (gain other) fun _ _ => True := by
  unfold gain
  refine Change.gives_bind_get fun p hp => ?_
  obtain ⟨n, hn⟩ := hp.frequency
  obtain ⟨k, hk⟩ := hother.frequency
  have hadd : Magnitude.add p.frequency other.frequency = .ok (.int (n + k)) := by
    rw [hn, hk]
    rfl
  exact Change.gives_bind_ofExcept hadd (Change.gives_modify fun _ _ => trivial)

end Store

/-! ### Reactions and time -/

namespace Learning

open Pattern (Counted)

variable {rules : Learning Value} {p q : Pattern Value}

theorem counted_forget {window : Int} {now : Timestamp} (hp : p.Counted)
    (h : rules.forget window now p = .ok q) : q.Counted := by
  obtain ⟨confidence, retired, rfl, _⟩ := forget_cases h
  exact hp

end Learning

/-- Spelling what was counted leaves the counts. -/
theorem Pattern.counted_reread {p : Pattern Value} (hp : p.Counted) (spell : Label → String) :
    (p.reread spell).Counted := by
  refine List.forall_mem_map.2 fun habit hhabit => ?_
  exact List.forall_mem_map.2 fun entry hentry => hp habit hhabit entry hentry

end CodeHabits
