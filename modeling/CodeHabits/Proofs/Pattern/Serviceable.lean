import CodeHabits.Proofs.Pattern.Measured
import CodeHabits.Proofs.Value.Order

/-!
# `CodeHabits.Proofs.Pattern.Serviceable`: patterns that nothing fails at

A record is read field by field, and of each field only the kind is looked at. What is
done with a pattern later needs more: ids, languages and the values of habits are sorted,
counts are added to and compared, and what stands in the log is counted. A pattern is
`Serviceable` if

- its id, its language and the values of its habits are texts,
- its counts are whole numbers,
- its log can be counted (`Event.Tellable`).

What is learned from source texts makes such patterns, and learning, reactions and time
keep them so. The records of a snapshot need not describe any. Without what is asked of
the id a pattern is `Tellable`: a merge gives ids of its own.
-/

set_option autoImplicit false

namespace CodeHabits

open Time (Timestamp)

namespace Tallies

/-- All values of habits are texts. -/
def Texts (tallies : Tallies) : Prop :=
  ∀ habit ∈ tallies, ∀ entry ∈ habit.2, entry.1.IsText

theorem Texts.put {tallies : Tallies} (h : tallies.Texts) (habit : String)
    {counts : Table Label Value} (hcounts : ∀ entry ∈ counts, entry.1.IsText) :
    Texts (tallies.put habit counts) :=
  Table.forall_values_put
    (P := fun counts : Table Label Value => ∀ entry ∈ counts, entry.1.IsText) h hcounts

theorem Texts.putNew {tallies : Tallies} (h : tallies.Texts) (habit : String) :
    Texts (tallies.putNew habit []) := by
  unfold Table.putNew
  split
  · exact h
  · exact h.put habit (by simp)

theorem texts_tallyOne (habit text : String) :
    Change.Keeps Texts (tallyOne habit (.text text)) := by
  unfold tallyOne
  refine Change.keeps_bind (Change.keeps_modify fun tallies h => h.putNew habit) fun _ => ?_
  -- The only label that is added is the text itself.
  refine Change.keeps_bind_ofExcept fun label hlabel => ?_
  obtain rfl : Label.text text = label := Except.ok.inj hlabel
  refine Change.keeps_bind_get fun tallies h => ?_
  have hcounts : ∀ entry ∈ (tallies.get? habit).getD [], entry.1.IsText := by
    cases hget : tallies.get? habit with
    | none => simp
    | some counts =>
      obtain ⟨known, hmem, _, rfl⟩ := Table.exists_mem_of_get? hget
      exact h known hmem
  refine (Change.keeps_bind_ofExcept (P := Texts) fun count _ => ?_) tallies h
  refine Change.keeps_modify fun other hother => hother.put habit ?_
  exact Table.forall_keys_put hcounts ⟨text, rfl⟩

theorem texts_tally {c : Sighting} (hc : c.Countable) : Change.Keeps Texts (tally c.style) := by
  obtain ⟨style, hstyle, htexts⟩ := hc
  rw [hstyle]
  refine Change.keeps_bind_ofExcept fun members hmembers => ?_
  obtain rfl : style = members := Except.ok.inj hmembers
  refine Change.keeps_forM fun habit hhabit => ?_
  -- What a sighting says of a habit is a text, and it is counted under that.
  obtain ⟨text, htext⟩ := htexts habit hhabit
  rw [htext]
  exact texts_tallyOne habit.1 text

/-! ### The style that was seen most often -/

theorem exists_goesBefore {a b : Label × Number} (ha : a.1.IsText) (hb : b.1.IsText) :
    ∃ answer, goesBefore a b = .ok answer := by
  unfold goesBefore
  rw [Label.before_of_text ha hb]
  -- Only if the counts are the same are the labels compared, and texts can be.
  split
  · exact ⟨true, rfl⟩
  · split
    · exact ⟨_, rfl⟩
    · exact ⟨false, rfl⟩

/-- A whole count is a number. -/
theorem exists_counted {entry : Label × Value} (h : ∃ n, entry.2 = .int n) :
    ∃ n, counted entry = .ok (entry.1, n) := by
  obtain ⟨n, hn⟩ := h
  rw [counted, hn]
  exact ⟨.int n, rfl⟩

theorem exists_mostSeen {entries : List (Label × Value)} (best : Label × Number)
    (hbest : best.1.IsText) (htexts : ∀ entry ∈ entries, entry.1.IsText)
    (hwhole : ∀ entry ∈ entries, ∃ n, entry.2 = .int n) :
    ∃ label, mostSeen best entries = .ok label := by
  induction entries generalizing best with
  | nil => exact ⟨best.1, rfl⟩
  | cons entry rest ih =>
    -- The best so far is compared with one more count, and the better of the two goes on.
    obtain ⟨hentry, hrest⟩ := List.forall_mem_cons.1 htexts
    obtain ⟨hcount, hcounts⟩ := List.forall_mem_cons.1 hwhole
    obtain ⟨n, hn⟩ := exists_counted hcount
    obtain ⟨answer, hanswer⟩ := exists_goesBefore (a := (entry.1, n)) hentry hbest
    rw [mostSeen, hn, Except.ok_bind, hanswer, Except.ok_bind]
    refine ih _ ?_ hrest hcounts
    split
    · exact hentry
    · exact hbest

/-- Of whole counts of texts there is a greatest one for every habit. -/
theorem exists_dominant {tallies : Tallies} (htexts : tallies.Texts) (hwhole : tallies.Whole) :
    ∃ style, dominant tallies = .ok style := by
  refine Except.exists_mapM_eq_ok.2 fun habit hhabit => ?_
  obtain ⟨hmem, hsome⟩ := List.mem_filter.1 (List.mem_mergeSort.1 hhabit)
  have htexts := htexts habit hmem
  have hwhole := hwhole habit hmem
  -- Habits without counts are left out before, so there is a first count to begin with.
  cases hcounts : habit.2 with
  | nil =>
    rw [hcounts] at hsome
    cases hsome
  | cons first rest =>
    rw [hcounts] at htexts hwhole
    obtain ⟨hfirst, hrest⟩ := List.forall_mem_cons.1 htexts
    obtain ⟨hcount, hcounts⟩ := List.forall_mem_cons.1 hwhole
    obtain ⟨n, hn⟩ := exists_counted hcount
    obtain ⟨label, hlabel⟩ := exists_mostSeen (first.1, n) hfirst hrest hcounts
    refine ⟨(habit.1, label), ?_⟩
    dsimp only
    rw [hn, Except.ok_bind, hlabel, Except.ok_bind, Except.pure_eq]

end Tallies

/-- What is counted of an event can be: the language of its surroundings is a text if it
says anything, and so is the reason of a rejection no list and no object. -/
structure Event.Tellable (e : Event) : Prop where
  language : e.surroundings.language.truthy = true → ∃ s, e.surroundings.language = .text s
  reason : e.reaction = .rejected → e.reason.truthy = true →
    ∃ label, e.reason.toLabel = .ok label

namespace Pattern

/-- Everything but the id of the pattern can be used. -/
structure Tellable (p : Pattern Value) : Prop where
  language : p.language.IsText
  habits : p.styles.Texts
  counted : p.Counted
  feedback : ∀ e ∈ p.feedback, e.Tellable

/-- A pattern that nothing fails at. -/
structure Serviceable (p : Pattern Value) : Prop extends Tellable p where
  id : p.id.IsText

/-- Under a free id a pattern is serviceable. -/
theorem Tellable.with_id {p : Pattern Value} (h : p.Tellable) (id : String) :
    Serviceable { p with id := .text id } :=
  { language := h.language
    habits := h.habits
    counted := h.counted
    feedback := h.feedback
    id := ⟨id, rfl⟩ }

/-- A pattern with texts for its id and its language, of which nothing else is known yet, is
serviceable. -/
theorem serviceable_of_blank {p : Pattern Value} (hid : p.id.IsText) (hlanguage : p.language.IsText)
    (hstyles : p.styles = []) (hfeedback : p.feedback = []) : p.Serviceable where
  id := hid
  language := hlanguage
  habits := by simp [hstyles, Tallies.Texts]
  counted := by simp [Counted, hstyles, Tallies.Whole]
  feedback := by simp [hfeedback]

end Pattern

/-! ### What keeps patterns serviceable -/

namespace Store

open Pattern (Serviceable)

variable {now : Timestamp} {c : Sighting}

theorem serviceable_countStyle (hc : c.Countable) : Change.Keeps Serviceable (countStyle c) := by
  have htally : Change.Keeps (fun tallies => tallies.Texts ∧ tallies.Whole)
      (Tallies.tally c.style) :=
    fun tallies h => ⟨Tallies.texts_tally hc tallies h.1, Tallies.whole_tally c.style tallies h.2⟩
  refine Change.keeps_within (fun p hp => ⟨hp.habits, hp.counted⟩) (fun p styles hp hstyles => ?_)
    htally
  exact { hp with habits := hstyles.1, counted := hstyles.2 }

theorem serviceable_firstSighting {m : Smoothing Value} {id : Label} {p : Pattern Value}
    (hid : id.IsText) (hlanguage : c.language.IsText) (h : firstSighting m id now c = .ok p) :
    p.Serviceable := by
  obtain ⟨confidence, _, h⟩ := Except.bind_eq_ok.1 h
  cases h
  exact Pattern.serviceable_of_blank hid hlanguage rfl rfl

theorem serviceable_seeAgain (m : Smoothing Value) (hc : c.Countable) :
    Change.Keeps Serviceable (seeAgain m now c) :=
  keeps_seeAgain_each (fun _ _ hp _ => { hp with }) (fun _ _ hp => { hp with })
    (serviceable_countStyle hc) (fun _ hp => { hp with }) fun _ hp => { hp with }

theorem serviceable_clampPattern : Change.Keeps Serviceable clampPattern :=
  keeps_clampPattern fun _ _ hp => { hp with }

end Store

namespace Learning

open Pattern (Serviceable)

theorem serviceable_learn (rules : Learning Value) {e : Event} (he : e.Tellable) :
    Change.Keeps Serviceable (rules.learn e) := fun _ hp => by
  refine keeps_learn_each (fun p hp => ?_) (fun _ _ hp => { hp with }) (fun _ _ hp => { hp with })
    (fun _ hp => { hp with }) hp
  -- The log grows at its end, and only by this event.
  have hlog : ∀ other ∈ p.feedback ++ [e], other.Tellable :=
    List.forall_mem_append.2 ⟨hp.feedback, List.forall_mem_singleton.2 he⟩
  exact { hp with feedback := hlog }

theorem serviceable_forget {rules : Learning Value} {window : Int} {now : Timestamp}
    {p q : Pattern Value} (hp : p.Serviceable) (h : rules.forget window now p = .ok q) :
    q.Serviceable := by
  obtain ⟨confidence, retired, rfl, _⟩ := forget_cases h
  exact { hp with }

end Learning

end CodeHabits
