import CodeHabits.Proofs.Pattern.Keeping
import CodeHabits.Proofs.Pattern.Style
import CodeHabits.Proofs.Store.Invariants
import CodeHabits.Proofs.Store.Seeing

/-!
# `CodeHabits.Proofs.Store.Gathering`: what does not depend on an order

Sightings and reactions change the confidence of a pattern, and in which order they come
makes a difference to that. What a pattern gathers makes none: how often it was sighted,
in which files, with which styles, and which reactions were logged.

`Gathers` tells of sightings and reactions what they added to a pattern, which may be new.
One sighting adds itself (`Seen.gathers`), what comes later adds up (`Gathers.trans`), and
whoever gathers the same, in whatever order, agrees in the end (`Gathers.agrees`). The
confidence is told apart from it, by `SeenAll.standing`, and only where nothing but
sightings moved it.
-/

set_option autoImplicit false

namespace CodeHabits

open Time (Timestamp)

variable {ν : Type}

/-- How often a sighting shows a value of a habit. -/
def Sighting.shows (c : Sighting) (habit : String) (label : Label) : Nat :=
  Tallies.shown (c.style.toMembers.toOption.getD []) habit label

/-- Whether a sighting shows anything of a habit. -/
def Sighting.touches (c : Sighting) (habit : String) : Bool :=
  Table.has (c.style.toMembers.toOption.getD []) habit

/-- The file of the sighting has a name. -/
def Sighting.Filed (c : Sighting) : Prop :=
  ∃ file, c.sourceFile = .text file

/-- Nothing but the text itself says the same as a text. -/
theorem Value.eq_text_of_same {name : String} {value : Value}
    (h : (Value.text name).same value = true) : value = .text name := by
  have hlabel : value.label?.any (Label.text name == ·) = true := by
    unfold Value.same at h
    exact h
  obtain ⟨label, hvalue, hsame⟩ := (Option.any_eq_true _ _).1 hlabel
  obtain ⟨text, rfl⟩ := Label.IsText.of_beq ⟨name, rfl⟩ hsame
  have htext : name = text := Key.text.inj (Label.beq_iff.1 hsame)
  cases value with
  | text other =>
    cases hvalue
    rw [htext]
  | _ => cases hvalue

namespace Pattern

/-- Patterns that were sighted equally often, in the same files and with the same styles,
and of which the same reactions were logged. -/
structure Agrees (p q : Pattern ν) : Prop where
  frequency : p.frequency = q.frequency
  files : ∀ file, file ∈ p.sourceFiles ↔ file ∈ q.sourceFiles
  habits : ∀ habit, p.styles.has habit = q.styles.has habit
  styles : ∀ habit label, p.styles.count? habit label = q.styles.count? habit label
  log : p.feedback.Perm q.feedback

/-- A file that has a name is added unless it is there. -/
theorem mem_addSource_text {files : List Value} {name : String} {file : Value} :
    file ∈ addSource files (.text name) ↔ file ∈ files ∨ file = .text name := by
  unfold addSource
  split
  · rename_i hknown
    obtain ⟨known, hmem, hsame⟩ := List.any_eq_true.1 hknown
    rw [Value.eq_text_of_same hsame] at hmem
    constructor
    · exact .inl
    · rintro (hold | rfl)
      · exact hold
      · exact hmem
  · rw [List.mem_append, List.mem_singleton]

end Pattern

namespace Store

open Pattern (Agrees)

variable {s : Store ν} {p q : Pattern ν} {id : Label} {name : Label × Label} {now : Timestamp}
  {c : Sighting} {cs ds : List Sighting} {es fs : List Event} {m : Smoothing ν}
  {before? after? other? last? : Option (Pattern ν)}

/-! ### Patterns by their names -/

/-- What is true of every pattern is true of the one of a name. -/
theorem Every.of_named? {P : Pattern ν → Prop} (h : s.Every P) (hnamed : s.named? name = some p) :
    P p := by
  obtain ⟨id, _, hget⟩ := Option.bind_eq_some_iff.1 hnamed
  exact h.of_get? hget

theorem Linked.name_of_named? (h : s.Linked) (hnamed : s.named? name = some p) :
    (p.name == name) = true := by
  obtain ⟨id, hlookup, hget⟩ := Option.bind_eq_some_iff.1 hnamed
  obtain ⟨q, hq, hname⟩ := h _ _ _ hlookup
  rw [hget] at hq
  cases hq
  exact hname

/-- Every pattern of a store is the one of its name. -/
theorem Coherent.named?_of_get? (h : s.Coherent) (hget : s.get? id = some p) :
    s.named? p.name = some p := by
  obtain ⟨entry, hmem, rfl, _⟩ := h.exists_mem_of_get? hget
  have hindexed : (entry.2.name, entry.2.id) ∈ s.index := by
    rw [h.indexed]
    exact List.mem_map_of_mem hmem
  have hindex : s.index.get? entry.2.name = some entry.2.id :=
    Table.get?_of_mem h.index_distinct hindexed
  have hlookup : s.lookup? entry.2.name.1 entry.2.name.2 = some entry.2.id := by
    show Option.filter _ (s.index.get? entry.2.name) = _
    rw [hindex, Option.filter_some, h.known entry hmem]
    rfl
  exact Option.bind_eq_some_iff.2 ⟨_, hlookup, h.get?_of_mem hmem⟩

/-- A pattern is found under every spelling of its name. -/
theorem Coherent.named?_of_mem (h : s.Coherent) {entry : Label × Pattern ν}
    (hmem : entry ∈ s.patterns) (hname : (entry.2.name == name) = true) :
    s.named? name = some entry.2 := by
  rw [← s.named?_congr hname]
  exact h.named?_of_get? (h.get?_of_mem hmem)

/-- A pattern in the place of another one is found where that one was found. -/
theorem Coherent.named?_replace (h : s.Coherent) (hget : s.get? id = some p) (q : Pattern ν)
    (name : Label × Label) :
    (s.replace id q).named? name = if p.name == name then some q else s.named? name := by
  have hlookup : (s.replace id q).lookup? name.1 name.2 = s.lookup? name.1 name.2 := rfl
  rw [named?, hlookup]
  by_cases hname : (p.name == name) = true
  · obtain ⟨known, hknown, hfound⟩ : ∃ known, s.lookup? name.1 name.2 = some known ∧
        s.get? known = some p := by
      refine Option.bind_eq_some_iff.1 ?_
      show s.named? name = some p
      rw [← s.named?_congr hname]
      exact h.named?_of_get? hget
    -- The pattern is kept under its own id, however that is written.
    have hid : (id == known) = true := by
      obtain ⟨_, _, _, hkept⟩ := h.exists_mem_of_get? hget
      obtain ⟨_, _, _, hother⟩ := h.exists_mem_of_get? hfound
      exact PartialEquivBEq.trans (PartialEquivBEq.symm hkept) hother
    rw [hknown, if_pos hname]
    show (s.replace id q).get? known = _
    rw [get?_replace, if_pos hid]
  · rw [if_neg hname, named?]
    cases hknown : s.lookup? name.1 name.2 with
    | none => rfl
    | some known =>
      show (s.replace id q).get? known = s.get? known
      rw [get?_replace, if_neg]
      intro hid
      obtain ⟨found, hfound, hsame⟩ := h.linked _ _ _ hknown
      rw [← s.get?_congr hid, hget] at hfound
      cases hfound
      exact hname hsame

/-! ### Gathering -/

/-- How often a pattern was sighted that may be there or not. -/
def frequencyOf (known? : Option (Pattern ν)) : Option ν :=
  known?.map (·.frequency)

def stylesOf (known? : Option (Pattern ν)) : Tallies :=
  known?.elim [] (·.styles)

def logOf (known? : Option (Pattern ν)) : List Event :=
  known?.elim [] (·.feedback)

variable [Magnitude ν]

/-- A number of sightings with one more; the first one counts as one. -/
def oneMore (frequency? : Option ν) : Option ν :=
  match frequency? with
  | none => some (Magnitude.ofInt 1)
  | some frequency => (Magnitude.add frequency (Magnitude.ofInt 1)).toOption

/-- Sightings and reactions, in whatever order, have made one pattern of another one, which
may be there or not. -/
structure Gathers (cs : List Sighting) (es : List Event) (before? after? : Option (Pattern ν)) :
    Prop where
  frequency : frequencyOf after? = oneMore^[cs.length] (frequencyOf before?)
  files : ∀ file, file ∈ filesOf after? ↔ file ∈ filesOf before? ∨ ∃ c ∈ cs, c.sourceFile = file
  habits : ∀ habit, (stylesOf after?).has habit
    = ((stylesOf before?).has habit || cs.any (·.touches habit))
  styles : ∀ habit label, (stylesOf after?).count? habit label
    = Tallies.another^[(cs.map (·.shows habit label)).sum] ((stylesOf before?).count? habit label)
  log : (logOf after?).Perm (logOf before? ++ es)

namespace Gathers

theorem refl (known? : Option (Pattern ν)) : Gathers [] [] known? known? where
  frequency := rfl
  files := by simp
  habits := by simp
  styles := by simp
  log := by simp

theorem trans (h : Gathers cs es before? after?) (hrest : Gathers ds fs after? last?) :
    Gathers (cs ++ ds) (es ++ fs) before? last? where
  frequency := by
    rw [hrest.frequency, h.frequency, ← Function.iterate_add_apply, List.length_append,
      Nat.add_comm]
  files := by
    intro file
    rw [hrest.files, h.files]
    simp only [List.mem_append, or_and_right, exists_or, or_assoc]
  habits := by
    intro habit
    rw [hrest.habits, h.habits, List.any_append, Bool.or_assoc]
  styles := by
    intro habit label
    rw [hrest.styles, h.styles, ← Function.iterate_add_apply, List.map_append, List.sum_append,
      Nat.add_comm]
  log := by
    rw [← List.append_assoc]
    exact hrest.log.trans (h.log.append_right fs)

/-- Nothing was sighted, and some reactions were logged at the end. -/
theorem of_logged (hfrequency : q.frequency = p.frequency) (hfiles : q.sourceFiles = p.sourceFiles)
    (hstyles : q.styles = p.styles) (hlog : q.feedback = p.feedback ++ es) :
    Gathers [] es (some p) (some q) where
  frequency := congrArg some hfrequency
  files := by simp [filesOf, hfiles]
  habits := by simp [stylesOf, hstyles]
  styles := by simp [stylesOf, hstyles]
  log := by
    show q.feedback.Perm (p.feedback ++ es)
    rw [hlog]

/-- What gathers the same from the same agrees. -/
theorem agrees (h : Gathers cs es before? after?) (hother : Gathers ds fs before? other?)
    (hsightings : cs.Perm ds) (hevents : es.Perm fs) : Option.Rel Agrees after? other? := by
  have hfrequency : frequencyOf after? = frequencyOf other? := by
    rw [h.frequency, hother.frequency, hsightings.length_eq]
  have hlog : (logOf after?).Perm (logOf other?) :=
    h.log.trans ((hevents.append_left _).trans hother.log.symm)
  have hfiles : ∀ file, file ∈ filesOf after? ↔ file ∈ filesOf other? := by
    intro file
    rw [h.files, hother.files]
    simp only [hsightings.mem_iff]
  have hhabits : ∀ habit, (stylesOf after?).has habit = (stylesOf other?).has habit := by
    intro habit
    rw [h.habits, hother.habits, hsightings.any_eq]
  have hstyles : ∀ habit label,
      (stylesOf after?).count? habit label = (stylesOf other?).count? habit label := by
    intro habit label
    rw [h.styles, hother.styles, (hsightings.map _).sum_eq]
  -- How often a pattern was sighted tells also whether it is there.
  cases after? with
  | none =>
    cases other? with
    | none => exact .none
    | some q => cases hfrequency
  | some p =>
    cases other? with
    | none => cases hfrequency
    | some q => exact .some ⟨Option.some.inj hfrequency, hfiles, hhabits, hstyles, hlog⟩

end Gathers

/-- A sighting adds itself. -/
theorem Seen.gathers (h : Seen m now c before? q) (hc : c.Filed) :
    Gathers [c] [] before? (some q) := by
  obtain ⟨file, hfile⟩ := hc
  have htally : ∀ styles : Tallies, (Tallies.tally c.style).outcome styles = (.ok (), q.styles) →
      ∀ habit label, q.styles.count? habit label
        = Tallies.another^[([c].map (·.shows habit label)).sum] (styles.count? habit label) := by
    intro styles hstyles habit label
    obtain ⟨members, hmembers, hcounts⟩ := Tallies.count?_tally hstyles
    rw [hcounts, List.map_singleton, List.sum_singleton, Sighting.shows, hmembers]
    rfl
  have hhabits : ∀ styles : Tallies, (Tallies.tally c.style).outcome styles = (.ok (), q.styles) →
      ∀ habit, q.styles.has habit = (styles.has habit || [c].any (·.touches habit)) := by
    intro styles hstyles habit
    obtain ⟨members, hmembers, hknown⟩ := Tallies.has_tally hstyles
    rw [hknown, List.any_cons, List.any_nil, Bool.or_false, Sighting.touches, hmembers]
    rfl
  have hfiles : ∀ other, other ∈ filesOf (some q) ↔
      other ∈ filesOf before? ∨ ∃ d ∈ [c], d.sourceFile = other := by
    intro other
    show other ∈ q.sourceFiles ↔ _
    rw [h.sourceFiles, hfile, Pattern.mem_addSource_text]
    simp [hfile, eq_comm]
  cases before? with
  | none =>
    obtain ⟨id, hseen⟩ := h
    refine ⟨?_, hfiles, hhabits [] hseen.tallied, htally [] hseen.tallied, ?_⟩
    · show some q.frequency = some (Magnitude.ofInt 1)
      rw [hseen.rest]
    · show q.feedback.Perm []
      rw [hseen.rest]
  | some p =>
    have hseen : SeenAgain m now c p q := h
    refine ⟨?_, hfiles, hhabits p.styles hseen.tallied, htally p.styles hseen.tallied, ?_⟩
    · show some q.frequency = (Magnitude.add p.frequency (Magnitude.ofInt 1)).toOption
      rw [hseen.counted]
      rfl
    · show q.feedback.Perm (p.feedback ++ [])
      rw [hseen.rest, List.append_nil]

/-- Several sightings add themselves. -/
theorem SeenAll.gathers (h : SeenAll m now cs before? after?) (hcs : ∀ c ∈ cs, c.Filed) :
    Gathers cs [] before? after? := by
  induction h with
  | nil => exact .refl _
  | cons hfirst _ ih =>
    obtain ⟨hc, hrest⟩ := List.forall_mem_cons.1 hcs
    exact (hfirst.gathers hc).trans (ih hrest)

/-! ### The confidence -/

/-- The confidence of a pattern, and whether it is retired. -/
def standingOf (known? : Option (Pattern ν)) : Option (ν × Value) :=
  known?.map fun p => (p.confidence, p.retired)

/-- The standing after one more sighting. The first one gives the base score. -/
def restand (m : Smoothing ν) (standing? : Option (ν × Value)) : Option (ν × Value) :=
  match standing? with
  | none => (clampConfidence m.base).toOption.map fun confidence => (confidence, .bool false)
  | some (confidence, retired) => (m.renew confidence retired).toOption

theorem Seen.standing (h : Seen m now c before? q) :
    standingOf (some q) = restand m (standingOf before?) := by
  cases before? with
  | none =>
    obtain ⟨id, hseen⟩ := h
    show some (q.confidence, q.retired) = (clampConfidence m.base).toOption.map _
    rw [hseen.clamped]
    show some (q.confidence, q.retired) = some (q.confidence, Value.bool false)
    rw [hseen.rest]
  | some p =>
    have hseen : SeenAgain m now c p q := h
    show some (q.confidence, q.retired) = (m.renew p.confidence p.retired).toOption
    rw [hseen.renewed]
    rfl

/-- Only the number of sightings matters to the standing. -/
theorem SeenAll.standing (h : SeenAll m now cs before? after?) :
    standingOf after? = (restand m)^[cs.length] (standingOf before?) := by
  induction h with
  | nil => rfl
  | cons hfirst _ ih =>
    rw [ih, hfirst.standing]
    rfl

end Store

end CodeHabits
