import CodeHabits.Proofs.Except
import CodeHabits.Proofs.Pattern.Written
import CodeHabits.Proofs.Snapshot.Escaping
import CodeHabits.Proofs.Value.Order

/-!
# `CodeHabits.Proofs.Preferences.Written`: preferences read as they were written

Preferences are written in the order of their labels, so what is read is the
same in this order: `Arranged` relates the two. Weights are read as
floating-point numbers. A weight that was a whole number comes back as the
nearest of these (`asReal`), and one that is too large for them makes the
reading fail (`readPreferences_overflow`).

Reading drops labels that are listed twice, and names languages by texts. So
preferences have to be `Proper` for all of them to come back. What was read is.
-/

set_option autoImplicit false

namespace CodeHabits

/-- No two labels are the same. -/
def Label.Distinct (labels : List Label) : Prop :=
  labels.Pairwise fun a b => (a == b) = false

theorem Label.Distinct.perm {labels others : List Label} (h : Distinct labels)
    (hperm : others.Perm labels) : Distinct others :=
  (hperm.pairwise_iff fun {a b} hab => by rw [BEq.comm]; exact hab).2 h

/-- The floating-point number that a value stands for, if there is one, and else
the value. -/
def Value.asReal (value : Value) : Value :=
  match value.toReal with
  | .ok x => .real x
  | .error _ => value

@[simp] theorem Value.asReal_real (x : Float) : (Value.real x).asReal = .real x :=
  rfl

/-- A number is read as a floating-point number, unless it is too large. -/
theorem Value.toReal_of_number {value : Value} (h : value.number?.isSome)
    (hsmall : ¬ value.TooLarge) : value.toReal.map Value.real = .ok value.asReal := by
  unfold asReal
  cases hreal : value.toReal with
  | ok x => rfl
  | error fault =>
    cases value with
    | int n =>
      have hfault : fault = .overflow := by
        rw [toReal] at hreal
        split at hreal <;> cases hreal
        rfl
      rw [hfault, toReal_eq_overflow] at hreal
      exact absurd hreal hsmall
    | bool b => cases hreal
    | real x => cases hreal
    | _ => cases h

namespace Preferences

/-- Preferences of which nothing is lost when they are written and read. -/
structure Proper {ν : Type} (p : Preferences ν) : Prop where
  languages : ∀ entry ∈ p.languageWeights, entry.1.IsText
  preferred : Label.Distinct p.preferred
  avoided : Label.Distinct p.avoided

/-- The weights. -/
def weights {ν : Type} (p : Preferences ν) : List ν :=
  p.kindWeights.map (·.2) ++ p.languageWeights.map (·.2)

/-- All weights are floating-point numbers. -/
def Floating (p : Preferences Value) : Prop :=
  ∀ weight ∈ p.weights, ∃ x, weight = .real x

/-- The preferences with their weights as floating-point numbers. -/
def asReal (p : Preferences Value) : Preferences Value :=
  { p with
    kindWeights := p.kindWeights.map fun entry => (entry.1, entry.2.asReal)
    languageWeights := p.languageWeights.map fun entry => (entry.1, entry.2.asReal) }

/-- The weights of kinds, under labels. -/
def labelled {ν : Type} (weights : Table String ν) : Table Label ν :=
  weights.map fun entry => (.text entry.1, entry.2)

/-- The second preferences are the first with everything in the order of its
labels. -/
structure Arranged {ν : Type} (p q : Preferences ν) : Prop where
  kinds : sorted (.on (·.1) .label) (labelled p.kindWeights) = .ok (labelled q.kindWeights)
  languages : sorted (.on (·.1) .label) p.languageWeights = .ok q.languageWeights
  preferred : sorted .label p.preferred = .ok q.preferred
  avoided : sorted .label p.avoided = .ok q.avoided

/-- What is sorted under labels that are texts is again a table of texts. -/
theorem exists_labelled {ν : Type} {weights : Table String ν} {entries : Table Label ν}
    (h : entries.Perm (labelled weights)) : ∃ others, entries = labelled others := by
  refine ⟨entries.map fun entry => (entry.1.textOf, entry.2), ?_⟩
  rw [labelled, List.map_map]
  refine ((List.map_congr_left fun entry hmem => ?_).trans (List.map_id _)).symm
  obtain ⟨known, _, rfl⟩ := List.mem_map.1 (h.mem_iff.1 hmem)
  rfl

/-- The members of a document of preferences that are in order. -/
def members (manner : Manner Value) (q : Preferences Value) : Table String Value :=
  let entries (weights : Table Label Value) : Value :=
    .object (weights.map fun entry => (manner.spell entry.1, manner.number entry.2))
  [("type_weights", entries (labelled q.kindWeights)), ("language_weights", entries q.languageWeights),
   ("preferred", .list (q.preferred.map Label.value)), ("avoided", .list (q.avoided.map Label.value))]

/-- A document of preferences is one of what they are in order. -/
theorem document_eq_ok {manner : Manner Value} {p : Preferences Value} {document : Value} :
    p.document manner = .ok document ↔
      ∃ q, Arranged p q ∧ document = .object (members manner q) := by
  constructor
  · intro h
    obtain ⟨kinds, hkinds, h⟩ := Except.bind_eq_ok.1 h
    obtain ⟨languages, hlanguages, h⟩ := Except.bind_eq_ok.1 h
    obtain ⟨preferred, hpreferred, h⟩ := Except.bind_eq_ok.1 h
    obtain ⟨avoided, havoided, h⟩ := Except.bind_eq_ok.1 h
    obtain ⟨kindEntries, hkindEntries, hkinds⟩ := Except.bind_eq_ok.1 hkinds
    obtain ⟨languageEntries, hlanguageEntries, hlanguages⟩ := Except.bind_eq_ok.1 hlanguages
    obtain ⟨preferredLabels, hpreferredLabels, hpreferred⟩ := Except.bind_eq_ok.1 hpreferred
    obtain ⟨avoidedLabels, havoidedLabels, havoided⟩ := Except.bind_eq_ok.1 havoided
    obtain ⟨kindWeights, rfl⟩ := exists_labelled (perm_of_sorted hkindEntries)
    cases hkinds
    cases hlanguages
    cases hpreferred
    cases havoided
    cases h
    exact ⟨⟨kindWeights, languageEntries, preferredLabels, avoidedLabels⟩,
      ⟨hkindEntries, hlanguageEntries, hpreferredLabels, havoidedLabels⟩, rfl⟩
  · rintro ⟨q, hq, rfl⟩
    have hkinds := hq.kinds
    rw [labelled] at hkinds
    simp only [document, weightsDocument, labelsDocument, hkinds, hq.languages, hq.preferred,
      hq.avoided]
    rfl

/-! ### Reading -/

theorem foldl_including {labels before : List Label} (h : Label.Distinct (before ++ labels)) :
    labels.foldl including before = before ++ labels := by
  induction labels generalizing before with
  | nil => simp
  | cons label rest ih =>
    have hnew : ∀ other ∈ before, (other == label) = false := fun other hother =>
      (List.pairwise_append.1 h).2.2 other hother label (by simp)
    have hincluding : including before label = before ++ [label] := by
      rw [including, if_neg (by simpa using hnew)]
    rw [List.foldl_cons, hincluding, ih (by simpa using h), List.append_assoc]
    rfl

theorem readLabels_eq {members : Table String Value} {name : String} {labels : List Label}
    (hget : members.get? name = some (.list (labels.map Label.value)))
    (h : Label.Distinct labels) : readLabels members name = .ok labels := by
  have hlabels : (labels.map Label.value).mapM Value.toLabel = .ok labels := by
    rw [List.mapM_map]
    refine (Except.mapM_ok (g := id) fun label _ => ?_).trans (by rw [List.map_id])
    exact Value.toLabel_eq_ok.2 rfl
  rw [readLabels, hget, Option.getD_some, Value.toItems, Except.ok_bind, hlabels, Except.ok_bind,
    foldl_including (by simpa using h)]
  rfl

/-- What becomes of weights that are read under their names. -/
def readEntries (weights : Table String Value) : Except Fault (Table String Value) :=
  weights.mapM fun entry => do return (entry.1, ← entry.2.toReal.map Value.real)

/-- The weights of languages, under the texts that name these. -/
def named {ν : Type} (weights : Table Label ν) : Table String ν :=
  weights.map fun entry => (entry.1.textOf, entry.2)

/-- The members, where names and numbers are written as they are. -/
theorem members_of_plain {manner : Manner Value} (hmanner : manner.Plain) {q : Preferences Value}
    (hq : q.Proper) :
    members manner q =
      [("type_weights", .object q.kindWeights), ("language_weights", .object (named q.languageWeights)),
       ("preferred", .list (q.preferred.map Label.value)),
       ("avoided", .list (q.avoided.map Label.value))] := by
  have hkinds : (labelled q.kindWeights).map
      (fun entry => (manner.spell entry.1, manner.number entry.2)) = q.kindWeights := by
    rw [labelled, List.map_map]
    refine (List.map_congr_left fun entry _ => ?_).trans (List.map_id _)
    show (manner.spell (.text entry.1), manner.number entry.2) = entry
    rw [hmanner.spell, hmanner.number]
  have hlanguages : q.languageWeights.map
      (fun entry => (manner.spell entry.1, manner.number entry.2)) = named q.languageWeights := by
    refine List.map_congr_left fun entry hmem => ?_
    obtain ⟨text, htext⟩ := hq.languages entry hmem
    rw [htext, hmanner.spell, hmanner.number]
    rfl
  dsimp only [members]
  rw [hkinds, hlanguages]

/-- Preferences in order are read from their document. The weights of kinds are
read first. -/
theorem readPreferences_members {manner : Manner Value} (hmanner : manner.Plain)
    {q : Preferences Value} (hq : q.Proper) :
    Memory.readPreferences (.object (members manner q)) = (do
      let kinds ← readEntries q.kindWeights
      let languages ← readEntries (named q.languageWeights)
      return ⟨kinds, labelled languages, q.preferred, q.avoided⟩) := by
  have hpreferred : readLabels (members manner q) "preferred" = .ok q.preferred :=
    readLabels_eq rfl hq.preferred
  have havoided : readLabels (members manner q) "avoided" = .ok q.avoided :=
    readLabels_eq rfl hq.avoided
  rw [Memory.readPreferences, read, Value.toMembers, Except.ok_bind, hpreferred, havoided,
    members_of_plain hmanner hq]
  rfl

theorem readEntries_ok {weights : Table String Value}
    (h : ∀ entry ∈ weights, entry.2.number?.isSome ∧ ¬ entry.2.TooLarge) :
    readEntries weights = .ok (weights.map fun entry => (entry.1, entry.2.asReal)) := by
  refine Except.mapM_ok fun entry hmem => ?_
  obtain ⟨hnumber, hsmall⟩ := h entry hmem
  rw [Value.toReal_of_number hnumber hsmall]
  rfl

theorem readEntries_overflow {weights : Table String Value}
    (hnumbers : ∀ entry ∈ weights, entry.2.number?.isSome) {entry : String × Value}
    (hmem : entry ∈ weights) (hlarge : entry.2.TooLarge) :
    readEntries weights = .error .overflow := by
  have hfails : ∀ entry : String × Value, entry.2.TooLarge →
      (do return (entry.1, ← entry.2.toReal.map .real) : Except Fault (String × Value))
        = .error .overflow := by
    intro entry hlarge
    rw [Value.toReal_eq_overflow.2 hlarge]
    rfl
  refine Except.mapM_error (fun other hother => ?_) hmem (hfails entry hlarge)
  by_cases hother' : other.2.TooLarge
  · exact .inr (hfails other hother')
  · refine .inl ⟨(other.1, other.2.asReal), ?_⟩
    rw [Value.toReal_of_number (hnumbers other hother) hother']
    rfl

section

variable {manner : Manner Value} {q : Preferences Value}

theorem forall_weights {ν : Type} {P : ν → Prop} {p : Preferences ν} :
    (∀ weight ∈ p.weights, P weight) ↔
      (∀ entry ∈ p.kindWeights, P entry.2) ∧ ∀ entry ∈ p.languageWeights, P entry.2 := by
  rw [weights, List.forall_mem_append, List.forall_mem_map, List.forall_mem_map]

/-- Without weights that are too large, preferences in order come back with
floating-point weights. -/
theorem readPreferences_ok (hmanner : manner.Plain) (hq : q.Proper)
    (h : ∀ weight ∈ q.weights, weight.number?.isSome ∧ ¬ weight.TooLarge) :
    Memory.readPreferences (.object (members manner q)) = .ok q.asReal := by
  obtain ⟨hkinds, hlanguages⟩ := forall_weights.1 h
  have hnamed : ∀ entry ∈ named q.languageWeights,
      entry.2.number?.isSome ∧ ¬ entry.2.TooLarge := List.forall_mem_map.2 hlanguages
  rw [readPreferences_members hmanner hq, readEntries_ok hkinds, Except.ok_bind,
    readEntries_ok hnamed, Except.ok_bind, Except.pure_eq, asReal, labelled, named, List.map_map,
    List.map_map]
  congr 2
  refine List.map_congr_left fun entry hmem => ?_
  obtain ⟨text, htext⟩ := hq.languages entry hmem
  show (Label.text entry.1.textOf, entry.2.asReal) = _
  rw [htext]
  rfl

/-- A weight that is too large is told as such. -/
theorem readPreferences_overflow (hmanner : manner.Plain) (hq : q.Proper)
    (hnumbers : ∀ weight ∈ q.weights, weight.number?.isSome) {weight : Value}
    (hmem : weight ∈ q.weights) (hlarge : weight.TooLarge) :
    Memory.readPreferences (.object (members manner q)) = .error .overflow := by
  obtain ⟨hkinds, hlanguages⟩ := forall_weights.1 hnumbers
  rw [readPreferences_members hmanner hq]
  by_cases hsmall : ∀ entry ∈ q.kindWeights, ¬ entry.2.TooLarge
  · rw [readEntries_ok fun entry hentry => ⟨hkinds entry hentry, hsmall entry hentry⟩,
      Except.ok_bind]
    rcases List.mem_append.1 hmem with hkind | hlanguage
    · obtain ⟨entry, hentry, rfl⟩ := List.mem_map.1 hkind
      exact absurd hlarge (hsmall entry hentry)
    · obtain ⟨entry, hentry, rfl⟩ := List.mem_map.1 hlanguage
      have hnamed : ∀ entry ∈ named q.languageWeights, entry.2.number?.isSome :=
        List.forall_mem_map.2 hlanguages
      have hmem : (entry.1.textOf, entry.2) ∈ named q.languageWeights :=
        List.mem_map_of_mem (f := fun entry => (entry.1.textOf, entry.2)) hentry
      rw [readEntries_overflow hnamed hmem hlarge, Except.error_bind]
  · obtain ⟨entry, hentry, hlarge⟩ : ∃ entry ∈ q.kindWeights, entry.2.TooLarge := by
      simpa using hsmall
    rw [readEntries_overflow hkinds hentry hlarge, Except.error_bind]

end

/-! ### Order -/

section

variable {p q : Preferences Value}

theorem Arranged.proper (h : Arranged p q) (hp : p.Proper) : q.Proper where
  languages entry hmem := hp.languages entry ((perm_of_sorted h.languages).mem_iff.1 hmem)
  preferred := hp.preferred.perm (perm_of_sorted h.preferred)
  avoided := hp.avoided.perm (perm_of_sorted h.avoided)

/-- The texts under which weights are labelled. -/
theorem map_textOf_labelled {ν : Type} (weights : Table String ν) :
    (labelled weights).map (fun entry => (entry.1.textOf, entry.2)) = weights := by
  rw [labelled, List.map_map]
  exact List.map_id _

theorem Arranged.kinds_perm (h : Arranged p q) : q.kindWeights.Perm p.kindWeights := by
  have hperm := (perm_of_sorted h.kinds).map fun entry => (entry.1.textOf, entry.2)
  rwa [map_textOf_labelled, map_textOf_labelled] at hperm

theorem Arranged.weights_perm (h : Arranged p q) : q.weights.Perm p.weights :=
  (h.kinds_perm.map _).append ((perm_of_sorted h.languages).map _)

theorem Proper.asReal (hp : p.Proper) : p.asReal.Proper :=
  ⟨List.forall_mem_map.2 hp.languages, hp.preferred, hp.avoided⟩

/-- Weights do not matter for the order. -/
theorem Arranged.asReal (h : Arranged p q) : Arranged p.asReal q.asReal := by
  have hsorted : ∀ {weights others : Table Label Value},
      sorted (.on (·.1) .label) weights = .ok others →
      sorted (.on (·.1) .label) (weights.map fun entry => (entry.1, entry.2.asReal))
        = .ok (others.map fun entry => (entry.1, entry.2.asReal)) := by
    intro weights others h
    have hmap := sorted_map (f := fun entry : Label × Value => (entry.1, entry.2.asReal))
      (p := .on (·.1) .label) (q := .on (·.1) .label) (fun _ _ => rfl) weights
    rw [hmap, h]
    rfl
  refine ⟨?_, hsorted h.languages, h.preferred, h.avoided⟩
  have hkinds := hsorted h.kinds
  rw [labelled, labelled, List.map_map, List.map_map] at hkinds
  rw [Preferences.asReal, Preferences.asReal, labelled, labelled, List.map_map, List.map_map]
  exact hkinds

/-- Labels of preferences that are all texts. -/
structure Sortable {ν : Type} (p : Preferences ν) : Prop extends Proper p where
  preferredTexts : ∀ label ∈ p.preferred, label.IsText
  avoidedTexts : ∀ label ∈ p.avoided, label.IsText

/-- Preferences whose labels are all texts have an order, and in order they stay
as they are. -/
theorem Sortable.exists_arranged (hp : p.Sortable) : ∃ q, Arranged p q ∧ Arranged q q := by
  have hlabels : ∀ labels : List Label, (∀ label ∈ labels, label.IsText) →
      ∃ others, sorted .label labels = .ok others ∧ sorted .label others = .ok others := by
    intro labels htexts
    obtain ⟨others, hsorted, _, hascending⟩ := @exists_sorted _ id _ htexts
    exact ⟨others, hsorted, sorted_of_ascending hascending⟩
  have hkindTexts : ∀ entry ∈ labelled p.kindWeights, entry.1.IsText :=
    List.forall_mem_map.2 fun entry _ => ⟨entry.1, rfl⟩
  obtain ⟨entries, hkinds, hperm, hkindOrder⟩ := exists_sorted hkindTexts
  obtain ⟨kinds, rfl⟩ := exists_labelled hperm
  obtain ⟨languages, hlanguages, _, hlanguageOrder⟩ := exists_sorted hp.languages
  obtain ⟨preferred, hpreferred, hpreferred'⟩ := hlabels _ hp.preferredTexts
  obtain ⟨avoided, havoided, havoided'⟩ := hlabels _ hp.avoidedTexts
  exact ⟨⟨kinds, languages, preferred, avoided⟩, ⟨hkinds, hlanguages, hpreferred, havoided⟩,
    sorted_of_ascending hkindOrder, sorted_of_ascending hlanguageOrder, hpreferred', havoided'⟩

theorem Floating.asReal (h : p.Floating) : p.asReal = p := by
  have hsame : ∀ {κ : Type} (weights : Table κ Value), (∀ entry ∈ weights, ∃ x, entry.2 = .real x) →
      (weights.map fun entry => (entry.1, entry.2.asReal)) = weights := by
    intro κ weights hreal
    refine (List.map_congr_left fun entry hmem => ?_).trans (List.map_id _)
    obtain ⟨x, hx⟩ := hreal entry hmem
    show (entry.1, entry.2.asReal) = entry
    rw [hx, Value.asReal_real, ← hx]
  obtain ⟨hkinds, hlanguages⟩ := forall_weights.1 h
  rw [Preferences.asReal, hsame _ hkinds, hsame _ hlanguages]

end

/-! ### What was read -/

theorem including_distinct {labels : List Label} (h : Label.Distinct labels) (label : Label) :
    Label.Distinct (including labels label) := by
  unfold including
  split
  · exact h
  · rename_i hnew
    refine List.pairwise_append.2 ⟨h, by simp, fun other hother last hlast => ?_⟩
    rw [List.mem_singleton.1 hlast]
    have hnone : ∀ known ∈ labels, (known == label) = false := by simpa using hnew
    exact hnone other hother

theorem foldl_including_distinct {found before : List Label} (h : Label.Distinct before) :
    Label.Distinct (found.foldl including before) := by
  induction found generalizing before with
  | nil => exact h
  | cons label rest ih => exact ih (including_distinct h label)

theorem readLabels_distinct {members : Table String Value} {name : String} {labels : List Label}
    (h : readLabels members name = .ok labels) : Label.Distinct labels := by
  obtain ⟨items, _, h⟩ := Except.bind_eq_ok.1 h
  obtain ⟨found, _, h⟩ := Except.bind_eq_ok.1 h
  cases h
  exact foldl_including_distinct .nil

theorem readWeights_real {members weights : Table String Value} {name : String}
    (h : readWeights (fun value => value.toReal.map .real) members name = .ok weights) :
    ∀ entry ∈ weights, ∃ x, entry.2 = .real x := by
  intro entry hentry
  obtain ⟨given, _, h⟩ := Except.bind_eq_ok.1 h
  obtain ⟨source, _, hread⟩ := Except.exists_mem_of_mapM h hentry
  obtain ⟨weight, hweight, hread⟩ := Except.bind_eq_ok.1 hread
  obtain ⟨x, _, rfl⟩ := Except.map_eq_ok.1 hweight
  cases hread
  exact ⟨x, rfl⟩

/-- Preferences that were read are proper, and their weights are floating-point
numbers. -/
theorem of_readPreferences {document : Value} {p : Preferences Value}
    (h : Memory.readPreferences document = .ok p) : p.Proper ∧ p.Floating := by
  obtain ⟨members, _, h⟩ := Except.bind_eq_ok.1 h
  obtain ⟨kinds, hkinds, h⟩ := Except.bind_eq_ok.1 h
  obtain ⟨languages, hlanguages, h⟩ := Except.bind_eq_ok.1 h
  obtain ⟨preferred, hpreferred, h⟩ := Except.bind_eq_ok.1 h
  obtain ⟨avoided, havoided, h⟩ := Except.bind_eq_ok.1 h
  cases h
  refine ⟨⟨?_, readLabels_distinct hpreferred, readLabels_distinct havoided⟩,
    forall_weights.2 ⟨readWeights_real hkinds, ?_⟩⟩
  · exact List.forall_mem_map.2 fun entry _ => ⟨entry.1, rfl⟩
  · exact List.forall_mem_map.2 (readWeights_real hlanguages)

end Preferences

end CodeHabits
