import CodeHabits.Proofs.Store.Restoring
import CodeHabits.Proofs.Value.Order

/-!
# `CodeHabits.Proofs.Store.Invariants`: what the operations of a store keep

A store changes a pattern in its place or takes one in. So what is true of every
pattern stays true if the changes keep it and new patterns have it: there is one
theorem for each operation of a store.
-/

set_option autoImplicit false

namespace CodeHabits.Store

open Time (Timestamp)

variable {ν : Type} {P : Pattern ν → Prop}

/-- Every pattern of the store is of some kind. -/
def Every (P : Pattern ν → Prop) (s : Store ν) : Prop :=
  ∀ entry ∈ s.patterns, P entry.2

theorem every_empty (m : Smoothing ν) : Every P (empty m) := by
  simp [Every, empty]

theorem Every.of_get? {s : Store ν} (h : Every P s) {id : Label} {p : Pattern ν}
    (hget : s.get? id = some p) : P p := by
  obtain ⟨entry, hmem, _, rfl⟩ := Table.exists_mem_of_get? hget
  exact h entry hmem

theorem Every.replace {s : Store ν} (h : Every P s) (id : Label) {p : Pattern ν} (hp : P p) :
    Every P (s.replace id p) :=
  Table.forall_values_put h hp

theorem Every.insert {s : Store ν} (h : Every P s) {p : Pattern ν} (hp : P p) :
    Every P (s.insert p) :=
  Table.forall_values_put h hp

theorem every_ofPatterns_iff {m : Smoothing ν} {ps : List (Pattern ν)} :
    Every P (ofPatterns m ps) ↔ ∀ p ∈ ps, P p :=
  List.forall_mem_map

theorem every_ofPatterns {m : Smoothing ν} {ps : List (Pattern ν)} (h : ∀ p ∈ ps, P p) :
    Every P (ofPatterns m ps) :=
  every_ofPatterns_iff.2 h

theorem every_alter {α : Type} {id : Label} {x : Change (Pattern ν) α} (hx : Change.Keeps P x) :
    Change.Keeps (Every P) (alter id x) := by
  intro s h
  rw [outcome_alter]
  cases hget : s.get? id with
  | none => exact h
  | some p => exact h.replace id (hx p (h.of_get? hget))

variable [Magnitude ν]

/-- An edit counts with its confidence forced into the unit interval. -/
theorem every_edit {α : Type} {id : Label} {x : Change (Pattern ν) α}
    (hx : ∀ p, P p → P (clampPattern.outcome (x.outcome p).2).2) :
    Change.Keeps (Every P) (edit id x) := by
  intro s h
  rw [outcome_edit]
  cases hget : s.get? id with
  | none => exact h
  | some p => exact h.replace id (hx p (h.of_get? hget))

theorem every_upsert {idOf : IdScheme} {now : Timestamp} {c : Sighting}
    (hagain : ∀ m, Change.Keeps P (seeAgain m now c))
    (hnew : ∀ m id p, firstSighting m (.text id) now c = .ok p → P ((countStyle c).outcome p).2) :
    Change.Keeps (Every P) (upsert idOf now c) := by
  intro s h
  cases hlookup : s.lookup? c.language c.signature with
  | some id =>
    rw [upsert, Change.outcome_bind_get, hlookup]
    exact Change.keeps_bind (every_alter (hagain _)) (fun _ => Change.keeps_pure _) s h
  | none =>
    rcases outcome_upsert_new idOf now hlookup with hsame | ⟨p, hp, hafter⟩
    · rw [hsame]
      exact h
    · rw [hafter]
      exact h.insert (hnew _ _ p hp)

/-- What another store knows is new under a free id, or adds to what is known. -/
theorem every_absorb {idOf : IdScheme} {p : Pattern ν} (hgain : Change.Keeps P (gain p))
    (hnew : ∀ id, P { p with id := .text id }) : Change.Keeps (Every P) (absorb idOf p) := by
  refine Change.keeps_bind_get fun s h => ?_
  cases s.lookup? p.language p.signature with
  | some id => exact every_alter hgain s h
  | none => exact h.insert (hnew _)

/-- Patterns that are read from records are what the drafts of the records give. -/
theorem forall_of_patternOf {α : Type} {decode : α → Except Fault (Draft ν)} {records : List α}
    {ps : List (Pattern ν)}
    (hdraft : ∀ record d p, decode record = .ok d → d.pattern = .ok p → P p)
    (h : records.mapM (patternOf decode) = .ok ps) : ∀ p ∈ ps, P p := by
  intro p hp
  obtain ⟨record, _, hrecord⟩ := Except.exists_mem_of_mapM h hp
  obtain ⟨d, hd, hpattern⟩ := Except.bind_eq_ok.1 hrecord
  exact hdraft record d p (Except.mapError_eq_ok.1 hd) hpattern

/-- A store that records describe holds the patterns of their drafts. -/
theorem every_ofRecords {α : Type} {decode : α → Except Fault (Draft ν)} {m : Smoothing ν}
    {records : List α} {s : Store ν}
    (hdraft : ∀ record d p, decode record = .ok d → d.pattern = .ok p → P p)
    (h : ofRecords decode m records = .ok s) : Every P s := by
  obtain ⟨ps, hps, _, rfl⟩ := ofRecords_eq_ok_iff.1 h
  exact every_ofPatterns (forall_of_patternOf hdraft hps)

theorem every_merge {α : Type} {idOf : IdScheme} {decode : α → Except Fault (Draft ν)}
    {default : Smoothing ν} {records : List α}
    (hincoming : ∀ incoming, ofRecords decode default records = .ok incoming →
      Every (fun p => Change.Keeps P (gain p) ∧ ∀ id, P { p with id := .text id }) incoming) :
    Change.Keeps (Every P) (merge idOf decode default records) := by
  unfold merge
  refine Change.keeps_bind Change.keeps_get fun _ => ?_
  refine Change.keeps_bind_ofExcept fun incoming h => ?_
  have hall := hincoming incoming h
  refine Change.keeps_bind (Change.keeps_forM fun p hp => ?_) fun _ => ?_
  · obtain ⟨entry, hentry, rfl⟩ := List.mem_map.1 hp
    obtain ⟨hgain, hnew⟩ := hall entry hentry
    exact every_absorb hgain hnew
  · exact Change.keeps_bind Change.keeps_get fun _ => Change.keeps_pure _

end CodeHabits.Store

/-!
## Which patterns a store finds

Patterns are found by their ids and by their names. `get?_replace`, `get?_insert` and
`lookup?_insert` tell which of them are found after a store was written to.

`Linked` says that the index leads to patterns with the name that was looked up. It is
less than `Coherent`: a store that holds a null id has it too, since `lookup?` never answers
one. So every store has it, whatever snapshots it was made of.
-/

namespace CodeHabits.Store

open Time (Timestamp)

variable {ν : Type} {s t : Store ν} {p q : Pattern ν} {id : Label}

/-! ### After a store was written to -/

theorem get?_congr (s : Store ν) {id other : Label} (h : (id == other) = true) :
    s.get? id = s.get? other :=
  Table.get?_congr s.patterns h

theorem get?_replace (s : Store ν) (id : Label) (p : Pattern ν) (other : Label) :
    (s.replace id p).get? other = if id == other then some p else s.get? other :=
  Table.get?_put s.patterns id p other

theorem get?_insert (s : Store ν) (p : Pattern ν) (other : Label) :
    (s.insert p).get? other = if p.id == other then some p else s.get? other :=
  Table.get?_put s.patterns p.id p other

/-- A pattern that is taken in under a free id hides no other one. -/
theorem get?_insert_of_free {other : Label}
    (hfree : s.get? p.id = none) (hget : s.get? other = some q) :
    (s.insert p).get? other = some q := by
  rw [get?_insert, if_neg, hget]
  intro hid
  rw [s.get?_congr hid, hget] at hfree
  cases hfree

/-- An id that is free leads to no pattern. -/
theorem get?_freeId (s : Store ν) (proposed : String) :
    s.get? (.text (s.freeId proposed)) = none :=
  Table.get?_eq_none_iff.2 (has_freeId s proposed)

/-- Where ids are texts, what patterns are kept under are texts. -/
theorem Coherent.keys_isText (h : s.Coherent) (hids : ∀ entry ∈ s.patterns, entry.2.id.IsText) :
    ∀ entry ∈ s.patterns, entry.1.IsText := by
  intro entry hentry
  rw [h.keyed entry hentry]
  exact hids entry hentry

/-- A pattern that is taken in is recognised by its name, unless its id is null. -/
theorem lookup?_insert (hid : (p.id == .null) = false) (language signature : Label) :
    (s.insert p).lookup? language signature
      = if p.name == (language, signature) then some p.id else s.lookup? language signature := by
  -- The index answers by name, and of its answers a null id counts as none.
  show (Table.get? (s.index.put p.name p.id) (language, signature)).filter _ = _
  rw [Table.get?_put]
  split
  · simp [hid]
  · rfl

/-! ### What the index leads to -/

/-- What the store recognises is a pattern of it with the name that was looked up. -/
def Linked (s : Store ν) : Prop :=
  ∀ language signature id, s.lookup? language signature = some id →
    ∃ p, s.get? id = some p ∧ (p.name == (language, signature)) = true

theorem linked_empty (m : Smoothing ν) : (empty m).Linked :=
  nofun

theorem Coherent.linked (h : s.Coherent) : s.Linked := by
  intro language signature id hlookup
  obtain ⟨entry, hmem, rfl, hname⟩ := h.lookup?_some hlookup
  exact ⟨entry.2, h.get?_of_mem hmem, hname⟩

/-- The outline tells the names of the patterns by what they are kept under. -/
theorem get?_outline (s : Store ν) (id : Label) :
    Table.get? s.outline id = (s.get? id).map fun p => (p.id, p.name) :=
  Table.get?_map_values s.patterns (fun p => (p.id, p.name)) id

theorem linked_ofOutline : OfOutline (Linked (ν := ν)) := by
  intro s t h houtline hindex language signature id hlookup
  have hlookup : s.lookup? language signature = some id := by
    rw [← hlookup, lookup?, lookup?, hindex]
  obtain ⟨p, hget, hname⟩ := h language signature id hlookup
  have hkept : (t.get? id).map (fun p => (p.id, p.name)) = some (p.id, p.name) := by
    rw [← get?_outline, houtline, get?_outline, hget]
    rfl
  -- What is kept under the id may have changed, but neither its id nor its name has.
  obtain ⟨q, hq, hsame⟩ := Option.map_eq_some_iff.1 hkept
  exact ⟨q, hq, by rw [(Prod.mk.inj hsame).2]; exact hname⟩

theorem Linked.insert (h : s.Linked) (hid : (p.id == .null) = false) (hfree : s.get? p.id = none) :
    (s.insert p).Linked := by
  intro language signature id hlookup
  rw [lookup?_insert hid] at hlookup
  split at hlookup
  · rename_i hnew
    cases hlookup
    exact ⟨p, by rw [get?_insert, if_pos BEq.rfl], hnew⟩
  · obtain ⟨q, hget, hname⟩ := h language signature id hlookup
    exact ⟨q, get?_insert_of_free hfree hget, hname⟩

/-- Patterns that are separate make up a linked store, under whatever ids. -/
theorem linked_ofPatterns {m : Smoothing ν} {ps : List (Pattern ν)} (h : Separate ps) :
    (ofPatterns m ps).Linked := by
  intro language signature id hlookup
  obtain ⟨hget, _⟩ := Option.filter_eq_some_iff.1 hlookup
  obtain ⟨named, hmem, hname, rfl⟩ := Table.exists_mem_of_get? hget
  obtain ⟨p, hp, rfl⟩ := List.mem_map.1 hmem
  -- No id stands twice, so none of the patterns was overwritten by another one.
  have hids : Table.Distinct (ofPatterns m ps).patterns := List.pairwise_map.2 h.ids
  exact ⟨p, Table.get?_of_mem hids (List.mem_map_of_mem hp), hname⟩

/-! ### Learning and merging -/

theorem stable_linked : Stable (Linked (ν := ν)) where
  ofOutline := linked_ofOutline
  insert _ _ hs hid hfree _ := hs.insert hid (Table.get?_eq_none_iff.2 hfree)

section

variable [Magnitude ν]

theorem linked_upsert (idOf : IdScheme) (now : Timestamp) (c : Sighting) :
    Change.Keeps (Linked (ν := ν)) (upsert idOf now c) :=
  stable_linked.keeps_upsert idOf now c

end

end CodeHabits.Store

/-!
## What holds however a store came about

A store is made of patterns that are separate. After that it is written to in two ways:
a pattern is changed in its place, or one that is not recognised yet is taken in under a text
that was free. What all three ways keep is `Structural`, whatever the ids were that came with
the patterns.

Four properties are of this kind. The index leads where it should (`structural_linked`),
every pattern is kept under its own id (`structural_keyed`), and no two are kept under the
same one (`structural_distinct`). These hold with null ids as well. That two names are never
the same does not, but null ids are all that stands in the way of it: a store without any has
maps that agree (`structural_coherent`).
-/

namespace CodeHabits.Store

open Time (Timestamp)

variable {ν : Type}

/-- A property that stores have however they were made and written to: whatever patterns are
separate make up a store with it, and every writing keeps it. -/
structure Structural (P : Store ν → Prop) : Prop extends Stable P where
  ofPatterns : ∀ m ps, Separate ps → P (ofPatterns m ps)

theorem Structural.empty {P : Store ν → Prop} (h : Structural P) (m : Smoothing ν) : P (.empty m) :=
  h.ofPatterns m [] ⟨.nil, .nil⟩

/-! ### Four of them -/

theorem structural_linked : Structural (Linked (ν := ν)) where
  toStable := stable_linked
  ofPatterns _ _ hseparate := linked_ofPatterns hseparate

/-- Every pattern is kept under its own id. -/
def Keyed (s : Store ν) : Prop :=
  ∀ entry ∈ s.patterns, entry.1 = entry.2.id

/-- What is found under an id has this id. -/
theorem Keyed.id_of_get? {s : Store ν} (h : s.Keyed) {id : Label} {p : Pattern ν}
    (hget : s.get? id = some p) : (p.id == id) = true := by
  obtain ⟨entry, hmem, hkey, rfl⟩ := Table.exists_mem_of_get? hget
  rw [← h entry hmem]
  exact hkey

/-- A pattern under a free id comes last. -/
theorem patterns_insert {s : Store ν} {p : Pattern ν} (hfree : s.has p.id = false) :
    (s.insert p).patterns = s.patterns ++ [(p.id, p)] :=
  Table.put_of_not_has hfree

theorem structural_keyed : Structural (Keyed (ν := ν)) where
  ofPatterns m ps _ := by
    show ∀ entry ∈ ps.map fun p => (p.id, p), entry.1 = entry.2.id
    simp
  ofOutline := by
    intro s t hs houtline _
    -- What patterns are kept under and their ids are both in the outline.
    have hkeyed : ∀ o ∈ s.outline, o.1 = o.2.1 := List.forall_mem_map.2 hs
    rw [← houtline] at hkeyed
    exact List.forall_mem_map.1 hkeyed
  insert := by
    intro s p hs _ hfree _
    rw [Keyed, patterns_insert hfree]
    intro entry hentry
    rcases List.mem_append.1 hentry with hold | hnew
    · exact hs entry hold
    · rw [List.mem_singleton.1 hnew]

theorem structural_distinct : Structural fun s : Store ν => Table.Distinct s.patterns where
  ofPatterns _ _ hseparate := List.pairwise_map.2 hseparate.ids
  ofOutline := by
    intro s t hs houtline _
    have hkeys : s.outline.Pairwise fun a b => (a.1 == b.1) = false := List.pairwise_map.2 hs
    rw [← houtline] at hkeys
    exact List.pairwise_map.1 hkeys
  insert := by
    intro s p hs _ hfree _
    show Table.Distinct (s.insert p).patterns
    rw [patterns_insert hfree]
    exact hs.append hfree

/-- No pattern has a null id. -/
def Identified (s : Store ν) : Prop :=
  ∀ entry ∈ s.patterns, (entry.2.id == .null) = false

theorem structural_coherent : Structural fun s : Store ν => s.Identified → s.Coherent where
  ofPatterns m ps hseparate hids := by
    apply coherent_ofPatterns hseparate
    intro p hp
    exact hids (p.id, p) (List.mem_map_of_mem hp)
  ofOutline := by
    intro s t hs houtline hindex hids
    refine (hs ?_).congr houtline hindex
    have hknown : ∀ o ∈ t.outline, (o.2.1 == .null) = false := List.forall_mem_map.2 hids
    rw [houtline] at hknown
    exact List.forall_mem_map.1 hknown
  insert := by
    intro s p hs hid hfree hnew hids
    apply stable_coherent.insert s p _ hid hfree hnew
    apply hs
    intro entry hentry
    apply hids entry
    rw [patterns_insert hfree]
    exact List.mem_append_left _ hentry

end CodeHabits.Store

/-!
## What becomes of each pattern

A store never gives a pattern up while it learns, forgets or merges: what was found under
an id is found there later, changed in some way. `Carries R` says that the ways are of a
kind `R`, which may be another one for every id.

With the first store fixed, this is a property of the second one, so it is shown as an
invariant. Every operation changes patterns in their place or takes one in under a free id.
So there is one theorem for each of them, and each asks of `R` only that the change of a
single pattern keeps it.
-/

namespace CodeHabits.Store

open Time (Timestamp)

variable {ν α : Type} {R : Label → Pattern ν → Pattern ν → Prop} {s t : Store ν}

/-- Every pattern of the first store is still there in the second one, and has changed as
`R` says. -/
def Carries (R : Label → Pattern ν → Pattern ν → Prop) (s t : Store ν) : Prop :=
  ∀ id p, s.get? id = some p → ∃ q, t.get? id = some q ∧ R id p q

theorem Carries.refl (h : ∀ id p, R id p p) (s : Store ν) : Carries R s s :=
  fun id p hget => ⟨p, hget, h id p⟩

/-- A change of a pattern in its place. -/
theorem Carries.replace (h : Carries R s t) {id : Label} {q r : Pattern ν}
    (hget : t.get? id = some q) (hr : ∀ other p, R other p q → R other p r) :
    Carries R s (t.replace id r) := by
  intro other p hp
  obtain ⟨known, hknown, hrelated⟩ := h other p hp
  rw [get?_replace]
  by_cases hid : (id == other) = true
  · rw [if_pos hid]
    rw [← t.get?_congr hid, hget] at hknown
    cases hknown
    exact ⟨r, rfl, hr other p hrelated⟩
  · rw [if_neg hid]
    exact ⟨known, hknown, hrelated⟩

theorem Carries.insert (h : Carries R s t) {q : Pattern ν} (hfree : t.get? q.id = none) :
    Carries R s (t.insert q) := by
  intro id p hp
  obtain ⟨known, hknown, hrelated⟩ := h id p hp
  exact ⟨known, get?_insert_of_free hfree hknown, hrelated⟩

theorem carries_alter {id : Label} {x : Change (Pattern ν) α}
    (hx : ∀ id p, Change.Keeps (R id p) x) : Change.Keeps (Carries R s) (alter id x) := by
  intro t h
  rw [outcome_alter]
  cases hget : t.get? id with
  | none => exact h
  | some q => exact h.replace hget fun other p hq => hx other p q hq

variable [Magnitude ν]

theorem carries_upsert {idOf : IdScheme} {now : Timestamp} {c : Sighting}
    (hagain : ∀ m id p, Change.Keeps (R id p) (seeAgain m now c)) :
    Change.Keeps (Carries R s) (upsert idOf now c) := by
  intro t h
  cases hlookup : t.lookup? c.language c.signature with
  | some id =>
    rw [upsert, Change.outcome_bind_get, hlookup]
    exact Change.keeps_bind (carries_alter (hagain _)) (fun _ => Change.keeps_pure _) t h
  | none =>
    rcases outcome_upsert_new idOf now hlookup with hsame | ⟨p, hp, hafter⟩
    · rw [hsame]
      exact h
    · obtain ⟨hid, _⟩ := is_countStyle c p (is_firstSighting hp)
      rw [hafter]
      refine h.insert ?_
      rw [hid]
      exact get?_freeId t _

theorem carries_absorb {idOf : IdScheme} {r : Pattern ν}
    (hgain : ∀ id p, Change.Keeps (R id p) (gain r)) :
    Change.Keeps (Carries R s) (absorb idOf r) := by
  refine Change.keeps_bind_get fun t h => ?_
  cases t.lookup? r.language r.signature with
  | some id => exact carries_alter hgain t h
  | none => exact h.insert (get?_freeId t _)

theorem carries_merge {β : Type} {idOf : IdScheme} {decode : β → Except Fault (Draft ν)}
    {default : Smoothing ν} {records : List β}
    (hincoming : ∀ incoming, ofRecords decode default records = .ok incoming →
      Every (fun r => ∀ id p, Change.Keeps (R id p) (gain r)) incoming) :
    Change.Keeps (Carries R s) (merge idOf decode default records) := by
  unfold merge
  refine Change.keeps_bind Change.keeps_get fun _ => ?_
  refine Change.keeps_bind_ofExcept fun incoming h => ?_
  refine Change.keeps_bind (Change.keeps_forM fun r hr => ?_) fun _ => ?_
  · obtain ⟨entry, hentry, rfl⟩ := List.mem_map.1 hr
    exact carries_absorb (hincoming incoming h entry hentry)
  · exact Change.keeps_bind Change.keeps_get fun _ => Change.keeps_pure _

end CodeHabits.Store
