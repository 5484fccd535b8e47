import CodeHabits.Proofs.Store.Gathering
import CodeHabits.Proofs.Store.Invariants
import CodeHabits.Proofs.Store.Ready
import CodeHabits.Proofs.Value.Order

/-!
# `CodeHabits.Proofs.Store.Adding`: what a merge adds up to

A merge answers how many patterns were new, and it leaves a store that follows from the one
before and from what came in (`AddsUp`). A pattern that the store knows gains the frequency
and the files (`Pattern.Gains`). One that it does not know is taken in under an id that was
free. All else stays as it is.

What the store knows is what it recognises, and a null id is never recognised. So the names
of a store are the names that it knows only if none of its ids is null
(`Identified.known?_eq_none_iff`).

Each pattern that comes in has another name, so what the store knows of one is the same
before the merge and when its turn comes. `Enlarged` carries this through the merge, for the
number of patterns and for the new ids.
-/

set_option autoImplicit false

namespace CodeHabits

/-! ### Files -/

/-- Files behind which others were put. -/
structure FilesJoined (files others joined : List Value) : Prop where
  /-- Those that were missing stand behind, in their order and each of them once. -/
  behind : ∃ added, joined = files ++ added ∧ added.Sublist others ∧
    (∀ file ∈ added, files.any (file.same ·) = false) ∧
    added.Pairwise fun file later => later.same file = false
  /-- A file is there if it was there or is one of the others. -/
  complete : ∀ file : Value,
    joined.any (file.same ·) = (files.any (file.same ·) || others.any (file.same ·))

namespace Pattern

/-- A file is there if it was there before or is the one that is added. -/
theorem any_addSource (files : List Value) (other file : Value) :
    (addSource files other).any (file.same ·) = (files.any (file.same ·) || file.same other) := by
  unfold addSource
  split
  · rename_i hknown
    obtain ⟨known, hmem, hother⟩ := List.any_eq_true.1 hknown
    cases hfile : file.same other with
    | false => rw [Bool.or_false]
    | true =>
      -- What says the same as the other file says the same as the known one.
      rw [Bool.or_true]
      exact List.any_eq_true.2 ⟨known, hmem, Value.same_trans hfile hother⟩
  · simp

theorem filesJoined (files others : List Value) :
    FilesJoined files others (others.foldl addSource files) := by
  induction others generalizing files with
  | nil => exact ⟨⟨[], by simp⟩, by simp⟩
  | cons first rest ih =>
    obtain ⟨⟨added, hjoined, hsublist, hmissing, honce⟩, hcomplete⟩ := ih (addSource files first)
    refine ⟨?_, fun file => ?_⟩
    · rw [List.foldl_cons, hjoined]
      unfold addSource at hmissing ⊢
      split at hmissing
      · rename_i hknown
        rw [if_pos hknown]
        exact ⟨added, rfl, hsublist.cons first, hmissing, honce⟩
      · rename_i hnew
        rw [if_neg hnew]
        -- What is added later is neither among the files nor the one that was added first.
        have hapart : ∀ file ∈ added, files.any (file.same ·) = false ∧ file.same first = false := by
          intro file hfile
          simpa using hmissing file hfile
        refine ⟨first :: added, by simp, hsublist.cons_cons first, ?_, ?_⟩
        · intro file hfile
          rcases List.mem_cons.1 hfile with rfl | hadded
          · exact Bool.eq_false_iff.2 hnew
          · exact (hapart file hadded).1
        · exact List.pairwise_cons.2 ⟨fun file hfile => (hapart file hfile).2, honce⟩
    · rw [List.foldl_cons, hcomplete, any_addSource, List.any_cons, Bool.or_assoc]

/-- What becomes of a known pattern when another store knows it too: the frequencies are
summed and the files joined. -/
structure Gains (p other q : Pattern Value) : Prop where
  frequency : ∃ m n, p.frequency = .int m ∧ other.frequency = .int n ∧ q.frequency = .int (m + n)
  files : FilesJoined p.sourceFiles other.sourceFiles q.sourceFiles
  rest : q = { p with frequency := q.frequency, sourceFiles := q.sourceFiles }

end Pattern

namespace Store

open Pattern (Measured Gains)

section

variable {ν : Type} {s t u : Store ν} {p q r : Pattern ν} {ps : List (Pattern ν)}
  {name : Label × Label}

/-! ### Names -/

/-- Some pattern of the store has the name. -/
def HasName (s : Store ν) (name : Label × Label) : Prop :=
  ∃ entry ∈ s.patterns, (entry.2.name == name) = true

/-- Where no id is null, a store knows the patterns of all of its names. -/
theorem Coherent.known?_eq_none_iff (h : s.Coherent) : s.known? r = none ↔ ¬ s.HasName r.name := by
  constructor
  · rintro hunknown ⟨entry, hmem, hname⟩
    have hknown : s.known? r = some entry.2 := h.named?_of_mem hmem hname
    rw [hknown] at hunknown
    cases hunknown
  · intro hmissing
    cases hknown : s.known? r with
    | none => rfl
    | some p =>
      obtain ⟨entry, hmem, rfl⟩ := exists_mem_of_known? hknown
      exact absurd ⟨entry, hmem, h.linked.name_of_known? hknown⟩ hmissing

/-- What a store knows is kept under its id. -/
theorem Keyed.get?_of_known? (h : s.Keyed) (hknown : s.known? r = some q) :
    s.get? q.id = some q := by
  obtain ⟨id, _, hget⟩ := Option.bind_eq_some_iff.1 hknown
  rw [s.get?_congr (h.id_of_get? hget), hget]

/-! ### How many are new -/

variable [Magnitude ν]

/-- The store has grown by what it did not know, and the ids of that were free. -/
structure Enlarged (ps : List (Pattern ν)) (s t : Store ν) : Prop where
  size : t.size = s.size + ps.countP fun r => (s.known? r).isNone
  fresh : ∀ r ∈ ps, s.known? r = none → ∃ id : String,
    s.get? (.text id) = none ∧ t.known? r = some { r with id := .text id }

namespace Absorbed

/-- The store grows by a pattern that it does not know. -/
theorem size (h : Absorbed r s t) : t.size = s.size + if (s.known? r).isNone then 1 else 0 := by
  cases h with
  | gained hlookup hget _ =>
    rw [size_replace hget, known?, hlookup]
    show _ = s.size + if (s.get? _).isNone then 1 else 0
    rw [hget]
    rfl
  | taken hlookup hfree =>
    rw [size_insert hfree, known?, hlookup]
    rfl

/-- A pattern that was not known is taken in under an id that was free. -/
theorem fresh (h : Absorbed r s t) (hunknown : s.known? r = none) :
    ∃ id : String, s.get? (.text id) = none ∧ t.known? r = some { r with id := .text id } := by
  cases h with
  | gained hlookup hget _ =>
    rw [known?, hlookup] at hunknown
    have hnone : s.get? _ = none := hunknown
    rw [hget] at hnone
    cases hnone
  | @taken id _ hfree => exact ⟨id, hfree, known?_insert (text_ne_null _) BEq.rfl⟩

/-- Ids that are free afterwards were free before. -/
theorem get?_eq_none (h : Absorbed r s t) {id : Label} (hfree : t.get? id = none) :
    s.get? id = none := by
  cases hget : s.get? id with
  | none => rfl
  | some p =>
    rcases h.of_known hget with hsame | ⟨_, hgained⟩
    · rw [hsame] at hfree
      cases hfree
    · obtain ⟨q, hq, _⟩ := h.joined
      rw [hgained, hq] at hfree
      cases hfree

end Absorbed

theorem enlarged_of_forM {idOf : IdScheme}
    (hnames : ps.Pairwise fun p q => (p.name == q.name) = false) (hs : s.Linked)
    (h : (ps.forM (absorb idOf)).outcome s = (.ok (), t)) : Enlarged ps s t := by
  induction ps generalizing s with
  | nil =>
    cases h
    exact ⟨by simp, by simp⟩
  | cons r rest ih =>
    obtain ⟨hfirst, hrest⟩ := List.pairwise_cons.1 hnames
    obtain ⟨_, u, hone, hmore⟩ := Change.bind_eq_ok.1 h
    have habsorbed := absorb_eq_ok hone
    have hmerged := merged_of_forM hrest (habsorbed.linked hs) hmore
    obtain ⟨hsize, hfresh⟩ := ih hrest (habsorbed.linked hs) hmore
    -- The others have other names, so the store knew of them what it knows now.
    have hsame : ∀ other ∈ rest, u.known? other = s.known? other :=
      fun other hother => habsorbed.known?_of_ne hs (hfirst other hother)
    refine ⟨?_, fun other hother hunknown => ?_⟩
    · have hcount : (rest.countP fun other => (u.known? other).isNone)
          = rest.countP fun other => (s.known? other).isNone :=
        List.countP_congr fun other hother => by rw [hsame other hother]
      rw [hsize, habsorbed.size, hcount, List.countP_cons]
      omega
    · rcases List.mem_cons.1 hother with rfl | hother
      · obtain ⟨id, hfree, hknown⟩ := habsorbed.fresh hunknown
        refine ⟨id, hfree, ?_⟩
        rw [hmerged.others other fun later hlater => by rw [BEq.comm]; exact hfirst later hlater]
        exact hknown
      · obtain ⟨id, hfree, hknown⟩ := hfresh other hother (by rw [hsame other hother]; exact hunknown)
        exact ⟨id, habsorbed.get?_eq_none hfree, hknown⟩

end

/-! ### What a merge leaves -/

variable {s t : Store Value} {p q r : Pattern Value} {ps : List (Pattern Value)} {count : Nat}

/-- What a merge leaves of a store and of the patterns that came in, and what it answers. -/
structure AddsUp (ps : List (Pattern Value)) (count : Nat) (s t : Store Value) : Prop where
  /-- The patterns that were not known are counted. -/
  counted : count = ps.countP fun r => (s.known? r).isNone
  /-- The names are those of the store and those that came in. -/
  names : ∀ name, t.HasName name ↔ s.HasName name ∨ ∃ r ∈ ps, (r.name == name) = true
  /-- A pattern that was known gains from the one that came in. -/
  known : ∀ r ∈ ps, ∀ p, s.known? r = some p → ∃ q, t.get? p.id = some q ∧ p.Gains r q
  /-- One that was not known is taken in as it is, under an id that was free. -/
  new : ∀ r ∈ ps, s.known? r = none → ∃ id : String,
    s.get? (.text id) = none ∧ t.get? (.text id) = some { r with id := .text id }
  /-- What is none of these stays as it was. -/
  others : ∀ entry ∈ s.patterns, (∀ r ∈ ps, s.known? r ≠ some entry.2) → entry ∈ t.patterns
  /-- No two patterns have the same id. -/
  ids : t.patterns.Pairwise fun a b => (a.2.id == b.2.id) = false

/-- Whole numbers of sightings are summed. -/
theorem Joined.gains (hp : ∃ n, p.frequency = .int n) (hr : ∃ n, r.frequency = .int n)
    (h : Joined (some p) r q) : p.Gains r q := by
  obtain ⟨m, hm⟩ := hp
  obtain ⟨n, hn⟩ := hr
  obtain ⟨frequency, hadd, rfl⟩ := h
  rw [hm, hn] at hadd
  refine ⟨⟨m, n, hm, hn, ?_⟩, Pattern.filesJoined _ _, rfl⟩
  exact (Except.ok.inj hadd).symm

/-- A merge adds the names that come in, and loses none. -/
theorem Merged.hasName_iff (h : Merged ps s t) (hdistinct : Table.Distinct s.patterns) (name : Label × Label) :
    t.HasName name ↔ s.HasName name ∨ ∃ r ∈ ps, (r.name == name) = true := by
  -- What the store knows under the name of a pattern has this name.
  have hnamed : ∀ r q, t.known? r = some q → (r.name == name) = true → t.HasName name := by
    intro r q hknown hname
    obtain ⟨entry, hmem, rfl⟩ := exists_mem_of_known? hknown
    exact ⟨entry, hmem, PartialEquivBEq.trans (h.linked.name_of_known? hknown) hname⟩
  constructor
  · rintro ⟨entry, hmem, hname⟩
    rcases h.entries entry hmem with hold | ⟨r, hr, hknown⟩
    · exact .inl ⟨entry, hold, hname⟩
    · refine .inr ⟨r, hr, ?_⟩
      exact PartialEquivBEq.trans (PartialEquivBEq.symm (h.linked.name_of_known? hknown)) hname
  · rintro (⟨entry, hmem, hname⟩ | ⟨r, hr, hname⟩)
    · rcases h.kept _ _ (Table.get?_of_mem hdistinct hmem) with hkept | ⟨r, hr, hknown, hgained⟩
      · obtain ⟨other, hother, _, hsame⟩ := Table.exists_mem_of_get? hkept
        exact ⟨other, hother, by rw [hsame]; exact hname⟩
      · obtain ⟨q, hq, hjoined⟩ := h.joined r hr
        rw [hknown] at hjoined
        obtain ⟨_, _, hsame⟩ := hjoined
        -- The pattern that has gained has kept its name.
        refine hnamed r q hq ?_
        have hqname : q.name = entry.2.name := by rw [hsame]; rfl
        rw [← hqname] at hname
        exact PartialEquivBEq.trans (PartialEquivBEq.symm (h.linked.name_of_known? hq)) hname
    · obtain ⟨q, hq, _⟩ := h.joined r hr
      exact hnamed r q hq hname

/-- What no pattern that comes in is known as stays where it is. -/
theorem Merged.mem_of_unknown (h : Merged ps s t) (hkeyed : s.Keyed)
    (hdistinct : Table.Distinct s.patterns) (htkeyed : t.Keyed) {entry : Label × Pattern Value}
    (hmem : entry ∈ s.patterns) (hunknown : ∀ r ∈ ps, s.known? r ≠ some entry.2) :
    entry ∈ t.patterns := by
  rcases h.kept _ _ (Table.get?_of_mem hdistinct hmem) with hkept | ⟨r, hr, hknown, _⟩
  · obtain ⟨other, hother, _, hsame⟩ := Table.exists_mem_of_get? hkept
    have hkey : other.1 = entry.1 := by rw [htkeyed other hother, hsame, hkeyed entry hmem]
    have hentry : other = entry := Prod.ext hkey hsame
    rw [← hentry]
    exact hother
  · exact absurd hknown (hunknown r hr)

/-- A merge that does not fail adds up what its records describe. -/
theorem addsUp_of_merge {idOf : IdScheme} {default : Smoothing Value} {records : List Value}
    (hlinked : s.Linked) (hkeyed : s.Keyed) (hdistinct : Table.Distinct s.patterns)
    (hwhole : s.Every fun p => ∃ n, p.frequency = .int n)
    (h : (merge idOf readRecord default records).outcome s = (.ok count, t)) :
    ∃ ps, records.mapM (patternOf readRecord) = .ok ps ∧ Separate ps ∧ AddsUp ps count s t := by
  have htkeyed : t.Keyed :=
    (structural_keyed.keeps_merge idOf _ default records).of_outcome h hkeyed
  have htdistinct : Table.Distinct t.patterns :=
    (structural_distinct.keeps_merge idOf _ default records).of_outcome h hdistinct
  obtain ⟨ps, hps, hseparate, hall, hcount⟩ := merge_eq_ok h
  have hmerged := merged_of_forM hseparate.names hlinked hall
  have henlarged := enlarged_of_forM hseparate.names hlinked hall
  refine ⟨ps, hps, hseparate, ?_, hmerged.hasName_iff hdistinct, ?_, ?_, ?_, ?_⟩
  · rw [hcount, henlarged.size]
    omega
  · intro r hr p hknown
    obtain ⟨q, hq, hjoined⟩ := hmerged.joined r hr
    rw [hknown] at hjoined
    obtain ⟨entry, hmem, rfl⟩ := exists_mem_of_known? hknown
    have hgains := Joined.gains (hwhole entry hmem) (measured_of_mapM hps r hr).frequency hjoined
    refine ⟨q, ?_, hgains⟩
    have hid : q.id = entry.2.id := by rw [hgains.rest]
    rw [← hid]
    exact htkeyed.get?_of_known? hq
  · intro r hr hunknown
    obtain ⟨id, hfree, hknown⟩ := henlarged.fresh r hr hunknown
    exact ⟨id, hfree, htkeyed.get?_of_known? hknown⟩
  · intro entry hmem hunknown
    exact hmerged.mem_of_unknown hkeyed hdistinct htkeyed hmem hunknown
  · refine List.Pairwise.imp_of_mem (fun {a b} ha hb hab => ?_) htdistinct
    rw [← htkeyed a ha, ← htkeyed b hb]
    exact hab

end Store

end CodeHabits
