import CodeHabits.Proofs.Pattern.Keeping
import CodeHabits.Proofs.Table
import CodeHabits.Store
import Mathlib.Data.List.Nodup
import Mathlib.Data.List.Perm.Subperm

/-!
# `CodeHabits.Proofs.Store.Coherence`: patterns and index say the same

A store finds patterns by their ids and by what they are recognised by.
`Coherent` says that the two ways agree: every pattern is kept under its own
id, the index leads from its name to this id, the index holds nothing else, and
neither two ids nor two names are the same.

The invariant leans on one more fact, `known`: no id is null. `lookup?` never
answers a null id, so a store that held one would take the pattern in a second
time, under another id and the same name.

What a pattern is known under and recognised by makes up its outline. Changing
a pattern in its place leaves the outline and the index as they are. What these
decide is `OfOutline`, and the invariant is of this kind, so it stays. The other
way to write to a store is to take a pattern in under an id and a name that are
both new (`Coherent.insert`). Every operation of a store is made of these two, so
it keeps whatever both of them keep, which is `Stable`.
-/

set_option autoImplicit false

/-!
## An id that is not in use

`Store.freeId` tries a proposed id, then the same with `_2`, `_3` and so on
behind it. `freeId_spec` states what it finds: the first of these that is not
in use. There always is one, whatever was proposed and whatever ids the store
holds: the tried ids are pairwise different (`idCandidate_injective`), and one
more of them is looked at than there are patterns.
-/

namespace CodeHabits

/-- Different numbers have different digits. -/
theorem toString_nat_injective {m n : Nat} (h : toString m = toString n) : m = n := by
  have hdigits := congrArg String.toList h
  simp only [Nat.toString_eq_ofList_toDigits, String.toList_ofList] at hdigits
  have hvalue := congrArg (fun ds => Nat.ofDigitChars 10 ds 0) hdigits
  simpa only [Nat.ofDigitChars_ten_toDigits] using hvalue

namespace Store

variable {ν : Type}

/-- Different numbers behind the proposed id make different ids, and the
proposed id itself has none. -/
theorem idCandidate_injective (proposed : String) :
    Function.Injective (idCandidate proposed) := by
  have hself : ∀ n : Nat, proposed ++ "_" ++ toString (n + 2) ≠ proposed := by
    intro n h
    have hlen := congrArg String.length h
    have hone : "_".length = 1 := rfl
    simp only [String.length_append, hone] at hlen
    omega
  intro m n h
  cases m with
  | zero =>
    cases n with
    | zero => rfl
    | succ n => exact absurd h.symm (hself n)
  | succ m =>
    cases n with
    | zero => exact absurd h (hself m)
    | succ n =>
      have htail : (toString (m + 2)).toList = (toString (n + 2)).toList := by
        simpa [idCandidate, ← String.toList_inj] using h
      have hvalue := toString_nat_injective (String.toList_inj.1 htail)
      omega

/-- Of one more candidate than there are patterns, some one is not in use. -/
theorem exists_free_candidate (s : Store ν) (proposed : String) :
    ∃ n ∈ List.range (s.size + 1), s.has (.text (idCandidate proposed n)) = false := by
  by_contra hall
  simp only [not_exists, not_and, Bool.not_eq_false] at hall
  -- Compared by key, all candidates would be among the ids of the patterns.
  let tried := (List.range (s.size + 1)).map fun n => Key.text (idCandidate proposed n)
  have hnodup : tried.Nodup := by
    refine List.Nodup.map (fun m n h => ?_) List.nodup_range
    exact idCandidate_injective proposed (Key.text.inj h)
  have hsub : tried ⊆ s.patterns.map fun entry => entry.1.key := by
    intro key hkey
    obtain ⟨n, hn, rfl⟩ := List.mem_map.1 hkey
    obtain ⟨entry, hentry, hid⟩ := List.any_eq_true.1 (hall n hn)
    exact List.mem_map.2 ⟨entry, hentry, Label.beq_iff.1 hid⟩
  have hlen := (List.subperm_of_subset hnodup hsub).length_le
  simp only [tried, List.length_map, List.length_range, size] at hlen
  omega

/-- The free id is the first candidate that is not in use: every candidate
before it is, and it is not. -/
theorem freeId_spec (s : Store ν) (proposed : String) :
    ∃ n, s.freeId proposed = idCandidate proposed n ∧
      s.has (.text (idCandidate proposed n)) = false ∧
      ∀ m < n, s.has (.text (idCandidate proposed m)) = true := by
  have hfound : freeId s proposed
      = (((List.range (s.size + 1)).find? fun n => !s.has (.text (idCandidate proposed n))).map
          (idCandidate proposed)).getD proposed := by
    rw [freeId, List.find?_map]
    rfl
  obtain ⟨k, hk, hfree⟩ := exists_free_candidate s proposed
  -- The search ends, because some candidate passes its test.
  have hsome : ((List.range (s.size + 1)).find? fun n =>
      !s.has (.text (idCandidate proposed n))).isSome :=
    List.find?_isSome.2 ⟨k, hk, by rw [hfree, Bool.not_false]⟩
  obtain ⟨n, hn⟩ := Option.isSome_iff_exists.1 hsome
  obtain ⟨hnfree, _, hbefore⟩ := List.find?_range_eq_some.1 hn
  rw [hn] at hfound
  exact ⟨n, hfound, by simpa using hnfree, fun m hm => by simpa using hbefore m hm⟩

/-- The free id is not in use. -/
theorem has_freeId (s : Store ν) (proposed : String) :
    s.has (.text (s.freeId proposed)) = false := by
  obtain ⟨n, hn, hfree, _⟩ := freeId_spec s proposed
  rw [hn]
  exact hfree

end Store

end CodeHabits

/-! ## Agreement -/

namespace CodeHabits.Store

open Time (Timestamp)

variable {ν : Type}

/-- The patterns and the index agree. -/
structure Coherent (s : Store ν) : Prop where
  /-- Every pattern is kept under its own id. -/
  keyed : ∀ entry ∈ s.patterns, entry.1 = entry.2.id
  /-- No two patterns have the same id. -/
  ids : Table.Distinct s.patterns
  /-- No two patterns are recognised by the same. -/
  names : s.patterns.Pairwise fun a b => (a.2.name == b.2.name) = false
  /-- The index leads from the name of every pattern to its id. -/
  indexed : s.index = s.patterns.map fun entry => (entry.2.name, entry.2.id)
  /-- No id is null. -/
  known : ∀ entry ∈ s.patterns, (entry.2.id == .null) = false

/-- What the patterns are kept under, known under and recognised by. -/
def outline (s : Store ν) : List (Label × Label × (Label × Label)) :=
  s.patterns.map fun entry => (entry.1, entry.2.id, entry.2.name)

theorem coherent_empty (m : Smoothing ν) : (empty m).Coherent where
  keyed := by simp [empty]
  ids := .nil
  names := .nil
  indexed := rfl
  known := by simp [empty]

/-- A pattern under a new id and with a new name is taken in at the end of both
maps. -/
theorem insert_eq {s : Store ν} {p : Pattern ν} (hid : s.has p.id = false)
    (hname : s.index.has p.name = false) :
    s.insert p =
      { s with patterns := s.patterns ++ [(p.id, p)], index := s.index ++ [(p.name, p.id)] } := by
  rw [insert, Table.put_of_not_has hid, Table.put_of_not_has hname]

namespace Coherent

variable {s t : Store ν}

/-- The invariant is one of the outline and the index. -/
theorem congr (h : s.Coherent) (houtline : t.outline = s.outline) (hindex : t.index = s.index) :
    t.Coherent := by
  have hkeyed : ∀ o ∈ s.outline, o.1 = o.2.1 := by
    simpa only [outline, List.forall_mem_map] using h.keyed
  have hids : s.outline.Pairwise fun a b => (a.1 == b.1) = false := List.pairwise_map.2 h.ids
  have hnames : s.outline.Pairwise fun a b => (a.2.2 == b.2.2) = false := by
    simpa only [outline, List.pairwise_map] using h.names
  have hindexed : s.index = s.outline.map fun o => (o.2.2, o.2.1) := by
    simpa [outline, Function.comp_def] using h.indexed
  have hknown : ∀ o ∈ s.outline, (o.2.1 == .null) = false := by
    simpa only [outline, List.forall_mem_map] using h.known
  rw [← houtline] at hkeyed hids hnames hindexed hknown
  exact {
    keyed := by simpa only [outline, List.forall_mem_map] using hkeyed
    ids := List.pairwise_map.1 hids
    names := by simpa only [outline, List.pairwise_map] using hnames
    indexed := by simpa [outline, Function.comp_def, hindex] using hindexed
    known := by simpa only [outline, List.forall_mem_map] using hknown }

/-- A pattern is found under its id. -/
theorem get?_of_mem (h : s.Coherent) {entry : Label × Pattern ν} (hmem : entry ∈ s.patterns) :
    s.get? entry.2.id = some entry.2 := by
  rw [← h.keyed entry hmem]
  exact Table.get?_of_mem h.ids hmem

/-- What is found under an id is a pattern with the same id. -/
theorem exists_mem_of_get? (h : s.Coherent) {id : Label} {p : Pattern ν}
    (hget : s.get? id = some p) : ∃ entry ∈ s.patterns, entry.2 = p ∧ (p.id == id) = true := by
  obtain ⟨entry, hmem, hkey, rfl⟩ := Table.exists_mem_of_get? hget
  rw [h.keyed entry hmem] at hkey
  exact ⟨entry, hmem, rfl, hkey⟩

/-- Where keys are the names of the patterns, no two of them are the same. -/
theorem index_distinct (h : s.Coherent) : Table.Distinct s.index := by
  rw [h.indexed, Table.Distinct, List.pairwise_map]
  exact h.names

/-- What a store recognises is a pattern of it with that name. -/
theorem lookup?_some (h : s.Coherent) {language signature id : Label}
    (hlookup : s.lookup? language signature = some id) :
    ∃ entry ∈ s.patterns, entry.2.id = id ∧ (entry.2.name == (language, signature)) = true := by
  obtain ⟨hget, _⟩ := Option.filter_eq_some_iff.1 hlookup
  obtain ⟨named, hmem, hname, hid⟩ := Table.exists_mem_of_get? hget
  rw [h.indexed] at hmem
  obtain ⟨entry, hentry, rfl⟩ := List.mem_map.1 hmem
  exact ⟨entry, hentry, hid, hname⟩

/-- What a store does not recognise is not in its index. -/
theorem lookup?_none (h : s.Coherent) {language signature : Label}
    (hlookup : s.lookup? language signature = none) :
    s.index.has (language, signature) = false := by
  rw [← Table.get?_eq_none_iff]
  cases hget : s.index.get? (language, signature) with
  | none => rfl
  | some id =>
    -- An id in the index is that of a pattern, so it is not null.
    obtain ⟨named, hmem, _, hid⟩ := Table.exists_mem_of_get? hget
    rw [h.indexed] at hmem
    obtain ⟨entry, hentry, rfl⟩ := List.mem_map.1 hmem
    have hknown : (id == .null) = false := by
      rw [← hid]
      exact h.known entry hentry
    simp [lookup?, hget, hknown] at hlookup

theorem insert (h : s.Coherent) {p : Pattern ν} (hid : s.has p.id = false)
    (hname : s.index.has p.name = false) (hknown : (p.id == .null) = false) :
    (s.insert p).Coherent := by
  rw [insert_eq hid hname]
  refine ⟨?_, h.ids.append hid, ?_, ?_, ?_⟩
  · intro entry hmem
    rcases List.mem_append.1 hmem with hold | hnew
    · exact h.keyed entry hold
    · rw [List.mem_singleton.1 hnew]
  · refine List.pairwise_append.2 ⟨h.names, by simp, ?_⟩
    intro entry hmem last hlast
    rw [List.mem_singleton.1 hlast]
    -- The name of an old pattern is a key of the index, and the new name is not.
    refine Table.has_eq_false_iff.1 hname (entry.2.name, entry.2.id) ?_
    rw [h.indexed]
    exact List.mem_map_of_mem hmem
  · rw [h.indexed, List.map_append]
    rfl
  · intro entry hmem
    rcases List.mem_append.1 hmem with hold | hnew
    · exact h.known entry hold
    · rw [List.mem_singleton.1 hnew]
      exact hknown

end Coherent

/-- Text is not null. -/
theorem text_ne_null (text : String) : (Label.text text == .null) = false :=
  rfl

/-! ### Changing patterns in their place -/

/-- A pattern put in the place of one with the same id and name. -/
theorem outline_replace {s : Store ν} {id : Label} {p q : Pattern ν} (hget : s.get? id = some p)
    (hq : q.Is p.id p.name) : (s.replace id q).outline = s.outline := by
  refine Table.map_put_of_get? (fun entry => (entry.1, entry.2.id, entry.2.name)) hget fun k => ?_
  show (k, q.id, q.name) = (k, p.id, p.name)
  rw [hq.1, hq.2]

/-- Changing a pattern leaves what the change leaves, also if it fails; an
unknown id changes nothing. -/
theorem outcome_alter {α : Type} (id : Label) (x : Change (Pattern ν) α) (s : Store ν) :
    ((alter id x).outcome s).2
      = match s.get? id with
        | none => s
        | some p => s.replace id (x.outcome p).2 := by
  rw [alter, Change.outcome_bind_get]
  cases s.get? id with
  | none => rfl
  | some p =>
    show ((Change.within _ _ x).outcome s).2 = _
    rw [Change.outcome_within]

/-- The outline and the index decide whether a store has the property. -/
def OfOutline (P : Store ν → Prop) : Prop :=
  ∀ s t, P s → t.outline = s.outline → t.index = s.index → P t

theorem coherent_ofOutline : OfOutline (Coherent (ν := ν)) :=
  fun _ _ h => h.congr

section

variable {P : Store ν → Prop} {α : Type} {id : Label} {x : Change (Pattern ν) α}

/-- A change of a pattern that keeps its id and name keeps such a property. -/
theorem OfOutline.keeps_alter (hP : OfOutline P)
    (hx : ∀ id name, Change.Keeps (Pattern.Is id name) x) : Change.Keeps P (alter id x) := by
  intro s h
  rw [outcome_alter]
  cases hget : s.get? id with
  | none => exact h
  | some p => exact hP s _ h (outline_replace hget (hx p.id p.name p p.is_self)) rfl

end

section

variable [Magnitude ν]

/-- An edit is forced into the unit interval, whether it fails or not. -/
theorem outcome_edit {α : Type} (id : Label) (x : Change (Pattern ν) α) (s : Store ν) :
    ((edit id x).outcome s).2
      = match s.get? id with
        | none => s
        | some p => s.replace id (clampPattern.outcome (x.outcome p).2).2 := by
  rw [edit, outcome_alter]
  cases s.get? id with
  | none => rfl
  | some p =>
    rcases hx : x.outcome p with ⟨result, q⟩
    simp only [Change.outcome_bind_get]
    rw [hx, Change.outcome_bind, Change.outcome_set]
    show s.replace id ((clampPattern >>= fun _ => Change.ofExcept result).outcome q).2 = _
    rw [Change.outcome_bind]
    rcases (clampPattern : Change (Pattern ν) Unit).outcome q with ⟨_ | _, q'⟩
    · rfl
    · simp

/-- An edit of a known pattern gives what the change gives, once the confidence is
forced into the unit interval. -/
theorem outcome_edit_known {α : Type} {id : Label} {x : Change (Pattern ν) α} {s : Store ν}
    {p q r : Pattern ν} {result : Except Fault α} (hget : s.get? id = some p)
    (hx : x.outcome p = (result, q)) (hclamp : clampPattern.outcome q = (.ok (), r)) :
    (edit id x).outcome s = (result, s.replace id r) := by
  rw [edit, alter, Change.outcome_bind_get, hget]
  dsimp only
  rw [Change.outcome_within, Change.outcome_bind_get, hx]
  dsimp only
  rw [Change.outcome_bind_set, Change.outcome_bind, hclamp]
  dsimp only
  rw [Change.outcome_ofExcept]

/-- Only a pattern that is known can be edited. -/
theorem edit_eq_ok {α : Type} {id : Label} {x : Change (Pattern ν) α} {s : Store ν} {a : α}
    (h : ((edit id x).outcome s).1 = .ok a) : ∃ p, s.get? id = some p ∧ (x.outcome p).1 = .ok a := by
  rw [edit, alter, Change.outcome_bind_get] at h
  cases hget : s.get? id with
  | none =>
    rw [hget] at h
    cases h
  | some p =>
    rw [hget] at h
    simp only [Change.outcome_within, Change.outcome_bind_get] at h
    rcases hx : x.outcome p with ⟨result, q⟩
    rw [hx, Change.outcome_bind_set, Change.outcome_bind] at h
    refine ⟨p, rfl, ?_⟩
    rw [hx]
    rcases hclamp : (clampPattern : Change (Pattern ν) Unit).outcome q with ⟨_ | _, q'⟩
    · rw [hclamp] at h
      cases h
    · rw [hclamp] at h
      simpa using h

theorem OfOutline.keeps_edit {P : Store ν → Prop} (hP : OfOutline P) {α : Type} {id : Label}
    {x : Change (Pattern ν) α} (hx : ∀ id name, Change.Keeps (Pattern.Is id name) x) :
    Change.Keeps P (edit id x) := by
  intro s h
  rw [outcome_edit]
  cases hget : s.get? id with
  | none => exact h
  | some p =>
    have hq := is_clampPattern _ (hx p.id p.name p p.is_self)
    exact hP s _ h (outline_replace hget hq) rfl

/-! ### Taking patterns in -/

/-- What is learned from a sighting that is not recognised: nothing if that
fails, and else a pattern with its style counted, under a free id. -/
theorem outcome_upsert_new (idOf : IdScheme) (now : Timestamp) {c : Sighting} {s : Store ν}
    (hlookup : s.lookup? c.language c.signature = none) :
    ((upsert idOf now c).outcome s).2 = s ∨
      ∃ p, firstSighting s.smoothing (.text (s.freeId (idOf c.language c.signature))) now c = .ok p ∧
        ((upsert idOf now c).outcome s).2 = s.insert ((countStyle c).outcome p).2 := by
  rw [upsert, Change.outcome_bind_get, hlookup]
  cases hfirst : firstSighting s.smoothing
      (.text (s.freeId (idOf c.language c.signature))) now c with
  | error fault => exact .inl (by simp [hfirst])
  | ok p =>
    rcases hcount : (countStyle c).outcome p with ⟨fault | _, q⟩
    · exact .inl (by simp [hfirst, hcount])
    · refine .inr ⟨p, rfl, ?_⟩
      rw [hcount]
      simp only [hfirst, hcount, Change.outcome_bind_ofExcept_ok]
      rfl

/-- A property that stays when a pattern is changed in its place, and when one that is not
recognised yet is taken in under a free id. -/
structure Stable (P : Store ν → Prop) : Prop where
  ofOutline : OfOutline P
  insert : ∀ (s : Store ν) (p : Pattern ν), P s → (p.id == .null) = false → s.has p.id = false →
    s.lookup? p.language p.signature = none → P (s.insert p)

namespace Stable

variable {P : Store ν → Prop}

/-- Learning from a sighting writes in one of the two ways. -/
theorem keeps_upsert (h : Stable P) (idOf : IdScheme) (now : Timestamp) (c : Sighting) :
    Change.Keeps P (upsert idOf now c) := by
  intro s hs
  cases hlookup : s.lookup? c.language c.signature with
  | some id =>
    rw [upsert, Change.outcome_bind_get, hlookup]
    refine Change.keeps_bind ?_ (fun _ => Change.keeps_pure _) s hs
    exact h.ofOutline.keeps_alter fun _ _ => is_seeAgain _ now c
  | none =>
    rcases outcome_upsert_new idOf now hlookup with hsame | ⟨p, hp, hnew⟩
    · rw [hsame]
      exact hs
    · rw [hnew]
      -- Counting the style has changed neither the free id nor the name of the sighting.
      obtain ⟨hid, hname⟩ := is_countStyle c p (is_firstSighting hp)
      obtain ⟨hlanguage, hsignature⟩ := Prod.mk.inj hname
      apply h.insert s _ hs
      · rw [hid]
        exact text_ne_null _
      · rw [hid]
        exact has_freeId s _
      · rw [hlanguage, hsignature]
        exact hlookup

/-- So does taking in what another store knows of a pattern. -/
theorem keeps_absorb (h : Stable P) (idOf : IdScheme) (p : Pattern ν) :
    Change.Keeps P (absorb idOf p) := by
  refine Change.keeps_bind_get fun s hs => ?_
  cases hlookup : s.lookup? p.language p.signature with
  | some id => exact h.ofOutline.keeps_alter (fun _ _ => is_gain p) s hs
  | none => exact h.insert s _ hs (text_ne_null _) (has_freeId s _) hlookup

/-- A merge takes in one pattern after the other. -/
theorem keeps_merge {α : Type} (h : Stable P) (idOf : IdScheme)
    (decode : α → Except Fault (Draft ν)) (default : Smoothing ν) (records : List α) :
    Change.Keeps P (merge idOf decode default records) := by
  unfold merge
  refine Change.keeps_bind Change.keeps_get fun _ => ?_
  refine Change.keeps_bind (Change.keeps_ofExcept _) fun _ => ?_
  refine Change.keeps_bind (Change.keeps_forM fun p _ => h.keeps_absorb idOf p) fun _ => ?_
  exact Change.keeps_bind Change.keeps_get fun _ => Change.keeps_pure _

end Stable

omit [Magnitude ν] in
theorem stable_coherent : Stable (Coherent (ν := ν)) where
  ofOutline := coherent_ofOutline
  insert _ _ hs hknown hfree hnew := hs.insert hfree (hs.lookup?_none hnew) hknown

theorem coherent_upsert (idOf : IdScheme) (now : Timestamp) (c : Sighting) :
    Change.Keeps (Coherent (ν := ν)) (upsert idOf now c) :=
  stable_coherent.keeps_upsert idOf now c

theorem coherent_merge {α : Type} (idOf : IdScheme) (decode : α → Except Fault (Draft ν))
    (default : Smoothing ν) (records : List α) :
    Change.Keeps Coherent (merge idOf decode default records) :=
  stable_coherent.keeps_merge idOf decode default records

end

end CodeHabits.Store
