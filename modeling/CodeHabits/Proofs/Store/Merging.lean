import CodeHabits.Proofs.Store.Invariants

/-!
# `CodeHabits.Proofs.Store.Merging`: what a merge does, name by name

A merge takes in patterns of another store one after the other. `absorb` looks each of
them up by its name. If the store recognises it, then the pattern that it has gains the
frequency and the files. If not, the pattern is taken in under a free id.

The names of the patterns that come in are pairwise different, so each of them finds what
the store had before the merge, and nothing that comes later touches what became of it.
`Merged` says this: `Joined` relates what the store had under a name, what came in, and
what is there in the end. Under all other names nothing changes. All of this leans on the
index leading to patterns with the name that was looked up (`Linked`).
-/

set_option autoImplicit false

namespace CodeHabits.Store

variable {ν : Type}

/-- The pattern of a store that is recognised by the same as another one. -/
def known? (s : Store ν) (r : Pattern ν) : Option (Pattern ν) :=
  (s.lookup? r.language r.signature).bind s.get?

variable {s t : Store ν} {p q r : Pattern ν} {id : Label}

theorem Linked.name_of_known? (h : s.Linked) (hknown : s.known? r = some q) :
    (q.name == r.name) = true := by
  obtain ⟨id, hlookup, hget⟩ := Option.bind_eq_some_iff.1 hknown
  obtain ⟨p, hp, hname⟩ := h _ _ _ hlookup
  rw [hget] at hp
  cases hp
  exact hname

theorem exists_mem_of_known? (h : s.known? r = some q) : ∃ entry ∈ s.patterns, entry.2 = q := by
  obtain ⟨id, _, hget⟩ := Option.bind_eq_some_iff.1 h
  obtain ⟨entry, hmem, _, hq⟩ := Table.exists_mem_of_get? hget
  exact ⟨entry, hmem, hq⟩

/-- Two names that lead to the same pattern are the same. -/
theorem Linked.name_eq (h : s.Linked) {other : Pattern ν} (hr : s.known? r = some q)
    (hother : s.known? other = some q) : (r.name == other.name) = true :=
  PartialEquivBEq.trans (PartialEquivBEq.symm (h.name_of_known? hr)) (h.name_of_known? hother)

/-- A pattern that is taken in is what the store knows under its name. -/
theorem known?_insert (hid : (p.id == .null) = false) (hname : (p.name == r.name) = true) :
    (s.insert p).known? r = some p := by
  have hlookup : (s.insert p).lookup? r.language r.signature = some p.id := by
    rw [lookup?_insert hid]
    exact if_pos hname
  rw [known?, hlookup]
  show (s.insert p).get? p.id = some p
  rw [get?_insert, if_pos BEq.rfl]

/-- A pattern that the store does not recognise yet takes no name from another one. -/
theorem lookup?_insert_of_known (hid : (p.id == .null) = false)
    (hunknown : s.lookup? p.language p.signature = none) {language signature : Label}
    (hlookup : s.lookup? language signature = some id) :
    (s.insert p).lookup? language signature = some id := by
  rw [lookup?_insert hid, if_neg, hlookup]
  -- The name is taken, so the pattern that comes in would have been recognised by it.
  intro hname
  have hsame : s.index.get? (p.language, p.signature) = s.index.get? (language, signature) :=
    Table.get?_congr s.index hname
  rw [lookup?, hsame, ← lookup?, hlookup] at hunknown
  cases hunknown

theorem known?_replace (hlookup : s.lookup? r.language r.signature = some id) :
    (s.replace id q).known? r = some q := by
  have hsame : (s.replace id q).lookup? r.language r.signature = some id := hlookup
  rw [known?, hsame]
  show (s.replace id q).get? id = some q
  rw [get?_replace, if_pos BEq.rfl]

section

variable [Magnitude ν]

/-- What becomes of a pattern that comes in, given what the store has under its name. -/
def Joined (before? : Option (Pattern ν)) (r q : Pattern ν) : Prop :=
  match before? with
  | none => ∃ id : String, q = { r with id := .text id }
  | some p => ∃ frequency, Magnitude.add p.frequency r.frequency = .ok frequency ∧
      q = { p with
        frequency
        sourceFiles := r.sourceFiles.foldl Pattern.addSource p.sourceFiles }

theorem gain_eq_ok (h : (gain r).outcome p = (.ok (), q)) : Joined (some p) r q := by
  unfold gain at h
  rw [Change.outcome_bind_get] at h
  obtain ⟨frequency, _, hadd, h⟩ := Change.bind_eq_ok.1 h
  obtain ⟨hfrequency, rfl⟩ := Change.ofExcept_eq_ok.1 hadd
  rw [Change.outcome_modify] at h
  cases h
  exact ⟨frequency, hfrequency, rfl⟩

/-- What a store is like after a pattern was taken in. -/
inductive Absorbed (r : Pattern ν) (s : Store ν) : Store ν → Prop
  | gained {id : Label} {p q : Pattern ν} (hlookup : s.lookup? r.language r.signature = some id)
      (hget : s.get? id = some p) (hgain : Joined (some p) r q) :
      Absorbed r s (s.replace id q)
  | taken {id : String} (hlookup : s.lookup? r.language r.signature = none)
      (hfree : s.get? (.text id) = none) :
      Absorbed r s (s.insert { r with id := .text id })

variable {idOf : IdScheme}

theorem absorb_eq_ok (h : (absorb idOf r).outcome s = (.ok (), t)) : Absorbed r s t := by
  unfold absorb at h
  rw [Change.outcome_bind_get] at h
  cases hlookup : s.lookup? r.language r.signature with
  | none =>
    rw [hlookup] at h
    cases h
    exact .taken hlookup (get?_freeId s _)
  | some id =>
    rw [hlookup] at h
    dsimp only at h
    rw [alter, Change.outcome_bind_get] at h
    -- An id that leads nowhere would be a fault, and none was met.
    cases hget : s.get? id with
    | none =>
      rw [hget] at h
      cases h
    | some p =>
      rw [hget] at h
      dsimp only at h
      rw [Change.outcome_within] at h
      rcases hgain : (gain r).outcome p with ⟨result, q⟩
      rw [hgain] at h
      obtain ⟨hresult, ht⟩ := Prod.mk.inj h
      rw [← ht]
      refine .gained hlookup hget (gain_eq_ok ?_)
      rw [hgain]
      exact congrArg (·, q) hresult

/-! ### One pattern -/

namespace Absorbed

/-- A pattern that is known before stays, or it is the one that gains. -/
theorem of_known (h : Absorbed r s t) (hget : s.get? id = some p) :
    t.get? id = some p ∨ s.known? r = some p ∧ t.get? id = t.known? r := by
  cases h with
  | @gained known before q hlookup hknown hgain =>
    rw [get?_replace]
    by_cases hid : (known == id) = true
    · have hsame : some before = some p := by rw [← hknown, ← hget, s.get?_congr hid]
      cases hsame
      refine .inr ⟨by rw [known?, hlookup]; exact hknown, ?_⟩
      rw [known?_replace hlookup, if_pos hid]
    · rw [if_neg hid]
      exact .inl hget
  | taken _ hfree =>
    exact .inl (get?_insert_of_free hfree hget)

theorem linked (h : Absorbed r s t) (hs : s.Linked) : t.Linked := by
  cases h with
  | @gained known before q hlookup hknown hgain =>
    -- Gaining changes neither the id nor the name, so the outline stays what it is.
    obtain ⟨frequency, _, rfl⟩ := hgain
    exact linked_ofOutline s _ hs (outline_replace hknown ⟨rfl, rfl⟩) rfl
  | taken _ hfree =>
    exact hs.insert (text_ne_null _) hfree

/-- What is recognised is still recognised, under the same id. -/
theorem recognised (h : Absorbed r s t) {language signature : Label}
    (hlookup : s.lookup? language signature = some id) :
    t.lookup? language signature = some id := by
  cases h with
  | gained _ _ _ => exact hlookup
  | @taken id hunknown _ =>
    let new : Pattern ν := { r with id := .text id }
    exact lookup?_insert_of_known (p := new) (text_ne_null id) hunknown hlookup

/-- What becomes of the pattern is found under its name. -/
theorem joined (h : Absorbed r s t) : ∃ q, t.known? r = some q ∧ Joined (s.known? r) r q := by
  cases h with
  | @gained known before q hlookup hknown hgain =>
    refine ⟨q, known?_replace hlookup, ?_⟩
    rw [known?, hlookup]
    show Joined (s.get? known) r q
    rw [hknown]
    exact hgain
  | @taken id hlookup _ =>
    refine ⟨{ r with id := .text id }, known?_insert (text_ne_null _) BEq.rfl, ?_⟩
    rw [known?, hlookup]
    exact ⟨_, rfl⟩

/-- Under another name nothing changes. -/
theorem known?_of_ne (h : Absorbed r s t) (hs : s.Linked) {other : Pattern ν}
    (hne : (r.name == other.name) = false) : t.known? other = s.known? other := by
  have hlookup : t.lookup? other.language other.signature
      = s.lookup? other.language other.signature := by
    cases h with
    | gained _ _ _ => rfl
    | taken _ _ =>
      rw [lookup?_insert (text_ne_null _), if_neg]
      rw [Bool.not_eq_true]
      exact hne
  rw [known?, known?, hlookup]
  cases hother : s.lookup? other.language other.signature with
  | none => rfl
  | some id =>
    obtain ⟨p, hget, hname⟩ := hs _ _ _ hother
    rcases h.of_known hget with hsame | ⟨hknown, _⟩
    · exact hsame.trans hget.symm
    · -- The pattern that gains has the other name.
      have hsame : (r.name == other.name) = true :=
        PartialEquivBEq.trans (PartialEquivBEq.symm (hs.name_of_known? hknown)) hname
      rw [hne] at hsame
      cases hsame

/-- Nothing else comes into the store. -/
theorem entries (h : Absorbed r s t) :
    ∀ entry ∈ t.patterns, entry ∈ s.patterns ∨ t.known? r = some entry.2 := by
  intro entry hentry
  cases h with
  | gained hlookup _ _ =>
    -- Writing under an id adds one entry at most, and that is what became of the pattern.
    rcases Table.mem_put_cases hentry with hold | ⟨hnew, _⟩
    · exact .inl hold
    · exact .inr (by rw [known?_replace hlookup, hnew])
  | @taken id _ _ =>
    rcases Table.mem_put_cases hentry with hold | ⟨hnew, _⟩
    · exact .inl hold
    · exact .inr (by rw [hnew]; exact known?_insert (text_ne_null _) BEq.rfl)

end Absorbed

/-! ### Several patterns -/

/-- A store after the patterns of another one were taken in. -/
structure Merged (ps : List (Pattern ν)) (s t : Store ν) : Prop where
  linked : t.Linked
  /-- Each of them joins what the store had under its name. -/
  joined : ∀ r ∈ ps, ∃ q, t.known? r = some q ∧ Joined (s.known? r) r q
  /-- Under other names nothing changes. -/
  others : ∀ other : Pattern ν, (∀ r ∈ ps, (r.name == other.name) = false) →
    t.known? other = s.known? other
  /-- What the store recognised it still recognises, under the same ids. -/
  recognised : ∀ language signature id, s.lookup? language signature = some id →
    t.lookup? language signature = some id
  /-- The store holds nothing else. -/
  entries : ∀ entry ∈ t.patterns, entry ∈ s.patterns ∨ ∃ r ∈ ps, t.known? r = some entry.2
  /-- And what it held it still does. -/
  kept : ∀ id p, s.get? id = some p →
    t.get? id = some p ∨ ∃ r ∈ ps, s.known? r = some p ∧ t.get? id = t.known? r

theorem merged_nil (hs : s.Linked) : Merged [] s s where
  linked := hs
  joined := by simp
  others _ _ := rfl
  recognised _ _ _ hlookup := hlookup
  entries _ hentry := .inl hentry
  kept _ _ hget := .inl hget

/-- One pattern is taken in, and then others with other names. -/
theorem Merged.cons {u : Store ν} {rest : List (Pattern ν)} (h : Merged rest u t)
    (hfirst : ∀ other ∈ rest, (r.name == other.name) = false) (hs : s.Linked)
    (habsorbed : Absorbed r s u) : Merged (r :: rest) s t := by
  -- What comes later has other names, so it leaves alone what became of the first one.
  have hr : t.known? r = u.known? r := by
    refine h.others r fun other hother => ?_
    rw [BEq.comm]
    exact hfirst other hother
  obtain ⟨q, hq, hjoined⟩ := habsorbed.joined
  refine
    { linked := h.linked
      joined := fun other hother => ?_
      others := fun other hother => ?_
      recognised := fun language signature id hlookup =>
        h.recognised _ _ _ (habsorbed.recognised hlookup)
      entries := fun entry hentry => ?_
      kept := fun id p hget => ?_ }
  · rcases List.mem_cons.1 hother with rfl | hother
    · exact ⟨q, hr.trans hq, hjoined⟩
    · rw [← habsorbed.known?_of_ne hs (hfirst other hother)]
      exact h.joined other hother
  · obtain ⟨hne, hothers⟩ := List.forall_mem_cons.1 hother
    rw [h.others other hothers, habsorbed.known?_of_ne hs hne]
  · rcases h.entries entry hentry with hbefore | ⟨other, hother, hknown⟩
    · rcases habsorbed.entries entry hbefore with hold | hnew
      · exact .inl hold
      · exact .inr ⟨r, by simp, hr.trans hnew⟩
    · exact .inr ⟨other, by simp [hother], hknown⟩
  · rcases habsorbed.of_known hget with hsame | ⟨hknown, hgained⟩
    · rcases h.kept id p hsame with hstays | ⟨other, hother, hfound, hleft⟩
      · exact .inl hstays
      · rw [habsorbed.known?_of_ne hs (hfirst other hother)] at hfound
        exact .inr ⟨other, by simp [hother], hfound, hleft⟩
    · rw [hq] at hgained
      refine .inr ⟨r, by simp, hknown, ?_⟩
      rcases h.kept id q hgained with hstays | ⟨other, hother, hfound, _⟩
      · rw [hstays, hr, hq]
      · -- Then two of the patterns would have the same name.
        have hsame := (habsorbed.linked hs).name_eq hq hfound
        rw [hfirst other hother] at hsame
        cases hsame

theorem merged_of_forM {ps : List (Pattern ν)}
    (hnames : ps.Pairwise fun p q => (p.name == q.name) = false) (hs : s.Linked)
    (h : (ps.forM (absorb idOf)).outcome s = (.ok (), t)) : Merged ps s t := by
  induction ps generalizing s with
  | nil =>
    cases h
    exact merged_nil hs
  | cons r rest ih =>
    obtain ⟨hfirst, hrest⟩ := List.pairwise_cons.1 hnames
    obtain ⟨_, u, hone, hmore⟩ := Change.bind_eq_ok.1 h
    have habsorbed := absorb_eq_ok hone
    exact (ih hrest (habsorbed.linked hs) hmore).cons hfirst hs habsorbed

section

variable {α : Type} {decode : α → Except Fault (Draft ν)} {default : Smoothing ν} {records : List α}
  {count : Nat}

/-- A merge that does not fail takes in what its records describe, and answers by how much the
store has grown. -/
theorem merge_eq_ok (h : (merge idOf decode default records).outcome s = (.ok count, t)) :
    ∃ ps, records.mapM (patternOf decode) = .ok ps ∧ Separate ps ∧
      (ps.forM (absorb idOf)).outcome s = (.ok (), t) ∧ count = t.size - s.size := by
  unfold merge at h
  rw [Change.outcome_bind_get] at h
  obtain ⟨incoming, u, htaken, h⟩ := Change.bind_eq_ok.1 h
  obtain ⟨hread, rfl⟩ := Change.ofExcept_eq_ok.1 htaken
  obtain ⟨ps, hps, hseparate, rfl⟩ := ofRecords_eq_ok_iff.1 hread
  obtain ⟨_, v, hall, h⟩ := Change.bind_eq_ok.1 h
  rw [Change.outcome_bind_get] at h
  cases h
  have hvalues : (ofPatterns default ps).patterns.map (·.2) = ps := by
    rw [ofPatterns, List.map_map]
    exact List.map_id ps
  rw [hvalues] at hall
  exact ⟨ps, hps, hseparate, hall, rfl⟩

theorem merged_of_merge (h : (merge idOf decode default records).outcome s = (.ok count, t)) :
    ∃ ps, records.mapM (patternOf decode) = .ok ps ∧ Separate ps ∧
      (s.Linked → Merged ps s t) := by
  obtain ⟨ps, hps, hseparate, hall, _⟩ := merge_eq_ok h
  exact ⟨ps, hps, hseparate, fun hs => merged_of_forM hseparate.names hs hall⟩

end

end

end CodeHabits.Store
