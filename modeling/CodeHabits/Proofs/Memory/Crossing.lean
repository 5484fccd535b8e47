import CodeHabits.Proofs.Memory.DataModel
import CodeHabits.Proofs.Memory.Reacting
import CodeHabits.Proofs.Memory.Ready
import CodeHabits.Proofs.Store.Adding
import CodeHabits.Proofs.Store.Telling

/-!
# `CodeHabits.Proofs.Memory.Crossing`: two memories that merge each other's snapshot

Of what a merge adds up to, the ids and the confidences depend on which of two memories took
the other one in. The names, the numbers of sightings and the files do not, since under each
name the merge sums the sightings (`Merged.sightings_named?`) and joins the files
(`Merged.files_named?`) of the two. So two memories that merge each other's snapshot match
afterwards (`match_takeSnapshot`).
-/

set_option autoImplicit false

/-!
## Patterns whose documents can be read again

The document of a pattern can be read again if the pattern is measured and legible: all of
its times can be written, and a truth value says whether it is retired
(`Pattern.writable_iff`). Sightings, reactions and passes of forgetting keep patterns legible
where they happen at times that can be written, and a snapshot describes legible patterns
anyway.
-/

namespace CodeHabits

open Time (Timestamp)

namespace Pattern

/-- The times of the pattern can be written, and so can what is said about retirement. -/
structure Legible (p : Pattern Value) : Prop where
  firstSeen : p.firstSeen.Valid
  lastSeen : p.lastSeen.Valid
  lastTouched : p.lastTouched.Valid
  feedback : ∀ e ∈ p.feedback, e.Dated
  retired : ∃ b, p.retired = .bool b

theorem Writable.legible {p : Pattern Value} (h : p.Writable) : p.Legible :=
  ⟨h.firstSeen, h.lastSeen, h.lastTouched, h.feedback, h.retired⟩

theorem writable_iff {p : Pattern Value} : p.Writable ↔ p.Measured ∧ p.Legible := by
  constructor
  · intro h
    exact ⟨⟨h.confidence, h.frequency⟩, h.legible⟩
  · rintro ⟨hmeasured, hlegible⟩
    exact { hmeasured, hlegible with }

end Pattern

namespace Memory

open Pattern (Legible)

variable {now : Timestamp}

/-- Every pattern of the memory is legible. -/
def Legible (m : Memory Value) : Prop :=
  m.store.Every Pattern.Legible

theorem legible_learn (idOf : IdScheme) (hnow : now.Valid) (c : Sighting) :
    Change.Keeps Legible (learn idOf now c) := by
  have hstyled : Change.Keeps Pattern.Legible (Store.countStyle c) :=
    Change.keeps_within (Q := fun _ => True) (fun _ _ => trivial)
      (fun _ _ h _ => { h with }) fun _ _ => trivial
  apply keeps_inStore
  apply Store.every_upsert
  · intro m
    apply Store.keeps_seeAgain_each
    · exact fun p frequency hp _ => { hp with }
    · exact fun p confidence hp => { hp with }
    · exact hstyled
    · exact fun p hp => { hp with lastSeen := hnow, lastTouched := hnow }
    · exact fun p hp => { hp with retired := ⟨false, rfl⟩ }
  · intro m id p hp
    apply hstyled
    obtain ⟨confidence, _, hp⟩ := Except.bind_eq_ok.1 hp
    cases hp
    exact ⟨hnow, hnow, hnow, nofun, false, rfl⟩

theorem legible_takeIn (rules : Learning Value) (id : Label) {e : Event} (he : e.Dated) :
    Change.Keeps Legible (takeIn rules id e) := by
  apply every_takeIn
  · intro p hp
    refine { hp with feedback := fun other hother => ?_ }
    rcases List.mem_append.1 hother with hold | hnew
    · exact hp.feedback other hold
    · rw [List.mem_singleton.1 hnew]
      exact he
  · exact fun p confidence hp => { hp with }
  · exact fun p hp => { hp with lastTouched := he.timestamp }
  · exact fun p hp => { hp with retired := ⟨false, rfl⟩ }

theorem legible_decay (rules : Learning Value) (now : Timestamp) :
    Change.Keeps Legible (decay rules now) := by
  refine every_decay fun window p q hp hq => ?_
  obtain ⟨confidence, retired, rfl, _, hretired⟩ := Learning.forget_cases hq
  refine { hp with retired := ?_ }
  rcases hretired with rfl | rfl
  · exact hp.retired
  · exact ⟨true, rfl⟩

theorem legible_ofSnapshot {m n : Memory Value} {members : Table String Value}
    (h : m.ofSnapshot members = .ok n) : n.Legible := by
  obtain ⟨_, ps, _, hps, _, rfl⟩ := ofSnapshot_eq_ok_iff.1 h
  apply Store.every_ofPatterns
  intro p hp
  obtain ⟨record, _, hrecord⟩ := Except.exists_mem_of_mapM hps hp
  exact (Pattern.writable_of_patternOf hrecord).legible

theorem legible_takeSnapshot (idOf : IdScheme) (document : Value) (replace : Bool) :
    Change.Keeps Legible (takeSnapshot idOf document replace) := by
  refine every_takeSnapshot idOf replace fun _ ps _ hps p hp => ?_
  obtain ⟨record, _, hrecord⟩ := Except.exists_mem_of_mapM hps hp
  have hlegible := (Pattern.writable_of_patternOf hrecord).legible
  refine ⟨hlegible, Store.keeps_gain_each fun q frequency hq _ => ?_, fun _ => ?_⟩
  · exact { hq with }
  · exact { hlegible with }

end Memory

/-! ## Merging -/

namespace Store

section

variable {ν : Type} [Magnitude ν] {s t u : Store ν} {ps : List (Pattern ν)} {p q : Pattern ν}
  {name : Label × Label}

/-- Under a name that does not come in nothing changes. -/
theorem Merged.named?_of_ne (h : Merged ps s t) (hs : s.Linked)
    (hne : ∀ r ∈ ps, (r.name == name) = false) : t.named? name = s.named? name := by
  -- A merge is told by the patterns that are found, so some pattern has to have the name.
  have hsame : ∀ p : Pattern ν, (p.name == name) = true → t.named? name = s.named? name := by
    intro p hp
    rw [← t.named?_congr hp, ← s.named?_congr hp]
    apply h.others p
    intro r hr
    rw [Bool.eq_false_iff]
    intro hname
    have hother := PartialEquivBEq.trans hname hp
    rw [hne r hr] at hother
    cases hother
  cases hbefore : s.named? name with
  | some p =>
    rw [← hbefore]
    exact hsame p (hs.name_of_named? hbefore)
  | none =>
    cases hafter : t.named? name with
    | none => rfl
    | some q => rw [← hafter, ← hbefore, hsame q (h.linked.name_of_named? hafter)]

end

/-! ### What is summed under a name -/

/-- How often the pattern of a name was sighted; zero if there is none. -/
def sightingsOf (known? : Option (Pattern Value)) : Int :=
  known?.elim 0 (·.sightings)

/-- Patterns that come out of the records of a store. -/
structure Retold (u : Store Value) (ps : List (Pattern Value)) : Prop where
  /-- Each of them tells of a pattern of the store. -/
  told : ∀ r ∈ ps, ∃ entry ∈ u.patterns, r.name = entry.2.name
  /-- Every pattern is told of, with its sightings and its files. -/
  complete : ∀ entry ∈ u.patterns, ∃ r ∈ ps, r.name = entry.2.name ∧
    r.frequency = entry.2.frequency ∧ r.sourceFiles = entry.2.sourceFiles

variable {s t u : Store Value} {ps : List (Pattern Value)}

theorem Retold.hasName_iff (h : u.Retold ps) {name : Label × Label} :
    (∃ r ∈ ps, (r.name == name) = true) ↔ u.HasName name := by
  constructor
  · rintro ⟨r, hr, hname⟩
    obtain ⟨entry, hmem, hsame⟩ := h.told r hr
    rw [hsame] at hname
    exact ⟨entry, hmem, hname⟩
  · rintro ⟨entry, hmem, hname⟩
    obtain ⟨r, hr, hsame, _⟩ := h.complete entry hmem
    rw [← hsame] at hname
    exact ⟨r, hr, hname⟩

/-- Under every name, what a merge makes of a store is told by the two patterns that the name
had. -/
theorem Merged.named?_cases (h : Merged ps s t) (hs : s.Linked) (hu : u.Coherent)
    (hps : u.Retold ps) (name : Label × Label) :
    (u.named? name = none ∧ t.named? name = s.named? name) ∨
      ∃ p r q, u.named? name = some p ∧ r.frequency = p.frequency ∧ r.sourceFiles = p.sourceFiles ∧
        t.named? name = some q ∧ Joined (s.named? name) r q := by
  by_cases hname : u.HasName name
  · obtain ⟨entry, hmem, hentry⟩ := hname
    obtain ⟨r, hr, hrname, hfrequency, hfiles⟩ := hps.complete entry hmem
    obtain ⟨q, hq, hjoined⟩ := h.joined r hr
    rw [← hrname] at hentry
    refine .inr ⟨entry.2, r, q, ?_, hfrequency, hfiles, ?_, ?_⟩
    · rw [hrname] at hentry
      exact hu.named?_of_mem hmem hentry
    · rw [← t.named?_congr hentry]
      exact hq
    · rw [← s.named?_congr hentry]
      exact hjoined
  · refine .inl ⟨?_, h.named?_of_ne hs fun r hr => ?_⟩
    · cases hnamed : u.named? name with
      | none => rfl
      | some p =>
        obtain ⟨id, _, hget⟩ := Option.bind_eq_some_iff.1 hnamed
        obtain ⟨entry, hmem, rfl, _⟩ := hu.exists_mem_of_get? hget
        exact absurd ⟨entry, hmem, hu.linked.name_of_named? hnamed⟩ hname
    · rw [Bool.eq_false_iff]
      exact fun hentry => hname (hps.hasName_iff.1 ⟨r, hr, hentry⟩)

/-- The sightings under a name are summed. -/
theorem Merged.sightings_named? (h : Merged ps s t) (hs : s.Linked) (hu : u.Coherent)
    (hps : u.Retold ps) (hswhole : s.Every fun p => ∃ n, p.frequency = .int n)
    (huwhole : u.Every fun p => ∃ n, p.frequency = .int n) (name : Label × Label) :
    sightingsOf (t.named? name) = sightingsOf (s.named? name) + sightingsOf (u.named? name) := by
  rcases h.named?_cases hs hu hps name with ⟨hnone, hsame⟩ | ⟨p, r, q, hp, hfrequency, _, hq, hjoined⟩
  · rw [hsame, hnone]
    simp [sightingsOf]
  · have hr : r.sightings = p.sightings := by
      unfold Pattern.sightings
      rw [hfrequency]
    rw [hp, hq]
    cases hknown : s.named? name with
    | none =>
      rw [hknown] at hjoined
      obtain ⟨id, rfl⟩ := hjoined
      show r.sightings = 0 + p.sightings
      rw [hr, Int.zero_add]
    | some known =>
      rw [hknown] at hjoined
      have hknownWhole := hswhole.of_named? hknown
      have hrWhole : ∃ n, r.frequency = .int n := by
        rw [hfrequency]
        exact huwhole.of_named? hp
      show q.sightings = known.sightings + p.sightings
      rw [hjoined.sightings hknownWhole hrWhole, hr]

/-- The files under a name are joined. -/
theorem Merged.files_named? (h : Merged ps s t) (hs : s.Linked) (hu : u.Coherent)
    (hps : u.Retold ps) (name : Label × Label) (file : Value) :
    (filesOf (t.named? name)).any (file.same ·)
      = ((filesOf (s.named? name)).any (file.same ·) || (filesOf (u.named? name)).any (file.same ·)) := by
  rcases h.named?_cases hs hu hps name with ⟨hnone, hsame⟩ | ⟨p, r, q, hp, _, hfiles, hq, hjoined⟩
  · rw [hsame, hnone]
    simp [filesOf]
  · rw [hp, hq]
    cases hknown : s.named? name with
    | none =>
      rw [hknown] at hjoined
      obtain ⟨id, rfl⟩ := hjoined
      simp [filesOf, hfiles]
    | some known =>
      rw [hknown] at hjoined
      obtain ⟨frequency, _, rfl⟩ := hjoined
      show (r.sourceFiles.foldl Pattern.addSource known.sourceFiles).any _ = _
      rw [(Pattern.filesJoined _ _).complete, hfiles]
      rfl

/-- Every pattern of a store has a counterpart in another one: with the same name, sighted as
often and in the same files. -/
def MatchedIn (s t : Store Value) : Prop :=
  ∀ entry ∈ s.patterns, ∃ other ∈ t.patterns, (entry.2.name == other.2.name) = true ∧
    entry.2.frequency = other.2.frequency ∧
    ∀ file : Value, entry.2.sourceFiles.any (file.same ·) = other.2.sourceFiles.any (file.same ·)

/-- Stores with the same sightings and files under each of their names match. -/
theorem matchedIn_of_named? (hs : s.Coherent) (ht : t.Coherent)
    (hswhole : s.Every fun p => ∃ n, p.frequency = .int n)
    (htwhole : t.Every fun p => ∃ n, p.frequency = .int n)
    (hnames : ∀ name, s.HasName name → t.HasName name)
    (hsightings : ∀ name, sightingsOf (s.named? name) = sightingsOf (t.named? name))
    (hfiles : ∀ name (file : Value),
      (filesOf (s.named? name)).any (file.same ·) = (filesOf (t.named? name)).any (file.same ·)) :
    s.MatchedIn t := by
  intro entry hmem
  obtain ⟨other, hother, hname⟩ := hnames entry.2.name ⟨entry, hmem, BEq.rfl⟩
  have hfound : s.named? entry.2.name = some entry.2 := hs.named?_of_mem hmem BEq.rfl
  have hcounterpart : t.named? entry.2.name = some other.2 := ht.named?_of_mem hother hname
  have hsum := hsightings entry.2.name
  have hsame := hfiles entry.2.name
  rw [hfound, hcounterpart] at hsum
  simp only [hfound, hcounterpart] at hsame
  obtain ⟨m, hm⟩ := hswhole entry hmem
  obtain ⟨n, hn⟩ := htwhole other hother
  refine ⟨other, hother, PartialEquivBEq.symm hname, ?_, hsame⟩
  have hcount : entry.2.sightings = other.2.sightings := hsum
  rw [Pattern.sightings_eq hm, Pattern.sightings_eq hn] at hcount
  rw [hm, hn, hcount]

/-- Written and read again, they tell of the store. -/
theorem retold_of_inOrder (h : s.inOrder = .ok ps) (spell : Label → String) :
    s.Retold (ps.map (Pattern.reread spell)) := by
  have hperm := perm_of_inOrder h
  constructor
  · intro r hr
    obtain ⟨p, hp, rfl⟩ := List.mem_map.1 hr
    obtain ⟨entry, hmem, rfl⟩ := List.mem_map.1 (hperm.mem_iff.1 hp)
    exact ⟨entry, hmem, rfl⟩
  · intro entry hmem
    have hp : entry.2 ∈ ps := hperm.mem_iff.2 (List.mem_map_of_mem hmem)
    exact ⟨_, List.mem_map_of_mem hp, rfl, rfl, rfl⟩

end Store

namespace Memory

variable {m n : Memory Value} {manner : Manner Value} {now : Timestamp}
  {members others : Table String Value}

/-- The patterns that a snapshot lists can be written if all are measured and legible. -/
theorem writable_of_inOrder {ps : List (Pattern Value)} (hmeasured : n.Measured)
    (hlegible : n.Legible) (h : n.store.inOrder = .ok ps) : ∀ p ∈ ps, p.Writable := by
  intro p hp
  obtain ⟨entry, hmem, rfl⟩ := List.mem_map.1 ((Store.perm_of_inOrder h).mem_iff.1 hp)
  exact Pattern.writable_iff.2 ⟨hmeasured entry hmem, hlegible entry hmem⟩

/-- A memory whose snapshot can be merged by others. -/
structure Portable (m : Memory Value) : Prop where
  coherent : m.store.Coherent
  measured : m.Measured
  legible : m.Legible

/-- A snapshot of such a memory is merged without a failure, and it tells of all patterns. -/
theorem exists_takeSnapshot (idOf : IdScheme) (hn : n.Portable) (hm : m.Portable)
    (hmanner : manner.Plain) (h : n.snapshot manner now = .ok members) :
    ∃ count t ps,
      (takeSnapshot idOf (.object members) false).outcome m = (.ok count, { m with store := t }) ∧
      t.Coherent ∧ t.Every Pattern.Measured ∧ n.store.Retold ps ∧ Store.Merged ps m.store t := by
  obtain ⟨ps, q, horder, _, rfl⟩ := snapshot_eq_ok.1 h
  have hperm := Store.perm_of_inOrder horder
  have hwritable := writable_of_inOrder hn.measured hn.legible horder
  have hread : (Snapshot.records (snapshotOf manner now ps q)).mapM
      (Store.patternOf Store.readRecord) = .ok (ps.map (Pattern.reread manner.spell)) :=
    mapM_patternOf_snapshotOf hmanner hwritable
  have hseparate := (hn.coherent.separate.perm hperm).reread manner.spell
  have hincoming : Store.ofRecords Store.readRecord .default (Snapshot.records
      (snapshotOf manner now ps q)) = .ok (.ofPatterns .default _) :=
    Store.ofRecords_eq_ok_iff.2 ⟨_, hread, hseparate, rfl⟩
  obtain ⟨count, t, hmerge⟩ := Store.exists_merge idOf hm.coherent.linked hm.measured hincoming
  have houtcome : (takeSnapshot idOf (.object (snapshotOf manner now ps q)) false).outcome m
      = (.ok count, { m with store := t }) := by
    rw [takeSnapshot, migrate_snapshotOf, Change.outcome_bind_ofExcept_ok,
      if_neg Bool.false_ne_true, inStore, Change.outcome_within, hmerge]
  obtain ⟨found, hfound, _, hmerged⟩ := Store.merged_of_merge hmerge
  rw [hread] at hfound
  cases hfound
  refine ⟨count, t, _, houtcome, ?_, ?_, Store.retold_of_inOrder horder _,
    hmerged hm.coherent.linked⟩
  · exact (Store.coherent_merge idOf _ _ _).of_outcome hmerge hm.coherent
  · exact (measured_takeSnapshot idOf _ false).of_outcome houtcome hm.measured

/-- Two memories that merge each other's snapshot match afterwards. -/
theorem match_takeSnapshot (idOf : IdScheme) (hm : m.Portable) (hn : n.Portable)
    (hmanner : manner.Plain) {start stop : Timestamp} (hmembers : m.snapshot manner start = .ok members)
    (hothers : n.snapshot manner stop = .ok others) :
    ∃ i j s t,
      (takeSnapshot idOf (.object others) false).outcome m = (.ok i, { m with store := s }) ∧
      (takeSnapshot idOf (.object members) false).outcome n = (.ok j, { n with store := t }) ∧
      s.Coherent ∧ t.Coherent ∧ s.MatchedIn t ∧ t.MatchedIn s := by
  obtain ⟨i, s, ps, hs, hscoherent, hsmeasured, hps, hsmerged⟩ :=
    exists_takeSnapshot idOf hn hm hmanner hothers
  obtain ⟨j, t, qs, ht, htcoherent, htmeasured, hqs, htmerged⟩ :=
    exists_takeSnapshot idOf hm hn hmanner hmembers
  have hwhole : ∀ {u : Store Value}, u.Every Pattern.Measured →
      u.Every fun p => ∃ k, p.frequency = .int k :=
    fun hu entry hmem => (hu entry hmem).frequency
  have hnames : ∀ name, s.HasName name ↔ t.HasName name := by
    intro name
    rw [hsmerged.hasName_iff hm.coherent.ids, htmerged.hasName_iff hn.coherent.ids,
      hps.hasName_iff, hqs.hasName_iff]
    exact Or.comm
  have hsightings : ∀ name,
      Store.sightingsOf (s.named? name) = Store.sightingsOf (t.named? name) := by
    intro name
    rw [hsmerged.sightings_named? hm.coherent.linked hn.coherent hps (hwhole hm.measured)
        (hwhole hn.measured),
      htmerged.sightings_named? hn.coherent.linked hm.coherent hqs (hwhole hn.measured)
        (hwhole hm.measured)]
    exact Int.add_comm _ _
  have hfiles : ∀ name (file : Value), (Store.filesOf (s.named? name)).any (file.same ·)
      = (Store.filesOf (t.named? name)).any (file.same ·) := by
    intro name file
    rw [hsmerged.files_named? hm.coherent.linked hn.coherent hps,
      htmerged.files_named? hn.coherent.linked hm.coherent hqs]
    exact Bool.or_comm _ _
  refine ⟨i, j, s, t, hs, ht, hscoherent, htcoherent, ?_, ?_⟩
  · exact Store.matchedIn_of_named? hscoherent htcoherent (hwhole hsmeasured) (hwhole htmeasured)
      (fun name => (hnames name).1) hsightings hfiles
  · exact Store.matchedIn_of_named? htcoherent hscoherent (hwhole htmeasured) (hwhole hsmeasured)
      (fun name => (hnames name).2) (fun name => (hsightings name).symm)
      fun name file => (hfiles name file).symm

end Memory

end CodeHabits
