import CodeHabits.Proofs.Memory.Restoring
import CodeHabits.Proofs.Pattern.Settled
import CodeHabits.Proofs.Preferences.Settled
import CodeHabits.Proofs.Preferences.Written
import CodeHabits.Proofs.Store.Invariants

/-!
# `CodeHabits.Proofs.Memory.Settled`: the memories that their own snapshots describe

A snapshot lists the patterns in the order of their ids and the preferences in
the order of their labels. It describes a memory again, with the same patterns
in this order but for what `Pattern.reread` says, and with weights that are
floating-point numbers (`describes_snapshotOf`). Only a weight that is too large
for these keeps a snapshot from being read (`ofSnapshot_overflow`). The order
makes no difference to what a store recognises (`lookup?_perm`).

A memory is settled when its store is coherent and its patterns and preferences
are settled. This is the invariant that makes snapshots come back: learning and
forgetting keep it, and so does taking in the snapshot of a settled memory.
-/

set_option autoImplicit false

namespace CodeHabits

open Time (Timestamp)

/-! ### Patterns in another order -/

namespace Store

variable {ν : Type} {ps qs : List (Pattern ν)}

theorem Separate.perm (h : Separate ps) (hperm : qs.Perm ps) : Separate qs where
  ids := (hperm.pairwise_iff fun {p q} hpq => by rw [BEq.comm]; exact hpq).2 h.ids
  names := (hperm.pairwise_iff fun {p q} hpq => by rw [BEq.comm]; exact hpq).2 h.names

/-- The order of patterns makes no difference to what is recognised. -/
theorem lookup?_perm (h : Separate ps) (hperm : ps.Perm qs) (m m' : Smoothing ν)
    (language signature : Label) :
    (ofPatterns m qs).lookup? language signature = (ofPatterns m' ps).lookup? language signature := by
  have hindex : (ofPatterns m' ps).index.Perm (ofPatterns m qs).index := hperm.map _
  rw [lookup?, lookup?, Table.get?_perm hindex (List.pairwise_map.2 h.names)]

theorem inOrder_ofPatterns (m : Smoothing ν) (ps : List (Pattern ν)) :
    (ofPatterns m ps).inOrder = sorted (.on (·.id) .label) ps := by
  have hmap := sorted_map (f := fun p : Pattern ν => (p.id, p)) (p := .on (·.id) .label)
    (q := .on (·.1) .label) (fun _ _ => rfl) ps
  rw [inOrder, ofPatterns, hmap]
  cases sorted (.on (·.id) .label) ps with
  | error fault => rfl
  | ok qs =>
    show Except.ok ((qs.map fun p => (p.id, p)).map (·.2)) = _
    rw [List.map_map]
    exact congrArg Except.ok (List.map_id _)

/-- Reading changes no id and no name. -/
theorem Separate.reread {ps : List (Pattern Value)} (h : Separate ps) (spell : Label → String) :
    Separate (ps.map (Pattern.reread spell)) where
  ids := List.pairwise_map.2 h.ids
  names := List.pairwise_map.2 h.names

theorem lookup?_reread (m : Smoothing Value) (spell : Label → String) (ps : List (Pattern Value))
    (language signature : Label) :
    (ofPatterns m (ps.map (Pattern.reread spell))).lookup? language signature
      = (ofPatterns m ps).lookup? language signature := by
  have hindex : (ofPatterns m (ps.map (Pattern.reread spell))).index = (ofPatterns m ps).index := by
    show ((ps.map (Pattern.reread spell)).map fun p => (p.name, p.id)) = _
    rw [List.map_map]
    rfl
  rw [lookup?, lookup?, hindex]

end Store

/-! ### The snapshot of a memory -/

namespace Memory

/-- A snapshot with patterns and preferences that are in order. -/
def snapshotOf (manner : Manner Value) (now : Timestamp) (ps : List (Pattern Value))
    (q : Preferences Value) : Table String Value :=
  [("schema_version", .int Snapshot.currentVersion), ("saved_at", now.value),
    ("patterns", .list (ps.map (Pattern.document manner))),
    ("preferences", .object (q.members manner))]

theorem snapshot_eq_ok {manner : Manner Value} {m : Memory Value} {now : Timestamp}
    {members : Table String Value} :
    m.snapshot manner now = .ok members ↔
      ∃ ps q, m.store.inOrder = .ok ps ∧ m.preferences.Arranged q ∧
        members = snapshotOf manner now ps q := by
  constructor
  · intro h
    obtain ⟨patterns, hpatterns, h⟩ := Except.bind_eq_ok.1 h
    obtain ⟨document, hdocument, h⟩ := Except.bind_eq_ok.1 h
    obtain ⟨ps, hps, hpatterns⟩ := Except.bind_eq_ok.1 hpatterns
    obtain ⟨q, hq, rfl⟩ := Preferences.document_eq_ok.1 hdocument
    cases hpatterns
    cases h
    exact ⟨ps, q, hps, hq, rfl⟩
  · rintro ⟨ps, q, hps, hq, rfl⟩
    rw [snapshot, Store.snapshot, hps, Preferences.document_eq_ok.2 ⟨q, hq, rfl⟩]
    rfl

section

variable {manner : Manner Value} {now : Timestamp} {ps : List (Pattern Value)}
  {q : Preferences Value}

theorem checkRecords_documents (position : Nat) :
    Snapshot.checkRecords position (ps.map (Pattern.document manner)) = .ok () := by
  induction ps generalizing position with
  | nil => rfl
  | cons p rest ih => exact ih (position + 1)

/-- A snapshot is of the current version. -/
theorem migrate_snapshotOf :
    Snapshot.migrate (.object (snapshotOf manner now ps q)) = .ok (snapshotOf manner now ps q) := by
  have hlayout : Snapshot.checkLayout (.object (snapshotOf manner now ps q))
      = .ok (snapshotOf manner now ps q) := by
    show (Snapshot.checkRecords 0 (ps.map (Pattern.document manner)) >>= _) = _
    rw [checkRecords_documents]
    rfl
  rw [Snapshot.migrate, hlayout]
  rfl

/-- Saving writes the version once more. -/
theorem put_snapshotOf :
    Table.put (snapshotOf manner now ps q) "schema_version" (.int Snapshot.currentVersion)
      = snapshotOf manner now ps q :=
  rfl

/-- The records of a snapshot describe its patterns as they come back. -/
theorem mapM_patternOf_snapshotOf (hmanner : manner.Plain) (hps : ∀ p ∈ ps, p.Writable) :
    (Snapshot.records (snapshotOf manner now ps q)).mapM (Store.patternOf Store.readRecord)
      = .ok (ps.map (Pattern.reread manner.spell)) := by
  show (ps.map (Pattern.document manner)).mapM _ = _
  rw [List.mapM_map]
  exact Except.mapM_ok fun p hp => Pattern.patternOf_document hmanner (hps p hp)

/-- A snapshot describes its patterns and the preferences that are read. -/
theorem describes_snapshotOf (hmanner : manner.Plain) (smoothing : Smoothing Value)
    (hps : ∀ p ∈ ps, p.Writable) (hseparate : Store.Separate ps) {r : Preferences Value}
    (hr : readPreferences (.object (q.members manner)) = .ok r) :
    Snapshot.Describes (snapshotOf manner now ps q) smoothing
      ⟨.ofPatterns smoothing (ps.map (Pattern.reread manner.spell)), r, 0⟩ :=
  ⟨r, _, hr, mapM_patternOf_snapshotOf hmanner hps, hseparate.reread manner.spell, rfl⟩

/-- A weight that is too large keeps a snapshot from being taken in. -/
theorem ofSnapshot_overflow (m : Memory Value)
    (hlarge : readPreferences (.object (q.members manner)) = .error .overflow) :
    m.ofSnapshot (snapshotOf manner now ps q) = .error .overflow := by
  show (readPreferences (.object (q.members manner))).mapError _ >>= _ = _
  rw [hlarge]
  rfl

end

end Memory

/-! ### Settled memories -/

/-- A memory as it is learned. -/
structure Memory.Settled (m : Memory Value) : Prop where
  coherent : m.store.Coherent
  patterns : m.store.Every Pattern.Settled
  preferences : m.preferences.Settled

namespace Memory

theorem settled_empty (smoothing : Smoothing Value) : (empty smoothing).Settled where
  coherent := Store.coherent_empty smoothing
  patterns := Store.every_empty smoothing
  preferences := Preferences.settled_none

theorem Settled.with_streak {m : Memory Value} (h : m.Settled) (n : Nat) :
    Settled { m with streak := n } :=
  ⟨h.coherent, h.patterns, h.preferences⟩

/-- What keeps a store coherent and its patterns settled keeps the memory so. -/
theorem settled_inStore {α : Type} {x : Change (Store Value) α}
    (hcoherent : Change.Keeps Store.Coherent x)
    (hpatterns : Change.Keeps (Store.Every Pattern.Settled) x) :
    Change.Keeps Settled (inStore x) := by
  refine Change.keeps_within (Q := fun s => s.Coherent ∧ s.Every Pattern.Settled)
    (fun m h => ⟨h.coherent, h.patterns⟩) (fun m s h hs => ⟨hs.1, hs.2, h.preferences⟩) ?_
  exact fun s h => ⟨hcoherent s h.1, hpatterns s h.2⟩

/-! ### Learning -/

theorem settled_learn (idOf : IdScheme) {now : Timestamp} {c : Sighting} (hnow : now.Valid)
    (hlanguage : c.language.IsText) : Change.Keeps Settled (learn idOf now c) := by
  refine settled_inStore (Store.coherent_upsert idOf now c) (Store.every_upsert ?_ ?_)
  · exact fun m => Store.settled_seeAgain m c hnow
  · exact fun m id p h => Store.settled_countStyle c p
      (Store.settled_firstSighting hnow ⟨id, rfl⟩ hlanguage h)

/-- A pattern that is known under a label is settled, and the label is a text. -/
theorem Settled.of_get? {m : Memory Value} (h : m.Settled) {id : Label} {p : Pattern Value}
    (hget : m.store.get? id = some p) : p.Settled ∧ id.IsText := by
  have hp := h.patterns.of_get? hget
  obtain ⟨_, _, rfl, hid⟩ := h.coherent.exists_mem_of_get? hget
  exact ⟨hp, hp.id.of_beq hid⟩

/-- A reaction is logged and moves the preferences. -/
theorem settled_takeIn (rules : Learning Value) (id : Label) {e : Event} (he : e.Dated) :
    Change.Keeps Settled (takeIn rules id e) := by
  let x : Change (Pattern Value) (Pattern Value) := do
    rules.learn e
    get
  have hx : ∀ id name, Change.Keeps (Pattern.Is id name) x := fun id name =>
    Change.keeps_bind (Learning.is_learn rules e) fun _ => Change.keeps_get
  have hloose : Change.Keeps Pattern.Loose x :=
    Change.keeps_bind (Learning.loose_learn rules he) fun _ => Change.keeps_get
  have hedit : Change.Keeps Settled (inStore (Store.edit id x)) :=
    settled_inStore (Store.coherent_ofOutline.keeps_edit hx)
      (Store.every_edit fun p hp => Store.settled_clampPattern (hloose p hp.loose))
  -- The result of the edit is the pattern that it leaves, so its name is the old one.
  have hresult : ∀ p q : Pattern Value, (x.outcome p).1 = .ok q → q.language = p.language := by
    intro p q h
    have hsame : (x.outcome p).2 = q := by
      simp only [x, Change.outcome_bind] at h ⊢
      rcases hlearn : (rules.learn e).outcome p with ⟨_ | _, r⟩
      · rw [hlearn] at h
        cases h
      · rw [hlearn] at h
        exact Except.ok.inj h
    have his := hx p.id p.name p p.is_self
    rw [hsame] at his
    exact congrArg Prod.fst his.2
  intro m hm
  have hstore := hedit m hm
  show ((inStore (Store.edit id x) >>= fun p => _).outcome m).2.Settled
  rw [Change.outcome_bind]
  rcases hrun : (inStore (Store.edit id x)).outcome m with ⟨result, n⟩
  rw [hrun] at hstore
  cases result with
  | error fault => exact hstore
  | ok q =>
    have hedited : ((Store.edit id x).outcome m.store).1 = .ok q := by
      rw [inStore, Change.outcome_within] at hrun
      exact congrArg Prod.fst hrun
    obtain ⟨p, hget, hq⟩ := Store.edit_eq_ok hedited
    obtain ⟨hp, hid⟩ := hm.of_get? hget
    have hlanguage : q.language.IsText := by
      rw [hresult p q hq]
      exact hp.language
    refine (?_ : Change.Keeps Settled _) n hstore
    exact Change.keeps_within (fun m h => h.preferences)
      (fun m prefs h hprefs => ⟨h.coherent, h.patterns, hprefs⟩)
      (Preferences.settled_prefer hid hlanguage)

/-! ### Forgetting -/

theorem settled_decay {rules : Learning Value} (hrules : rules.FadesInside) (now : Timestamp) :
    Change.Keeps Settled (decay rules now) := by
  refine keeps_decay fun window passed m h => ⟨?_, ?_, h.preferences⟩
  · exact h.coherent.congr (outline_forgetEach rules window now passed m.store) rfl
  · exact every_forgetEach (fun p q hp hq => Learning.settled_forget hrules hp hq) h.patterns

/-! ### Snapshots -/

variable {manner : Manner Value} {now : Timestamp} {m : Memory Value}
  {ps : List (Pattern Value)} {q : Preferences Value}

/-- The patterns and preferences of a memory, in an order that stays. -/
structure InOrder (m : Memory Value) (ps : List (Pattern Value)) (q : Preferences Value) :
    Prop where
  sorted : m.store.inOrder = .ok ps
  perm : ps.Perm (m.store.patterns.map (·.2))
  ascending : Label.Ascending (ps.map (·.id))
  arranged : m.preferences.Arranged q
  again : q.Arranged q

/-- A settled memory can be put in order. -/
theorem Settled.exists_inOrder (h : m.Settled) : ∃ ps q, InOrder m ps q := by
  have htexts : ∀ p ∈ m.store.patterns.map (·.2), p.id.IsText :=
    List.forall_mem_map.2 fun entry hentry => (h.patterns entry hentry).id
  obtain ⟨ps, hsorted, hperm, hascending⟩ := exists_sorted htexts
  obtain ⟨q, hq, hqq⟩ := h.preferences.exists_arranged
  refine ⟨ps, q, ?_, hperm, hascending, hq, hqq⟩
  rw [h.coherent.eq_ofPatterns, Store.inOrder_ofPatterns]
  exact hsorted

theorem InOrder.snapshot (h : InOrder m ps q) (manner : Manner Value) (now : Timestamp) :
    m.snapshot manner now = .ok (snapshotOf manner now ps q) :=
  snapshot_eq_ok.2 ⟨ps, q, h.sorted, h.arranged, rfl⟩

theorem InOrder.settled (h : InOrder m ps q) (hm : m.Settled) : ∀ p ∈ ps, p.Settled := by
  intro p hp
  obtain ⟨entry, hentry, rfl⟩ := List.mem_map.1 (h.perm.mem_iff.1 hp)
  exact hm.patterns entry hentry

theorem InOrder.separate (h : InOrder m ps q) (hm : m.Settled) : Store.Separate ps :=
  hm.coherent.separate.perm h.perm

/-- The memory that comes back from the snapshot. -/
def comesBack (manner : Manner Value) (smoothing : Smoothing Value) (ps : List (Pattern Value))
    (q : Preferences Value) : Memory Value :=
  ⟨.ofPatterns smoothing (ps.map (Pattern.reread manner.spell)), q.asReal, 0⟩

/-- What comes back is settled again. -/
theorem InOrder.settled_comesBack (h : InOrder m ps q) (hm : m.Settled)
    (smoothing : Smoothing Value) : (comesBack manner smoothing ps q).Settled := by
  have hreread : ∀ p ∈ ps.map (Pattern.reread manner.spell), p.Settled :=
    List.forall_mem_map.2 fun p hp =>
      have hp := h.settled hm p hp
      { Pattern.writable_reread hp.toWritable with id := hp.id, language := hp.language }
  refine ⟨?_, Store.every_ofPatterns hreread, (hm.preferences.arranged h.arranged).asReal⟩
  refine Store.coherent_ofPatterns ((h.separate hm).reread manner.spell) fun p hp => ?_
  obtain ⟨text, htext⟩ := (hreread p hp).id
  rw [htext]
  rfl

/-- Without weights that are too large, a snapshot is taken in as what comes
back, in any other memory. -/
theorem InOrder.ofSnapshot_ok (h : InOrder m ps q) (hm : m.Settled) (hmanner : manner.Plain)
    (hsmall : ∀ weight ∈ m.preferences.weights, ¬ weight.TooLarge) (other : Memory Value) :
    other.ofSnapshot (snapshotOf manner now ps q)
      = .ok (comesBack manner other.store.smoothing ps q) := by
  have hweights : ∀ weight ∈ q.weights, weight.number?.isSome ∧ ¬ weight.TooLarge := by
    intro weight hweight
    have hmem := h.arranged.weights_perm.mem_iff.1 hweight
    exact ⟨hm.preferences.numbers weight hmem, hsmall weight hmem⟩
  have hread := Preferences.readPreferences_ok hmanner (h.arranged.proper hm.preferences.toProper)
    hweights
  refine ofSnapshot_eq_ok_iff.2 (describes_snapshotOf hmanner _ (fun p hp => ?_)
    (h.separate hm) hread)
  exact (h.settled hm p hp).toWritable

/-- With a weight that is too large, it is refused. -/
theorem InOrder.ofSnapshot_overflow (h : InOrder m ps q) (hm : m.Settled) (hmanner : manner.Plain)
    (hlarge : ∃ weight ∈ m.preferences.weights, weight.TooLarge) (other : Memory Value) :
    other.ofSnapshot (snapshotOf manner now ps q) = .error .overflow := by
  obtain ⟨weight, hweight, hlarge⟩ := hlarge
  have hnumbers : ∀ weight ∈ q.weights, weight.number?.isSome := fun weight hweight =>
    hm.preferences.numbers weight (h.arranged.weights_perm.mem_iff.1 hweight)
  exact Memory.ofSnapshot_overflow other (Preferences.readPreferences_overflow hmanner
    (h.arranged.proper hm.preferences.toProper) hnumbers
    (h.arranged.weights_perm.mem_iff.2 hweight) hlarge)

/-- The records of the snapshot have ids. -/
theorem Settled.identified (hm : m.Settled) {members : Table String Value}
    (h : m.snapshot manner now = .ok members) : Snapshot.Identified (.object members) := by
  obtain ⟨ps, q, horder⟩ := hm.exists_inOrder
  rw [horder.snapshot] at h
  cases h
  intro found hfound record hrecord
  rw [migrate_snapshotOf] at hfound
  cases hfound
  obtain ⟨p, hp, rfl⟩ : ∃ p ∈ ps, p.document manner = record := List.mem_map.1 hrecord
  obtain ⟨text, hid⟩ := (horder.settled hm p hp).id
  show some p.id.value ≠ some .null
  rw [hid]
  exact nofun

/-- Taking in the snapshot of a settled memory keeps what is true of every pattern, if it is
true of those that come back. -/
theorem Settled.every_takeSnapshot {P : Pattern Value → Prop} (hm : m.Settled)
    (hmanner : manner.Plain) {members : Table String Value}
    (h : m.snapshot manner now = .ok members)
    (hback : m.store.Every fun p =>
      P (p.reread manner.spell) ∧ Change.Keeps P (Store.gain (p.reread manner.spell)) ∧
        ∀ id, P { p.reread manner.spell with id := .text id })
    (idOf : IdScheme) (replace : Bool) :
    Change.Keeps (fun n => n.store.Every P) (takeSnapshot idOf (.object members) replace) := by
  obtain ⟨ps, q, horder⟩ := hm.exists_inOrder
  rw [horder.snapshot] at h
  cases h
  refine Memory.every_takeSnapshot idOf replace fun found qs hfound hqs r hr => ?_
  rw [migrate_snapshotOf] at hfound
  cases hfound
  rw [mapM_patternOf_snapshotOf hmanner fun p hp => (horder.settled hm p hp).toWritable] at hqs
  cases hqs
  obtain ⟨p, hp, rfl⟩ := List.mem_map.1 hr
  obtain ⟨entry, hentry, rfl⟩ := List.mem_map.1 (horder.perm.mem_iff.1 hp)
  exact hback entry hentry

/-- Taking in the snapshot of a settled memory keeps a memory settled. -/
theorem settled_takeSnapshot (idOf : IdScheme) (hm : m.Settled) (hmanner : manner.Plain)
    {members : Table String Value} (h : m.snapshot manner now = .ok members) (replace : Bool) :
    Change.Keeps Settled (takeSnapshot idOf (.object members) replace) := by
  obtain ⟨ps, q, horder⟩ := hm.exists_inOrder
  rw [horder.snapshot] at h
  cases h
  unfold takeSnapshot
  rw [migrate_snapshotOf]
  refine Change.keeps_bind_ofExcept fun found hfound => ?_
  cases hfound
  cases replace with
  | true =>
    refine Change.keeps_bind Change.keeps_get fun other => ?_
    refine Change.keeps_bind_ofExcept fun n hn => ?_
    refine Change.keeps_bind (fun _ _ => ?_) fun _ => ?_
    · by_cases hlarge : ∃ weight ∈ m.preferences.weights, weight.TooLarge
      · rw [horder.ofSnapshot_overflow hm hmanner hlarge] at hn
        cases hn
      · rw [horder.ofSnapshot_ok hm hmanner fun weight hweight hl => hlarge ⟨weight, hweight, hl⟩]
          at hn
        cases hn
        exact horder.settled_comesBack hm _
    · exact Change.keeps_bind Change.keeps_get fun _ => Change.keeps_pure _
  | false =>
    refine settled_inStore (Store.coherent_merge idOf _ _ _) (Store.every_merge fun incoming h => ?_)
    have hback : (comesBack manner .default ps q).Settled := horder.settled_comesBack hm _
    have hpatterns : (Snapshot.records (snapshotOf manner now ps q)).mapM
        (Store.patternOf Store.readRecord) = .ok (ps.map (Pattern.reread manner.spell)) :=
      mapM_patternOf_snapshotOf hmanner fun p hp => (horder.settled hm p hp).toWritable
    obtain ⟨qs, hqs, _, rfl⟩ := Store.ofRecords_eq_ok_iff.1 h
    rw [hpatterns] at hqs
    cases hqs
    intro entry hentry
    have hsettled : entry.2.Settled := hback.patterns entry hentry
    exact ⟨Store.settled_gain hsettled, fun id => { hsettled with id := ⟨id, rfl⟩ }⟩

/-! ### The preferences alone -/

section

variable {P : Preferences Value → Prop}

/-- What happens in the store leaves the preferences alone. -/
theorem preferences_inStore {α : Type} (x : Change (Store Value) α) :
    Change.Keeps (fun m => P m.preferences) (inStore x) :=
  Change.keeps_within (Q := fun _ => True) (fun _ _ => trivial) (fun _ _ h _ => h)
    fun _ _ => trivial

theorem preferences_takeIn {rules : Learning Value} {e : Event} {id : Label}
    (h : ∀ p, Change.Keeps P (rules.prefer e.reaction id p)) :
    Change.Keeps (fun m => P m.preferences) (takeIn rules id e) := by
  unfold takeIn
  exact Change.keeps_bind (preferences_inStore _) fun p => keeps_inPreferences (h p)

theorem preferences_decay (rules : Learning Value) (now : Timestamp) :
    Change.Keeps (fun m => P m.preferences) (decay rules now) :=
  keeps_decay fun _ _ _ h => h

/-- Weights that were read are floating-point numbers. -/
theorem floating_ofSnapshot {other : Memory Value} {members : Table String Value}
    (h : other.ofSnapshot members = .ok m) : m.preferences.Floating := by
  obtain ⟨prefs, known, hprefs, _, _, rfl⟩ := ofSnapshot_eq_ok_iff.1 h
  exact (Preferences.of_readPreferences hprefs).2

/-- A snapshot brings preferences with such weights, or none. -/
theorem preferences_takeSnapshot (hread : ∀ prefs : Preferences Value, prefs.Floating → P prefs)
    (idOf : IdScheme) (document : Value) (replace : Bool) :
    Change.Keeps (fun m => P m.preferences) (takeSnapshot idOf document replace) := by
  unfold takeSnapshot
  refine Change.keeps_bind (Change.keeps_ofExcept _) fun members => ?_
  cases replace with
  | true =>
    refine Change.keeps_bind Change.keeps_get fun other => ?_
    refine Change.keeps_bind_ofExcept fun n hn => ?_
    refine Change.keeps_bind (fun _ _ => hread _ (floating_ofSnapshot hn)) fun _ => ?_
    exact Change.keeps_bind Change.keeps_get fun _ => Change.keeps_pure _
  | false => exact preferences_inStore _

end

/-! ### What comes back -/

/-- One memory holds what another one does, but for the kind of the weights:

- as many patterns, recognised by the same and under the same ids;
- the same patterns as documents, in the same order;
- the same preferences as a document, with floating-point weights.
-/
structure Restores (manner : Manner Value) (m n : Memory Value) : Prop where
  size : n.store.size = m.store.size
  lookup : ∀ language signature,
    n.store.lookup? language signature = m.store.lookup? language signature
  patterns : ∃ records, m.store.snapshot manner = .ok records ∧ n.store.snapshot manner = .ok records
  preferences : ∃ weighed, m.preferences.asReal.document manner = .ok weighed ∧
    n.preferences.document manner = .ok weighed
  /-- Weights that are floating-point numbers come back as they were. -/
  same : m.preferences.Floating →
    n.preferences.document manner = m.preferences.document manner
  /-- Weights with an equal floating-point number come back equal. -/
  equal : (∀ weight ∈ m.preferences.weights, weight.asReal.same weight = true) →
    ∃ before after, m.preferences.document manner = .ok before ∧
      n.preferences.document manner = .ok after ∧ after.same before = true

theorem InOrder.restores_comesBack (h : InOrder m ps q) (hm : m.Settled) (hmanner : manner.Plain)
    (smoothing : Smoothing Value) : Restores manner m (comesBack manner smoothing ps q) := by
  have hback : q.asReal.document manner = .ok (.object (q.asReal.members manner)) :=
    Preferences.document_eq_ok.2 ⟨_, h.again.asReal, rfl⟩
  have hreal : m.preferences.asReal.document manner = .ok (.object (q.asReal.members manner)) :=
    Preferences.document_eq_ok.2 ⟨_, h.arranged.asReal, rfl⟩
  refine ⟨?_, fun language signature => ?_, ?_, ⟨_, hreal, hback⟩, fun hweights => ?_,
    fun hweights => ?_⟩
  · show ((ps.map (Pattern.reread manner.spell)).map _).length = m.store.patterns.length
    rw [List.length_map, List.length_map, h.perm.length_eq, List.length_map]
  · show (Store.ofPatterns smoothing _).lookup? language signature = _
    rw [Store.lookup?_reread, hm.coherent.eq_ofPatterns]
    exact Store.lookup?_perm hm.coherent.separate h.perm.symm _ _ language signature
  · refine ⟨ps.map (Pattern.document manner), ?_, ?_⟩
    · rw [Store.snapshot, h.sorted]
      rfl
    · have hids : (ps.map (Pattern.reread manner.spell)).map (·.id) = ps.map (·.id) := by
        rw [List.map_map]
        rfl
      have hsorted := sorted_of_ascending (hids ▸ h.ascending)
      have hdocuments : (ps.map (Pattern.reread manner.spell)).map (Pattern.document manner)
          = ps.map (Pattern.document manner) := by
        rw [List.map_map]
        exact List.map_congr_left fun p _ => Pattern.document_reread hmanner p
      show (Store.ofPatterns smoothing _).snapshot manner = _
      rw [Store.snapshot, Store.inOrder_ofPatterns, hsorted, Except.ok_bind, hdocuments]
      rfl
  · show q.asReal.document manner = _
    rw [hback, ← hreal, Preferences.Floating.asReal hweights]
  · have hbefore : m.preferences.document manner = .ok (.object (q.members manner)) :=
      Preferences.document_eq_ok.2 ⟨q, h.arranged, rfl⟩
    exact ⟨_, _, hbefore, hback, Preferences.same_members hmanner
      (hm.preferences.arranged h.arranged) fun weight hmem =>
        hweights weight (h.arranged.weights_perm.mem_iff.1 hmem)⟩

end Memory

end CodeHabits
