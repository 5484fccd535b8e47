import CodeHabits.Proofs.Pattern.Measured
import CodeHabits.Proofs.Store.Invariants

/-!
# `CodeHabits.Proofs.Store.Ready`: stores that learn without failing

A store is teachable when its index leads to patterns, its patterns can be sighted again
and its smoothing is usable. Learning keeps a store teachable, and a teachable store learns
from every sighting that can be counted (`gives_upsert`). It is ready if moreover its maps
agree.

Taking in what records describe only fails at the records, before anything is written
(`merge_eq_error`). For this the store need not be ready: its index has to lead to patterns,
and these have to be measured (`exists_merge`).
-/

set_option autoImplicit false

namespace CodeHabits.Store

open Pattern (Counted Measured)
open Time (Timestamp)

variable {s : Store Value}

/-- A store that can learn from what was sighted. -/
structure Ready (s : Store Value) : Prop where
  coherent : s.Coherent
  measured : s.Every Measured
  counted : s.Every Counted
  smoothing : s.smoothing.Usable

/-- It can learn even if not all of its maps agree, as long as the index leads where it
should. -/
structure Teachable (s : Store Value) : Prop where
  linked : s.Linked
  measured : s.Every Measured
  counted : s.Every Counted
  smoothing : s.smoothing.Usable

theorem Ready.teachable (h : s.Ready) : s.Teachable where
  linked := h.coherent.linked
  measured := h.measured
  counted := h.counted
  smoothing := h.smoothing

/-! ### The smoothing stays -/

section

variable {ν : Type} {P : Smoothing ν → Prop}

theorem smoothing_alter {α : Type} (id : Label) (x : Change (Pattern ν) α) :
    Change.Keeps (fun s => P s.smoothing) (alter id x) := by
  intro s h
  rw [outcome_alter]
  cases s.get? id <;> exact h

theorem smoothing_edit {α : Type} [Magnitude ν] (id : Label) (x : Change (Pattern ν) α) :
    Change.Keeps (fun s => P s.smoothing) (edit id x) :=
  smoothing_alter id _

theorem smoothing_upsert [Magnitude ν] (idOf : IdScheme) (now : Timestamp) (c : Sighting) :
    Change.Keeps (fun s => P s.smoothing) (upsert (ν := ν) idOf now c) := by
  intro s h
  cases hlookup : s.lookup? c.language c.signature with
  | some id =>
    rw [upsert, Change.outcome_bind_get, hlookup]
    exact Change.keeps_bind (smoothing_alter id _) (fun _ => Change.keeps_pure _) s h
  | none =>
    rcases outcome_upsert_new idOf now hlookup with hsame | ⟨p, _, hafter⟩
    · rw [hsame]
      exact h
    · rw [hafter]
      exact h

theorem smoothing_merge {α : Type} [Magnitude ν] (idOf : IdScheme)
    (decode : α → Except Fault (Draft ν)) (default : Smoothing ν) (records : List α) :
    Change.Keeps (fun s => P s.smoothing) (merge idOf decode default records) := by
  have habsorb : ∀ p, Change.Keeps (fun s : Store ν => P s.smoothing) (absorb idOf p) := by
    refine fun p => Change.keeps_bind_get fun s h => ?_
    cases s.lookup? p.language p.signature with
    | some id => exact smoothing_alter id _ s h
    | none => exact h
  unfold merge
  refine Change.keeps_bind Change.keeps_get fun _ => ?_
  refine Change.keeps_bind (Change.keeps_ofExcept _) fun _ => ?_
  refine Change.keeps_bind (Change.keeps_forM fun p _ => habsorb p) fun _ => ?_
  exact Change.keeps_bind Change.keeps_get fun _ => Change.keeps_pure _

end

/-! ### Learning -/

/-- Changing a known pattern gives what the change of the pattern gives. -/
theorem gives_alter {α : Type} {id : Label} {x : Change (Pattern Value) α}
    {P : Pattern Value → Prop} {p : Pattern Value} (hx : Change.Gives P x fun _ _ => True)
    (hp : P p) : Change.Gives (fun s => s.get? id = some p) (alter id x) fun _ _ => True := by
  refine Change.gives_bind_get fun s hget => ?_
  rw [hget]
  exact Change.gives_within hx (fun _ _ => hp) fun _ _ _ _ _ => trivial

theorem counted_upsert (idOf : IdScheme) (now : Timestamp) (c : Sighting) :
    Change.Keeps (Every Pattern.Counted) (upsert idOf now c) := by
  apply every_upsert
  · intro m
    exact counted_seeAgain m c
  · intro m id p hp
    exact counted_countStyle c p (counted_firstSighting hp)

theorem teachable_upsert (idOf : IdScheme) (now : Timestamp) (c : Sighting) :
    Change.Keeps Teachable (upsert idOf now c) := by
  intro s h
  refine ⟨linked_upsert idOf now c s h.linked, ?_, ?_,
    smoothing_upsert (P := Smoothing.Usable) idOf now c s h.smoothing⟩
  · refine every_upsert (fun m => measured_seeAgain m c) (fun m id p hp => ?_) s h.measured
    exact measured_countStyle c p (measured_firstSighting hp)
  · exact counted_upsert idOf now c s h.counted

theorem ready_upsert (idOf : IdScheme) (now : Timestamp) (c : Sighting) :
    Change.Keeps Ready (upsert idOf now c) := by
  intro s h
  have hleft := teachable_upsert idOf now c s h.teachable
  exact ⟨coherent_upsert idOf now c s h.coherent, hleft.measured, hleft.counted, hleft.smoothing⟩

/-- A teachable store learns from a sighting without a failure. -/
theorem gives_upsert (idOf : IdScheme) (now : Timestamp) {c : Sighting} (hc : c.Countable) :
    Change.Gives Teachable (upsert idOf now c) fun _ => Teachable := by
  refine Change.Gives.keeps ?_ (teachable_upsert idOf now c)
  refine Change.gives_bind_get fun s h => ?_
  cases hlookup : s.lookup? c.language c.signature with
  | some id =>
    obtain ⟨p, hget, _⟩ := h.linked _ _ _ hlookup
    have hp : p.Measured ∧ p.Counted := ⟨h.measured.of_get? hget, h.counted.of_get? hget⟩
    refine Change.gives_bind (Q := fun _ _ => True) (fun t ht => ?_) fun _ =>
      Change.gives_pure fun _ _ => trivial
    rw [ht]
    exact gives_alter (gives_seeAgain h.smoothing hc) hp s hget
  | none =>
    obtain ⟨p, hp⟩ :=
      exists_firstSighting h.smoothing (.text (s.freeId (idOf c.language c.signature))) now c
    obtain ⟨_, q, hcount, _⟩ := gives_countStyle hc p (counted_firstSighting hp)
    refine Change.gives_bind_ofExcept hp ?_
    rw [hcount]
    refine Change.gives_bind_ofExcept (a := ()) rfl ?_
    exact fun t _ => ⟨_, _, rfl, trivial⟩

/-! ### Merging -/

/-- A store whose index leads to patterns takes in what another store knows of a pattern. -/
theorem gives_absorb (idOf : IdScheme) {p : Pattern Value} (hp : p.Measured) :
    Change.Gives (fun s => s.Linked ∧ s.Every Measured) (absorb idOf p)
      fun _ s => s.Linked ∧ s.Every Measured := by
  have hkeeps : Change.Keeps (fun s => s.Linked ∧ s.Every Measured) (absorb idOf p) :=
    fun s h => ⟨stable_linked.keeps_absorb idOf p s h.1,
      every_absorb (measured_gain hp) (fun _ => ⟨hp.confidence, hp.frequency⟩) s h.2⟩
  refine Change.Gives.keeps (Change.gives_bind_get fun s h => ?_) hkeeps
  cases hlookup : s.lookup? p.language p.signature with
  | some id =>
    obtain ⟨known, hget, _⟩ := h.1 _ _ _ hlookup
    intro t ht
    rw [ht]
    exact gives_alter (gives_gain hp) (h.2.of_get? hget) s hget
  | none => exact fun t _ => ⟨_, _, rfl, trivial⟩

/-- Records that describe a store are taken in. -/
theorem exists_merge (idOf : IdScheme) {default : Smoothing Value} {records : List Value}
    {incoming : Store Value} (hlinked : s.Linked) (hmeasured : s.Every Measured)
    (hincoming : ofRecords readRecord default records = .ok incoming) :
    ∃ count t, (merge idOf readRecord default records).outcome s = (.ok count, t) := by
  have hpatterns : incoming.Every Measured :=
    every_ofRecords (fun _ _ _ => measured_of_readRecord) hincoming
  have habsorb : ∀ p ∈ incoming.patterns.map (·.2), p.Measured :=
    List.forall_mem_map.2 hpatterns
  have hall := Change.gives_forM fun p hp => gives_absorb idOf (habsorb p hp)
  obtain ⟨_, t, hrun, _⟩ := hall s ⟨hlinked, hmeasured⟩
  refine ⟨t.size - s.size, t, ?_⟩
  rw [merge, Change.outcome_bind_get, hincoming, Change.outcome_bind_ofExcept_ok,
    Change.outcome_bind, hrun]
  dsimp only
  rw [Change.outcome_bind_get]
  rfl

/-- Records are taken in if they describe a store, and else nothing is written. -/
theorem merge_eq_error {idOf : IdScheme} {default : Smoothing Value} {records : List Value}
    {t : Store Value} {fault : Fault} (hlinked : s.Linked) (hmeasured : s.Every Measured)
    (h : (merge idOf readRecord default records).outcome s = (.error fault, t)) : t = s := by
  cases hincoming : ofRecords readRecord default records with
  | error other =>
    rw [merge, Change.outcome_bind_get, hincoming, Change.outcome_bind_ofExcept_error] at h
    exact (Prod.mk.inj h).2.symm
  | ok incoming =>
    obtain ⟨count, u, hmerge⟩ := exists_merge idOf hlinked hmeasured hincoming
    rw [hmerge] at h
    cases h

end CodeHabits.Store
