import CodeHabits.Proofs.Pattern.Written

/-!
# `CodeHabits.Proofs.Pattern.Times`: times that stay through saving and loading

Saving writes every time of a pattern as text, and loading reads the texts again. A
time that came from a text is the same one afterwards, however often it is saved and
loaded. So are all times of a pattern that came from a record: when it was first and
last seen and last touched, and the times of the reactions to it and of their
surroundings.

A time that was not read may have an offset of less than a second. The first cycle takes
this offset for nothing, which moves the point in time, and no later one changes
anything (`Timestamp.reload_of_inRange`).
-/

set_option autoImplicit false

namespace CodeHabits

/-! ### Cycles -/

/-- What is left after so many cycles of saving and loading. -/
def afterCycles {α : Type} (reload : α → Except Fault α) : Nat → α → Except Fault α
  | 0, a => .ok a
  | n + 1, a => reload a >>= afterCycles reload n

/-- What one cycle keeps is kept by any number of them. -/
theorem exists_afterCycles {α β : Type} {reload : α → Except Fault α} {Good : α → Prop}
    {look : α → β}
    (hstep : ∀ a, Good a → ∃ b, reload a = .ok b ∧ Good b ∧ look b = look a) (n : Nat) {a : α}
    (h : Good a) : ∃ b, afterCycles reload n a = .ok b ∧ look b = look a := by
  induction n generalizing a with
  | zero => exact ⟨a, rfl, rfl⟩
  | succ n ih =>
    obtain ⟨b, hb, hgood, hlook⟩ := hstep a h
    obtain ⟨c, hc, hlook'⟩ := ih hgood
    refine ⟨c, ?_, hlook'.trans hlook⟩
    rw [afterCycles, hb]
    exact hc

namespace Time

/-- A time written and read again. -/
def Timestamp.reload (t : Timestamp) : Except Fault Timestamp :=
  readTimestamp t.value

theorem Timestamp.reload_of_inRange {t : Timestamp} (h : t.InRange) :
    t.reload = .ok t.reread := by
  rw [reload, Timestamp.value, readTimestamp, readTimestamp?_isoformat_of_inRange h]

/-- A time that can be read stays as it is. -/
theorem Timestamp.afterCycles_reload {t : Timestamp} (h : t.Valid) (n : Nat) :
    afterCycles reload n t = .ok t := by
  have hstep : ∀ a : Timestamp, a.Valid → ∃ b, a.reload = .ok b ∧ b.Valid ∧ b = a :=
    fun a ha => ⟨a, readTimestamp_value ha, ha, rfl⟩
  obtain ⟨u, hu, rfl⟩ : ∃ u, afterCycles reload n t = .ok u ∧ u = t :=
    exists_afterCycles hstep n h
  exact hu

/-- An offset that is lost moves the point in time. -/
theorem Timestamp.instant_reread_eq_iff {t : Timestamp} :
    t.reread.instant = t.instant ↔ t.reread = t := by
  constructor
  · intro h
    have hdifference : t.localTime - t.reread.offset = t.localTime - t.offset := h
    have hoffset : t.reread.offset = t.offset := by omega
    show Timestamp.mk t.localTime t.reread.offset = t
    rw [hoffset]
  · intro h
    rw [h]

end Time

/-- When the reaction was, and when it was in its surroundings. -/
def Event.times (e : Event) : List Time.Timestamp :=
  e.timestamp :: e.surroundings.timestamp?.toList

namespace Pattern

/-- All times of a pattern. -/
def times (p : Pattern Value) : List Time.Timestamp :=
  [p.firstSeen, p.lastSeen, p.lastTouched] ++ p.feedback.flatMap Event.times

/-- A pattern saved in a snapshot and taken in again. -/
def reload (p : Pattern Value) : Except Fault (Pattern Value) :=
  Store.patternOf Store.readRecord (p.document Storage.manner)

theorem times_reread (spell : Label → String) (p : Pattern Value) :
    (p.reread spell).times = p.times := by
  have hevents : (p.feedback.map Event.reread).flatMap Event.times
      = p.feedback.flatMap Event.times := by
    rw [List.flatMap_map]
    rfl
  show [p.firstSeen, p.lastSeen, p.lastTouched] ++ _ = _
  rw [reread, hevents]
  rfl

theorem exists_afterCycles_reload {p : Pattern Value} (h : p.Writable) (n : Nat) :
    ∃ q, afterCycles reload n p = .ok q ∧ q.times = p.times := by
  have hstep : ∀ a : Pattern Value, a.Writable →
      ∃ b, a.reload = .ok b ∧ b.Writable ∧ b.times = a.times := by
    intro a ha
    refine ⟨a.reread Storage.manner.spell, ?_, writable_reread ha, times_reread _ a⟩
    exact patternOf_document Storage.plain_manner ha
  exact exists_afterCycles hstep n h

/-- The start of 2024, by a clock that is half a second ahead. -/
def halfSecondAhead : Time.Timestamp :=
  ⟨63839664000000000, 500000⟩

/-- A loop with times in different notations. -/
def loopOf2024 : Value :=
  .object
    [("id", .text "loop"), ("pattern_type", .text "loop_construct"), ("language", .text "go"),
     ("signature", .text "for"), ("confidence", .real 0.5), ("frequency", .int 1),
     ("first_seen", .text "20240101"), ("last_seen", .text "2024-01-01 00:00+01:00:00.000001"),
     ("last_touched", halfSecondAhead.value)]

end Pattern

end CodeHabits
