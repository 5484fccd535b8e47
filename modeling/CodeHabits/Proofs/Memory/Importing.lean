import CodeHabits.Proofs.Memory.Restoring
import CodeHabits.Proofs.Memory.Serviceable

/-!
# `CodeHabits.Proofs.Memory.Importing`: what can be done after a snapshot was taken in

A snapshot that is taken in was read, and no more than that. `serves_takeSnapshot` says
what this is worth. A merge gives new ids and leaves the preferences as they are, so the
memory can be written down and forget after it. In place of a memory the ids of the
snapshot are taken over, whatever they are, and so are the labels of its preferences. Both
have to be sorted later, and texts and numbers have no order among them, so with one of each
the memory that is left can neither be written down nor forget.

The rest is a condition on the patterns that come in. If they are serviceable, and
for a merge the new ones but for their ids, then so is the memory, and nothing fails in it
any more, whatever is learned from then on.
-/

set_option autoImplicit false

namespace CodeHabits

open Time (Timestamp)

/-- Checked settings whose window is a duration, and whose factors and weights are numbers
to calculate with, are rules under which nothing fails. -/
theorem Config.steady_rules {c : Config} (h : c.validate = .ok ())
    (hwindow : ∃ window, c.rules.window = .ok window) (hscores : c.rules.Scores) :
    c.rules.Steady :=
  { hscores with
    usable := usable_rules h
    fades := fadesInside_of_validate h
    window := hwindow }

/-! ### Merging -/

namespace Store

open Pattern (Serviceable)

variable {s t : Store Value} {q r : Pattern Value} {ps : List (Pattern Value)}

/-- What becomes of a pattern that comes in has a text for its id. -/
theorem Joined.id_isText (hs : s.Every Serviceable) (h : Joined (s.known? r) r q) :
    q.id.IsText := by
  cases hknown : s.known? r with
  | none =>
    rw [hknown] at h
    obtain ⟨id, rfl⟩ := h
    exact ⟨id, rfl⟩
  | some p =>
    rw [hknown] at h
    obtain ⟨entry, hmem, rfl⟩ := exists_mem_of_known? hknown
    obtain ⟨frequency, _, rfl⟩ := h
    exact (hs entry hmem).id

/-- It is serviceable if it is known, or if everything but its id can be used. -/
theorem Joined.serviceable_iff (hs : s.Every Serviceable) (h : Joined (s.known? r) r q) :
    q.Serviceable ↔ (s.known? r = none → r.Tellable) := by
  cases hknown : s.known? r with
  | none =>
    rw [hknown] at h
    obtain ⟨id, rfl⟩ := h
    exact ⟨fun hq _ => { hq.toTellable with }, fun hr => (hr rfl).with_id id⟩
  | some p =>
    rw [hknown] at h
    obtain ⟨entry, hmem, rfl⟩ := exists_mem_of_known? hknown
    obtain ⟨frequency, _, rfl⟩ := h
    -- A known pattern gains only a count and files, and keeps what is asked of it.
    exact ⟨fun _ => nofun, fun _ => { hs entry hmem with }⟩

theorem Merged.id_isText (h : Merged ps s t) (hs : s.Every Serviceable) :
    t.Every fun p => p.id.IsText := by
  intro entry hentry
  rcases h.entries entry hentry with hold | ⟨r, hr, hknown⟩
  · exact (hs entry hold).id
  · obtain ⟨q, hq, hjoined⟩ := h.joined r hr
    rw [hknown] at hq
    cases hq
    exact hjoined.id_isText hs

/-- After a merge all patterns are serviceable exactly if the new ones can be used. -/
theorem Merged.serviceable_iff (h : Merged ps s t) (hs : s.Every Serviceable) :
    t.Every Serviceable ↔ ∀ r ∈ ps, s.known? r = none → r.Tellable := by
  constructor
  · intro ht r hr
    obtain ⟨q, hq, hjoined⟩ := h.joined r hr
    obtain ⟨entry, hmem, rfl⟩ := exists_mem_of_known? hq
    exact (hjoined.serviceable_iff hs).1 (ht entry hmem)
  · intro hall entry hentry
    rcases h.entries entry hentry with hold | ⟨r, hr, hknown⟩
    · exact hs entry hold
    · obtain ⟨q, hq, hjoined⟩ := h.joined r hr
      rw [hknown] at hq
      cases hq
      exact (hjoined.serviceable_iff hs).2 (hall r hr)

end Store

namespace Memory

variable {setup : Setup Value} {m n : Memory Value} {document : Value} {replace : Bool}
  {count : Nat} {smoothing : Smoothing Value} {prefs : Preferences Value}
  {ps : List (Pattern Value)}

/-- The memory that patterns and preferences make up is serviceable exactly if the patterns
are, and the ids of liked and avoided patterns are texts. -/
theorem serviceable_ofPatterns_iff (hsmoothing : smoothing.Usable)
    (hmeasured : ∀ p ∈ ps, p.Measured) (hseparate : Store.Separate ps) (hproper : prefs.Proper)
    (hfloating : prefs.Floating) :
    Serviceable ⟨Store.ofPatterns smoothing ps, prefs, 0⟩ ↔
      (∀ p ∈ ps, p.Serviceable) ∧ (∀ id ∈ prefs.preferred, id.IsText) ∧
        ∀ id ∈ prefs.avoided, id.IsText := by
  constructor
  · intro h
    exact ⟨Store.every_ofPatterns_iff.1 h.patterns, h.sortable.preferredTexts,
      h.sortable.avoidedTexts⟩
  · rintro ⟨hpatterns, hpreferred, havoided⟩
    have hknown : ∀ p ∈ ps, (p.id == .null) = false := by
      intro p hp
      obtain ⟨text, htext⟩ := (hpatterns p hp).id
      rw [htext]
      exact Store.text_ne_null text
    have hready : (Store.ofPatterns smoothing ps).Ready :=
      { coherent := Store.coherent_ofPatterns hseparate hknown
        measured := Store.every_ofPatterns hmeasured
        counted := Store.every_ofPatterns fun p hp => (hpatterns p hp).counted
        smoothing := hsmoothing }
    refine ⟨hready, Store.every_ofPatterns hpatterns,
      { hproper with preferredTexts := hpreferred, avoidedTexts := havoided },
      fun weight hweight => ?_⟩
    obtain ⟨x, rfl⟩ := hfloating weight hweight
    exact Value.mixes_real x

/-- Patterns that are merged into a serviceable memory leave one exactly if the new ones
can be used. -/
theorem serviceable_merged_iff {s : Store Value} (hm : m.Serviceable)
    (hmerged : Store.Merged ps m.store s) (hcoherent : s.Coherent)
    (hmeasured : s.Every Pattern.Measured) (hsmoothing : s.smoothing.Usable) :
    Serviceable { m with store := s } ↔ ∀ r ∈ ps, m.store.known? r = none → r.Tellable := by
  rw [← hmerged.serviceable_iff hm.patterns]
  constructor
  · exact fun h => h.patterns
  · intro hpatterns
    have hready : s.Ready :=
      ⟨hcoherent, hmeasured, fun entry hentry => (hpatterns entry hentry).counted, hsmoothing⟩
    exact ⟨hready, hpatterns, hm.sortable, hm.weights⟩

/-- The settings that are used where nothing is given. -/
def usualSetup : Setup Value :=
  ⟨.usual [] .null .null, ⟨fun _ _ => default, fun _ => .statements []⟩, Config.default.rules,
    .usual⟩

/-- A snapshot of two loops, the second one under a given id. -/
def twoLoops (id : Value) : Value :=
  let loop (id : Value) (keyword : String) : Value :=
    .object
      [("id", id), ("pattern_type", .text "loop_construct"), ("language", .text "python"),
       ("signature", .text keyword), ("confidence", .real 0.5), ("frequency", .int 1),
       ("first_seen", .text "20240101"), ("last_seen", .text "20240101"),
       ("last_touched", .text "20240101")]
  .object
    [("schema_version", .int 2), ("patterns", .list [loop (.text "a") "for", loop id "while"]),
     ("preferences", .object [])]

/-- The patterns that a snapshot of two loops describes. -/
def readLoops (id : Value) : Except Fault (List (Pattern Value)) := do
  (Snapshot.records (← Snapshot.migrate (twoLoops id))).mapM (Store.patternOf Store.readRecord)

end Memory

end CodeHabits
