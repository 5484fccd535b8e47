import CodeHabits.Proofs.Memory.Deed
import CodeHabits.Proofs.Memory.Reacting
import CodeHabits.Proofs.Memory.Restoring
import CodeHabits.Proofs.Preferences.Weights
import CodeHabits.Proofs.Store.Merging

/-!
# `CodeHabits.Proofs.Memory.DataModel`: snapshots and the data model

By the data model every weight is in the range that the rules give, nothing is both
preferred and avoided, every pattern was sighted at least once, and no pattern lists a file
twice (`Memory.Regular`). A snapshot is read member by member. Of the data model only the
confidences are seen to: they are forced into the unit interval. Weights, labels, counts
of sightings and lists of files are taken over as they stand.

`regular_takeSnapshot_iff` says exactly which snapshots keep to the data model. In place of
a memory, those that keep to it themselves. In a merge the preferences of the snapshot are
left out and repeated files too, so only this is asked: new patterns keep to the data
model, and for a pattern that is known the sightings in both places sum to one at least.
A snapshot can also tell a number of sightings below zero, and exactly then the merge
lowers the number for a known pattern.
-/

set_option autoImplicit false

namespace CodeHabits

open Time (Timestamp)

/-! ### The data model -/

/-- How often a pattern was sighted; zero if that is no whole number. -/
def Pattern.sightings (p : Pattern Value) : Int :=
  match p.frequency with
  | .int n => n
  | _ => 0

theorem Pattern.sightings_eq {p : Pattern Value} {n : Int} (h : p.frequency = .int n) :
    p.sightings = n := by
  rw [sightings, h]

/-- The pattern keeps to the data model: it was sighted, and no file of it is the same as
one before. -/
structure Pattern.Regular (p : Pattern Value) : Prop where
  sighted : 1 ≤ p.sightings
  files : p.sourceFiles.Pairwise fun file later => later.same file = false

/-- A weight is in the range that the rules give. -/
def Learning.Spans (rules : Learning Value) (weight : Value) : Prop :=
  Magnitude.le rules.minWeight weight = .ok true ∧ Magnitude.le weight rules.maxWeight = .ok true

/-- The preferences keep to the data model. -/
structure Preferences.Regular (rules : Learning Value) (prefs : Preferences Value) : Prop where
  kinds : ∀ weight ∈ prefs.kindWeights, rules.Spans weight.2
  languages : ∀ weight ∈ prefs.languageWeights, rules.Spans weight.2
  apart : ∀ id, ¬ (prefs.Likes id ∧ prefs.Avoids id)

/-- A memory that keeps to the data model. -/
structure Memory.Regular (rules : Learning Value) (m : Memory Value) : Prop where
  preferences : m.preferences.Regular rules
  patterns : m.store.Every Pattern.Regular

/-! ### Merging -/

/-- Adding a file keeps the files apart. -/
theorem Pattern.pairwise_addSource {files : List Value} (file : Value)
    (h : files.Pairwise fun file later => later.same file = false) :
    (addSource files file).Pairwise fun file later => later.same file = false := by
  unfold addSource
  split
  · exact h
  · rename_i hnew
    -- A file is added only if none of the known ones is the same.
    refine List.pairwise_append.2 ⟨h, List.pairwise_singleton _ _, ?_⟩
    intro known hknown last hlast
    rw [List.mem_singleton.1 hlast, Bool.eq_false_iff]
    exact fun hsame => hnew (List.any_eq_true.2 ⟨known, hknown, hsame⟩)

theorem Pattern.pairwise_addSources {files : List Value} (others : List Value)
    (h : files.Pairwise fun file later => later.same file = false) :
    (others.foldl addSource files).Pairwise fun file later => later.same file = false := by
  induction others generalizing files with
  | nil => exact h
  | cons file rest ih => exact ih (pairwise_addSource file h)

namespace Store

variable {s t : Store Value} {p q r : Pattern Value} {ps : List (Pattern Value)}

/-- What comes in keeps to the data model once it is taken in: by itself if it is new, and
else together with what is known. -/
def Fits (s : Store Value) (r : Pattern Value) : Prop :=
  match s.known? r with
  | none => r.Regular
  | some p => 1 ≤ p.sightings + r.sightings

/-- No number of sightings is lower in the second store, and nothing is missing there. -/
def Grows (s t : Store Value) : Prop :=
  ∀ id p, s.get? id = some p → ∃ q, t.get? id = some q ∧ p.sightings ≤ q.sightings

/-- Sightings are summed. -/
theorem Joined.sightings (hp : ∃ n, p.frequency = .int n) (hr : ∃ n, r.frequency = .int n)
    (h : Joined (some p) r q) : q.sightings = p.sightings + r.sightings := by
  obtain ⟨k, hk⟩ := hp
  obtain ⟨n, hn⟩ := hr
  obtain ⟨frequency, hadd, rfl⟩ := h
  have hsum : Magnitude.add p.frequency r.frequency = .ok (.int (k + n)) := by
    rw [hk, hn]
    rfl
  rw [hsum] at hadd
  cases hadd
  rw [Pattern.sightings_eq hk, Pattern.sightings_eq hn]
  rfl

/-- A pattern that was sighted at all was sighted a whole number of times. -/
theorem exists_frequency_of_regular (h : p.Regular) : ∃ n, p.frequency = .int n := by
  have hsighted := h.sighted
  unfold Pattern.sightings at hsighted
  split at hsighted
  · exact ⟨_, ‹_›⟩
  · omega

/-- What becomes of a pattern that comes in keeps to the data model exactly if it fits. -/
theorem Joined.regular_iff (hs : s.Every Pattern.Regular) (hr : ∃ n, r.frequency = .int n)
    (h : Joined (s.known? r) r q) : q.Regular ↔ s.Fits r := by
  unfold Fits
  cases hknown : s.known? r with
  | none =>
    rw [hknown] at h
    obtain ⟨id, rfl⟩ := h
    exact ⟨fun h => ⟨h.sighted, h.files⟩, fun h => ⟨h.sighted, h.files⟩⟩
  | some p =>
    rw [hknown] at h
    obtain ⟨entry, hmem, rfl⟩ := exists_mem_of_known? hknown
    -- The files are kept apart by the way they are added, so only the sum can be wrong.
    have hp := hs entry hmem
    have hsum := h.sightings (exists_frequency_of_regular hp) hr
    constructor
    · intro hq
      show 1 ≤ entry.2.sightings + r.sightings
      rw [← hsum]
      exact hq.sighted
    · intro hfits
      refine ⟨by rw [hsum]; exact hfits, ?_⟩
      obtain ⟨frequency, _, rfl⟩ := h
      exact Pattern.pairwise_addSources r.sourceFiles hp.files

/-- After a merge everything keeps to the data model exactly if all that came in fits. -/
theorem Merged.regular_iff (h : Merged ps s t) (hs : s.Every Pattern.Regular)
    (hwhole : ∀ r ∈ ps, ∃ n, r.frequency = .int n) :
    t.Every Pattern.Regular ↔ ∀ r ∈ ps, s.Fits r := by
  constructor
  · intro ht r hr
    obtain ⟨q, hq, hjoined⟩ := h.joined r hr
    obtain ⟨entry, hmem, rfl⟩ := exists_mem_of_known? hq
    exact (hjoined.regular_iff hs (hwhole r hr)).1 (ht entry hmem)
  · intro hall entry hentry
    -- What the store holds is old, or it is what became of something that came in.
    rcases h.entries entry hentry with hold | ⟨r, hr, hknown⟩
    · exact hs entry hold
    · obtain ⟨q, hq, hjoined⟩ := h.joined r hr
      rw [hknown] at hq
      cases hq
      exact (hjoined.regular_iff hs (hwhole r hr)).2 (hall r hr)

/-- And no number of sightings is lowered exactly if none that is summed is below zero. -/
theorem Merged.grows_iff (h : Merged ps s t) (hs : s.Every Pattern.Regular)
    (hwhole : ∀ r ∈ ps, ∃ n, r.frequency = .int n) :
    s.Grows t ↔ ∀ r ∈ ps, (s.known? r).isSome → 0 ≤ r.sightings := by
  have hsum : ∀ r ∈ ps, ∀ p, s.known? r = some p →
      ∃ q, t.known? r = some q ∧ q.sightings = p.sightings + r.sightings := by
    intro r hr p hknown
    obtain ⟨q, hq, hjoined⟩ := h.joined r hr
    rw [hknown] at hjoined
    obtain ⟨entry, hmem, rfl⟩ := exists_mem_of_known? hknown
    exact ⟨q, hq, hjoined.sightings (exists_frequency_of_regular (hs entry hmem)) (hwhole r hr)⟩
  constructor
  · intro hgrows r hr hknown
    obtain ⟨p, hp⟩ := Option.isSome_iff_exists.1 hknown
    obtain ⟨q, hq, hsightings⟩ := hsum r hr p hp
    obtain ⟨id, hlookup, hget⟩ := Option.bind_eq_some_iff.1 hp
    obtain ⟨q', hq', hle⟩ := hgrows id p hget
    -- The store still recognises the pattern under the same id.
    rw [known?, h.recognised _ _ _ hlookup] at hq
    have hsame : some q' = some q := hq'.symm.trans hq
    cases hsame
    omega
  · intro hall id p hget
    rcases h.kept id p hget with hstays | ⟨r, hr, hknown, hleft⟩
    · exact ⟨p, hstays, le_refl _⟩
    · obtain ⟨q, hq, hsightings⟩ := hsum r hr p hknown
      have hpositive := hall r hr (by rw [hknown]; rfl)
      exact ⟨q, hleft.trans hq, by omega⟩

end Store

/-! ### Snapshots -/

namespace Memory

variable {rules : Learning Value} {idOf : IdScheme} {m n : Memory Value} {document : Value}
  {replace : Bool} {count : Nat}

/-- Whatever is done leaves an index that leads to patterns with the name that was looked up,
even if a snapshot names patterns by null. -/
theorem linked_runFrom (setup : Setup Value) (smoothing : Smoothing Value)
    (deeds : List (Timestamp × Deed)) :
    (runFrom .usual setup (empty smoothing) deeds).store.Linked :=
  structural_runFrom Store.structural_linked .usual setup smoothing deeds

/-- A snapshot is taken in, in place of a memory that keeps to the data model or merged
into it. Its index leads to the right patterns, as that of every memory does
(`linked_runFrom`). In place of the memory the snapshot leads to one that keeps to the data
model exactly if the preferences and the patterns in it do. A merge leaves the preferences
as they are. It leads to such a memory exactly if all patterns fit, and it lowers no number
of sightings exactly if no pattern that is known comes with a number below zero. -/
theorem regular_takeSnapshot_iff (hlinked : m.store.Linked) (hm : m.Regular rules)
    (h : (takeSnapshot idOf document replace).outcome m = (.ok count, n)) :
    ∃ members ps, Snapshot.migrate document = .ok members ∧
      (Snapshot.records members).mapM (Store.patternOf Store.readRecord) = .ok ps ∧
      (replace = true →
        ∃ prefs, readPreferences (Snapshot.preferences members) = .ok prefs ∧
          (n.Regular rules ↔ prefs.Regular rules ∧ ∀ p ∈ ps, p.Regular)) ∧
      (replace = false →
        n.preferences = m.preferences ∧
          (n.Regular rules ↔ ∀ r ∈ ps, m.store.Fits r) ∧
          (m.store.Grows n.store ↔ ∀ r ∈ ps, (m.store.known? r).isSome → 0 ≤ r.sightings)) := by
  obtain ⟨members, hmigrate, hreplaced, hmerged⟩ := takeSnapshot_eq_ok h
  cases replace with
  | true =>
    obtain ⟨prefs, ps, hprefs, hps, _, rfl⟩ := hreplaced rfl
    refine ⟨members, ps, hmigrate, hps, fun _ => ⟨prefs, hprefs, ?_⟩, nofun⟩
    exact ⟨fun h => ⟨h.preferences, Store.every_ofPatterns_iff.1 h.patterns⟩,
      fun h => ⟨h.1, Store.every_ofPatterns h.2⟩⟩
  | false =>
    obtain ⟨s, rfl, hmerge⟩ := hmerged rfl
    obtain ⟨ps, hps, _, hlinks⟩ := Store.merged_of_merge hmerge
    have hmerged := hlinks hlinked
    have hwhole : ∀ r ∈ ps, ∃ n, r.frequency = .int n :=
      fun r hr => (Store.measured_of_mapM hps r hr).frequency
    have hregular := hmerged.regular_iff hm.patterns hwhole
    refine ⟨members, ps, hmigrate, hps, nofun, fun _ => ⟨rfl, ?_, ?_⟩⟩
    · exact ⟨fun h => hregular.1 h.patterns, fun h => ⟨hm.preferences, hregular.2 h⟩⟩
    · exact hmerged.grows_iff hm.patterns hwhole

/-- A snapshot without patterns, and with a weight of a hundred for loops. -/
def heavyLoops : Value :=
  .object
    [("schema_version", .int 2), ("patterns", .list []),
     ("preferences", .object [("type_weights", .object [("loop_construct", .real 100.0)])])]

/-- The weight is taken over by a memory that kept to the data model. -/
theorem regular_takeSnapshot_iff_of_heavyLoops :
    (empty .default).Regular Config.default.rules ∧
      ∃ n, (takeSnapshot .usual heavyLoops true).outcome (empty .default) = (.ok 0, n) ∧
        ¬ n.Regular Config.default.rules := by
  have hempty : (empty .default).Regular Config.default.rules :=
    ⟨⟨by simp [empty, Preferences.none], by simp [empty, Preferences.none],
      by simp [empty, Preferences.none, Preferences.Likes]⟩, Store.every_empty _⟩
  refine ⟨hempty, _, rfl, fun hregular => ?_⟩
  have htaken : (takeSnapshot .usual heavyLoops true).outcome (empty .default) = (.ok 0, _) := rfl
  obtain ⟨members, ps, hmembers, _, hreplaced, _⟩ :=
    regular_takeSnapshot_iff (Store.coherent_empty _).linked hempty htaken
  obtain ⟨prefs, hprefs, hiff⟩ := hreplaced rfl
  cases hmembers
  cases hprefs
  have hspans :=
    (hiff.1 hregular).1.kinds ("loop_construct", .real 100.0) (List.mem_singleton.2 rfl)
  have hover :
      (Magnitude.le (.real 100.0) Config.default.rules.maxWeight).toOption = some false := by
    decide +kernel
  rw [hspans.2] at hover
  cases hover

end Memory

end CodeHabits
