import CodeHabits.Proofs.Memory.Crossing
import CodeHabits.Proofs.Memory.Logged
import CodeHabits.Proofs.Session.History

/-!
# `CodeHabits.Proofs.Session.Adding`: sessions that merge what they are given

A session that only learns logs every event in the pattern that it is about
(`ownsLog_run`), and one whose patterns own their logs keeps it that way until it takes a
snapshot in.

With a snapshot in place of everything, the patterns own their logs if those of the snapshot
do. A merge may break it even then: it looks patterns up by their names and gives the new
ones ids of its own, while their events go on naming the ids that they had where they come
from. `logs_owned` says for which snapshots this happens, in any session whatever. An earlier
release used longer ids, so every pattern that it has logged something in is one of them.

`merges_add_up` says of every session under a checked configuration which lists of records a
merge accepts, and what it answers and leaves (`Store.AddsUp`). All of this goes by what the
store knows. Under ids that are not null that is what it has. A null id can come in with a
snapshot that is taken in place of what was learned, and then its pattern is not known: the
next merge takes the same pattern in once more.

Two sessions without null ids match after each has merged the snapshot of the other. For the
snapshots to be read, the calls have to be made at times that a text can stand for.
-/

set_option autoImplicit false

/-! ## Whether logs name their patterns -/

namespace CodeHabits

open Time (Timestamp)

/-- What becomes of the logs when a snapshot is taken in. -/
theorem Memory.ownsLog_takeSnapshot {idOf : IdScheme} {m n : Memory Value} {document : Value}
    {replace : Bool} {count : Nat} (hlinked : m.store.Linked)
    (hm : m.store.Every Pattern.OwnsLog)
    (h : (takeSnapshot idOf document replace).outcome m = (.ok count, n)) :
    ∃ members ps, Snapshot.migrate document = .ok members ∧
      (Snapshot.records members).mapM (Store.patternOf Store.readRecord) = .ok ps ∧
      (replace = true → (n.store.Every Pattern.OwnsLog ↔ ∀ r ∈ ps, r.OwnsLog)) ∧
      (replace = false → (∀ r ∈ ps, r.OwnsLog) →
        (n.store.Every Pattern.OwnsLog ↔ Store.KeepsIds ps m.store n.store)) := by
  obtain ⟨members, hmigrate, hreplaced, hmerged⟩ := takeSnapshot_eq_ok h
  cases replace with
  | true =>
    obtain ⟨prefs, ps, _, hps, _, rfl⟩ := hreplaced rfl
    exact ⟨members, ps, hmigrate, hps, fun _ => Store.every_ofPatterns_iff, nofun⟩
  | false =>
    obtain ⟨s, rfl, hmerge⟩ := hmerged rfl
    obtain ⟨ps, hps, _, hlinks⟩ := Store.merged_of_merge hmerge
    exact ⟨members, ps, hmigrate, hps, nofun, fun _ => (hlinks hlinked).ownsLog_iff hm⟩

namespace Session

variable {s : Session} {c : Call}

/-- One call that learns or forgets, whether it fails or not. -/
theorem ownsLog_step (idOf : IdScheme) (hc : c.LearnsAlone) (hkeyed : s.memory.store.Keyed)
    (h : s.memory.store.Every Pattern.OwnsLog) :
    (step idOf s c).memory.store.Every Pattern.OwnsLog := by
  obtain ⟨deed, hdeed, hlearns⟩ := hc.exists_deed
  rw [memory_step hdeed]
  exact Memory.ownsLog_perform .usual { s.setup with idOf } c.now hlearns hkeyed h

/-- A session that only learns owns all its logs. -/
theorem ownsLog_run (idOf : IdScheme) {calls : List Call} (hcalls : ∀ c ∈ calls, c.LearnsAlone)
    (hkeyed : s.memory.store.Keyed) (h : s.memory.store.Every Pattern.OwnsLog) :
    (run idOf s calls).memory.store.Every Pattern.OwnsLog := by
  -- What a reaction is logged under has to be the id of the pattern, so both go together.
  have hboth : (run idOf s calls).memory.store.Keyed ∧
      (run idOf s calls).memory.store.Every Pattern.OwnsLog := by
    refine run_keeps (P := fun s => s.memory.store.Keyed ∧ s.memory.store.Every Pattern.OwnsLog)
      ?_ hcalls ⟨hkeyed, h⟩
    intro s c hc hs
    exact ⟨structural_step Store.structural_keyed idOf s c hs.1, ownsLog_step idOf hc hs.1 hs.2⟩
  exact hboth.2

/-- After any run of a session, whatever the settings, whatever it took in and whatever
proposes the ids:

- if the session only learned, then every event is logged in the pattern that it is about;
- where this is so, learning and forgetting leave it so, whether they fail or not;
- a snapshot in place of the memory leaves it so exactly if it is so in the snapshot;
- if it is so in a snapshot that is merged, then it is so afterwards exactly if every new
  pattern with something in its log has got the id that it came with.
-/
theorem logs_owned (idOf : IdScheme) (settings : Settings) (grammars : Grammars) (files : Files)
    (start : Timestamp) (calls : List Call) :
    let s := run idOf (Session.start settings grammars files start) calls
    ((∀ c ∈ calls, c.LearnsAlone) → s.memory.store.Every Pattern.OwnsLog) ∧
      (s.memory.store.Every Pattern.OwnsLog →
        (∀ c : Call, c.LearnsAlone → (step idOf s c).memory.store.Every Pattern.OwnsLog) ∧
        ∀ document replace count n,
          (Memory.takeSnapshot idOf document replace).outcome s.memory = (.ok count, n) →
            ∃ members ps, Snapshot.migrate document = .ok members ∧
              (Snapshot.records members).mapM (Store.patternOf Store.readRecord) = .ok ps ∧
              (replace = true → (n.store.Every Pattern.OwnsLog ↔ ∀ r ∈ ps, r.OwnsLog)) ∧
              (replace = false → (∀ r ∈ ps, r.OwnsLog) →
                (n.store.Every Pattern.OwnsLog ↔
                  Store.KeepsIds ps s.memory.store n.store))) := by
  intro s
  have hkeyed : s.memory.store.Keyed :=
    structural_run Store.structural_keyed idOf settings grammars files start calls
  have hlinked : s.memory.store.Linked := linked_run settings grammars files start calls
  refine ⟨fun hcalls => ?_, fun h => ⟨fun c hc => ownsLog_step idOf hc hkeyed h, ?_⟩⟩
  · exact ownsLog_run idOf hcalls (Store.structural_keyed.empty _) (Store.every_empty _)
  · intro document replace count n htaken
    exact Memory.ownsLog_takeSnapshot hlinked h htaken

/-- A snapshot of the first version, with one loop that was accepted once. -/
def acceptedLoop (id : String) : Value :=
  .object
    [("schema_version", .int 1),
     ("patterns", .list
       [.object
         [("id", .text id), ("pattern_type", .text "loop_construct"), ("language", .text "python"),
          ("signature", .text "for"), ("confidence", .real 0.7), ("frequency", .int 3),
          ("last_seen", .text "20240101"),
          ("feedback", .list
            [.object
              [("pattern_id", .text id), ("action", .text "accepted"),
               ("timestamp", .text "20240101")]])]])]

/-- The patterns that a document describes. -/
def patternsIn (document : Value) : Except Fault (List (Pattern Value)) := do
  (Snapshot.records (← Snapshot.migrate document)).mapM (Store.patternOf Store.readRecord)

/-- Ids that are the signatures themselves. -/
def bySignature : IdScheme := fun _ signature => signature.display

/-- A text is analysed, and the pattern that is found in it accepted under its signature. -/
def callsBySignature : List Call :=
  acceptedCalls.take 1 ++
    [⟨⟨0, 0⟩, .empty, .feedback (.text "Call|arg_count=0|depth=0|shape=") .accepted none
      ⟨.null, .null, none⟩ none none⟩]

theorem learnsAlone_bySignature : ∀ c ∈ callsBySignature, c.LearnsAlone :=
  List.forall_mem_cons.2 ⟨trivial, List.forall_mem_singleton.2 trivial⟩

/-- How it ends when the loop is merged into what a session has learned. -/
def withLoop (s : Session) (id : String) : Except Fault Nat × Memory Value :=
  (Memory.takeSnapshot bySignature (acceptedLoop id) false).outcome s.memory

/-- The loop comes to a session whose own reaction is logged where it belongs. With the id
that is proposed for it here the merge leaves all logs owned. With an id of an earlier
release it does not, although in the snapshot the event names its pattern. -/
theorem logs_owned_of_acceptedLoop :
    ∃ settings, outlinedGo.settings = .ok settings ∧
      let s := run bySignature (withoutGrammars settings) callsBySignature
      s.memory.store.patterns.map (·.2.feedback.length) = [1] ∧
        s.memory.store.Every Pattern.OwnsLog ∧
        ((withLoop s "for").1 = .ok 1 ∧ (withLoop s "for").2.store.Every Pattern.OwnsLog) ∧
        (withLoop s "pat_0123456789abcdef").1 = .ok 1 ∧
          ¬ (withLoop s "pat_0123456789abcdef").2.store.Every Pattern.OwnsLog := by
  -- With either id the snapshot is taken in and its own event is logged where it belongs.
  -- Only the first id is kept.
  have hcomputed : (outlinedGo.settings.toOption.any fun settings =>
      let s := run bySignature (withoutGrammars settings) callsBySignature
      decide (s.memory.store.patterns.map (·.2.feedback.length) = [1]) &&
        ["for", "pat_0123456789abcdef"].all fun id =>
          ((withLoop s id).1.toOption.any (· == 1)) &&
            (patternsIn (acceptedLoop id)).toOption.any fun ps =>
              decide (∀ r ∈ ps, r.OwnsLog) &&
                (decide (Store.KeepsIds ps s.memory.store (withLoop s id).2.store)
                  == (id == "for")))
      = true := by decide +kernel
  obtain ⟨settings, hsettings, hcomputed⟩ := (Option.any_eq_true _ _).1 hcomputed
  refine ⟨settings, Except.toOption_eq_some.1 hsettings, ?_⟩
  have howned := logs_owned bySignature settings ⟨fun _ _ => default, fun _ => .statements []⟩
    .empty ⟨0, 0⟩ callsBySignature
  unfold withoutGrammars at hcomputed ⊢
  -- Of the session only this is needed from here on.
  generalize run bySignature (start settings _ _ _) callsBySignature = s at howned hcomputed ⊢
  obtain ⟨halone, howned⟩ := howned
  obtain ⟨hlogged, hcomputed⟩ := Bool.and_eq_true_iff.1 hcomputed
  have hs : s.memory.store.Every Pattern.OwnsLog := halone learnsAlone_bySignature
  have hmerged : ∀ id ∈ ["for", "pat_0123456789abcdef"], (withLoop s id).1 = .ok 1 ∧
      ((withLoop s id).2.store.Every Pattern.OwnsLog ↔ id = "for") := by
    intro id hid
    obtain ⟨hone, hread⟩ := Bool.and_eq_true_iff.1 (List.all_eq_true.1 hcomputed id hid)
    obtain ⟨count, hcount, hone⟩ := (Option.any_eq_true _ _).1 hone
    have hok : (withLoop s id).1 = .ok 1 := by
      rw [← eq_of_beq hone]
      exact Except.toOption_eq_some.1 hcount
    have htaken : withLoop s id = (.ok 1, (withLoop s id).2) := by rw [← hok]
    obtain ⟨members, ps, hmembers, hps, _, hiff⟩ :=
      (howned hs).2 (acceptedLoop id) false 1 (withLoop s id).2 htaken
    have hpatterns : (patternsIn (acceptedLoop id)).toOption = some ps := by
      rw [patternsIn, hmembers]
      exact Except.toOption_eq_some.2 hps
    rw [hpatterns, Option.any_some] at hread
    obtain ⟨howns, hkeeps⟩ := Bool.and_eq_true_iff.1 hread
    have hkeeps := Bool.eq_iff_iff.1 (eq_of_beq hkeeps)
    rw [decide_eq_true_iff, beq_iff_eq] at hkeeps
    exact ⟨hok, (hiff rfl (of_decide_eq_true howns)).trans hkeeps⟩
  obtain ⟨hnew, hkept⟩ := hmerged "for" (by simp)
  obtain ⟨hold, hbroken⟩ := hmerged "pat_0123456789abcdef" (by simp)
  refine ⟨of_decide_eq_true hlogged, hs, ⟨hnew, hkept.2 rfl⟩, hold, ?_⟩
  intro hevery
  exact absurd (hbroken.1 hevery) (by decide)

end Session

end CodeHabits

/-! ## What a merge accepts and leaves -/

namespace CodeHabits.Session

open Time (Timestamp)

variable {idOf : IdScheme} {s : Session}

/-! ### Legible sessions -/

/-- The call is made at a time that a text can stand for, and so is what it logs. -/
def Call.Timely (c : Call) : Prop :=
  c.now.Valid ∧ ∀ e ∈ c.event?, e.Dated

/-- One such call, whatever it takes in and whether it fails or not. -/
theorem legible_step (idOf : IdScheme) {c : Call} (hc : c.Timely) (h : s.memory.Legible) :
    (step idOf s c).memory.Legible := by
  apply keeps_step
  · exact fun m n hm => hm
  · exact fun found => Memory.legible_learn idOf hc.1 found.sighting
  · exact fun e he id => Memory.legible_takeIn _ id (hc.2 e he)
  · exact fun now => Memory.legible_decay _ now
  · exact fun document replace _ => Memory.legible_takeSnapshot idOf document replace
  · intro _ memory count hloaded
    rcases loaded_cases hloaded with hsame | hclear | ⟨_, _, _, _, _, hof⟩
    · rw [hsame]
      exact h
    · rw [hclear]
      exact Store.every_empty _
    · exact Memory.legible_ofSnapshot hof
  · exact Store.every_empty _
  · exact h

/-! ### Lives -/

/-- What a session is made of, under a configuration that was checked, and what it has been
asked to do since. -/
structure Life where
  config : Config
  settings : Settings
  valid : config.validate = .ok ()
  made : config.settings = .ok settings
  grammars : Grammars
  files : Files
  start : Timestamp
  calls : List Call

namespace Life

/-- The session at the end. -/
def session (idOf : IdScheme) (l : Life) : Session :=
  run idOf (Session.start l.settings l.grammars l.files l.start) l.calls

variable (l : Life)

theorem structural {P : Store Value → Prop} (hP : Store.Structural P) :
    P (l.session idOf).memory.store :=
  structural_run hP idOf l.settings l.grammars l.files l.start l.calls

theorem measured : (l.session idOf).memory.Measured :=
  measured_run l.valid l.made l.grammars l.files l.start l.calls

theorem legible (htimely : ∀ c ∈ l.calls, c.Timely) : (l.session idOf).memory.Legible :=
  run_keeps (P := fun s => s.memory.Legible) (fun _ _ hc h => legible_step idOf hc h) htimely
    (Store.every_empty _)

/-- Without null ids, the snapshot of a session can be merged by others. -/
theorem portable (htimely : ∀ c ∈ l.calls, c.Timely)
    (hids : (l.session idOf).memory.store.Identified) : (l.session idOf).memory.Portable where
  coherent := l.structural Store.structural_coherent hids
  measured := l.measured
  legible := l.legible htimely

end Life

/-- After any life of a session, whatever it took in and whatever proposes the ids:

- a list of records is merged if each describes a pattern and these are separate;
- if a list of records is merged, then this is so, and it adds up to what is left;
- if no id is null, then what the store does not know are the names that it does not have;
- if this is so of two sessions, and all their calls were made at times that can be written,
  then each can merge the snapshot of the other one, and their stores match afterwards.
-/
theorem merges_add_up (idOf : IdScheme) (l : Life) :
    let s := (l.session idOf).memory
    (∀ records ps, records.mapM (Store.patternOf Store.readRecord) = .ok ps → Store.Separate ps →
      ∃ count t, (Store.merge idOf Store.readRecord .default records).outcome s.store
        = (.ok count, t)) ∧
    (∀ records count t, (Store.merge idOf Store.readRecord .default records).outcome s.store
        = (.ok count, t) →
      ∃ ps, records.mapM (Store.patternOf Store.readRecord) = .ok ps ∧ Store.Separate ps ∧
        Store.AddsUp ps count s.store t) ∧
    (s.store.Identified → ∀ r, s.store.known? r = none ↔ ¬ s.store.HasName r.name) ∧
    ∀ k : Life, let t := (k.session idOf).memory
      (∀ c ∈ l.calls ++ k.calls, c.Timely) → s.store.Identified → t.store.Identified →
      ∀ manner : Manner Value, manner.Plain → ∀ start stop members others,
        s.snapshot manner start = .ok members → t.snapshot manner stop = .ok others →
        ∃ i j u v,
          (Memory.takeSnapshot idOf (.object others) false).outcome s
            = (.ok i, { s with store := u }) ∧
          (Memory.takeSnapshot idOf (.object members) false).outcome t
            = (.ok j, { t with store := v }) ∧
          u.Coherent ∧ v.Coherent ∧ u.MatchedIn v ∧ v.MatchedIn u := by
  intro s
  have hlinked : s.store.Linked := l.structural Store.structural_linked
  refine ⟨?_, ?_, ?_, ?_⟩
  · intro records ps hps hseparate
    exact Store.exists_merge idOf hlinked l.measured
      (Store.ofRecords_eq_ok_iff.2 ⟨ps, hps, hseparate, rfl⟩)
  · intro records count t hmerge
    apply Store.addsUp_of_merge hlinked (l.structural Store.structural_keyed)
      (l.structural Store.structural_distinct) _ hmerge
    exact fun entry hmem => (l.measured entry hmem).frequency
  · intro hids r
    exact Store.Coherent.known?_eq_none_iff (l.structural Store.structural_coherent hids)
  · intro k t htimely hs ht manner hmanner start stop members others hmembers hothers
    obtain ⟨hl, hk⟩ := List.forall_mem_append.1 htimely
    exact Memory.match_takeSnapshot idOf (l.portable hl hs) (k.portable hk ht) hmanner hmembers
      hothers

/-- A life under the default configuration for a language that has no grammar. -/
def Life.outlined {settings : Settings} (h : outlinedGo.settings = .ok settings)
    (calls : List Call) : Life :=
  ⟨outlinedGo, settings, Except.eq_ok_unit (by decide +kernel), h,
    ⟨fun _ _ => default, fun _ => .statements []⟩, .empty, ⟨0, 0⟩, calls⟩

/-- A text in a file is analysed. -/
def callsIn (file : String) : List Call :=
  [⟨⟨0, 0⟩, .empty, .analyze ⟨"x();\n", some "go", file⟩⟩]

theorem timely_callsIn (file : String) : ∀ c ∈ callsIn file, c.Timely := by
  have hnow : Timestamp.Valid ⟨0, 0⟩ := ⟨by decide, by decide, by decide⟩
  exact List.forall_mem_singleton.2 ⟨hnow, nofun⟩

instance (s : Store Value) : Decidable s.Identified :=
  inferInstanceAs (Decidable (∀ entry ∈ s.patterns, (entry.2.id == .null) = false))

/-- How often the patterns of a memory were sighted, and in how many files. -/
def tallies (m : Memory Value) : List (Int × Nat) :=
  m.store.patterns.map fun entry => (entry.2.sightings, entry.2.sourceFiles.length)

/-- Two sessions have found the same call in two files. Each has one pattern, which was
sighted once. After merging what the other one knows it was sighted twice, in both files. -/
theorem merges_add_up_of_two_files :
    ∃ settings, ∃ h : outlinedGo.settings = .ok settings,
      let s := ((Life.outlined h (callsIn "a.go")).session bySignature).memory
      let t := ((Life.outlined h (callsIn "b.go")).session bySignature).memory
      tallies s = [(1, 1)] ∧ tallies t = [(1, 1)] ∧
        ∃ members others i j u v,
          (Memory.takeSnapshot bySignature (.object others) false).outcome s
            = (.ok i, { s with store := u }) ∧
          (Memory.takeSnapshot bySignature (.object members) false).outcome t
            = (.ok j, { t with store := v }) ∧
          tallies { s with store := u } = [(2, 2)] ∧ tallies { t with store := v } = [(2, 2)] ∧
          u.MatchedIn v ∧ v.MatchedIn u := by
  have hcomputed : (outlinedGo.settings.toOption.any fun settings =>
      let s := (run bySignature (withoutGrammars settings) (callsIn "a.go")).memory
      let t := (run bySignature (withoutGrammars settings) (callsIn "b.go")).memory
      decide (s.store.Identified ∧ t.store.Identified) &&
        decide (tallies s = [(1, 1)] ∧ tallies t = [(1, 1)]) &&
          (s.snapshot Manner.answer ⟨0, 0⟩).toOption.any fun members =>
            (t.snapshot Manner.answer ⟨0, 0⟩).toOption.any fun others =>
              decide
                (tallies ((Memory.takeSnapshot bySignature (.object others) false).outcome s).2
                    = [(2, 2)] ∧
                  tallies ((Memory.takeSnapshot bySignature (.object members) false).outcome t).2
                    = [(2, 2)])) = true := by decide +kernel
  obtain ⟨settings, hsettings, hcomputed⟩ := (Option.any_eq_true _ _).1 hcomputed
  have h := Except.toOption_eq_some.1 hsettings
  refine ⟨settings, h, ?_⟩
  have hadds := (merges_add_up bySignature (Life.outlined h (callsIn "a.go"))).2.2.2
    (Life.outlined h (callsIn "b.go"))
    (List.forall_mem_append.2 ⟨timely_callsIn "a.go", timely_callsIn "b.go"⟩)
  have hsession (file : String) : (Life.outlined h (callsIn file)).session bySignature
      = run bySignature (withoutGrammars settings) (callsIn file) := rfl
  simp only [hsession] at hadds ⊢
  -- Of the two sessions only this is needed from here on.
  generalize (run bySignature (withoutGrammars settings) (callsIn "a.go")).memory = s
    at hadds hcomputed ⊢
  generalize (run bySignature (withoutGrammars settings) (callsIn "b.go")).memory = t
    at hadds hcomputed ⊢
  simp only [Bool.and_eq_true, decide_eq_true_eq] at hcomputed
  obtain ⟨⟨⟨hs, ht⟩, hone⟩, hcomputed⟩ := hcomputed
  obtain ⟨members, hmembers, hcomputed⟩ := (Option.any_eq_true _ _).1 hcomputed
  obtain ⟨others, hothers, hcomputed⟩ := (Option.any_eq_true _ _).1 hcomputed
  obtain ⟨i, j, u, v, hu, hv, _, _, huv, hvu⟩ := hadds hs ht Manner.answer Manner.plain_answer
    ⟨0, 0⟩ ⟨0, 0⟩ members others (Except.toOption_eq_some.1 hmembers)
    (Except.toOption_eq_some.1 hothers)
  rw [hu, hv] at hcomputed
  obtain ⟨hleft, hright⟩ := of_decide_eq_true hcomputed
  exact ⟨hone.1, hone.2, members, others, i, j, u, v, hu, hv, hleft, hright, huv, hvu⟩

end CodeHabits.Session
