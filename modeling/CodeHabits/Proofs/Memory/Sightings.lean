import CodeHabits.Proofs.Memory.DataModel
import CodeHabits.Proofs.Store.Seeing
import CodeHabits.Proofs.Store.Straying

/-!
# `CodeHabits.Proofs.Memory.Sightings`: what an analysis counts

An analysis learns from the candidates of a source text one after the other. It counts new
patterns by a look at the store before each of them, so the counts have to be put together
from many states.

`Analysis.Explains` says of two memories that the analysis explains how the one became the
other. Every candidate counts once in the pattern of its name, the analysis tells how many
patterns were added and which patterns were seen, and everything else is as it was.
`Setup.explains_analyze` shows it for every memory whose index leads where it should and in
which patterns were sighted a whole number of times. Nothing is asked of the styles, nor of
the configuration.

If the analysis fails with a fault of the domain, the fault comes from the source text, and
so the memory is as it was (`Setup.domain_analyze`).
-/

set_option autoImplicit false

namespace CodeHabits

open Time (Timestamp)

/-! ### One pattern -/

namespace Pattern

variable {p q : Pattern Value}

/-- The pattern was sighted a whole number of times. -/
def Numbered (p : Pattern Value) : Prop :=
  ∃ n, p.frequency = .int n

/-- Adding a file once more changes nothing. -/
theorem addSource_again (files : List Value) (file : String) :
    addSource (addSource files (.text file)) (.text file) = addSource files (.text file) := by
  have hsame : (Value.text file).same (.text file) = true := by
    simp [Value.same, Value.label?]
  have hknown : (addSource files (.text file)).any ((Value.text file).same ·) = true := by
    by_cases hold : files.any ((Value.text file).same ·) = true
    · rw [addSource, if_pos hold]
      exact hold
    · rw [addSource, if_neg hold, List.any_append, List.any_cons, hsame]
      simp
  rw [addSource, if_pos hknown]

end Pattern

namespace Store

open Pattern (Numbered)

variable {m : Smoothing Value} {now : Timestamp} {c : Sighting} {p q : Pattern Value}
  {cs : List Sighting} {before? after? : Option (Pattern Value)} {id : Label} {s t : Store Value}
  {found : List (Label × Bool)} {idOf : IdScheme} {name : Label × Label}

theorem SeenAgain.numbered (h : SeenAgain m now c p q) (hp : p.Numbered) :
    q.Numbered ∧ q.sightings = p.sightings + 1 := by
  obtain ⟨n, hn⟩ := hp
  have hq : q.frequency = .int (n + 1) := by
    have hcounted := h.counted
    rw [hn] at hcounted
    exact (Except.ok.inj hcounted).symm
  exact ⟨⟨_, hq⟩, by rw [Pattern.sightings_eq hq, Pattern.sightings_eq hn]⟩

theorem SeenFirst.numbered (h : SeenFirst m now c id q) : q.Numbered ∧ q.sightings = 1 := by
  have hq : q.frequency = .int 1 := by
    rw [h.rest]
    rfl
  exact ⟨⟨1, hq⟩, Pattern.sightings_eq hq⟩

/-- How often a pattern was sighted that may be there or not. -/
def timesSeen (known? : Option (Pattern Value)) : Int :=
  known?.elim 0 Pattern.sightings

theorem Seen.numbered (h : Seen m now c before? q) (hbefore : ∀ p ∈ before?, p.Numbered) :
    q.Numbered ∧ q.sightings = timesSeen before? + 1 := by
  cases before? with
  | none =>
    obtain ⟨id, hseen⟩ := h
    exact hseen.numbered
  | some p => exact SeenAgain.numbered h (hbefore p rfl)

/-- Several sightings of a pattern all count. -/
theorem SeenAll.timesSeen (h : SeenAll m now cs before? after?)
    (hbefore : ∀ p ∈ before?, p.Numbered) :
    timesSeen after? = timesSeen before? + cs.length := by
  induction h with
  | nil => simp
  | @cons c rest before? after? q hfirst _ ih =>
    obtain ⟨hnumbered, hseen⟩ := hfirst.numbered hbefore
    rw [ih fun p hp => by cases hp; exact hnumbered]
    show q.sightings + rest.length = _
    rw [hseen, List.length_cons]
    omega

/-- Several sightings in the same file add it once. -/
theorem SeenAll.sourceFiles (h : SeenAll m now cs before? after?) {file : String}
    (hfile : ∀ c ∈ cs, c.sourceFile = .text file) (hseen : cs ≠ []) :
    ∃ q, after? = some q ∧ q.sourceFiles = Pattern.addSource (filesOf before?) (.text file) := by
  induction h with
  | nil => exact absurd rfl hseen
  | @cons c rest before? after? q hfirst hrest ih =>
    obtain ⟨hc, hothers⟩ := List.forall_mem_cons.1 hfile
    have hq := hfirst.sourceFiles
    rw [hc] at hq
    cases rest with
    | nil =>
      cases hrest
      exact ⟨q, rfl, hq⟩
    | cons other rest =>
      -- The file is there since the first sighting, so the others add nothing.
      obtain ⟨r, hr, hfiles⟩ := ih hothers (by simp)
      refine ⟨r, hr, ?_⟩
      rw [hfiles]
      show Pattern.addSource q.sourceFiles (.text file) = _
      rw [hq, Pattern.addSource_again]

/-! ### The whole store -/

/-- How often any pattern was sighted. -/
def sightings (s : Store Value) : Int :=
  s.sum Pattern.sightings

theorem Learned.numbered (h : Learned idOf now c s id t) (hs : s.Every Numbered) :
    t.Every Numbered ∧ t.sightings = s.sightings + 1 := by
  constructor
  · cases h with
    | again _ hget hseen => exact hs.replace _ (hseen.numbered (hs.of_get? hget)).1
    | first _ hseen => exact hs.insert hseen.numbered.1
  · refine h.sum (fun p q hget hseen => ?_) fun _ q hseen => ?_
    · exact (hseen.numbered (hs.of_get? hget)).2
    · exact hseen.numbered.2

theorem LearnedAll.numbered (h : LearnedAll idOf now cs s found t) (hs : s.Every Numbered) :
    t.Every Numbered ∧ t.sightings = s.sightings + cs.length := by
  induction h with
  | nil => exact ⟨hs, by simp⟩
  | cons hfirst _ ih =>
    obtain ⟨hu, hone⟩ := hfirst.numbered hs
    obtain ⟨ht, hrest⟩ := ih hu
    refine ⟨ht, ?_⟩
    rw [hrest, hone, List.length_cons]
    omega

end Store

/-! ### Analyses -/

/-- The ids of the patterns sighted are those that came up, each where it first did. -/
theorem Setup.foldl_includingId (ids kept : List Label) :
    ids.foldl includingId kept
      = kept ++ (ids.filter fun id => !kept.any (· == id)).eraseDups := by
  induction ids generalizing kept with
  | nil => simp
  | cons id rest ih =>
    rw [List.foldl_cons, ih, includingId]
    by_cases hknown : kept.any (· == id) = true
    · rw [if_pos hknown, List.filter_cons_of_neg (by simp [hknown])]
    · rw [if_neg hknown, List.filter_cons_of_pos (by simpa using hknown), List.eraseDups_cons,
        List.filter_filter, List.append_assoc]
      -- What comes later is left out if it is among those before, or is this one.
      have hleft : (fun other : Label => !(kept ++ [id]).any (· == other))
          = fun other => !(other == id) && !kept.any (· == other) := by
        funext other
        rw [List.any_append, List.any_cons, List.any_nil, Bool.or_false, Bool.not_or, Bool.and_comm,
          BEq.comm]
      rw [hleft]
      rfl

/-- All candidates of a text are in the same file. -/
theorem Candidate.sourceFile_of_extract {tree : Tree} {language name : String}
    {formatting : Option Formatting} {candidates : List Candidate}
    (h : extract tree language (some name) formatting = .ok candidates) :
    ∃ file, (name ≠ "" → file = name) ∧ ∀ c ∈ candidates, c.sourceFile = file := by
  obtain ⟨found, hfound, h⟩ := Except.bind_eq_ok.1 h
  cases h
  refine ⟨if name.isEmpty then tree.span.file else name, fun hname => ?_, fun c hc => ?_⟩
  · rw [if_neg (by simpa using hname)]
  · obtain ⟨c?, hmem, hsome⟩ := List.mem_filterMap.1 hc
    obtain ⟨⟨node, height⟩, _, hnode⟩ := Except.exists_mem_of_mapM hfound hmem
    cases hsome
    have hnode : ofNode language _ _ node height = .ok (some c) := hnode
    -- A node without a kind of pattern gives no candidate.
    cases hkind : PatternKind.ofTag? node.tag with
    | none =>
      unfold ofNode at hnode
      rw [hkind] at hnode
      cases hnode
    | some kind =>
      unfold ofNode at hnode
      rw [hkind] at hnode
      obtain ⟨style, _, hnode⟩ := Except.bind_eq_ok.1 hnode
      obtain ⟨metrics, _, hnode⟩ := Except.bind_eq_ok.1 hnode
      cases hnode
      rfl

/-- The analysis explains how the second memory became of the first one. -/
structure Analysis.Explains (a : Analysis) (m n : Memory Value) : Prop where
  /-- Sightings are counted in whole numbers, before and after. -/
  numbered : m.store.Every Pattern.Numbered ∧ n.store.Every Pattern.Numbered
  /-- Every candidate counts once. -/
  total : n.store.sightings = m.store.sightings + a.findings.candidates.length
  /-- It counts in the pattern of its name, which may be new. -/
  each : ∀ name, Store.timesSeen (n.store.named? name)
    = Store.timesSeen (m.store.named? name)
      + a.findings.candidates.countP fun c => c.sighting.name == name
  size : n.store.size = m.store.size + a.newPatterns
  /-- Every candidate has a pattern, and the ids of these patterns are listed, each where it
  first comes up. -/
  ids : ∃ ids : List Label, (a.findings.candidates.map fun c =>
      n.store.lookup? c.sighting.language c.sighting.signature) = ids.map some ∧
    a.patternIds = ids.eraseDups
  /-- The patterns of the candidates list the file of the text, once if it is new to them. -/
  file : ∃ file, (a.file ≠ "" → file = a.file) ∧
    ∀ c ∈ a.findings.candidates, ∃ q, n.store.named? c.sighting.name = some q ∧
      q.sourceFiles = Pattern.addSource (Store.filesOf (m.store.named? c.sighting.name)) (.text file)
  /-- A pattern with another name stays as it is. -/
  others : ∀ id p, m.store.get? id = some p →
    (∀ c ∈ a.findings.candidates, (p.name == c.sighting.name) = false) →
    n.store.get? id = some p
  /-- And so does all that is not a pattern. -/
  rest : n.preferences = m.preferences ∧ n.streak = m.streak

namespace Memory

variable {idOf : IdScheme} {now : Timestamp} {m n : Memory Value}

/-- Learning from a sighting leaves what the store has learned. -/
theorem learn_eq_ok {c : Sighting} {id : Label} (h : (learn idOf now c).outcome m = (.ok id, n)) :
    ∃ s, n = { m with store := s } ∧ Store.Learned idOf now c m.store id s := by
  rw [learn, inStore, Change.outcome_within] at h
  obtain ⟨hresult, rfl⟩ := Prod.mk.inj h
  exact ⟨_, rfl, Store.upsert_eq_ok (Prod.ext hresult rfl)⟩

theorem learnedAll_of_learnAll {cs : List Sighting} {ids : List Label}
    (h : (learnAll idOf now cs).outcome m = (.ok ids, n)) :
    ∃ s found, n = { m with store := s } ∧ Store.LearnedAll idOf now cs m.store found s := by
  unfold learnAll at h
  induction cs generalizing m ids with
  | nil =>
    cases h
    exact ⟨_, [], rfl, .nil⟩
  | cons c rest ih =>
    rw [List.mapM_cons] at h
    obtain ⟨id, u, hfirst, h⟩ := Change.bind_eq_ok.1 h
    obtain ⟨others, v, hrest, h⟩ := Change.bind_eq_ok.1 h
    cases h
    obtain ⟨s, rfl, hlearned⟩ := learn_eq_ok hfirst
    obtain ⟨t, found, rfl, hall⟩ := ih hrest
    exact ⟨t, _, rfl, .cons hlearned hall⟩

end Memory

namespace Setup

variable {setup : Setup Value} {now : Timestamp} {m n : Memory Value} {t : SourceText}

/-- Learning from a candidate tells also whether its pattern was new. -/
theorem learn_eq_ok {c : Sighting} {answer : Label × Bool}
    (h : (setup.learn now c).outcome m = (.ok answer, n)) :
    ∃ s, n = { m with store := s } ∧ Store.Learned setup.idOf now c m.store answer.1 s ∧
      answer.2 = (m.store.lookup? c.language c.signature).isNone := by
  unfold learn at h
  rw [Change.outcome_bind_get] at h
  obtain ⟨id, u, hlearn, h⟩ := Change.bind_eq_ok.1 h
  cases h
  obtain ⟨s, rfl, hlearned⟩ := Memory.learn_eq_ok hlearn
  exact ⟨s, rfl, hlearned, rfl⟩

theorem learnedAll_of_mapM {cs : List Candidate} {found : List (Label × Bool)}
    (h : (cs.mapM fun c => setup.learn now c.sighting).outcome m = (.ok found, n)) :
    ∃ s, n = { m with store := s } ∧
      Store.LearnedAll setup.idOf now (cs.map Candidate.sighting) m.store found s := by
  induction cs generalizing m found with
  | nil =>
    cases h
    exact ⟨_, rfl, .nil⟩
  | cons c rest ih =>
    rw [List.mapM_cons] at h
    obtain ⟨⟨id, isNew⟩, u, hfirst, h⟩ := Change.bind_eq_ok.1 h
    obtain ⟨others, v, hrest, h⟩ := Change.bind_eq_ok.1 h
    cases h
    obtain ⟨s, rfl, hlearned, hnew⟩ := learn_eq_ok hfirst
    obtain ⟨t, rfl, hall⟩ := ih hrest
    cases hnew
    exact ⟨t, rfl, .cons hlearned hall⟩

/-- An analysis that does not fail explains what it changed. -/
theorem explains_analyze (hlinked : m.store.Linked) (hnumbered : m.store.Every Pattern.Numbered)
    {a : Analysis} (h : (setup.analyze now t).outcome m = (.ok a, n)) : a.Explains m n := by
  unfold analyze at h
  obtain ⟨findings, _, hfind, h⟩ := Change.bind_eq_ok.1 h
  obtain ⟨hfound, rfl⟩ := Change.ofExcept_eq_ok.1 hfind
  obtain ⟨found, u, hlearn, h⟩ := Change.bind_eq_ok.1 h
  cases h
  obtain ⟨s, rfl, hall⟩ := learnedAll_of_mapM hlearn
  have hseen := hall.seenAll hlinked
  have hbefore : ∀ name, ∀ p ∈ m.store.named? name, p.Numbered := by
    intro name p hp
    obtain ⟨id, _, hget⟩ := Option.bind_eq_some_iff.1 hp
    exact hnumbered.of_get? hget
  obtain ⟨hafter, htotal⟩ := hall.numbered hnumbered
  refine
    { numbered := ⟨hnumbered, hafter⟩
      total := ?_
      each := fun name => ?_
      size := hall.size
      ids := ⟨found.map (·.1), ?_, ?_⟩
      file := ?_
      others := fun id p hget hothers => hall.of_unseen hlinked hget ?_
      rest := ⟨rfl, rfl⟩ }
  · rw [htotal, List.length_map]
  · rw [(hseen name).timesSeen (hbefore name), List.filter_map, List.length_map,
      ← List.countP_eq_length_filter]
    rfl
  · have hids := hall.ids
    rw [List.map_map] at hids ⊢
    exact hids
  · show (found.map (·.1)).foldl includingId [] = _
    rw [foldl_includingId]
    simp
  · obtain ⟨parsed, _, hfound⟩ := Except.bind_eq_ok.1 hfound
    obtain ⟨candidates, hextract, hfound⟩ := Except.bind_eq_ok.1 hfound
    obtain ⟨metrics, _, hfound⟩ := Except.bind_eq_ok.1 hfound
    obtain ⟨document, _, hfound⟩ := Except.bind_eq_ok.1 hfound
    cases hfound
    obtain ⟨file, hname, hfile⟩ := Candidate.sourceFile_of_extract hextract
    refine ⟨file, hname, fun c hc => (hseen c.sighting.name).sourceFiles ?_ ?_⟩
    · intro other hother
      obtain ⟨candidate, hmem, rfl⟩ := List.mem_map.1 (List.mem_of_mem_filter hother)
      exact congrArg Value.text (hfile candidate hmem)
    · refine List.ne_nil_of_mem (a := c.sighting) (List.mem_filter.2 ⟨?_, BEq.rfl⟩)
      exact List.mem_map_of_mem hc
  · exact List.forall_mem_map.2 hothers

theorem strays_learn (now : Timestamp) (c : Sighting) : Change.Strays (setup.learn now c) := by
  have hlearn : Change.Strays (Memory.learn setup.idOf now c : Change (Memory Value) Label) := by
    unfold Memory.learn Memory.inStore
    exact Change.strays_within (Store.strays_upsert setup.idOf now c)
  unfold learn
  exact Change.strays_bind Change.strays_get fun _ =>
    Change.strays_bind hlearn fun _ => Change.strays_pure _

/-- A fault of the domain is found before anything is learned. -/
theorem domain_analyze {fault : Fault} (h : (setup.analyze now t).outcome m = (.error fault, n))
    (hdomain : fault.isDomain = true) : n = m := by
  unfold analyze at h
  rcases Change.bind_eq_error.1 h with hfind | ⟨findings, u, _, h⟩
  · exact (Change.ofExcept_eq_error.1 hfind).2.symm
  · have hstrays : Change.Strays (findings.candidates.mapM fun c => setup.learn now c.sighting) :=
      Change.strays_mapM fun c _ => strays_learn now c.sighting
    rcases Change.bind_eq_error.1 h with hlearn | ⟨_, _, _, h⟩
    · rw [hstrays u fault n hlearn] at hdomain
      cases hdomain
    · cases h

end Setup

end CodeHabits
