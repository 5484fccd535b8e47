import CodeHabits.Proofs.Session.Ready

/-!
# `CodeHabits.Proofs.Session.Batch`: several source texts at once

What a batch is to come to is said by `analyzeEach`: each of the texts is analysed by
itself, one after the other, from the memory that the one before left. An `Attempt` is a
text with what analysing it came to. `Batched` compares the two. If every fault is of the
domain, then the batch has all attempts, each in its place and with its file, and leaves
the same memory. The first fault that is not of the domain ends the batch. What was
learned before is kept, and the texts after it are not looked at.

In a grown session a text fails where nothing is found in it, whatever has been learned,
and it changes nothing (`Skipping`). There are three faults that end a batch: Python does
not read a text at all, a declaration has no parts, or a number is too large.
`batch_cut_short` shows the first one.
-/

set_option autoImplicit false

namespace CodeHabits

open Time (Timestamp)

/-- A source text with what analysing it came to. -/
structure Attempt where
  text : SourceText
  result : Except Fault Analysis

namespace Attempt

/-- What was learned from the text. -/
def analysis? (a : Attempt) : Option Analysis :=
  a.result.toOption

/-- How the text failed. -/
def failure? (a : Attempt) : Option Failure :=
  match a.result with
  | .ok _ => none
  | .error fault => some ⟨fault, a.text.file⟩

/-- Whether the text failed with a fault that is not of the domain. -/
def stray (a : Attempt) : Bool :=
  match a.result with
  | .ok _ => false
  | .error fault => !fault.isDomain

theorem stray_eq_true {a : Attempt} :
    a.stray = true ↔ ∃ fault, a.result = .error fault ∧ fault.isDomain = false := by
  unfold stray
  cases a.result <;> simp

end Attempt

/-- A batch with more attempts. -/
def Batch.adding (b : Batch) (attempts : List Attempt) : Batch :=
  { b with
    results := b.results ++ attempts.filterMap Attempt.analysis?
    failures := b.failures ++ attempts.filterMap Attempt.failure? }

theorem Batch.adding_ok (b : Batch) (t : SourceText) (a : Analysis) :
    b.adding [⟨t, .ok a⟩] = { b with results := b.results ++ [a] } := by
  show (⟨b.results ++ [a], b.failures ++ [], b.cancelled⟩ : Batch) = _
  rw [List.append_nil]

theorem Batch.adding_error (b : Batch) (t : SourceText) (fault : Fault) :
    b.adding [⟨t, .error fault⟩] = { b with failures := b.failures ++ [⟨fault, t.file⟩] } := by
  show (⟨b.results ++ [], b.failures ++ [⟨fault, t.file⟩], b.cancelled⟩ : Batch) = _
  rw [List.append_nil]

theorem Batch.adding_cons (b : Batch) (a : Attempt) (attempts : List Attempt) :
    b.adding (a :: attempts) = (b.adding [a]).adding attempts := by
  unfold adding
  rw [← List.singleton_append, List.filterMap_append, List.filterMap_append]
  simp only [List.append_assoc]

namespace Setup

section

variable {ν : Type} [Magnitude ν] (setup : Setup ν) (now : Timestamp)

/-- Analyses source texts one after the other, each from the memory that the one before
left, whether it failed or not. -/
def analyzeEach : List SourceText → Memory ν → List Attempt × Memory ν
  | [], m => ([], m)
  | t :: rest, m =>
    let run := (setup.analyze now t).outcome m
    let later := analyzeEach rest run.2
    (⟨t, run.1⟩ :: later.1, later.2)

theorem text_analyzeEach (texts : List SourceText) (m : Memory ν) :
    (setup.analyzeEach now texts m).1.map Attempt.text = texts := by
  induction texts generalizing m with
  | nil => rfl
  | cons t rest ih =>
    rw [analyzeEach]
    exact congrArg (t :: ·) (ih _)

/-- What is true of one text, from whatever memory, is true of every attempt. -/
theorem forall_analyzeEach {P : Memory ν → Prop} {Q : Attempt → Prop}
    (hkeeps : ∀ t, Change.Keeps P (setup.analyze now t))
    (h : ∀ t m, P m → Q ⟨t, ((setup.analyze now t).outcome m).1⟩) (texts : List SourceText)
    {m : Memory ν} (hm : P m) : ∀ a ∈ (setup.analyzeEach now texts m).1, Q a := by
  induction texts generalizing m with
  | nil => simp [analyzeEach]
  | cons t rest ih =>
    rw [analyzeEach]
    exact List.forall_mem_cons.2 ⟨h t m hm, ih (hkeeps t m hm)⟩

/-! ### Batches and attempts -/

/-- A batch goes on after a text unless the text went astray. -/
theorem outcome_analyzeBatch_cons (b : Batch) (t : SourceText) (rest : List SourceText)
    (m : Memory ν) :
    (setup.analyzeBatch now b none (t :: rest)).outcome m
      = match (setup.analyze now t).outcome m with
        | (.ok a, n) =>
          (setup.analyzeBatch now (b.adding [⟨t, .ok a⟩]) none rest).outcome n
        | (.error fault, n) =>
          if fault.isDomain then
            (setup.analyzeBatch now (b.adding [⟨t, .error fault⟩]) none rest).outcome n
          else (.error fault, n) := by
  have hnone : (none : Option Nat) ≠ some 0 := by simp
  rw [analyzeBatch.eq_3 setup now b none t rest hnone, Change.outcome_bind_get]
  rcases (setup.analyze now t).outcome m with ⟨fault | a, n⟩
  · dsimp only
    rw [Change.outcome_bind_set, Batch.adding_error]
    cases fault.isDomain <;> rfl
  · dsimp only
    rw [Change.outcome_bind_set, Batch.adding_ok]
    rfl

/-- Where nothing goes astray, a batch adds all attempts. -/
theorem outcome_analyzeBatch (b : Batch) (texts : List SourceText) (m : Memory ν)
    (h : ∀ a ∈ (setup.analyzeEach now texts m).1, a.stray = false) :
    (setup.analyzeBatch now b none texts).outcome m
      = (.ok (b.adding (setup.analyzeEach now texts m).1), (setup.analyzeEach now texts m).2) := by
  induction texts generalizing b m with
  | nil => simp [analyzeBatch, analyzeEach, Batch.adding]
  | cons t rest ih =>
    rw [outcome_analyzeBatch_cons]
    rw [analyzeEach] at h ⊢
    obtain ⟨hfirst, hrest⟩ := List.forall_mem_cons.1 h
    rcases hrun : (setup.analyze now t).outcome m with ⟨fault | a, n⟩
    · rw [hrun] at hfirst hrest
      have hdomain : fault.isDomain = true := by simpa [Attempt.stray] using hfirst
      dsimp only
      rw [if_pos hdomain, Batch.adding_cons b _ (setup.analyzeEach now rest n).1]
      exact ih _ n hrest
    · rw [hrun] at hrest
      dsimp only
      rw [Batch.adding_cons b _ (setup.analyzeEach now rest n).1]
      exact ih _ n hrest

/-- The first attempt that goes astray is the last one. -/
theorem outcome_analyzeBatch_stray (b : Batch) {texts : List SourceText} {m : Memory ν}
    {before after : List Attempt} {a : Attempt} {fault : Fault}
    (heach : (setup.analyzeEach now texts m).1 = before ++ a :: after)
    (hbefore : ∀ other ∈ before, other.stray = false) (hresult : a.result = .error fault)
    (hfault : fault.isDomain = false) :
    (setup.analyzeBatch now b none texts).outcome m
      = (.error fault, (setup.analyzeEach now ((before ++ [a]).map Attempt.text) m).2) := by
  induction before generalizing b texts m with
  | nil =>
    cases texts with
    | nil => simp [analyzeEach] at heach
    | cons first rest =>
      rw [analyzeEach] at heach
      injection heach with hfirst _
      subst hfirst
      have hrun : (setup.analyze now first).outcome m
          = (.error fault, ((setup.analyze now first).outcome m).2) := Prod.ext hresult rfl
      rw [outcome_analyzeBatch_cons, hrun]
      dsimp only
      rw [if_neg (by simp [hfault])]
      rfl
  | cons other before ih =>
    cases texts with
    | nil => simp [analyzeEach] at heach
    | cons first rest =>
      rw [analyzeEach] at heach
      injection heach with hfirst hrest
      subst hfirst
      obtain ⟨hsettled, hothers⟩ := List.forall_mem_cons.1 hbefore
      rw [outcome_analyzeBatch_cons, List.cons_append, List.map_cons, analyzeEach]
      rcases hrun : (setup.analyze now first).outcome m with ⟨refused | found, n⟩
      · rw [hrun] at hsettled hrest
        have hdomain : refused.isDomain = true := by simpa [Attempt.stray] using hsettled
        dsimp only
        rw [if_pos hdomain]
        exact ih _ hrest hothers
      · rw [hrun] at hrest
        exact ih _ hrest hothers

/-- How a batch of source texts ends, compared with analysing each by itself. -/
structure Batched (texts : List SourceText) (m : Memory ν)
    (outcome : Except Fault Batch × Memory ν) : Prop where
  /-- Every text is attempted, in order. -/
  order : (setup.analyzeEach now texts m).1.map Attempt.text = texts
  /-- What was learned from a text names its file. -/
  files : ∀ a ∈ (setup.analyzeEach now texts m).1, ∀ analysis ∈ a.analysis?,
    analysis.file = a.text.file
  /-- If nothing goes astray, the batch has all attempts. -/
  complete : (∀ a ∈ (setup.analyzeEach now texts m).1, a.stray = false) →
    outcome
      = (.ok
          { results := (setup.analyzeEach now texts m).1.filterMap Attempt.analysis?
            failures := (setup.analyzeEach now texts m).1.filterMap Attempt.failure?
            cancelled := false },
        (setup.analyzeEach now texts m).2)
  /-- The first text that goes astray is the last one that is looked at. -/
  cut : ∀ before a after, (setup.analyzeEach now texts m).1 = before ++ a :: after →
    (∀ other ∈ before, other.stray = false) → a.stray = true →
    ∃ fault, a.result = .error fault ∧ fault.isDomain = false ∧
      outcome = (.error fault, (setup.analyzeEach now ((before ++ [a]).map Attempt.text) m).2)

/-- What is learned from a text names its file. -/
theorem file_of_analyze {t : SourceText} {m n : Memory ν} {analysis : Analysis}
    (h : (setup.analyze now t).outcome m = (.ok analysis, n)) : analysis.file = t.file := by
  unfold analyze at h
  obtain ⟨findings, _, _, h⟩ := Change.bind_eq_ok.1 h
  obtain ⟨learned, _, _, h⟩ := Change.bind_eq_ok.1 h
  cases h
  rfl

theorem batched (texts : List SourceText) (m : Memory ν) :
    setup.Batched now texts m ((setup.analyzeBatch now ⟨[], [], false⟩ none texts).outcome m) where
  order := setup.text_analyzeEach now texts m
  files := by
    refine setup.forall_analyzeEach now (P := fun _ => True)
      (Q := fun a => ∀ analysis ∈ a.analysis?, analysis.file = a.text.file) (fun t m h => h)
      (fun t m _ analysis hanalysis => ?_) texts trivial
    exact setup.file_of_analyze now (Prod.ext (Except.toOption_eq_some.1 hanalysis) rfl)
  complete h := by
    rw [outcome_analyzeBatch setup now _ texts m h]
    simp [Batch.adding]
  cut before a after heach hbefore hstray := by
    obtain ⟨fault, hresult, hdomain⟩ := Attempt.stray_eq_true.1 hstray
    exact ⟨fault, hresult, hdomain,
      setup.outcome_analyzeBatch_stray now _ heach hbefore hresult hdomain⟩

end

/-! ### Texts that fail are skipped -/

variable {setup : Setup Value} {now : Timestamp}

/-- Texts that fail leave no trace: it is as if there were only the others. -/
structure Skipping (setup : Setup Value) (now : Timestamp) (texts : List SourceText)
    (m : Memory Value) : Prop where
  /-- A text fails where nothing is found in it. -/
  fails : ∀ a ∈ (setup.analyzeEach now texts m).1, ∀ fault,
    a.result = .error fault ↔ setup.find a.text.code (languageOf a.text) a.text.file = .error fault
  /-- What is left is what the texts that do not fail leave. -/
  skips : (setup.analyzeEach now texts m).2
    = (setup.analyzeEach now
        (((setup.analyzeEach now texts m).1.filter (·.analysis?.isSome)).map Attempt.text) m).2
  /-- These are the faults that are not of the domain. -/
  strays : ∀ a ∈ (setup.analyzeEach now texts m).1, a.stray = true →
    a.result = .error (.refused .unreadable) ∨ a.result = .error .outOfRange ∨
      a.result = .error .overflow

theorem ready_analyze (setup : Setup Value) (now : Timestamp) (t : SourceText) :
    Change.Keeps (fun m => m.store.Ready) (setup.analyze now t) :=
  keeps_analyze fun c => Memory.ready_learn setup.idOf now c.sighting

theorem fails_analyze {t : SourceText} {m : Memory Value} (hm : m.store.Ready) {fault : Fault} :
    ((setup.analyze now t).outcome m).1 = .error fault ↔
      setup.find t.code (languageOf t) t.file = .error fault := by
  constructor
  · intro h
    exact ((setup.analyze_eq_error hm).1 (Prod.ext h rfl)).1
  · intro h
    rw [(analyze_eq_error hm).2 ⟨h, rfl⟩]

theorem skips_analyzeEach (texts : List SourceText) {m : Memory Value} (hm : m.store.Ready) :
    (setup.analyzeEach now texts m).2
      = (setup.analyzeEach now
          (((setup.analyzeEach now texts m).1.filter (·.analysis?.isSome)).map Attempt.text) m).2 := by
  induction texts generalizing m with
  | nil => rfl
  | cons t rest ih =>
    have hleft := ready_analyze setup now t m hm
    rw [analyzeEach]
    rcases hrun : (setup.analyze now t).outcome m with ⟨fault | a, n⟩
    · obtain ⟨_, rfl⟩ := (analyze_eq_error hm).1 hrun
      simpa [Attempt.analysis?, Except.toOption] using ih hm
    · rw [hrun] at hleft
      simpa [Attempt.analysis?, Except.toOption, analyzeEach, hrun] using ih hleft

theorem skipping (hlimited : setup.registry.Limited) (texts : List SourceText) {m : Memory Value}
    (hm : m.store.Ready) : setup.Skipping now texts m := by
  have hfails := setup.forall_analyzeEach now (P := fun m => m.store.Ready)
    (Q := fun a => ∀ fault, a.result = .error fault ↔
      setup.find a.text.code (languageOf a.text) a.text.file = .error fault)
    (ready_analyze setup now) (fun t m hm fault => fails_analyze hm) texts hm
  refine ⟨hfails, skips_analyzeEach texts hm, fun a ha hstray => ?_⟩
  obtain ⟨fault, hfault, hdomain⟩ := Attempt.stray_eq_true.1 hstray
  rw [hfault]
  rcases find_eq_error hlimited ((hfails a ha fault).1 hfault) with (hreading | h | h) | h
  · rw [hdomain] at hreading
    cases hreading
  all_goals simp [h]

end Setup

namespace Session

variable {idOf : IdScheme} {s : Session}

/-- How a session ends a batch of source texts. What is said of texts that fail is true of
sessions that have learned by themselves and from others that did. -/
theorem batch_outcome (idOf : IdScheme) (s : Session) (now : Timestamp) (texts : List SourceText) :
    let setup : Setup Value := { s.setup with idOf }
    setup.Batched now texts s.memory
        ((setup.analyzeBatch now ⟨[], [], false⟩ none texts).outcome s.memory) ∧
      (Grown idOf s → setup.Skipping now texts s.memory) :=
  ⟨Setup.batched _ now texts s.memory, fun hs => Setup.skipping hs.limited texts hs.ready⟩

/-- The default configuration for Python and for a language that has no grammar. -/
def outlinedGoAndPython : Config :=
  { Config.default with
    engine := Config.default.engine.put "supported_languages" (.list [.text "go", .text "python"]) }

/-- A session in which Python reads no text at all. -/
def withoutPython (settings : Settings) : Session :=
  start settings ⟨fun _ _ => default, fun _ => .refused⟩ .empty ⟨0, 0⟩

/-- Texts of which one is in a language that is not allowed and one in Python. -/
def mixedTexts : List SourceText :=
  [⟨"x();\n", some "go", "a.go"⟩, ⟨"x", some "rust", "b.rs"⟩, ⟨"\x00", some "python", "c.py"⟩,
    ⟨"x();\n", some "go", "d.go"⟩]

/-- The text in Python ends the batch, and the last text is not looked at. -/
theorem batch_cut_short :
    outlinedGoAndPython.validate = .ok () ∧
      ∃ settings, outlinedGoAndPython.settings = .ok settings ∧
        let s := withoutPython settings
        let each := s.setup.analyzeEach s.now mixedTexts s.memory
        Grown .usual s ∧ each.1.map Attempt.stray = [false, false, true, false] ∧
          s.setup.Skipping s.now mixedTexts s.memory ∧
          ∃ fault n,
            (s.setup.analyzeBatch s.now ⟨[], [], false⟩ none mixedTexts).outcome s.memory
              = (.error fault, n) ∧ fault.isDomain = false ∧
            n = (s.setup.analyzeEach s.now (mixedTexts.take 3) s.memory).2 ∧
            n.store.patterns.map (·.2.sourceFiles.length) = [1] ∧
            each.2.store.patterns.map (·.2.sourceFiles.length) = [2] := by
  have hvalid : outlinedGoAndPython.validate = .ok () := Except.eq_ok_unit (by decide +kernel)
  have hruns : (outlinedGoAndPython.settings.toOption.any fun settings =>
      let s := withoutPython settings
      let each := s.setup.analyzeEach s.now mixedTexts s.memory
      let left := (s.setup.analyzeEach s.now (mixedTexts.take 3) s.memory).2
      decide (each.1.map Attempt.stray = [false, false, true, false] ∧
        left.store.patterns.map (·.2.sourceFiles.length) = [1] ∧
        each.2.store.patterns.map (·.2.sourceFiles.length) = [2])) = true := by decide +kernel
  obtain ⟨settings, hsettings, hruns⟩ := (Option.any_eq_true _ _).1 hruns
  have hsettings := Except.toOption_eq_some.1 hsettings
  obtain ⟨hstrays, hone, htwo⟩ := of_decide_eq_true hruns
  have hgrown : Grown .usual (withoutPython settings) := .start hvalid hsettings _ _ _
  obtain ⟨hbatched, hskipping⟩ :=
    batch_outcome .usual (withoutPython settings) (withoutPython settings).now mixedTexts
  have horder := hbatched.order
  have hcut := hbatched.cut
  -- The attempts are those of the four texts, and the third one goes astray.
  obtain ⟨a, rest, hattempts, ha, hrest⟩ := List.map_eq_cons_iff.1 hstrays
  obtain ⟨b, rest, rfl, hb, hrest⟩ := List.map_eq_cons_iff.1 hrest
  obtain ⟨c, rest, rfl, hc, hrest⟩ := List.map_eq_cons_iff.1 hrest
  have hbefore : ∀ other ∈ [a, b], other.stray = false := by simp [ha, hb]
  obtain ⟨fault, _, hdomain, houtcome⟩ := hcut [a, b] c rest hattempts hbefore hc
  have htexts : ([a, b] ++ [c]).map Attempt.text = mixedTexts.take 3 := by
    rw [← horder, ← List.map_take]
    exact congrArg (fun attempts => (attempts.take 3).map Attempt.text) hattempts.symm
  rw [htexts] at houtcome
  exact ⟨hvalid, settings, hsettings, hgrown, hstrays, hskipping hgrown, fault, _, houtcome,
    hdomain, rfl, hone, htwo⟩

end Session

end CodeHabits
