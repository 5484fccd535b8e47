import CodeHabits.Proofs.FrontEnd
import CodeHabits.Proofs.Concrete.Lowers
import CodeHabits.Proofs.FrontEnd.FileNames
import CodeHabits.Proofs.Memory.Sightings
import CodeHabits.Proofs.Session.Exchange
import CodeHabits.Proofs.Session.Streak

/-!
# `CodeHabits.Proofs.Session.Validation`: validating agrees with analysing

A validation parses a source text under a name of its own, and an analysis does so under the
name of the text's file and goes on to learn from it. Both parse in the canonical language of
the hint, and what can go wrong after parsing is never a fault of the domain. So a text is
valid exactly if its analysis ends well and has no problems (`Setup.validation_agrees`),
whatever the grammars answer and whatever was learned before.

What is left out there are disagreements (`Setup.validation_disagrees`). A file of TypeScript
whose name ends in `.tsx` is analysed with another grammar, and where the hint is empty, an
analysis has the file name to go by. A validation only answers for faults of the domain, so a
text that the grammar of Python refuses has no verdict. And a memory may hold counts from
which an analysis cannot go on, where a validation does not look at it.
-/

set_option autoImplicit false

namespace CodeHabits

open Time (Timestamp)

/-- What a validation answers. -/
structure Verdict where
  valid : Bool
  message : String
  diagnostics : List Value

/-- The verdict as a document. -/
def Verdict.document (v : Verdict) : Value :=
  .object
    [("valid", .bool v.valid), ("message", .text v.message), ("diagnostics", .list v.diagnostics)]

theorem Verdict.document_injective {v w : Verdict} (h : v.document = w.document) : v = w := by
  cases v
  cases w
  simpa [Verdict.document] using h

/-- What a parse without a limit makes of a concrete tree for which trees are derived. -/
theorem FrontEnd.parse_ecma_of_lowers {g : Grammars} {source file language : String}
    {typed : Bool} (htyped : (language == "typescript") = typed) {root : Concrete.Node}
    (hroot : g.concrete (ecma.grammar language file) source = root) {trees : List Tree}
    {r : Concrete.Reports}
    (h : Concrete.Lowers (Concrete.Ecma.dialect typed ⟨file, .ofString source⟩) root.tops ⟨[], []⟩
      trees r) :
    ((ecma.parse g source file language).outcome .unlimited).1
      = ((Concrete.Ecma.dialect typed ⟨file, .ofString source⟩).parsed source language root trees
          r).accept := by
  obtain ⟨left, hbuild⟩ := h.exists_build source language 1
  have hsame : ecma.build g source file language
      = Concrete.build (Concrete.Ecma.dialect typed ⟨file, .ofString source⟩) source language root := by
    rw [← htyped, ← hroot]
    rfl
  rw [← hsame] at hbuild
  have hcheck : Timed.check.runFrom .unlimited 0 = (.ok (), 1) := rfl
  show ((ecma.parse g source file language).runFrom .unlimited 0).1 = _
  rw [parse, Timed.runFrom_bind_ok hcheck, Timed.runFrom_bind_ok hbuild]
  dsimp only
  generalize Parsed.accept _ = result
  cases result <;> rfl

namespace Setup

section

variable {ν : Type} (setup : Setup ν) {code language : String}

/-- A text that parses is valid unless there were problems. -/
theorem validate_of_parsed {parsed : Parsed}
    (h : setup.registry.parse setup.grammars code language "<validate>" = .ok parsed) :
    ∃ v : Verdict, setup.validate code language = .ok v.document ∧
      (v.valid = true ↔ parsed.diagnostics = []) := by
  unfold validate
  rw [h]
  dsimp only
  cases hproblems : parsed.diagnostics with
  | nil => exact ⟨⟨true, _, _⟩, rfl, by simp⟩
  | cons first rest => exact ⟨⟨false, _, _⟩, rfl, by simp⟩

/-- A text that is refused with a fault of the domain is not valid. -/
theorem validate_of_refused {fault : Fault}
    (h : setup.registry.parse setup.grammars code language "<validate>" = .error fault)
    (hdomain : fault.isDomain = true) :
    ∃ v : Verdict, setup.validate code language = .ok v.document ∧ v.valid = false := by
  unfold validate
  rw [h]
  dsimp only
  rw [if_pos hdomain]
  exact ⟨⟨false, _, _⟩, rfl, rfl⟩

end

variable {setup : Setup Value} {now : Timestamp} {t : SourceText} {m n : Memory Value}

/-- A text that does not parse teaches nothing. -/
theorem analyze_of_refused {fault : Fault}
    (h : setup.registry.parse setup.grammars t.code (languageOf t) t.file = .error fault) :
    (setup.analyze now t).outcome m = (.error fault, m) := by
  have hfind : setup.find t.code (languageOf t) t.file = .error fault := by
    rw [find, h]
    rfl
  rw [analyze, hfind, Change.outcome_bind_ofExcept_error]

/-- An analysis that ends well has the problems of a text that parses. -/
theorem exists_parsed_of_analyze {a : Analysis}
    (hok : (setup.analyze now t).outcome m = (.ok a, n)) :
    ∃ parsed, setup.registry.parse setup.grammars t.code (languageOf t) t.file = .ok parsed ∧
      a.findings.diagnostics = parsed.diagnostics := by
  -- The diagnostics are those of what was found, and these those of the parse.
  obtain ⟨findings, _, hfind, hok⟩ := Change.bind_eq_ok.1 hok
  obtain ⟨learned, _, _, hok⟩ := Change.bind_eq_ok.1 hok
  cases hok
  have hfound : setup.find t.code (languageOf t) t.file = .ok findings :=
    (Change.ofExcept_eq_ok.1 hfind).1
  obtain ⟨parsed, hparsed, hfound⟩ := Except.bind_eq_ok.1 hfound
  obtain ⟨candidates, _, hfound⟩ := Except.bind_eq_ok.1 hfound
  obtain ⟨metrics, _, hfound⟩ := Except.bind_eq_ok.1 hfound
  obtain ⟨document, _, hfound⟩ := Except.bind_eq_ok.1 hfound
  cases hfound
  exact ⟨parsed, hparsed, rfl⟩

/-- What goes wrong once a text has parsed is no fault of the domain: a number may be too
large for a document, or the memory may hold what cannot be counted. -/
theorem stray_of_analyze {parsed : Parsed}
    (h : setup.registry.parse setup.grammars t.code (languageOf t) t.file = .ok parsed)
    {fault : Fault} (herror : (setup.analyze now t).outcome m = (.error fault, n)) :
    fault.isDomain = false := by
  rcases Change.bind_eq_error.1 herror with hfind | ⟨findings, u, _, herror⟩
  · -- Of a plain tree candidates and metrics are found, so only the document is left.
    have hplain := Registry.plain_of_parse h
    obtain ⟨_, hextract, _⟩ := Candidate.exists_extract hplain parsed.language (some t.file)
      (some (Formatting.analyze t.code))
    obtain ⟨metrics, hmetrics, hwhole⟩ := Metrics.exists_analyze hplain
    have hfound : setup.find t.code (languageOf t) t.file = .error fault :=
      (Change.ofExcept_eq_error.1 hfind).1
    rw [find, h, Except.ok_bind] at hfound
    dsimp only at hfound
    rw [hextract, Except.ok_bind, hmetrics, Except.ok_bind] at hfound
    rcases Except.bind_eq_error.1 hfound with hdocument | ⟨_, _, hfound⟩
    · rw [Metrics.document_eq_error hwhole hdocument]
      rfl
    · cases hfound
  · have hstrays : Change.Strays (findings.candidates.mapM fun c => setup.learn now c.sighting) :=
      Change.strays_mapM fun c _ => strays_learn now c.sighting
    rcases Change.bind_eq_error.1 herror with hlearn | ⟨_, _, _, herror⟩
    · exact hstrays u fault n hlearn
    · cases herror

/-- If an analysis fails with faults of the domain only, then it has no problems exactly if
parsing has none. -/
theorem analyzes_clean_iff
    (hdomain : ∀ fault n, (setup.analyze now t).outcome m = (.error fault, n) →
      fault.isDomain = true) :
    (∃ a n, (setup.analyze now t).outcome m = (.ok a, n) ∧ a.findings.diagnostics = []) ↔
      ∃ parsed, setup.registry.parse setup.grammars t.code (languageOf t) t.file = .ok parsed ∧
        parsed.diagnostics = [] := by
  constructor
  · rintro ⟨a, n, hok, hclean⟩
    obtain ⟨parsed, hparsed, hproblems⟩ := exists_parsed_of_analyze hok
    exact ⟨parsed, hparsed, hproblems ▸ hclean⟩
  · rintro ⟨parsed, hparsed, hclean⟩
    rcases houtcome : (setup.analyze now t).outcome m with ⟨fault | a, n⟩
    · have hstray := stray_of_analyze hparsed houtcome
      rw [hdomain fault n houtcome] at hstray
      cases hstray
    · obtain ⟨same, hsame, hproblems⟩ := exists_parsed_of_analyze houtcome
      rw [hparsed] at hsame
      cases hsame
      exact ⟨a, n, rfl, hproblems.trans hclean⟩

/-- Validating a text and analysing it agree: there is a verdict, and it says that the text is
valid exactly if the analysis ends well and has no problems. -/
def Agree (setup : Setup Value) (now : Timestamp) (m : Memory Value) (code hint file : String) :
    Prop :=
  ∃ v : Verdict, setup.validate code hint = .ok v.document ∧
    (v.valid = true ↔ ∃ a n,
      (setup.analyze now ⟨code, some hint, file⟩).outcome m = (.ok a, n) ∧
      a.findings.diagnostics = [])

/-- They agree if the hint is not empty, the file name tells no other grammar, and the analysis
ends well or with a fault of the domain. -/
theorem validation_agrees {code hint file : String} (hhint : hint ≠ "")
    (hgrammar : normalizeLanguage hint = "typescript" → file.endsWith ".tsx" = false)
    (hdomain : ∀ fault n, (setup.analyze now ⟨code, some hint, file⟩).outcome m = (.error fault, n) →
      fault.isDomain = true) :
    setup.Agree now m code hint file := by
  have hlanguage : languageOf ⟨code, some hint, file⟩ = normalizeLanguage hint := by
    have hsome : hint.isEmpty = false := by simpa using hhint
    rw [languageOf]
    simp [hsome]
  -- The two parses differ in the file name only.
  have hother : "<validate>".endsWith ".tsx" = false := by decide +kernel
  have hends := setup.registry.sameEnd_parse setup.grammars code
    (FrontEnd.grammar_eq hgrammar fun _ => hother)
  rw [← Registry.parse_normalizeLanguage, ← hlanguage] at hends
  rw [Agree, analyzes_clean_iff hdomain]
  dsimp only
  generalize hparse : setup.registry.parse setup.grammars code
    (languageOf ⟨code, some hint, file⟩) file = result at hends ⊢
  generalize hvalidate : setup.registry.parse setup.grammars code hint "<validate>" = other
    at hends
  cases hends with
  | @ok parsed other hsame =>
    obtain ⟨v, hv, hvalid⟩ := validate_of_parsed setup hvalidate
    have hsame : parsed.diagnostics = [] ↔ other.diagnostics = [] := hsame
    exact ⟨v, hv, by simp [hvalid, hsame]⟩
  | @error fault other halike =>
    have hanalyze : (setup.analyze now ⟨code, some hint, file⟩).outcome m = (.error fault, m) :=
      analyze_of_refused hparse
    have hrefused : other.isDomain = true := halike.isDomain ▸ hdomain fault m hanalyze
    obtain ⟨v, hv, hinvalid⟩ := validate_of_refused setup hvalidate hrefused
    exact ⟨v, hv, by simp [hinvalid]⟩

/-- A text in a language without a grammar. The hint is another spelling, with a blank in
front and capitals in it. -/
theorem validation_agrees_outlinedCall :
    ∃ settings, Session.outlinedGo.settings = .ok settings ∧
      let s := Session.withoutGrammars settings
      (∀ fault n, (s.setup.analyze s.now ⟨"x();\n", some " GoLang", "a.tsx"⟩).outcome s.memory
        = (.error fault, n) → fault.isDomain = true) ∧
      s.setup.Agree s.now s.memory "x();\n" " GoLang" "a.tsx" := by
  have hruns : (Session.outlinedGo.settings.toOption.any fun settings =>
      let s := Session.withoutGrammars settings
      ((s.setup.analyze s.now ⟨"x();\n", some " GoLang", "a.tsx"⟩).outcome s.memory).1.toOption.any
        fun _ => true) = true := by decide +kernel
  obtain ⟨settings, hsettings, hruns⟩ := (Option.any_eq_true _ _).1 hruns
  refine ⟨settings, Except.toOption_eq_some.1 hsettings, ?_⟩
  intro s
  have hdomain : ∀ fault n, (s.setup.analyze s.now ⟨"x();\n", some " GoLang", "a.tsx"⟩).outcome
      s.memory = (.error fault, n) → fault.isDomain = true := by
    intro fault n herror
    obtain ⟨a, m, hok, _⟩ := Change.exists_ok_of_any hruns
    have hok : (s.setup.analyze s.now ⟨"x();\n", some " GoLang", "a.tsx"⟩).outcome s.memory
        = (.ok a, m) := hok
    rw [herror] at hok
    cases hok
  exact ⟨hdomain, validation_agrees (by decide) (fun h => absurd h (by decide +kernel)) hdomain⟩

/-! ### Disagreements -/

theorem not_agree_of_error {code hint file : String} {fault : Fault}
    (h : setup.validate code hint = .error fault) : ¬ setup.Agree now m code hint file := by
  rintro ⟨v, hv, _⟩
  rw [h] at hv
  cases hv

theorem not_agree_of_valid {code hint file : String} {v : Verdict}
    (hv : setup.validate code hint = .ok v.document) (hvalid : v.valid = true) {fault : Fault}
    (hfails : (setup.analyze now ⟨code, some hint, file⟩).outcome m = (.error fault, n)) :
    ¬ setup.Agree now m code hint file := by
  rintro ⟨same, hsame, hiff⟩
  obtain rfl : v = same := Verdict.document_injective (Except.ok.inj (hv.symm.trans hsame))
  obtain ⟨a, _, hok, _⟩ := hiff.1 hvalid
  rw [hfails] at hok
  cases hok

theorem not_agree_of_invalid {code hint file : String} {v : Verdict}
    (hv : setup.validate code hint = .ok v.document) (hvalid : v.valid = false) {a : Analysis}
    (hok : (setup.analyze now ⟨code, some hint, file⟩).outcome m = (.ok a, n))
    (hclean : a.findings.diagnostics = []) : ¬ setup.Agree now m code hint file := by
  rintro ⟨same, hsame, hiff⟩
  obtain rfl : v = same := Verdict.document_injective (Except.ok.inj (hv.symm.trans hsame))
  rw [hiff.2 ⟨a, n, hok, hclean⟩] at hvalid
  cases hvalid

/-- A type assertion, as TypeScript has it. -/
def assertion : Concrete.Node :=
  .mk "program" 0 6 true false false ""
    [.mk "expression_statement" 0 5 true false false "" []]

/-- The same text where there are tags: one that is not closed. -/
def openTag : Concrete.Node :=
  .mk "ERROR" 0 6 true false true "" []

/-- What is needed to parse TypeScript, to parse Python, whose grammar refuses all texts here,
and to outline one more language. -/
def someLanguages : Setup Value :=
  ⟨.usual ["typescript", "python", "go"] (.int 10240) (.int 2),
    ⟨fun grammar _ => if grammar == "tsx" then openTag else assertion, fun _ => .refused⟩,
    Config.default.rules, .usual⟩

/-- What is left of a snapshot in which a count is text. -/
def calledBefore : Memory Value :=
  ((Memory.takeSnapshot .usual Session.calledInText false).outcome (.empty .default)).2

theorem parse_typeScript (file : String) :
    someLanguages.registry.parse someLanguages.grammars "<T>x;\n" "typescript" file
      = ((FrontEnd.ecma.parse someLanguages.grammars "<T>x;\n" file "typescript").outcome
          .unlimited).1 := by
  have hsize : someLanguages.registry.needSize "<T>x;\n" = .ok () :=
    Except.eq_ok_unit (by decide +kernel)
  have hname : normalizeLanguage "typescript" = "typescript" := by decide +kernel
  rw [Registry.parse, hsize, hname]
  exact congrArg Prod.fst ((FrontEnd.ecma.metered_parse _ _ _ _).outcome_free (.int 2) _)

theorem parse_assertion :
    ∃ parsed, someLanguages.registry.parse someLanguages.grammars "<T>x;\n" "typescript"
      "<validate>" = .ok parsed ∧ parsed.diagnostics = [] := by
  have hlowers : ∃ trees,
      Concrete.Lowers (Concrete.Ecma.dialect true ⟨"<validate>", .ofString "<T>x;\n"⟩)
        assertion.tops ⟨[], []⟩ trees ⟨[], []⟩ := by
    apply Exists.intro
    show Concrete.Lowers _ [_] _ _ _
    apply Concrete.Lowers.planned rfl rfl rfl rfl
    · exact .nil
    · exact .nil
  obtain ⟨trees, hlowers⟩ := hlowers
  have hgrammar : FrontEnd.ecma.grammar "typescript" "<validate>" = "typescript" := by
    decide +kernel
  rw [parse_typeScript,
    FrontEnd.parse_ecma_of_lowers (by decide) (by rw [hgrammar]; rfl) hlowers]
  have hclean : ((Concrete.Ecma.dialect true ⟨"<validate>", .ofString "<T>x;\n"⟩).parsed
      "<T>x;\n" "typescript" assertion trees ⟨[], []⟩).diagnostics = [] := List.mergeSort_nil
  exact ⟨_, Parsed.accept_of_clean hclean, hclean⟩

theorem parse_openTag :
    ∃ fault, someLanguages.registry.parse someLanguages.grammars "<T>x;\n" "typescript"
      "a.tsx" = .error fault := by
  have hlowers : Concrete.Lowers
      (Concrete.Ecma.dialect true ⟨"a.tsx", .ofString "<T>x;\n"⟩) openTag.tops ⟨[], []⟩ _ _ :=
    .error rfl rfl .nil
  have hgrammar : FrontEnd.ecma.grammar "typescript" "a.tsx" = "tsx" := by
    decide +kernel
  rw [parse_typeScript,
    FrontEnd.parse_ecma_of_lowers (by decide) (by rw [hgrammar]; rfl) hlowers]
  refine Parsed.exists_refusal ?_ fun t ht => ?_
  · -- The walk along the marks finds the problem that is known.
    simp [Concrete.Dialect.parsed, openTag, Concrete.reportMarked, Concrete.Dialect.add,
      Concrete.Node.missing, Concrete.Node.isError, Concrete.Node.faulty, Concrete.Node.kind,
      Concrete.Node.start, Concrete.Node.stop, Concrete.Node.children]
  · rw [List.mem_singleton.1 ht]
    rfl

/-- They disagree where the analysis has another grammar, of a file that may have tags; where
there is no hint, and the file name tells the language; where the grammar of Python refuses a
text, so that there is no verdict at all; and where the analysis cannot go on counting from
what the memory holds. -/
theorem validation_disagrees :
    ¬ someLanguages.Agree ⟨0, 0⟩ (.empty .default) "<T>x;\n" "typescript" "a.tsx" ∧
    ¬ someLanguages.Agree ⟨0, 0⟩ (.empty .default) "x();\n" "" "a.go" ∧
    ¬ someLanguages.Agree ⟨0, 0⟩ (.empty .default) "\x00" "python" "a.py" ∧
    ¬ someLanguages.Agree ⟨0, 0⟩ calledBefore "x();\n" "go" "a.go" := by
  refine ⟨?tags, ?hint, ?refused, ?counts⟩
  case tags =>
    obtain ⟨parsed, hparsed, hclean⟩ := parse_assertion
    obtain ⟨fault, hrefused⟩ := parse_openTag
    obtain ⟨v, hv, hvalid⟩ := validate_of_parsed someLanguages hparsed
    have hlanguage : languageOf ⟨"<T>x;\n", some "typescript", "a.tsx"⟩ = "typescript" := by
      decide +kernel
    rw [← hlanguage] at hrefused
    have hfails : (someLanguages.analyze ⟨0, 0⟩ ⟨"<T>x;\n", some "typescript", "a.tsx"⟩).outcome
        (.empty .default) = (.error fault, .empty .default) := analyze_of_refused hrefused
    exact not_agree_of_valid hv (hvalid.2 hclean) hfails
  case hint =>
    have hempty : someLanguages.registry.parse someLanguages.grammars "x();\n" "" "<validate>"
        = .error (.unsupported "" ["typescript", "python", "go"]) := by
      rfl
    obtain ⟨v, hv, hinvalid⟩ := validate_of_refused someLanguages hempty rfl
    have hdetected : detectLanguage "a.go" = "go" := by
      have hsplit : "a.go".splitOn "/" = ["a.go"] := by
        rw [String.splitOn, if_neg (by decide)]
        -- None of the four characters is a slash.
        iterate 4 rw [String.splitOnAux, if_neg (by decide +kernel), if_neg (by decide +kernel)]
        rw [String.splitOnAux, if_pos (by decide +kernel)]
        decide +kernel
      unfold detectLanguage pathEnding pathComponents
      rw [hsplit]
      decide +kernel
    -- So the analysis is the one with the hint that the file name gives.
    have hhinted : someLanguages.analyze ⟨0, 0⟩ ⟨"x();\n", some "", "a.go"⟩
        = someLanguages.analyze ⟨0, 0⟩ ⟨"x();\n", some "go", "a.go"⟩ := by
      have hsame : languageOf ⟨"x();\n", some "", "a.go"⟩
          = languageOf ⟨"x();\n", some "go", "a.go"⟩ := by
        show detectLanguage "a.go" = normalizeLanguage "go"
        rw [hdetected]
        decide +kernel
      rw [analyze, analyze, hsame]
    have hruns : (((someLanguages.analyze ⟨0, 0⟩ ⟨"x();\n", some "go", "a.go"⟩).outcome
        (.empty .default)).1.toOption.any fun a => a.findings.diagnostics.isEmpty) = true := by
      decide +kernel
    obtain ⟨a, n, hok, hclean⟩ := Change.exists_ok_of_any hruns
    rw [← hhinted] at hok
    exact not_agree_of_invalid hv hinvalid hok (by simpa using hclean)
  case refused =>
    have hraises : someLanguages.validate "\x00" "python" = .error (.refused .unreadable) := by
      rfl
    exact not_agree_of_error hraises
  case counts =>
    have hparses : ((someLanguages.registry.parse someLanguages.grammars "x();\n" "go"
        "<validate>").toOption.any fun parsed => parsed.diagnostics.isEmpty) = true := by
      decide +kernel
    obtain ⟨parsed, hparsed, hclean⟩ := (Option.any_eq_true _ _).1 hparses
    obtain ⟨v, hv, hvalid⟩ :=
      validate_of_parsed someLanguages (Except.toOption_eq_some.1 hparsed)
    have hfails : ((someLanguages.analyze ⟨0, 0⟩ ⟨"x();\n", some "go", "a.go"⟩).outcome
        calledBefore).1.toOption.isNone = true := by
      decide +kernel
    rcases houtcome : (someLanguages.analyze ⟨0, 0⟩ ⟨"x();\n", some "go", "a.go"⟩).outcome
        calledBefore with ⟨fault | a, n⟩
    · exact not_agree_of_valid hv (hvalid.2 (by simpa using hclean)) houtcome
    · rw [houtcome] at hfails
      cases hfails

end Setup

end CodeHabits
