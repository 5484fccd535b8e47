import CodeHabits.Analysis
import CodeHabits.FrontEnd
import CodeHabits.Proofs.Budget
import CodeHabits.Proofs.Concrete.Plans
import CodeHabits.Proofs.Config
import CodeHabits.Proofs.FrontEnd.Plain
import CodeHabits.Proofs.Value.Arithmetic

/-!
# `CodeHabits.Proofs.FrontEnd`: what parsing and searching end with

Every front-end gives plain trees, whatever the grammars answer, and fails with faults of
reading only. A registry adds limits to that. If the limits are numbers, as they are
after a configuration was checked, they add one more fault: the seconds that parsing may
take may be too large for a floating-point number (`Registry.parse_eq_error`).
-/

set_option autoImplicit false

namespace CodeHabits

/-- Every front-end gives plain trees. -/
theorem FrontEnd.ends_build (frontEnd : FrontEnd) (g : Grammars) (source file language : String) :
    Timed.Ends (fun parsed => parsed.tree.Plain) (frontEnd.build g source file language) := by
  cases frontEnd with
  | ecma => exact Concrete.ends_build (Concrete.Ecma.plain_dialect _ _) _ _ _
  | rust => exact Concrete.ends_build (Concrete.Rust.plain_dialect _) _ _ _
  | python => exact Python.ends_build _ _ _ _
  | outline => exact Outline.ends_build _ _ _

/-- A result in which problems are all there is, is refused with a fault of the domain. -/
theorem Parsed.accept_cases (p : Parsed) :
    p.accept = .ok p ∨ ∃ fault, p.accept = .error fault ∧ fault.isDomain = true := by
  unfold accept
  split
  · exact .inl rfl
  · split
    · exact .inr ⟨_, rfl, rfl⟩
    · exact .inl rfl

theorem Parsed.accept_of_clean {p : Parsed} (h : p.diagnostics = []) : p.accept = .ok p := by
  unfold accept
  rw [h]

theorem Parsed.exists_refusal {p : Parsed} (hproblems : p.diagnostics ≠ [])
    (h : ∀ t ∈ p.tree.children, t.tag = .error) : ∃ fault, p.accept = .error fault := by
  unfold accept
  split
  · contradiction
  · rw [if_pos (by simpa using h)]
    exact ⟨_, rfl⟩

theorem FrontEnd.ends_parse (frontEnd : FrontEnd) (g : Grammars) (source file language : String) :
    Timed.Ends (fun parsed => parsed.tree.Plain) (frontEnd.parse g source file language) := by
  have haccept : ∀ parsed : Parsed, parsed.tree.Plain →
      Timed.Ends (fun parsed => parsed.tree.Plain) (Timed.ofExcept parsed.accept) := by
    intro parsed hplain
    rcases parsed.accept_cases with hok | ⟨fault, hfails, hdomain⟩
    · exact Timed.ends_ofExcept (.inl ⟨parsed, hok, hplain⟩)
    · exact Timed.ends_ofExcept (.inr ⟨fault, hfails, .inl hdomain⟩)
  unfold parse
  refine Timed.ends_bind Timed.ends_check fun _ _ => ?_
  refine Timed.ends_bind (frontEnd.ends_build g source file language) fun parsed hplain => ?_
  cases frontEnd with
  | outline => exact Timed.ends_pure hplain
  | _ => exact haccept parsed hplain

namespace Registry

variable {r : Registry} {g : Grammars} {source hint file : String}

/-- The limits are numbers. -/
structure Limited (r : Registry) : Prop where
  sizeLimit : r.sizeLimit.number?.isSome
  timeout : r.timeout.number?.isSome

/-- Parsing gives plain trees. -/
theorem plain_of_parse {parsed : Parsed} (h : r.parse g source hint file = .ok parsed) :
    parsed.tree.Plain := by
  obtain ⟨_, _, h⟩ := Except.bind_eq_ok.1 h
  obtain ⟨frontEnd, _, h⟩ := Except.bind_eq_ok.1 h
  obtain ⟨budget, _, h⟩ := Except.bind_eq_ok.1 h
  rcases (frontEnd.ends_parse g source file _).outcome budget with ⟨_, hok, hplain⟩ | ⟨_, herror, _⟩
  · rw [hok] at h
    cases h
    exact hplain
  · rw [herror] at h
    cases h

/-- A text that is too large is refused with a fault of the domain. -/
theorem needSize_eq_error (hr : r.Limited) {fault : Fault}
    (h : r.needSize source = .error fault) : fault.isDomain = true := by
  obtain ⟨above, habove⟩ :=
    Value.exists_lt hr.sizeLimit (rfl : (Value.ofNat source.utf8ByteSize).number?.isSome = true)
  unfold needSize at h
  dsimp only at h
  rw [habove, Except.ok_bind] at h
  cases above with
  | false => cases h
  | true =>
    cases h
    rfl

/-- So is a language that is not allowed. -/
theorem resolve_eq_error {fault : Fault} (h : r.resolve hint = .error fault) :
    fault.isDomain = true := by
  unfold resolve at h
  dsimp only at h
  split at h
  · cases h
    rfl
  · split at h
    · cases h
    · cases h
      rfl

/-- Of seconds that are a number there is a budget unless they are too many. -/
theorem ofSeconds_eq_error (hr : r.Limited) {fault : Fault}
    (h : Budget.ofSeconds r.timeout = .error fault) : fault = .overflow := by
  obtain ⟨n, hn⟩ := Option.isSome_iff_exists.1 hr.timeout
  have hnumber : r.timeout.toNumber = .ok n := by rw [Value.toNumber, hn]
  unfold Budget.ofSeconds at h
  rw [hnumber, Except.ok_bind] at h
  rcases Except.bind_eq_error.1 h with hseconds | ⟨_, _, h⟩
  · unfold Number.orOverflow at hseconds
    split at hseconds
    · cases hseconds
    · cases hseconds
      rfl
  · cases h

theorem parse_eq_error (hr : r.Limited) {fault : Fault}
    (h : r.parse g source hint file = .error fault) : fault.OfReading ∨ fault = .overflow := by
  rcases Except.bind_eq_error.1 h with hsize | ⟨_, _, h⟩
  · exact .inl (.inl (needSize_eq_error hr hsize))
  rcases Except.bind_eq_error.1 h with hlanguage | ⟨frontEnd, _, h⟩
  · exact .inl (.inl (resolve_eq_error hlanguage))
  rcases Except.bind_eq_error.1 h with hbudget | ⟨budget, _, h⟩
  · exact .inr (ofSeconds_eq_error hr hbudget)
  rcases (frontEnd.ends_parse g source file _).outcome budget with ⟨_, hok, _⟩ | ⟨_, herror, hends⟩
  · rw [hok] at h
    cases h
  · rw [herror] at h
    cases h
    exact .inl hends

end Registry

/-- A configuration that was checked limits parsing. -/
theorem Config.limited_registry {c : Config} (hvalid : c.validate = .ok ()) {settings : Settings}
    (h : c.settings = .ok settings) : settings.registry.Limited := by
  have hchecked := validate_eq_ok_iff.1 hvalid
  obtain ⟨registry, hregistry, h⟩ := Except.bind_eq_ok.1 h
  obtain ⟨storage?, _, h⟩ := Except.bind_eq_ok.1 h
  cases h
  obtain ⟨languages, _, hregistry⟩ := Except.bind_eq_ok.1 hregistry
  cases hregistry
  exact ⟨hchecked.codeSize.isSome, hchecked.timeout.isSome⟩

/-!
## How long parsing may take does not change what it gives

The looks at the budget are spread over the front-ends: one before each parse, one for
each node that is lowered, one for each chunk of a source that does not read as a whole,
and one every so many tokens or nodes made. None of them is taken back, and nothing else
reads the budget. So there is one lemma for each of these places, and
`FrontEnd.parse_outcome` for the whole: with enough looks a parse is the one without a
limit, and with fewer it is out of time at the first look too many.
-/

namespace Concrete

theorem Dialect.metered_reportAt (d : Dialect) (c : Cursor) (message : String) :
    (d.reportAt c message).Metered :=
  Reporting.metered_bind (Reporting.metered_modify _) fun _ => Reporting.metered_pure _

/-- Lowering looks once at the budget for each node that is no token. -/
theorem metered_lower (d : Dialect) (stack : List Cursor) : (lower d stack).Metered := by
  induction stack using lower.induct with
  | case1 =>
    rw [lower]
    exact Reporting.metered_pure []
  | case2 c rest htoken ih =>
    rw [lower, if_pos htoken]
    exact ih
  | case3 c rest htoken ihrest ihbelow ihplan =>
    rw [lower, if_neg htoken]
    refine Reporting.metered_bind Reporting.metered_check fun _ => ?_
    split
    · -- A missing node.
      refine Reporting.metered_bind (d.metered_reportAt c _) fun _ => ?_
      exact Reporting.metered_bind ihrest fun _ => Reporting.metered_pure _
    · split
      · -- Text that fits nowhere.
        refine Reporting.metered_bind (d.metered_reportAt c _) fun _ => ?_
        exact Reporting.metered_bind ihbelow fun _ => Reporting.metered_pure _
      · split
        next => exact ihbelow
        next fault _ => exact Reporting.metered_throw fault
        next plan _ =>
          refine Reporting.metered_bind (ihplan plan) fun _ => ?_
          exact Reporting.metered_bind ihrest fun _ => Reporting.metered_pure _

theorem metered_build (d : Dialect) (text language : String) (root : Node) :
    (build d text language root).Metered := by
  unfold build
  refine Timed.metered_bind Timed.metered_check fun _ => ?_
  exact Timed.metered_bind (metered_lower d _ _) fun _ => Timed.metered_pure _

end Concrete

namespace Python

/-- A chunk of blanks takes one look, as does one that does not read; a chunk that reads
takes more for the nodes that it makes. -/
theorem Pieces.metered_add (read : String → Reading) (file : String) (ps : Pieces)
    (chunk : Chunk) : (ps.add read file chunk).Metered := by
  unfold Pieces.add
  refine Timed.metered_bind Timed.metered_check fun _ => ?_
  split
  · exact Timed.metered_pure ps
  cases read chunk.text with
  | refused => exact Timed.metered_throw _
  | broken message line? column? => exact Timed.metered_pure _
  | statements body =>
    exact Timed.metered_bind (Timed.metered_checkTimes _) fun _ => Timed.metered_pure _

theorem metered_build (read : String → Reading) (source file language : String) :
    (build read source file language).Metered := by
  unfold build
  cases read source with
  | refused => exact Timed.metered_throw _
  | statements body =>
    refine Timed.metered_bind Timed.metered_check fun _ => ?_
    exact Timed.metered_bind (Timed.metered_checkTimes _) fun _ => Timed.metered_pure _
  | broken message line? column? =>
    refine Timed.metered_bind ?_ fun _ => Timed.metered_pure _
    exact Timed.metered_foldlM (Pieces.metered_add read file) _ _

end Python

theorem Outline.metered_build (source file language : String) :
    (build source file language).Metered :=
  Timed.metered_bind (Timed.metered_checkTimes _) fun _ => Timed.metered_pure _

namespace FrontEnd

variable (frontEnd : FrontEnd) (g : Grammars) (source file language : String)

theorem metered_build : (frontEnd.build g source file language).Metered := by
  cases frontEnd with
  | ecma => exact Concrete.metered_build _ _ _ _
  | rust => exact Concrete.metered_build _ _ _ _
  | python => exact Python.metered_build _ _ _ _
  | outline => exact Outline.metered_build _ _ _

theorem metered_parse : (frontEnd.parse g source file language).Metered := by
  unfold parse
  refine Timed.metered_bind Timed.metered_check fun _ => ?_
  refine Timed.metered_bind (frontEnd.metered_build g source file language) fun parsed => ?_
  cases frontEnd with
  | outline => exact Timed.metered_pure parsed
  | _ => exact Timed.metered_ofExcept _

/-- With at least as many looks as the parse without a limit takes, a parse has the same
tree, language and problems, or the same fault, after the same number of looks. With
fewer, it is out of time at the first look that its budget does not allow. -/
theorem parse_outcome (allowed : Nat) (given : Value) (seconds : Float) :
    (frontEnd.parse g source file language).outcome ⟨some allowed, given, seconds⟩ =
      if ((frontEnd.parse g source file language).outcome .unlimited).2 ≤ allowed then
        (frontEnd.parse g source file language).outcome .unlimited
      else (.error (.outOfTime given seconds), allowed + 1) :=
  (frontEnd.metered_parse g source file language).outcome_eq allowed given seconds

end FrontEnd

end CodeHabits

/-!
## What is found in a source text

Whatever a source text is, what is found in it can be learned from: the habits of every
candidate are texts, which can be counted (`countable_of_find`, `countable_of_reparse`). If
nothing is found, the fault is one of reading, or a number is too large
(`find_eq_error`). Apart from a text that Python does not read at all and a declaration
without parts, it is then a fault of the domain.
-/

namespace CodeHabits

/-- The style of a sighting is an object, and every habit of it is a text. -/
def Sighting.Countable (c : Sighting) : Prop :=
  ∃ style, c.style = .object style ∧ Candidate.TextStyle style

theorem Candidate.TextStyle.countable {c : Candidate} (h : TextStyle c.style) :
    c.sighting.Countable :=
  ⟨c.style, rfl, h⟩

namespace Setup

variable {ν : Type} {setup : Setup ν}

/-- The candidates of a source text can be counted. -/
theorem countable_of_find {code language file : String} {findings : Findings}
    (h : setup.find code language file = .ok findings) :
    ∀ c ∈ findings.candidates, c.sighting.Countable := by
  obtain ⟨parsed, hparsed, h⟩ := Except.bind_eq_ok.1 h
  obtain ⟨_, hextract, htexts⟩ := Candidate.exists_extract (Registry.plain_of_parse hparsed)
    parsed.language (some file) (some (Formatting.analyze code))
  obtain ⟨candidates, hcandidates, h⟩ := Except.bind_eq_ok.1 h
  obtain ⟨metrics, _, h⟩ := Except.bind_eq_ok.1 h
  obtain ⟨measured, _, h⟩ := Except.bind_eq_ok.1 h
  rw [hextract] at hcandidates
  cases hcandidates
  cases h
  exact fun c hc => (htexts c hc).countable

/-- And so can the sightings in modified content. -/
theorem countable_of_reparse {code : String} {language : Label} {sightings : List Sighting}
    (h : setup.reparse code language = .ok sightings) : ∀ c ∈ sightings, c.Countable := by
  obtain ⟨_, _, h⟩ := Except.bind_eq_ok.1 h
  cases language with
  | text name =>
    obtain ⟨parsed, hparsed, h⟩ := Except.bind_eq_ok.1 h
    obtain ⟨candidates, hextract, htexts⟩ := Candidate.exists_extract
      (Registry.plain_of_parse hparsed) parsed.language (some "<modified>")
      (some (Formatting.analyze code))
    rw [hextract] at h
    cases h
    exact List.forall_mem_map.2 fun c hc => (htexts c hc).countable
  | _ => cases h

/-- Within limits that are numbers, a source text in which nothing is found cannot be
read, or a number is too large. -/
theorem find_eq_error (hr : setup.registry.Limited) {code language file : String} {fault : Fault}
    (h : setup.find code language file = .error fault) : fault.OfReading ∨ fault = .overflow := by
  rcases Except.bind_eq_error.1 h with hparse | ⟨parsed, hparsed, h⟩
  · exact Registry.parse_eq_error hr hparse
  have hplain := Registry.plain_of_parse hparsed
  obtain ⟨_, hextract, _⟩ := Candidate.exists_extract hplain parsed.language (some file)
    (some (Formatting.analyze code))
  obtain ⟨metrics, hmetrics, hwhole⟩ := Metrics.exists_analyze hplain
  dsimp only at h
  rw [hextract, Except.ok_bind, hmetrics, Except.ok_bind] at h
  rcases Except.bind_eq_error.1 h with hdocument | ⟨_, _, h⟩
  · exact .inr (Metrics.document_eq_error hwhole hdocument)
  · cases h

end Setup

end CodeHabits
