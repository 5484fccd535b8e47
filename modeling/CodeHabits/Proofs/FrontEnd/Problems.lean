import CodeHabits.Proofs.Concrete.Reported
import CodeHabits.Proofs.FrontEnd
import CodeHabits.Proofs.Outline.Reported
import CodeHabits.Proofs.Token.Covering
import CodeHabits.Recorded

/-!
# `CodeHabits.Proofs.FrontEnd.Problems`: the problems of an outline, and the order of problems

Without a limit an outline is made of every text. Its problems are the braces without a
counterpart, those that close nothing in the order of the text and then those that stay open,
innermost first, and it has an error node for each of the former (`FrontEnd.braces_reported`).

An inner brace stands behind the outer one. So where two braces stay open, the problems are
not in the order of their places, and if there are no others, the first one is not the
earliest (`FrontEnd.problems_in_order`). A front-end with a concrete grammar sorts its
problems, whatever the grammar answers.

That there is no other way for problems to be out of order comes from the tokens. They begin
at later and later places (`Lexer.pairwise_place_tokens`), and the braces without a
counterpart are some of them, with those that stay open in reverse
(`Outline.sublist_braces`).
-/

set_option autoImplicit false

namespace CodeHabits

/-! ### Orders of problems -/

namespace Diagnostic

/-- Problems are told in the order of their places. -/
def InOrder (problems : List Diagnostic) : Prop :=
  problems.Pairwise fun c d => c.place ≤ d.place

/-- No problem is earlier than the first that is told. -/
def BeginsEarliest (problems : List Diagnostic) : Prop :=
  ∀ first ∈ problems.head?, ∀ d ∈ problems, first.place ≤ d.place

variable {problems : List Diagnostic}

theorem inOrder_iff_map : InOrder problems ↔ (problems.map place).Pairwise (· ≤ ·) :=
  List.pairwise_map.symm

theorem InOrder.beginsEarliest (h : InOrder problems) : BeginsEarliest problems := by
  intro first hfirst d hd
  cases problems with
  | nil => cases hd
  | cons head rest =>
    obtain rfl : head = first := by simpa using hfirst
    rcases List.mem_cons.1 hd with rfl | hrest
    · exact le_refl _
    · exact (List.pairwise_cons.1 h).1 d hrest

end Diagnostic

namespace Outline

namespace Braces

/-- What is reported of braces without a counterpart. -/
def problems (b : Braces) : List Diagnostic :=
  b.strays.map unexpected ++ b.unclosed.map unterminated

theorem problems_eq_nil_iff {b : Braces} : b.problems = [] ↔ b = ⟨[], []⟩ := by
  obtain ⟨unclosed, strays⟩ := b
  simp [problems, and_comm]

theorem map_place_problems (b : Braces) :
    b.problems.map Diagnostic.place = (b.strays ++ b.unclosed).map Token.place := by
  rw [problems, List.map_append, List.map_append, List.map_map, List.map_map]
  rfl

section

variable {b : Braces}
  (h : (b.strays ++ b.unclosed.reverse).Pairwise fun t u => t.place < u.place)

include h

/-- At most one brace stays open, so there is nothing to be reversed. -/
theorem inOrder_of_length_le (hlength : b.unclosed.length ≤ 1) :
    Diagnostic.InOrder b.problems := by
  have hreverse : b.unclosed.reverse = b.unclosed := by
    match hunclosed : b.unclosed with
    | [] => rfl
    | [o] => rfl
    | o :: p :: rest =>
      rw [hunclosed, List.length_cons, List.length_cons] at hlength
      omega
  rw [hreverse] at h
  rw [Diagnostic.inOrder_iff_map, map_place_problems, List.pairwise_map]
  exact h.imp le_of_lt

/-- Of two braces that stay open the inner one is told first and stands behind the other. -/
theorem exists_of_one_lt (hlength : 1 < b.unclosed.length) :
    ∃ inner outer rest, b.unclosed = inner :: outer :: rest ∧ outer.place < inner.place := by
  match hunclosed : b.unclosed with
  | [] => simp [hunclosed] at hlength
  | [o] => simp [hunclosed] at hlength
  | inner :: outer :: rest =>
    have hopen := (List.pairwise_append.1 h).2.1
    rw [hunclosed, List.pairwise_reverse, List.pairwise_cons] at hopen
    exact ⟨inner, outer, rest, rfl, hopen.1 outer (by simp)⟩

theorem inOrder_problems_iff : Diagnostic.InOrder b.problems ↔ b.unclosed.length ≤ 1 := by
  constructor
  · intro horder
    by_contra hlength
    obtain ⟨inner, outer, rest, hunclosed, hlt⟩ := exists_of_one_lt h (by omega)
    have hopen := (List.pairwise_append.1 horder).2.1
    rw [hunclosed, List.map_cons, List.map_cons, List.pairwise_cons] at hopen
    exact not_le_of_gt hlt (hopen.1 (unterminated outer) (by simp))
  · exact inOrder_of_length_le h

theorem beginsEarliest_problems_iff :
    Diagnostic.BeginsEarliest b.problems ↔ b.strays ≠ [] ∨ b.unclosed.length ≤ 1 := by
  constructor
  · intro hearliest
    by_contra hnone
    rw [not_or, not_not] at hnone
    obtain ⟨inner, outer, rest, hunclosed, hlt⟩ := exists_of_one_lt h (by omega)
    have hproblems : b.problems
        = unterminated inner :: unterminated outer :: rest.map unterminated := by
      rw [problems, hnone.1, hunclosed]
      rfl
    rw [hproblems] at hearliest
    exact not_le_of_gt hlt (hearliest (unterminated inner) rfl (unterminated outer) (by simp))
  · rintro (hstrays | hlength)
    · -- The first of these stands in front of all other braces without a counterpart.
      obtain ⟨s, rest, hcons⟩ := List.exists_cons_of_ne_nil hstrays
      rw [hcons, List.cons_append, List.pairwise_cons] at h
      intro first hfirst d hd
      obtain rfl : unexpected s = first := by simpa [problems, hcons] using hfirst
      have hplace : d.place ∈ (b.strays ++ b.unclosed).map Token.place := by
        rw [← map_place_problems]
        exact List.mem_map_of_mem hd
      obtain ⟨t, ht, htplace⟩ := List.mem_map.1 hplace
      rw [← htplace]
      rw [hcons, List.cons_append, List.mem_cons] at ht
      rcases ht with rfl | ht
      · exact le_refl _
      · exact le_of_lt (h.1 t (by simpa using ht))
    · exact (inOrder_of_length_le h hlength).beginsEarliest

end

end Braces

/-- The braces of a source text without a counterpart. -/
def bracesIn (source : String) : Braces :=
  braces (Lexer.tokens surface source)

theorem pairwise_place_bracesIn (source : String) :
    ((bracesIn source).strays ++ (bracesIn source).unclosed.reverse).Pairwise
      fun t u => t.place < u.place :=
  (Lexer.pairwise_place_tokens Lexer.regular_outlineSurface source).sublist (sublist_braces _)

theorem diagnostics_outline (source file language : String) :
    (outline source file language).diagnostics = (bracesIn source).problems :=
  State.diagnostics_ofTokens file _

end Outline

theorem Concrete.inOrder_of_build {d : Dialect} {text language : String} {root : Node}
    {budget : Budget} {parsed : Parsed} {used left : Nat}
    (h : (build d text language root).runFrom budget used = (.ok parsed, left)) :
    Diagnostic.InOrder parsed.diagnostics := by
  obtain ⟨trees, r, _, rfl⟩ := lowers_of_build h
  exact pairwise_mergeSort_diagnosticLe _

theorem Parsed.eq_of_accept {p q : Parsed} (h : p.accept = .ok q) : q = p := by
  rcases p.accept_cases with hok | ⟨fault, hfails, _⟩
  · rw [hok] at h
    exact (Except.ok.inj h).symm
  · rw [hfails] at h
    cases h

namespace FrontEnd

open Outline

variable (g : Grammars) (source file language : String)

/-- A parse only looks at the budget before its front-end builds a tree. -/
theorem exists_build_of_parse {frontEnd : FrontEnd} {g : Grammars}
    {source file language : String} {budget : Budget} {parsed : Parsed} {looks : Nat}
    (h : (frontEnd.parse g source file language).outcome budget = (.ok parsed, looks)) :
    ∃ used left, (frontEnd.build g source file language).runFrom budget used
      = (.ok parsed, left) := by
  obtain ⟨_, used, _, h⟩ := Timed.runFrom_bind_eq_ok h
  obtain ⟨built, left, hbuild, h⟩ := Timed.runFrom_bind_eq_ok h
  have haccept : ∀ p : Parsed, (Timed.ofExcept p.accept).runFrom budget left = (.ok parsed, looks) →
      parsed = p := by
    intro p hp
    cases hresult : p.accept with
    | error fault =>
      rw [hresult] at hp
      cases hp
    | ok q =>
      rw [hresult] at hp
      cases hp
      exact Parsed.eq_of_accept hresult
  have hsame : parsed = built := by
    cases frontEnd with
    | outline =>
      cases h
      rfl
    | _ => exact haccept built h
  exact ⟨used, left, hsame ▸ hbuild⟩

/-- An outline takes looks at the budget and does nothing else that may fail. -/
theorem outcome_parse_outline (given : Value) (seconds : Float) :
    (outline.parse g source file language).outcome ⟨none, given, seconds⟩
      = (.ok (Outline.outline source file language), 1 + looks source) := by
  rw [(outline.metered_parse g source file language).outcome_free]
  have hcheck : Timed.check.runFrom .unlimited 0 = (.ok (), 1) := rfl
  show (outline.parse g source file language).runFrom .unlimited 0 = _
  rw [parse, Timed.runFrom_bind_ok hcheck]
  have hbuild : (outline.build g source file language).runFrom .unlimited 1
      = (.ok (Outline.outline source file language), 1 + looks source) :=
    Timed.runFrom_bind_ok (Timed.runFrom_checkTimes (looks source) 1)
  rw [Timed.runFrom_bind_ok hbuild]
  rfl

/-- Under any budget that is enough it is the same outline. -/
theorem eq_outline_of_build {g : Grammars} {source file language : String} {budget : Budget}
    {parsed : Parsed} {used left : Nat}
    (h : (outline.build g source file language).runFrom budget used = (.ok parsed, left)) :
    parsed = Outline.outline source file language := by
  obtain ⟨_, _, _, h⟩ := Timed.runFrom_bind_eq_ok h
  cases h
  rfl

/-- Without a limit every text has an outline. Its problems are the closing braces in front
of which no brace is open, in their order, and then the opening braces that are not closed,
the last one first. There are none if the braces are balanced. Each of these closing braces
leaves an error node right below the root, and there are no other error nodes. -/
theorem braces_reported (given : Value) (seconds : Float) :
    ∃ parsed strays unclosed,
      (outline.parse g source file language).outcome ⟨none, given, seconds⟩
        = (.ok parsed, 1 + looks source) ∧
      Matched (Lexer.tokens surface source) strays unclosed ∧
      parsed.diagnostics = strays.map unexpected ++ unclosed.map unterminated ∧
      (parsed.diagnostics = [] ↔ Balanced (Lexer.tokens surface source)) ∧
      parsed.tree.tag = .module ∧
      (parsed.tree.children.filter fun t => t.tag = .error).map Tree.span
        = strays.map (spanOf file) ∧
      ∀ child ∈ parsed.tree.children, ∀ t ∈ child.children, ∀ node ∈ t.walk,
        node.tag ≠ .error := by
  have hnodup : (Lexer.tokens surface source).Nodup :=
    Lexer.nodup_tokens Lexer.regular_outlineSurface source
  have hproblems := diagnostics_outline source file language
  have herrors : ErrorsAt ((bracesIn source).strays.map (spanOf file))
      (Outline.outline source file language).tree.children :=
    State.errorsAt_ofTokens file (Lexer.tokens surface source)
  refine ⟨Outline.outline source file language, (bracesIn source).strays,
    (bracesIn source).unclosed, outcome_parse_outline g source file language given seconds,
    matched_braces hnodup, hproblems, ?_, rfl, herrors.spans, ?_⟩
  · rw [hproblems, Braces.problems_eq_nil_iff, balanced_iff]
    rfl
  · intro child hchild t ht
    exact (herrors.below child hchild t ht).walk

/-- The problems that a front-end other than that for Python tells are in the order of their
places, except in outlines in which more than one brace stays open. The first one is an
earliest one, except if moreover there is no closing brace among them. -/
theorem problems_in_order {frontEnd : FrontEnd} (hfrontEnd : frontEnd ≠ .python) {g : Grammars}
    {source file language : String} {budget : Budget} {parsed : Parsed} {looks : Nat}
    (h : (frontEnd.parse g source file language).outcome budget = (.ok parsed, looks)) :
    (Diagnostic.InOrder parsed.diagnostics ↔
      (frontEnd = .outline → (bracesIn source).unclosed.length ≤ 1)) ∧
    (Diagnostic.BeginsEarliest parsed.diagnostics ↔
      (frontEnd = .outline →
        (bracesIn source).strays ≠ [] ∨ (bracesIn source).unclosed.length ≤ 1)) := by
  obtain ⟨used, left, hbuild⟩ := exists_build_of_parse h
  by_cases houtline : frontEnd = .outline
  · subst houtline
    have hplaces := pairwise_place_bracesIn source
    rw [eq_outline_of_build hbuild, diagnostics_outline, Braces.inOrder_problems_iff hplaces,
      Braces.beginsEarliest_problems_iff hplaces]
    simp
  · -- What is left are the front-ends that sort.
    have hsorted : Diagnostic.InOrder parsed.diagnostics := by
      cases frontEnd with
      | ecma => exact Concrete.inOrder_of_build hbuild
      | rust => exact Concrete.inOrder_of_build hbuild
      | python => exact absurd rfl hfrontEnd
      | outline => exact absurd rfl houtline
    constructor
    · exact iff_of_true hsorted fun h => absurd h houtline
    · exact iff_of_true hsorted.beginsEarliest fun h => absurd h houtline

/-- Two blocks of which neither is closed: the inner one is told first. -/
theorem problems_in_order_of_nested_blocks :
    FrontEnd.outline ≠ .python ∧
      ∃ parsed looks,
        (outline.parse (.ofRecords []) "f \x7b\ng \x7b\n" "a.go" "go").outcome .unlimited
          = (.ok parsed, looks) ∧
        ¬ Diagnostic.InOrder parsed.diagnostics ∧
        ¬ Diagnostic.BeginsEarliest parsed.diagnostics := by
  have hbraces : (bracesIn "f \x7b\ng \x7b\n").strays = [] ∧
      (bracesIn "f \x7b\ng \x7b\n").unclosed.length = 2 := by
    constructor
    · decide +kernel
    · decide +kernel
  have hparse : (outline.parse (.ofRecords []) "f \x7b\ng \x7b\n" "a.go" "go").outcome .unlimited
      = (.ok _, _) := outcome_parse_outline _ _ _ _ _ _
  have horder := problems_in_order (by decide) hparse
  rw [hbraces.1, hbraces.2] at horder
  refine ⟨by decide, _, _, hparse, ?_, ?_⟩
  · rw [horder.1]
    simp
  · rw [horder.2]
    simp

end FrontEnd

end CodeHabits
