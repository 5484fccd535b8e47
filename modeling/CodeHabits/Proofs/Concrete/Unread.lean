import CodeHabits.FrontEnd
import CodeHabits.Proofs.Concrete.Readings
import CodeHabits.Proofs.FrontEnd
import CodeHabits.Proofs.Tree.Signature

/-!
# `CodeHabits.Proofs.Concrete.Unread`: names and literals never reach a signature

A pattern is told by the shape of code. Two texts whose concrete trees differ in names, in
literals and in places are to give the same signatures, or to be refused alike. The plans are
treated in `Readings`, and here two runs of a front-end are followed side by side.

The two runs may take their time differently and report problems in different places. So a
run is only compared by how it ends (`Timed.Alike`), and of the reports it is only kept
whether there are any (`Reports.Alike`). A problem is not reported again for a range that is
known, and whether it is known depends on the offsets, but it is never the first one that is
left out.

`alike_lower` goes along the stack of nodes by the cases of lowering. The problems that the
marks lead to come next, then the two grammars with what their plans read, and what is
refused.
-/

set_option autoImplicit false

namespace CodeHabits

/-- Faults that differ at most in what they tell of a source text that is not understood. -/
inductive Fault.Alike : Fault → Fault → Prop
  | same (fault : Fault) : Alike fault fault
  | unparsable (reason other : String) (location place : Option (Int × Int)) :
      Alike (.unparsable reason location) (.unparsable other place)

theorem Fault.Alike.isDomain {fault other : Fault} (h : fault.Alike other) :
    fault.isDomain = other.isDomain := by
  cases h <;> rfl

/-- Two results that are related, or two faults that are alike. -/
inductive SameEnd {α β : Type} (R : α → β → Prop) : Except Fault α → Except Fault β → Prop
  | ok {a : α} {b : β} (h : R a b) : SameEnd R (.ok a) (.ok b)
  | error {fault other : Fault} (h : fault.Alike other) : SameEnd R (.error fault) (.error other)

namespace Timed

variable {α β γ δ : Type} {R : α → β → Prop} {S : γ → δ → Prop}

/-- Without a limit, and whatever was used, the two computations end in the same way. -/
def Alike (R : α → β → Prop) (x : Timed α) (y : Timed β) : Prop :=
  ∀ used later, ∃ result other left rest,
    (x.run Budget.unlimited).run.run used = (result, left) ∧
    (y.run Budget.unlimited).run.run later = (other, rest) ∧ SameEnd R result other

theorem alike_pure {a : α} {b : β} (h : R a b) : Alike R (pure a) (pure b) :=
  fun used later => ⟨.ok a, .ok b, used, later, rfl, rfl, .ok h⟩

theorem alike_throw {fault other : Fault} (h : fault.Alike other) :
    Alike R (throw fault) (throw other) :=
  fun used later => ⟨.error fault, .error other, used, later, rfl, rfl, .error h⟩

/-- Sequences end in the same way if their parts do: the second parts know what the first
ones give. -/
theorem alike_bind {x : Timed α} {y : Timed β} {f : α → Timed γ} {g : β → Timed δ}
    (hxy : Alike R x y) (hfg : ∀ a b, R a b → Alike S (f a) (g b)) :
    Alike S (x >>= f) (y >>= g) := by
  intro used later
  obtain ⟨result, other, left, rest, hx, hy, hend⟩ := hxy used later
  cases hend with
  | @ok a b h =>
    obtain ⟨result, other, left', rest', hf, hg, hend⟩ := hfg a b h left rest
    refine ⟨result, other, left', rest', ?_, ?_, hend⟩
    · rw [ReaderT.run_bind, ExceptT.run_bind, StateT.run_bind, hx]
      exact hf
    · rw [ReaderT.run_bind, ExceptT.run_bind, StateT.run_bind, hy]
      exact hg
  | @error fault other h =>
    refine ⟨.error fault, .error other, left, rest, ?_, ?_, .error h⟩
    · rw [ReaderT.run_bind, ExceptT.run_bind, StateT.run_bind, hx]
      rfl
    · rw [ReaderT.run_bind, ExceptT.run_bind, StateT.run_bind, hy]
      rfl

theorem alike_ofExcept {x : Except Fault α} {y : Except Fault β} (h : SameEnd R x y) :
    Alike R (ofExcept x) (ofExcept y) := by
  cases h with
  | ok h => exact alike_pure h
  | error h => exact alike_throw h

/-- A look at a budget without a limit finds something left. -/
theorem alike_check : Alike (fun _ _ => True) check check :=
  fun used later => ⟨.ok (), .ok (), used + 1, later + 1, rfl, rfl, .ok trivial⟩

/-- What is said of every run is said of the one from the beginning. -/
theorem Alike.outcome {x : Timed α} {y : Timed β} (h : Alike R x y) :
    SameEnd R (x.outcome Budget.unlimited).1 (y.outcome Budget.unlimited).1 := by
  obtain ⟨result, other, left, rest, hx, hy, hend⟩ := h 0 0
  rw [Timed.outcome, Timed.outcome, hx, hy]
  exact hend

end Timed

/-- Results whose trees are the same but for what is left out. There are problems in both or
in none. -/
structure Parsed.Alike (p q : Parsed) : Prop where
  tree : p.tree.bare = q.tree.bare
  problems : p.diagnostics = [] ↔ q.diagnostics = []

namespace Concrete

/-! ### Reporting -/

/-- Problems are known in both runs or in none. What is listed as known tells that there are
problems. -/
structure Reports.Alike (r s : Reports) : Prop where
  left : r.ranges ≠ [] → r.diagnostics ≠ []
  right : s.ranges ≠ [] → s.diagnostics ≠ []
  same : r.diagnostics = [] ↔ s.diagnostics = []

theorem Reports.alike_none : Reports.Alike ⟨[], []⟩ ⟨[], []⟩ :=
  ⟨fun h => absurd rfl h, fun h => absurd rfl h, Iff.rfl⟩

variable {D E : Dialect} {P : Node → Node → Prop} {r s : Reports}

/-- Whether a range is new depends on the offsets. There are problems in any case after one
was taken in. -/
theorem diagnostics_add (h : r.ranges ≠ [] → r.diagnostics ≠ []) (c : Cursor) (message : String) :
    (D.add r c message).diagnostics ≠ [] := by
  unfold Dialect.add
  dsimp only
  split
  · rename_i hknown
    refine h fun hnone => ?_
    rw [hnone] at hknown
    cases hknown
  · simp

theorem Reports.Alike.add (h : Reports.Alike r s) (c d : Cursor) (message other : String) :
    Reports.Alike (D.add r c message) (E.add s d other) := by
  have hleft := diagnostics_add (D := D) h.left c message
  have hright := diagnostics_add (D := E) h.right d other
  exact ⟨fun _ => hleft, fun _ => hright, iff_of_false hleft hright⟩

namespace Reporting

variable {α β γ δ : Type} {R : α → β → Prop} {S : γ → δ → Prop}

/-- The same of computations that report problems on the way: both report some or none. -/
def Alike (R : α → β → Prop) (x : Reporting α) (y : Reporting β) : Prop :=
  ∀ r s, Reports.Alike r s →
    Timed.Alike (fun a b => R a.1 b.1 ∧ Reports.Alike a.2 b.2) (x.run r) (y.run s)

theorem alike_pure {a : α} {b : β} (h : R a b) : Alike R (pure a) (pure b) :=
  fun _ _ hreports => Timed.alike_pure ⟨h, hreports⟩

theorem alike_throw (fault : Fault) : Alike R (throw fault) (throw fault) :=
  fun _ _ _ => Timed.alike_throw (.same fault)

theorem alike_bind {x : Reporting α} {y : Reporting β} {f : α → Reporting γ}
    {g : β → Reporting δ} (hxy : Alike R x y) (hfg : ∀ a b, R a b → Alike S (f a) (g b)) :
    Alike S (x >>= f) (y >>= g) :=
  fun r s hreports => Timed.alike_bind (hxy r s hreports) fun a b h => hfg a.1 b.1 h.1 a.2 b.2 h.2

theorem alike_check :
    Alike (fun _ _ => True) (Timed.check : Reporting Unit) (Timed.check : Reporting Unit) :=
  fun _ _ hreports => Timed.alike_bind Timed.alike_check fun _ _ _ =>
    Timed.alike_pure ⟨trivial, hreports⟩

end Reporting

/-- Error nodes differ in their messages and places only. -/
theorem Dialect.alike_reportAt (c d : Cursor) (message other : String) :
    Reporting.Alike (fun t u => t.bare = u.bare) (D.reportAt c message) (E.reportAt d other) := by
  have hbare : (D.file.tree .error c [("message", .text message)] []).bare
      = (E.file.tree .error d [("message", .text other)] []).bare :=
    SourceFile.bare_tree (by simp [identityAttributes]) rfl
  exact fun r s hreports => Timed.alike_pure ⟨hbare, hreports.add c d message other⟩

/-! ### Lowering -/

/-- The two dialects have plans that are alike for nodes that are. -/
def Dialect.Alike (P : Node → Node → Prop) (D E : Dialect) : Prop :=
  ∀ c d, c.Alike P d → Option.Rel (Plan.AlikeOutcome P) (D.plan? c) (E.plan? d)

theorem Cursor.Alike.isToken {c d : Cursor} (h : c.Alike P d) : c.isToken = d.isToken := by
  rw [Cursor.isToken, Cursor.isToken, Node.Alike.isError h, Node.Alike.named h,
    Node.Alike.missing h]

/-- Stacks of nodes that are alike give trees that are the same but for what is left out.
The cases are those of lowering the first node. -/
theorem alike_lower (hplans : Dialect.Alike P D E) {stack others : List Cursor}
    (h : List.Forall₂ (Cursor.Alike P) stack others) :
    Reporting.Alike (fun ts us => ts.map Tree.bare = us.map Tree.bare) (lower D stack)
      (lower E others) := by
  induction stack using lower.induct generalizing others with
  | case1 =>
    cases h
    rw [lower, lower]
    exact Reporting.alike_pure rfl
  | case2 c rest htoken ih =>
    cases h with
    | @cons _ d _ others hcd hrest =>
      have htoken' : d.isToken = true := by rw [← hcd.isToken, htoken]
      rw [lower, lower, if_pos htoken, if_pos htoken']
      exact ih hrest
  | case3 c rest htoken ihrest ihbelow ihplan =>
    cases h with
    | @cons _ d _ others hcd hrest =>
      have htoken' : ¬ d.isToken = true := by rwa [← hcd.isToken]
      have hbelow : List.Forall₂ (Cursor.Alike P) (c.cursorsBelow ++ rest)
          (d.cursorsBelow ++ others) := List.rel_append hcd.cursorsBelow hrest
      rw [lower, lower, if_neg htoken, if_neg htoken', Node.Alike.missing hcd,
        Node.Alike.isError hcd]
      refine Reporting.alike_bind Reporting.alike_check fun _ _ _ => ?_
      split
      · refine Reporting.alike_bind (Dialect.alike_reportAt c d _ _) fun t u htu => ?_
        refine Reporting.alike_bind (ihrest hrest) fun ts us htsus => Reporting.alike_pure ?_
        rw [List.map_cons, List.map_cons, htu, htsus]
      split
      · refine Reporting.alike_bind (Dialect.alike_reportAt c d _ _) fun t u htu => ?_
        refine Reporting.alike_bind (ihbelow hbelow) fun ts us htsus => Reporting.alike_pure ?_
        rw [List.map_cons, List.map_cons, htu, htsus]
      have hplan := hplans c d hcd
      generalize D.plan? c = plan?, E.plan? d = other? at hplan
      cases hplan with
      | none => exact ihbelow hbelow
      | some houtcome =>
        rcases houtcome with ⟨p, q, rfl, rfl, hpq⟩ | ⟨fault, rfl, rfl⟩
        · have hinner : List.Forall₂ (Cursor.Alike P) p.cursors q.cursors := by
            rw [Plan.cursors, Plan.cursors, List.forall₂_map_left_iff, List.forall₂_map_right_iff]
            exact hpq.inner
          refine Reporting.alike_bind (ihplan p hinner) fun ts us htsus => ?_
          refine Reporting.alike_bind (ihrest hrest) fun ts' us' hrest' =>
            Reporting.alike_pure ?_
          rw [List.map_append, List.map_append, hpq.wrap ts us htsus, hrest']
        · exact Reporting.alike_throw fault

/-- The marks lead to the same nodes, so problems below them are reported in both runs or in
none. -/
theorem alike_reportMarked {ns ms : List Node} (hnodes : List.Forall₂ (Node.Alike P) ns ms)
    (h : Reports.Alike r s) : Reports.Alike (reportMarked D r ns) (reportMarked E s ms) := by
  induction r, ns using reportMarked.induct D generalizing s ms with
  | case1 r =>
    cases hnodes
    rw [reportMarked, reportMarked]
    exact h
  | case2 r n rest c =>
    rename_i marked ih
    cases hnodes with
    | @cons _ m _ others hnm hrest =>
      have hmarked : List.Forall₂ (Node.Alike P)
          (n.children.filter fun k => k.faulty || k.missing)
          (m.children.filter fun k => k.faulty || k.missing) :=
        forall₂_filter (fun hkl => by rw [hkl.faulty, hkl.missing]) hnm.children
      rw [reportMarked, reportMarked]
      refine ih (List.rel_append (forall₂_reverse hmarked) hrest) ?_
      rw [← hnm.missing, ← hnm.isError]
      simp only [marked, dite_eq_ite]
      split
      · exact h.add _ _ _ _
      split
      · exact h.add _ _ _ _
      · exact h

theorem alike_build (hplans : Dialect.Alike P D E) {root other : Node}
    (h : Node.Alike P root other) (text text' language language' : String) :
    Timed.Alike Parsed.Alike (build D text language root) (build E text' language' other) := by
  have htop : Cursor.Alike P ⟨root, none⟩ ⟨other, none⟩ := h
  have hstack : List.Forall₂ (Cursor.Alike P)
      (if root.isError then [⟨root, none⟩] else (⟨root, none⟩ : Cursor).cursorsBelow)
      (if other.isError then [⟨other, none⟩] else (⟨other, none⟩ : Cursor).cursorsBelow) := by
    rw [h.isError]
    split
    · exact .cons htop .nil
    · exact htop.cursorsBelow
  refine Timed.alike_bind Timed.alike_check fun _ _ _ => ?_
  refine Timed.alike_bind (alike_lower hplans hstack _ _ Reports.alike_none) fun a b hab => ?_
  obtain ⟨hchildren, hreports⟩ := hab
  have hall : Reports.Alike (if root.faulty then reportMarked D a.2 [root] else a.2)
      (if other.faulty then reportMarked E b.2 [other] else b.2) := by
    rw [h.faulty]
    split
    · exact alike_reportMarked (.cons h .nil) hreports
    · exact hreports
  have hsorted : ∀ ds : List Diagnostic, ds.mergeSort diagnosticLe = [] ↔ ds = [] := by
    intro ds
    rw [← List.length_eq_zero_iff, List.length_mergeSort, List.length_eq_zero_iff]
  refine Timed.alike_pure ⟨Tree.bare_eq_iff.2 ⟨rfl, fun _ _ => rfl, hchildren⟩, ?_⟩
  rw [hsorted, hsorted]
  exact hall.same

theorem Ecma.alike_dialect (f g : SourceFile) (typed : Bool) :
    Dialect.Alike (Ecma.Agree f g) (Ecma.dialect typed f) (Ecma.dialect typed g) :=
  fun _ _ h => Ecma.alike_plan? h

theorem Rust.alike_dialect (f g : SourceFile) :
    Dialect.Alike (Rust.Agree f g) (Rust.dialect f) (Rust.dialect g) := by
  intro c d h
  have hplan := Rust.alike_plan? h
  show Option.Rel (Plan.AlikeOutcome (Rust.Agree f g)) ((Rust.plan? f c).map .ok)
    ((Rust.plan? g d).map .ok)
  generalize Rust.plan? f c = plan?, Rust.plan? g d = other? at hplan
  cases hplan with
  | none => exact .none
  | some hpq => exact hpq.outcome

end Concrete

/-! ### Parsing -/

/-- A result is refused by the tags of its trees. What the fault tells is read in the text. -/
theorem Parsed.sameEnd_accept {R : Parsed → Parsed → Prop} {p q : Parsed} (h : R p q)
    (htags : p.tree.children.map Tree.tag = q.tree.children.map Tree.tag)
    (hproblems : p.diagnostics = [] ↔ q.diagnostics = []) : SameEnd R p.accept q.accept := by
  have hall : p.tree.children.all (fun t => t.tag = .error)
      = q.tree.children.all (fun t => t.tag = .error) := by
    have hmapped : ∀ ts : List Tree,
        ts.all (fun t => t.tag = .error) = (ts.map Tree.tag).all fun tag => tag = .error := by
      intro ts
      rw [List.all_map]
      rfl
    rw [hmapped, htags, ← hmapped]
  unfold Parsed.accept
  rw [hall]
  generalize p.diagnostics = ds, q.diagnostics = es at hproblems
  cases ds with
  | nil =>
    rw [hproblems.1 rfl]
    exact .ok h
  | cons first rest =>
    cases es with
    | nil => cases hproblems.2 rfl
    | cons other others =>
      dsimp only
      split
      · exact .error (.unparsable _ _ _ _)
      · exact .ok h

theorem Parsed.Alike.tags {p q : Parsed} (h : p.Alike q) :
    p.tree.children.map Tree.tag = q.tree.children.map Tree.tag := by
  have hbare := congrArg (List.map Tree.tag) (Tree.bare_eq_iff.1 h.tree).2.2
  simpa [Function.comp_def] using hbare

theorem Parsed.Alike.accept {p q : Parsed} (h : p.Alike q) :
    SameEnd Parsed.Alike p.accept q.accept :=
  Parsed.sameEnd_accept h h.tags h.problems

/-- A search finds the same kinds and signatures in two results, in the same order. -/
def Parsed.SamePatterns (p q : Parsed) : Prop :=
  ∀ language language' sourceFile sourceFile' formatting formatting', ∃ candidates others,
    Candidate.extract p.tree language sourceFile formatting = .ok candidates ∧
    Candidate.extract q.tree language' sourceFile' formatting' = .ok others ∧
    candidates.map Candidate.key = others.map Candidate.key

theorem Parsed.Alike.samePatterns {p q : Parsed} (h : p.Alike q) (hp : p.tree.Plain)
    (hq : q.tree.Plain) : p.SamePatterns q := by
  intro language language' sourceFile sourceFile' formatting formatting'
  obtain ⟨candidates, hcandidates, _⟩ :=
    Candidate.exists_extract hp language sourceFile formatting
  obtain ⟨others, hothers, _⟩ := Candidate.exists_extract hq language' sourceFile' formatting'
  refine ⟨candidates, others, hcandidates, hothers, ?_⟩
  rw [Candidate.map_key_of_extract hcandidates, Candidate.map_key_of_extract hothers,
    Tree.found_eq_of_bare h.tree]

namespace FrontEnd

variable {g g' : Grammars} {source source' file file' language : String}

theorem samePatterns_of_build {frontEnd : FrontEnd} (hgrammar : frontEnd ≠ outline)
    (h : Timed.Alike Parsed.Alike (frontEnd.build g source file language)
      (frontEnd.build g' source' file' language)) :
    SameEnd Parsed.SamePatterns
      ((frontEnd.parse g source file language).outcome Budget.unlimited).1
      ((frontEnd.parse g' source' file' language).outcome Budget.unlimited).1 := by
  have hparse : Timed.Alike Parsed.Alike (frontEnd.parse g source file language)
      (frontEnd.parse g' source' file' language) := by
    refine Timed.alike_bind Timed.alike_check fun _ _ _ => ?_
    refine Timed.alike_bind h fun p q hpq => ?_
    cases frontEnd with
    | outline => exact absurd rfl hgrammar
    | _ => exact Timed.alike_ofExcept hpq.accept
  have hend := hparse.outcome
  have hplain := (frontEnd.ends_parse g source file language).outcome Budget.unlimited
  have hplain' := (frontEnd.ends_parse g' source' file' language).outcome Budget.unlimited
  generalize ((frontEnd.parse g source file language).outcome Budget.unlimited).1 = result at *
  generalize ((frontEnd.parse g' source' file' language).outcome Budget.unlimited).1 = other at *
  cases hend with
  | error hfault => exact .error hfault
  | ok hpq =>
    refine .ok (hpq.samePatterns ?_ ?_)
    · rcases hplain with ⟨_, hok, hp⟩ | ⟨_, herror, _⟩
      · cases hok
        exact hp
      · cases herror
    · rcases hplain' with ⟨_, hok, hq⟩ | ⟨_, herror, _⟩
      · cases hok
        exact hq
      · cases herror

/-- Names and literals never reach a signature. If the grammars give concrete trees that are
the same but for offsets and texts, then parsing fails for the same kind of fault in both
runs, or it succeeds in both, and a search finds the same. The texts have to agree only where
`Agree` of the grammar says so. -/
theorem patterns_independent_of_texts (g g' : Grammars) (source source' file file' : String) :
    (∀ language,
      Concrete.Node.Alike
        (Concrete.Ecma.Agree ⟨file, .ofString source⟩ ⟨file', .ofString source'⟩)
        (g.concrete (ecma.grammar language file) source)
        (g'.concrete (ecma.grammar language file') source') →
      SameEnd Parsed.SamePatterns
        ((ecma.parse g source file language).outcome Budget.unlimited).1
        ((ecma.parse g' source' file' language).outcome Budget.unlimited).1) ∧
    ∀ language,
      Concrete.Node.Alike
        (Concrete.Rust.Agree ⟨file, .ofString source⟩ ⟨file', .ofString source'⟩)
        (g.concrete (rust.grammar language file) source)
        (g'.concrete (rust.grammar language file') source') →
      SameEnd Parsed.SamePatterns
        ((rust.parse g source file language).outcome Budget.unlimited).1
        ((rust.parse g' source' file' language).outcome Budget.unlimited).1 := by
  constructor
  · intro language h
    have hplans := Concrete.Ecma.alike_dialect ⟨file, .ofString source⟩
      ⟨file', .ofString source'⟩ (language == "typescript")
    refine samePatterns_of_build (by decide) ?_
    exact Concrete.alike_build hplans h source source' language language
  · intro language h
    have hplans := Concrete.Rust.alike_dialect ⟨file, .ofString source⟩
      ⟨file', .ofString source'⟩
    refine samePatterns_of_build (by decide) ?_
    exact Concrete.alike_build hplans h source source' language language

section

open Concrete

/-- A call of a function with a number. -/
def callWithNumber (callee stop : Nat) : Node :=
  .mk "program" 0 stop true false false ""
    [.mk "expression_statement" 0 stop true false false ""
      [.mk "call_expression" 0 stop true false false ""
        [.mk "identifier" 0 callee true false false "function" [],
          .mk "arguments" callee stop true false false "arguments"
            [.mk "(" callee (callee + 1) false false false "" [],
              .mk "number" (callee + 1) (stop - 1) true false false "" [],
              .mk ")" (stop - 1) stop false false false "" []]]]]

/-- A choice with one arm. -/
def matchWithArm (value arm stop : Nat) : Node :=
  .mk "source_file" 0 stop true false false ""
    [.mk "expression_statement" 0 stop true false false ""
      [.mk "match_expression" 0 stop true false false ""
        [.mk "match" 0 5 false false false "" [],
          .mk "identifier" 6 value true false false "value" [],
          .mk "match_block" (value + 1) stop true false false "body"
            [.mk "\x7b" (value + 1) (value + 2) false false false "" [],
              .mk "match_arm" (value + 3) (stop - 2) true false false ""
                [.mk "match_pattern" (value + 3) arm true false false "pattern" [],
                  .mk "=>" (arm + 1) (arm + 3) false false false "" [],
                  .mk "integer_literal" (arm + 4) (stop - 2) true false false "value" []],
              .mk "\x7d" (stop - 1) stop false false false "" []]]]]

/-- Another name and another number in a call, and other names and another number in an arm. -/
theorem patterns_independent_of_texts_of_renamed :
    let call (callee : Nat) : Grammars := ⟨fun _ _ => callWithNumber callee 7, fun _ => .refused⟩
    let arm (value pattern stop : Nat) : Grammars :=
      ⟨fun _ _ => matchWithArm value pattern stop, fun _ => .refused⟩
    SameEnd Parsed.SamePatterns
      ((ecma.parse (call 4) "open(1)" "a.js" "javascript").outcome Budget.unlimited).1
      ((ecma.parse (call 1) "f(2345)" "b.js" "javascript").outcome Budget.unlimited).1 ∧
    SameEnd Parsed.SamePatterns
      ((rust.parse (arm 7 11 18) "match x \x7b y => 1 \x7d" "a.rs" "rust").outcome
        Budget.unlimited).1
      ((rust.parse (arm 8 12 20) "match it \x7b z => 23 \x7d" "b.rs" "rust").outcome
        Budget.unlimited).1 := by
  intro call arm
  constructor
  · refine (patterns_independent_of_texts (call 4) (call 1) _ _ _ _).1 "javascript" ?_
    have hother {n m : Node} (hkind : n.kind ∈ ["program", "expression_statement", "identifier",
        "arguments", "(", "number", ")"]) :
        Ecma.Agree ⟨"a.js", .ofString "open(1)"⟩ ⟨"b.js", .ofString "f(2345)"⟩ n m := by
      refine Ecma.agree_of_kind ?_ ?_ ?_
      all_goals
        intro h
        rw [h] at hkind
        revert hkind
        decide
    refine .mk (hother (by decide)) rfl rfl rfl rfl rfl (.cons ?_ .nil)
    refine .mk (hother (by decide)) rfl rfl rfl rfl rfl (.cons ?_ .nil)
    refine .mk ⟨by decide, by decide, by decide +kernel⟩ rfl rfl rfl rfl rfl
      (.cons ?_ (.cons ?_ .nil))
    · exact .mk (hother (by decide)) rfl rfl rfl rfl rfl .nil
    · refine .mk (hother (by decide)) rfl rfl rfl rfl rfl
        (.cons ?_ (.cons ?_ (.cons ?_ .nil)))
      all_goals exact .mk (hother (by decide)) rfl rfl rfl rfl rfl .nil
  · refine (patterns_independent_of_texts (arm 7 11 18) (arm 8 12 20) _ _ _ _).2 "rust" ?_
    have hother {n m : Node} (hkind : n.kind ≠ "match_arm") :
        Rust.Agree ⟨"a.rs", .ofString "match x \x7b y => 1 \x7d"⟩
          ⟨"b.rs", .ofString "match it \x7b z => 23 \x7d"⟩ n m :=
      Rust.agree_of_kind hkind
    refine .mk (hother (by decide)) rfl rfl rfl rfl rfl (.cons ?_ .nil)
    refine .mk (hother (by decide)) rfl rfl rfl rfl rfl (.cons ?_ .nil)
    refine .mk (hother (by decide)) rfl rfl rfl rfl rfl (.cons ?_ (.cons ?_ (.cons ?_ .nil)))
    · exact .mk (hother (by decide)) rfl rfl rfl rfl rfl .nil
    · exact .mk (hother (by decide)) rfl rfl rfl rfl rfl .nil
    refine .mk (hother (by decide)) rfl rfl rfl rfl rfl (.cons ?_ (.cons ?_ (.cons ?_ .nil)))
    · exact .mk (hother (by decide)) rfl rfl rfl rfl rfl .nil
    · refine .mk ⟨by decide +kernel⟩ rfl rfl rfl rfl rfl (.cons ?_ (.cons ?_ (.cons ?_ .nil)))
      all_goals exact .mk (hother (by decide)) rfl rfl rfl rfl rfl .nil
    · exact .mk (hother (by decide)) rfl rfl rfl rfl rfl .nil

end

end FrontEnd

end CodeHabits
