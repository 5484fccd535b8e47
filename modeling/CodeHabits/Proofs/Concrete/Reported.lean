import CodeHabits.FrontEnd
import CodeHabits.Proofs.Concrete.Local
import CodeHabits.Proofs.Concrete.Lowers
import Mathlib.Data.Prod.Lex

/-!
# `CodeHabits.Proofs.Concrete.Reported`: no problem goes unreported

A problem in a concrete tree is a missing node or one for text that fits nowhere. Two
walks report problems: lowering, which sees what plans look into, and the walk along the
marks of faulty nodes. Both take in a problem only if its range of bytes is new
(`Dialect.add`), so at any time there is a list of problems with distinct ranges of which
the diagnostics tell (`Reported`). That is all that is needed of lowering. The second
walk meets every problem that marks lead to (`mem_ranges_reportMarked`), whatever lowering
has done before.

A parser marks a node if there is a problem at it or below it (`Node.Marked`), where a
missing node may be marked as missing only. At the root that is not enough: the second
walk is not begun unless the root is marked as faulty (`FrontEnd.problems_reported`,
`FrontEnd.missing_root_unreported`).
-/

set_option autoImplicit false

namespace CodeHabits

/-- Where a problem is, as a line and a column. -/
def Diagnostic.place (d : Diagnostic) : Int ×ₗ Int :=
  toLex (d.line, d.column)

namespace Concrete

/-- The order of diagnostics is that of their places. -/
theorem diagnosticLe_iff {a b : Diagnostic} : diagnosticLe a b = true ↔ a.place ≤ b.place := by
  simp [diagnosticLe, Diagnostic.place, Prod.Lex.toLex_le_toLex]

namespace Node

/-- A missing node, or one for text that fits nowhere. -/
def isProblem (n : Node) : Bool :=
  n.missing || n.isError

/-- The bytes that a node spans. -/
def range (n : Node) : Nat × Nat :=
  (n.start, n.stop)

/-- From `n` down, every node at or below which there is a problem is marked. -/
def Marked (n : Node) : Prop :=
  ∀ k ∈ n.all, (∃ p ∈ k.all, p.isProblem = true) → k.faulty = true ∨ k.missing = true

instance (n : Node) : Decidable n.Marked :=
  inferInstanceAs (Decidable (∀ k ∈ n.all, _))

theorem Marked.below {n k : Node} (h : n.Marked) (hk : k ∈ n.all) : k.Marked :=
  fun j hj => h j (mem_all_trans hk hj)

end Node

/-- What is said of a problem in a file. It is the same for all plans, so there are none
here. -/
def SourceFile.diagnostic (f : SourceFile) (n : Node) : Diagnostic :=
  let c : Cursor := ⟨n, none⟩
  ⟨if n.missing then c.missingMessage else Dialect.errorMessage ⟨f, fun _ => none⟩ c,
    f.source.line n.start, f.source.column n.start⟩

variable {d : Dialect} {root : Node}

theorem message_of_missing {c : Cursor} (h : c.node.missing = true) :
    (d.file.diagnostic c.node).message = c.missingMessage :=
  if_pos h

theorem message_of_error {c : Cursor} (h : c.node.missing = false) :
    (d.file.diagnostic c.node).message = d.errorMessage c :=
  if_neg (by simp [h])

/-- There are problems in the tree, one for each range that is taken, and the diagnostics
tell of these. -/
structure Tells (f : SourceFile) (root : Node) (problems : List Node) (r : Reports) : Prop where
  below : ∀ p ∈ problems, p ∈ root.all ∧ p.isProblem = true
  ranges : r.ranges = (problems.map Node.range).reverse
  once : (problems.map Node.range).Nodup
  diagnostics : r.diagnostics = problems.map f.diagnostic

/-- What has been reported are problems of the tree, each range once. -/
def Reported (f : SourceFile) (root : Node) (r : Reports) : Prop :=
  ∃ problems, Tells f root problems r

theorem reported_nothing (f : SourceFile) (root : Node) : Reported f root ⟨[], []⟩ :=
  ⟨[], by simp, rfl, by simp, rfl⟩

/-- A problem of the tree may be taken in, be its range new or not. -/
theorem Reported.add {r : Reports} (h : Reported d.file root r) {c : Cursor}
    (hbelow : c.node ∈ root.all) (hproblem : c.node.isProblem = true) {message : String}
    (hmessage : (d.file.diagnostic c.node).message = message) :
    Reported d.file root (d.add r c message) := by
  obtain ⟨problems, htells⟩ := h
  unfold Dialect.add
  dsimp only
  split
  · exact ⟨problems, htells⟩
  · -- The range is new, so the node goes behind the problems told so far.
    rename_i hnew
    have hnew : c.node.range ∉ problems.map Node.range := by
      rw [htells.ranges] at hnew
      simpa [Node.range] using hnew
    refine ⟨problems ++ [c.node], ?_⟩
    constructor
    case below =>
      intro p hp
      rcases List.mem_append.1 hp with hp | hp
      · exact htells.below p hp
      · rw [List.mem_singleton.1 hp]
        exact ⟨hbelow, hproblem⟩
    case ranges =>
      rw [htells.ranges, List.map_append, List.reverse_append]
      rfl
    case once =>
      rw [List.map_append, List.nodup_append]
      refine ⟨htells.once, by simp, ?_⟩
      intro range hrange other hother
      rw [List.map_singleton, List.mem_singleton] at hother
      rintro rfl
      exact hnew (hother ▸ hrange)
    case diagnostics =>
      rw [htells.diagnostics, ← hmessage, List.map_append]
      rfl

/-- Lowering only reports problems of the tree. -/
theorem Lowers.reported (hlocal : d.Local) {stack : List Cursor} {r s : Reports}
    {trees : List Tree} (h : Lowers d stack r trees s) (hbelow : ∀ c ∈ stack, c.node ∈ root.all)
    (hr : Reported d.file root r) : Reported d.file root s := by
  have hlifted : ∀ {c : Cursor} {rest : List Cursor}, (∀ k ∈ c :: rest, k.node ∈ root.all) →
      ∀ k ∈ c.cursorsBelow ++ rest, k.node ∈ root.all := by
    intro c rest hbelow k hk
    rcases List.mem_append.1 hk with hlow | hrest
    · exact Node.mem_all_trans (hbelow c (by simp)) (mem_all_of_mem_cursorsBelow hlow)
    · exact hbelow k (by simp [hrest])
  -- Along the derivation the stack stays below the root, so the reports stay problems of it.
  induction h with
  | nil => exact hr
  | token htoken hrest ih => exact ih (List.forall_mem_cons.1 hbelow).2 hr
  | @missing c rest r s trees htoken hmissing hrest ih =>
    have hproblem : c.node.isProblem = true := by simp [Node.isProblem, hmissing]
    exact ih (List.forall_mem_cons.1 hbelow).2
      (hr.add (hbelow c (by simp)) hproblem (message_of_missing hmissing))
  | @error c rest r s trees hmissing herror hrest ih =>
    have hproblem : c.node.isProblem = true := by simp [Node.isProblem, herror]
    exact ih (hlifted hbelow)
      (hr.add (hbelow c (by simp)) hproblem (message_of_error hmissing))
  | transparent htoken hmissing herror hplan hrest ih => exact ih (hlifted hbelow) hr
  | @planned c rest plan r middle s inner trees htoken hmissing herror hplan hinner hrest ihinner
      ihrest =>
    refine ihrest (List.forall_mem_cons.1 hbelow).2 (ihinner ?_ hr)
    intro k hk
    obtain ⟨m, hm, rfl⟩ := List.mem_map.1 hk
    exact Node.mem_all_trans (hbelow c (by simp)) ((hlocal c plan hplan).names m hm)

/-! ### Along the marks -/

/-- What the second walk takes in at a node. -/
def Dialect.addProblem (d : Dialect) (r : Reports) (n : Node) : Reports :=
  let c : Cursor := ⟨n, none⟩
  if n.missing then d.add r c c.missingMessage
  else if n.isError then d.add r c (d.errorMessage c)
  else r

/-- The children of a node to which marks lead, last first. -/
def Node.markedChildren (n : Node) : List Node :=
  (n.children.filter fun k => k.faulty || k.missing).reverse

theorem mem_markedChildren {n k : Node} :
    k ∈ n.markedChildren ↔ k ∈ n.children ∧ (k.faulty = true ∨ k.missing = true) := by
  simp [Node.markedChildren]

theorem reportMarked_nil (d : Dialect) (r : Reports) : reportMarked d r [] = r := by
  rw [reportMarked]

theorem reportMarked_cons (d : Dialect) (r : Reports) (n : Node) (rest : List Node) :
    reportMarked d r (n :: rest)
      = reportMarked d (d.addProblem r n) (n.markedChildren ++ rest) := by
  rw [reportMarked]
  rfl

/-- Induction along the second walk. -/
theorem reportMarked_induction (d : Dialect) {motive : Reports → List Node → Prop}
    (nil : ∀ r, motive r [])
    (cons : ∀ r n rest, motive (d.addProblem r n) (n.markedChildren ++ rest) →
      motive r (n :: rest)) (r : Reports) (stack : List Node) : motive r stack := by
  induction r, stack using reportMarked.induct d with
  | case1 r => exact nil r
  | case2 r n rest _ _ ih => exact cons r n rest ih

theorem Reported.addProblem {r : Reports} (h : Reported d.file root r) {n : Node}
    (hbelow : n ∈ root.all) : Reported d.file root (d.addProblem r n) := by
  unfold Dialect.addProblem
  dsimp only
  split
  · rename_i hmissing
    exact h.add hbelow (by simp [Node.isProblem, hmissing]) (message_of_missing hmissing)
  · rename_i hmissing
    split
    · rename_i herror
      exact h.add hbelow (by simp [Node.isProblem, herror]) (message_of_error (by simpa using hmissing))
    · exact h

/-- The second walk only reports problems of the tree. -/
theorem Reported.marked {r : Reports} (h : Reported d.file root r) {stack : List Node}
    (hbelow : ∀ n ∈ stack, n ∈ root.all) : Reported d.file root (reportMarked d r stack) := by
  induction r, stack using reportMarked_induction d with
  | nil r =>
    rw [reportMarked_nil]
    exact h
  | cons r n rest ih =>
    rw [reportMarked_cons]
    refine ih (h.addProblem (hbelow n (by simp))) ?_
    intro k hk
    rcases List.mem_append.1 hk with hlow | hrest
    · have hchild := (mem_markedChildren.1 hlow).1
      exact Node.mem_all_trans (hbelow n (by simp)) (Node.mem_all_of_mem_children hchild)
    · exact hbelow k (by simp [hrest])

theorem subset_ranges_add (d : Dialect) (r : Reports) (c : Cursor) (message : String) :
    r.ranges ⊆ (d.add r c message).ranges := by
  unfold Dialect.add
  dsimp only
  split
  · exact List.Subset.refl _
  · exact List.subset_cons_self _ _

theorem mem_ranges_add (d : Dialect) (r : Reports) (c : Cursor) (message : String) :
    c.node.range ∈ (d.add r c message).ranges := by
  unfold Dialect.add
  dsimp only
  split
  · rename_i htaken
    simpa [Node.range] using htaken
  · exact List.mem_cons_self

theorem subset_ranges_addProblem (d : Dialect) (r : Reports) (n : Node) :
    r.ranges ⊆ (d.addProblem r n).ranges := by
  unfold Dialect.addProblem
  dsimp only
  split
  · exact subset_ranges_add _ _ _ _
  · split
    · exact subset_ranges_add _ _ _ _
    · exact List.Subset.refl _

theorem mem_ranges_addProblem (d : Dialect) (r : Reports) {n : Node} (h : n.isProblem = true) :
    n.range ∈ (d.addProblem r n).ranges := by
  unfold Dialect.addProblem
  dsimp only
  split
  · exact mem_ranges_add d r ⟨n, none⟩ _
  · rename_i hmissing
    have herror : n.isError = true := by simpa [Node.isProblem, hmissing] using h
    rw [if_pos herror]
    exact mem_ranges_add d r ⟨n, none⟩ _

/-- What was taken in stays. -/
theorem subset_ranges_reportMarked (d : Dialect) (r : Reports) (stack : List Node) :
    r.ranges ⊆ (reportMarked d r stack).ranges := by
  induction r, stack using reportMarked_induction d with
  | nil r =>
    rw [reportMarked_nil]
    exact List.Subset.refl _
  | cons r n rest ih =>
    rw [reportMarked_cons]
    exact List.Subset.trans (subset_ranges_addProblem d r n) ih

/-- The second walk takes in every problem that marks lead to. The induction is along the
walk: the children of a node that are left out have no problem below them. -/
theorem mem_ranges_reportMarked {r : Reports} {stack : List Node}
    (hmarked : ∀ n ∈ stack, n.Marked) :
    ∀ n ∈ stack, ∀ p ∈ n.all, p.isProblem = true → p.range ∈ (reportMarked d r stack).ranges := by
  induction r, stack using reportMarked_induction d with
  | nil r => simp
  | cons r first rest ih =>
    have hfirst : first.Marked := hmarked first (by simp)
    have hnext : ∀ k ∈ first.markedChildren ++ rest, k.Marked := by
      intro k hk
      rcases List.mem_append.1 hk with hlow | hrest
      · exact hfirst.below (Node.mem_all_of_mem_children (mem_markedChildren.1 hlow).1)
      · exact hmarked k (by simp [hrest])
    rw [reportMarked_cons]
    intro n hn p hp hproblem
    rcases List.mem_cons.1 hn with rfl | hrest
    · rcases Node.mem_all.1 hp with rfl | ⟨child, hchild, hp⟩
      · exact subset_ranges_reportMarked d _ _ (mem_ranges_addProblem d r hproblem)
      · have hmark : child.faulty = true ∨ child.missing = true :=
          hfirst child (Node.mem_all_of_mem_children hchild) ⟨p, hp, hproblem⟩
        have hmem := mem_markedChildren.2 ⟨hchild, hmark⟩
        exact ih hnext child (List.mem_append_left _ hmem) p hp hproblem
    · exact ih hnext n (List.mem_append_right _ hrest) p hp hproblem

/-! ### Whole trees -/

/-- The diagnostics tell of the problems of a tree, of one for each range of bytes, in the
order of their places, and there are none only if there is no problem. -/
structure Diagnosed (f : SourceFile) (root : Node) (diagnostics : List Diagnostic) : Prop where
  told : ∃ problems : List Node,
    (∀ p ∈ problems, p ∈ root.all ∧ p.isProblem = true) ∧
    (problems.map Node.range).Nodup ∧
    (∀ p ∈ root.all, p.isProblem = true → p.range ∈ problems.map Node.range) ∧
    diagnostics.Perm (problems.map f.diagnostic)
  sorted : diagnostics.Pairwise fun a b => a.place ≤ b.place
  none_iff : diagnostics = [] ↔ ∀ p ∈ root.all, p.isProblem = false

theorem pairwise_mergeSort_diagnosticLe (diagnostics : List Diagnostic) :
    (diagnostics.mergeSort diagnosticLe).Pairwise fun a b => a.place ≤ b.place := by
  have htrans : ∀ a b c, diagnosticLe a b = true → diagnosticLe b c = true →
      diagnosticLe a c = true := by
    intro a b c hab hbc
    rw [diagnosticLe_iff] at hab hbc ⊢
    exact le_trans hab hbc
  have htotal : ∀ a b, (diagnosticLe a b || diagnosticLe b a) = true := by
    intro a b
    rw [Bool.or_eq_true, diagnosticLe_iff, diagnosticLe_iff]
    exact le_total _ _
  exact (List.pairwise_mergeSort htrans htotal diagnostics).imp diagnosticLe_iff.1

/-- What is reported and covers every range of a problem, diagnoses the tree. -/
theorem Reported.diagnosed {r : Reports} (h : Reported d.file root r)
    (hcovers : ∀ p ∈ root.all, p.isProblem = true → p.range ∈ r.ranges) :
    Diagnosed d.file root (r.diagnostics.mergeSort diagnosticLe) := by
  obtain ⟨problems, htells⟩ := h
  have hperm : (r.diagnostics.mergeSort diagnosticLe).Perm (problems.map d.file.diagnostic) := by
    rw [← htells.diagnostics]
    exact List.mergeSort_perm _ _
  have hranges : ∀ p ∈ root.all, p.isProblem = true → p.range ∈ problems.map Node.range := by
    intro p hp hproblem
    have hmem := hcovers p hp hproblem
    rw [htells.ranges, List.mem_reverse] at hmem
    exact hmem
  constructor
  case told => exact ⟨problems, htells.below, htells.once, hranges, hperm⟩
  case sorted => exact pairwise_mergeSort_diagnosticLe _
  case none_iff =>
    constructor
    · -- No diagnostics means no ranges taken, and every problem has its range taken.
      intro hnone p hp
      rw [hnone, List.nil_perm, List.map_eq_nil_iff] at hperm
      by_contra hproblem
      simpa [hperm] using hranges p hp (by simpa using hproblem)
    · intro hnone
      cases problems with
      | nil => simpa using hperm
      | cons p rest =>
        obtain ⟨hp, hproblem⟩ := htells.below p (by simp)
        rw [hnone p hp] at hproblem
        cases hproblem

/-- A tree whose problems are marked, at the root as faulty, is diagnosed. -/
theorem diagnosed_of_build (hlocal : d.Local) {text language : String} (hmarked : root.Marked)
    (hroot : (∃ p ∈ root.all, p.isProblem = true) → root.faulty = true) {budget : Budget}
    {parsed : Parsed} {looks : Nat}
    (h : (build d text language root).outcome budget = (.ok parsed, looks)) :
    Diagnosed d.file root parsed.diagnostics := by
  obtain ⟨trees, r, hlowers, rfl⟩ := lowers_of_build h
  have hreported : Reported d.file root r :=
    hlowers.reported hlocal (fun c hc => mem_all_of_mem_tops hc) (reported_nothing _ _)
  show Diagnosed d.file root
    ((if root.faulty then reportMarked d r [root] else r).diagnostics.mergeSort diagnosticLe)
  by_cases hfaulty : root.faulty = true
  · rw [if_pos hfaulty]
    refine (hreported.marked (by simpa using root.mem_all_self)).diagnosed fun p hp hproblem => ?_
    exact mem_ranges_reportMarked (by simpa using hmarked) root (by simp) p hp hproblem
  · -- The second walk is not begun, and there is nothing that it would meet.
    rw [if_neg hfaulty]
    exact hreported.diagnosed fun p hp hproblem => absurd (hroot ⟨p, hp, hproblem⟩) hfaulty

end Concrete

/-- What a front-end with a concrete grammar says of problems is right: there is one
diagnostic for each range of bytes with a problem, wherever it is. The marks of the
grammar have to lead to all of them. -/
theorem FrontEnd.problems_reported {frontEnd : FrontEnd}
    (hfrontEnd : frontEnd = .ecma ∨ frontEnd = .rust) {g : Grammars}
    {source file language : String}
    (hmarked : (g.concrete (frontEnd.grammar language file) source).Marked)
    (hroot : (∃ p ∈ (g.concrete (frontEnd.grammar language file) source).all,
      p.isProblem = true) → (g.concrete (frontEnd.grammar language file) source).faulty = true)
    {budget : Budget} {parsed : Parsed} {looks : Nat}
    (h : (frontEnd.build g source file language).outcome budget = (.ok parsed, looks)) :
    Concrete.Diagnosed ⟨file, .ofString source⟩
      (g.concrete (frontEnd.grammar language file) source) parsed.diagnostics := by
  rcases hfrontEnd with rfl | rfl
  · exact Concrete.diagnosed_of_build (Concrete.Ecma.local_dialect _ _) hmarked hroot h
  · exact Concrete.diagnosed_of_build (Concrete.Rust.local_dialect _) hmarked hroot h

section

open Concrete

/-- An import with a name too many, into which its plan does not look. -/
def strayImport : Node :=
  .mk "program" 0 11 true false true ""
    [.mk "import_statement" 0 11 true false true ""
      [.mk "import" 0 6 false false false "" [],
        .mk "import_clause" 7 8 true false false ""
          [.mk "identifier" 7 8 true false false "" []],
        .mk "ERROR" 9 10 true false true "" [.mk "identifier" 9 10 true false false "" []],
        .mk ";" 10 11 false false false "" []]]

/-- A grammar that answers this. -/
def importGrammar : Grammars :=
  ⟨fun _ _ => strayImport, fun _ => .refused⟩

theorem FrontEnd.problems_reported_strayImport :
    (importGrammar.concrete (FrontEnd.ecma.grammar "javascript" "a.js") "import x y;").Marked ∧
      ((∃ p ∈ (importGrammar.concrete (FrontEnd.ecma.grammar "javascript" "a.js")
          "import x y;").all, p.isProblem = true) →
        (importGrammar.concrete (FrontEnd.ecma.grammar "javascript" "a.js")
          "import x y;").faulty = true) ∧
      ∃ parsed looks,
        (FrontEnd.ecma.build importGrammar "import x y;" "a.js" "javascript").outcome .unlimited
          = (.ok parsed, looks) ∧
        Diagnosed ⟨"a.js", .ofString "import x y;"⟩
          (importGrammar.concrete (FrontEnd.ecma.grammar "javascript" "a.js") "import x y;")
          parsed.diagnostics := by
  have hmarked : (importGrammar.concrete (FrontEnd.ecma.grammar "javascript" "a.js")
      "import x y;").Marked := by decide +kernel
  have hreturns : ∃ parsed looks,
      (FrontEnd.ecma.build importGrammar "import x y;" "a.js" "javascript").outcome .unlimited
        = (.ok parsed, looks) := by
    have hlowers : ∃ trees r, Lowers (Ecma.dialect false ⟨"a.js", .ofString "import x y;"⟩)
        strayImport.tops ⟨[], []⟩ trees r := by
      apply Exists.intro
      apply Exists.intro
      show Lowers _ [_] _ _ _
      apply Lowers.planned rfl rfl rfl rfl
      · exact .nil
      · exact .nil
    obtain ⟨trees, r, hlowers⟩ := hlowers
    obtain ⟨looks, hbuild⟩ := hlowers.exists_build "import x y;" "javascript" 0
    exact ⟨_, looks, hbuild⟩
  obtain ⟨parsed, looks, hbuild⟩ := hreturns
  exact ⟨hmarked, fun _ => rfl, parsed, looks, hbuild,
    FrontEnd.problems_reported (.inl rfl) hmarked (fun _ => rfl) hbuild⟩

/-- A program that is missing and not marked as faulty. -/
def missingProgram : Node :=
  .mk "program" 0 7 true true false "" [.mk "break_statement" 0 6 true false false "" []]

/-- A grammar that answers this. -/
def missingGrammar : Grammars :=
  ⟨fun _ _ => missingProgram, fun _ => .refused⟩

/-- A root that is marked as missing only is not reported, although it is a problem. -/
theorem FrontEnd.missing_root_unreported :
    missingProgram.Marked ∧ missingProgram.isProblem = true ∧
      ∃ parsed looks,
        (FrontEnd.ecma.build missingGrammar "break;\n" "a.js" "javascript").outcome .unlimited
          = (.ok parsed, looks) ∧
        parsed.diagnostics = [] ∧
        ¬ Diagnosed ⟨"a.js", .ofString "break;\n"⟩ missingProgram parsed.diagnostics := by
  have hlowers : ∃ trees, Lowers (Ecma.dialect false ⟨"a.js", .ofString "break;\n"⟩)
      missingProgram.tops ⟨[], []⟩ trees ⟨[], []⟩ := by
    apply Exists.intro
    show Lowers _ [_] _ _ _
    apply Lowers.planned rfl rfl rfl rfl
    · exact .nil
    · exact .nil
  obtain ⟨trees, hlowers⟩ := hlowers
  obtain ⟨looks, hbuild⟩ := hlowers.exists_build "break;\n" "javascript" 0
  have hnone : ((Ecma.dialect false ⟨"a.js", .ofString "break;\n"⟩).parsed "break;\n" "javascript"
      missingProgram trees ⟨[], []⟩).diagnostics = [] := List.mergeSort_nil
  refine ⟨by decide +kernel, rfl, _, looks, hbuild, hnone, fun hdiagnosed => ?_⟩
  have hproblem := hdiagnosed.none_iff.1 hnone missingProgram missingProgram.mem_all_self
  cases hproblem

end

end CodeHabits
