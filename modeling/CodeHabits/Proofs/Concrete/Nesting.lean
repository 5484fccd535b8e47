import CodeHabits.FrontEnd
import CodeHabits.Proofs.Concrete.Local
import CodeHabits.Proofs.Concrete.Lowers
import CodeHabits.Proofs.Text.Position

/-!
# `CodeHabits.Proofs.Concrete.Nesting`: lowering keeps spans nested

A grammar gives a concrete tree whose offsets are between characters and whose nodes lie
in the ranges of the nodes above them (`Node.Fits`). Lines and columns are in the order of
the offsets, so the places of the nodes are nested. Lowering never moves a tree out of the
place of the node that it was made for: what is lifted out of a node stays where it was,
and plans keep to their nodes. So the trees that are made are nested as well
(`Lowers.lies`), and they lie within the root, which spans all lines
(`FrontEnd.spans_nest`).
-/

set_option autoImplicit false

namespace CodeHabits

namespace Concrete

/-- From `n` down, offsets are between characters of the text, no node ends before it
begins, and the nodes below a node are in its range. -/
def Node.Fits (text : String) (n : Node) : Prop :=
  ∀ k ∈ n.all,
    (⟨k.start⟩ : String.Pos.Raw).IsValid text ∧ (⟨k.stop⟩ : String.Pos.Raw).IsValid text ∧
      k.start ≤ k.stop ∧ ∀ j ∈ k.children, k.start ≤ j.start ∧ j.stop ≤ k.stop

instance (text : String) (n : Node) : Decidable (n.Fits text) :=
  inferInstanceAs (Decidable (∀ k ∈ n.all, _))

namespace Node.Fits

variable {text : String}

theorem below {n k : Node} (h : n.Fits text) (hk : k ∈ n.all) : k.Fits text :=
  fun j hj => h j (mem_all_trans hk hj)

/-- The ranges of all nodes below are inside, not only those of the nearest ones. -/
theorem range_le {n k : Node} (h : n.Fits text) (hk : k ∈ n.all) :
    n.start ≤ k.start ∧ k.stop ≤ n.stop := by
  rcases mem_all.1 hk with rfl | ⟨child, hchild, hk⟩
  · exact ⟨Nat.le_refl _, Nat.le_refl _⟩
  · have houter := (h n n.mem_all_self).2.2.2 child hchild
    have hinner := (h.below (mem_all_of_mem_children hchild)).range_le hk
    exact ⟨Nat.le_trans houter.1 hinner.1, Nat.le_trans hinner.2 houter.2⟩
termination_by n.size
decreasing_by exact size_lt_of_mem_children hchild

/-- Ranges within ranges are places within places. -/
theorem orders {n : Node} (h : n.Fits text) (name : String) :
    SourceFile.Orders ⟨name, .ofString text⟩ n := by
  intro k hk
  obtain ⟨hstart, hstop, hle, -⟩ := h k hk
  refine ⟨Source.place_mono hstart hstop hle, fun j hj => ?_⟩
  obtain ⟨hstart', hstop', -⟩ := h j (mem_all_trans hk hj)
  obtain ⟨hfirst, hlast⟩ := (h.below hk).range_le hj
  exact ⟨Source.place_mono hstart hstart' hfirst, Source.place_mono hstop' hstop hlast⟩

end Node.Fits

variable {d : Dialect}

/-- Trees in the places of nodes on a stack. -/
def AllLie (d : Dialect) (stack : List Cursor) (trees : List Tree) : Prop :=
  ∀ t ∈ trees, ∃ c ∈ stack, Lies (d.file.span c) t

theorem AllLie.behind {c : Cursor} {rest : List Cursor} {trees : List Tree}
    (h : AllLie d rest trees) : AllLie d (c :: rest) trees := by
  intro t ht
  obtain ⟨k, hk, hlies⟩ := h t ht
  exact ⟨k, by simp [hk], hlies⟩

theorem AllLie.cons {c : Cursor} {rest : List Cursor} {t : Tree} {trees : List Tree}
    (ht : Lies (d.file.span c) t) (h : AllLie d (c :: rest) trees) :
    AllLie d (c :: rest) (t :: trees) :=
  List.forall_mem_cons.2 ⟨⟨c, by simp, ht⟩, h⟩

/-- What is lifted out of a node stays in its place. -/
theorem AllLie.lifted {c : Cursor} {rest : List Cursor} {trees : List Tree}
    (horders : d.file.Orders c.node) (h : AllLie d (c.cursorsBelow ++ rest) trees) :
    AllLie d (c :: rest) trees := by
  intro t ht
  obtain ⟨k, hk, hlies⟩ := h t ht
  rcases List.mem_append.1 hk with hbelow | hrest
  · exact ⟨c, by simp, hlies.trans (horders.within (mem_all_of_mem_cursorsBelow hbelow))⟩
  · exact ⟨k, by simp [hrest], hlies⟩

/-- What a plan makes is in the place of its node. -/
theorem AllLie.planned {c : Cursor} {rest : List Cursor} {plan : Plan c.height}
    {inner : List Tree} (hplan : plan.Local d.file) (horders : d.file.Orders c.node)
    (h : AllLie d plan.cursors inner) : AllLie d (c :: rest) (plan.wrap inner) := by
  intro t ht
  refine ⟨c, by simp, hplan.nests horders inner (fun t ht => ?_) t ht⟩
  obtain ⟨k, hk, hlies⟩ := h t ht
  obtain ⟨m, hm, rfl⟩ := List.mem_map.1 hk
  exact ⟨m, hm, hlies⟩

/-- The nodes on a stack are ordered. -/
def AllOrdered (d : Dialect) (stack : List Cursor) : Prop :=
  ∀ c ∈ stack, d.file.Orders c.node

/-- Lowering makes nested trees, each in the place of a node on the stack. -/
theorem Lowers.lies (hlocal : d.Local) {stack : List Cursor} {r s : Reports}
    {trees : List Tree} (h : Lowers d stack r trees s) (hordered : AllOrdered d stack) :
    AllLie d stack trees := by
  have hsplit : ∀ {c : Cursor} {rest : List Cursor}, AllOrdered d (c :: rest) →
      d.file.Orders c.node ∧ AllOrdered d rest := List.forall_mem_cons.1
  have hbelow : ∀ {c : Cursor} {rest : List Cursor}, AllOrdered d (c :: rest) →
      AllOrdered d (c.cursorsBelow ++ rest) := by
    intro c rest hordered k hk
    rcases List.mem_append.1 hk with hbelow | hrest
    · exact (hsplit hordered).1.below (mem_all_of_mem_cursorsBelow hbelow)
    · exact (hsplit hordered).2 k hrest
  -- The induction is on the derivation. What is lifted is behind the node that it came from,
  -- so that its trees are placed by the node.
  induction h with
  | nil => simp [AllLie]
  | token htoken hrest ih => exact (ih (hsplit hordered).2).behind
  | missing htoken hmissing hrest ih =>
    exact .cons (lies_tree (hsplit hordered).1 (by simp)) (ih (hsplit hordered).2).behind
  | error hmissing herror hrest ih =>
    have horders := (hsplit hordered).1
    exact .cons (lies_tree horders (by simp)) ((ih (hbelow hordered)).lifted horders)
  | transparent htoken hmissing herror hplan hrest ih =>
    exact (ih (hbelow hordered)).lifted (hsplit hordered).1
  | @planned c rest plan r middle s inner trees htoken hmissing herror hplan hinner hrest ihinner ihrest =>
    obtain ⟨horders, hrest⟩ := hsplit hordered
    have hplanned : plan.Local d.file := hlocal c plan hplan
    have hcursors : AllOrdered d plan.cursors := by
      intro k hk
      obtain ⟨m, hm, rfl⟩ := List.mem_map.1 hk
      exact horders.below (hplanned.names m hm)
    intro t ht
    rcases List.mem_append.1 ht with hmade | hbehind
    · exact (ihinner hcursors).planned hplanned horders t hmade
    · exact (ihrest hrest).behind t hbehind

/-- The root of a file spans every place in it. -/
theorem within_moduleTree {name text : String} {n : Node} (h : n.Fits text)
    (children : List Tree) :
    (SourceFile.span ⟨name, .ofString text⟩ ⟨n, none⟩).Within
      (Parsed.moduleTree text name children).span := by
  obtain ⟨hstart, hstop, -⟩ := h n n.mem_all_self
  exact ⟨Source.start_le_place hstart, Source.place_le_end hstop⟩

/-- The tree that a whole concrete tree gives is nested. -/
theorem nested_of_build (hlocal : d.Local) {text : String}
    (hsource : d.file.source = .ofString text) {language : String} {root : Node}
    (h : root.Fits text) {budget : Budget} {parsed : Parsed} {looks : Nat}
    (hbuild : (build d text language root).outcome budget = (.ok parsed, looks)) :
    parsed.tree.Nested := by
  obtain ⟨trees, r, hlowers, rfl⟩ := lowers_of_build hbuild
  have hfile : d.file = ⟨d.file.name, .ofString text⟩ := by rw [← hsource]
  have horders : d.file.Orders root := by
    rw [hfile]
    exact h.orders d.file.name
  have hroot : (d.file.span ⟨root, none⟩).Within
      (Parsed.moduleTree text d.file.name trees).span := by
    rw [hfile]
    exact within_moduleTree h trees
  -- The trees are in the places of the nodes on top, and these below the root.
  have hall := hlowers.lies hlocal fun c hc => horders.below (mem_all_of_mem_tops hc)
  have hlies : ∀ t ∈ trees, Lies (Parsed.moduleTree text d.file.name trees).span t := by
    intro t ht
    obtain ⟨c, hc, hlies⟩ := hall t ht
    exact (hlies.trans (horders.within (mem_all_of_mem_tops hc))).trans hroot
  refine .node ?_ ?_ ?_
  · exact le_trans hroot.first (le_trans horders.span hroot.last)
  · exact fun t ht => (hlies t ht).within
  · exact fun t ht => (hlies t ht).nested

end Concrete

/-- The tree that a front-end with a concrete grammar makes is nested: no node ends before
it begins, and every node lies within the one above it. What the grammar answers has to
fit the text. -/
theorem FrontEnd.spans_nest {frontEnd : FrontEnd} (hfrontEnd : frontEnd = .ecma ∨ frontEnd = .rust)
    {g : Grammars} {source file language : String}
    (hfits : (g.concrete (frontEnd.grammar language file) source).Fits source)
    {budget : Budget} {parsed : Parsed} {looks : Nat}
    (h : (frontEnd.build g source file language).outcome budget = (.ok parsed, looks)) :
    ∀ node ∈ parsed.tree.walk, node.span.first ≤ node.span.last ∧
      ∀ child ∈ node.children, child.span.Within node.span := by
  rcases hfrontEnd with rfl | rfl
  · exact (Concrete.nested_of_build (Concrete.Ecma.local_dialect _ _) rfl hfits h).walk
  · exact (Concrete.nested_of_build (Concrete.Rust.local_dialect _) rfl hfits h).walk

section

open Concrete

/-- An arrow that is exported, and behind it a parenthesis that fits nowhere. -/
def exportedArrow : Node :=
  .mk "program" 0 24 true false true ""
    [.mk "export_statement" 0 22 true false false ""
      [.mk "export" 0 6 false false false "" [],
        .mk "default" 7 14 false false false "" [],
        .mk "arrow_function" 15 21 true false false "value"
          [.mk "identifier" 15 16 true false false "parameter" [],
            .mk "=>" 17 19 false false false "" [],
            .mk "identifier" 20 21 true false false "body" []],
        .mk ";" 21 22 false false false "" []],
      .mk "ERROR" 23 24 true false true "" [.mk ")" 23 24 false false false "" []]]

/-- A grammar that answers this. -/
def arrowGrammar : Grammars :=
  ⟨fun _ _ => exportedArrow, fun _ => .refused⟩

/-- The export names the arrow, and the arrow its body. -/
theorem lowers_exportedArrow (file : SourceFile) :
    ∃ trees r, Lowers (Ecma.dialect false file) exportedArrow.tops ⟨[], []⟩ trees r := by
  apply Exists.intro
  apply Exists.intro
  show Lowers _ [_, _] _ _ _
  apply Lowers.planned rfl rfl rfl rfl
  · show Lowers _ [_] _ _ _
    apply Lowers.planned rfl rfl rfl rfl
    · show Lowers _ [_] _ _ _
      exact .transparent rfl rfl rfl rfl .nil
    · exact .nil
  · apply Lowers.error rfl rfl
    exact .token rfl .nil

/-- A span that is widened, a value that is returned, and a problem. -/
theorem FrontEnd.spans_nest_exportedArrow :
    (arrowGrammar.concrete (FrontEnd.ecma.grammar "javascript" "a.js")
        "export default x => y;\n)").Fits "export default x => y;\n)" ∧
      ∃ parsed looks,
        (FrontEnd.ecma.build arrowGrammar "export default x => y;\n)" "a.js" "javascript").outcome
          .unlimited = (.ok parsed, looks) ∧
        ∀ node ∈ parsed.tree.walk, node.span.first ≤ node.span.last ∧
          ∀ child ∈ node.children, child.span.Within node.span := by
  have hfits : (arrowGrammar.concrete (FrontEnd.ecma.grammar "javascript" "a.js")
      "export default x => y;\n)").Fits "export default x => y;\n)" := by decide +kernel
  have hreturns : ∃ parsed looks,
      (FrontEnd.ecma.build arrowGrammar "export default x => y;\n)" "a.js" "javascript").outcome
        .unlimited = (.ok parsed, looks) := by
    obtain ⟨trees, r, hlowers⟩ :=
      lowers_exportedArrow ⟨"a.js", .ofString "export default x => y;\n)"⟩
    obtain ⟨looks, hbuild⟩ := hlowers.exists_build "export default x => y;\n)" "javascript" 0
    exact ⟨_, looks, hbuild⟩
  obtain ⟨parsed, looks, hbuild⟩ := hreturns
  exact ⟨hfits, parsed, looks, hbuild, FrontEnd.spans_nest (.inl rfl) hfits hbuild⟩

end

end CodeHabits
