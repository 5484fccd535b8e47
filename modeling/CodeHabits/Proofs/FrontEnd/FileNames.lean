import CodeHabits.Proofs.Concrete.Unread
import CodeHabits.Proofs.FrontEnd
import CodeHabits.Proofs.Language
import CodeHabits.Proofs.Outline.Reported

/-!
# `CodeHabits.Proofs.FrontEnd.FileNames`: a file name tells no more than the grammar

The name of a file goes into the spans of its tree, and for TypeScript it tells the grammar.
Otherwise nothing is read in it: if two names tell the same grammar, then a text parses under
both or under none, and it has problems under both or under none (`FrontEnd.alike_parse`).

Runs under two names are followed side by side with `Timed.Alike`. For concrete trees this is
`Concrete.alike_build`, since a tree is like itself. A Python text gives trees with the same
tags, which is what refusing it goes by. An outline is never refused, and its problems are
the braces without a counterpart (`Outline.State.diagnostics_ofTokens`), whatever it is made of.
-/

set_option autoImplicit false

namespace CodeHabits

/-! ### Runs side by side -/

namespace Timed

variable {α σ τ : Type} {R : σ → τ → Prop}

/-- Without a limit it does not matter how many looks are taken. -/
theorem alike_checkTimes (count other : Nat) :
    Alike (fun _ _ => True) (checkTimes count) (checkTimes other) :=
  fun used later => ⟨.ok (), .ok (), used + count, later + other, runFrom_checkTimes count used,
    runFrom_checkTimes other later, .ok trivial⟩

/-- Folds over the same list end in the same way if each step does. -/
theorem alike_foldlM {f : σ → α → Timed σ} {g : τ → α → Timed τ}
    (hstep : ∀ s t x, R s t → Alike R (f s x) (g t x)) (xs : List α) {s : σ} {t : τ}
    (h : R s t) : Alike R (xs.foldlM f s) (xs.foldlM g t) := by
  induction xs generalizing s t with
  | nil => exact alike_pure h
  | cons x rest ih =>
    rw [List.foldlM_cons, List.foldlM_cons]
    exact alike_bind (hstep s t x h) fun _ _ hst => ih hst

end Timed

/-- Two results that are refused or accepted alike: the trees below their roots have the same
tags, and there are problems in both or in none. -/
structure Parsed.Akin (p q : Parsed) : Prop where
  tags : p.tree.children.map Tree.tag = q.tree.children.map Tree.tag
  problems : p.diagnostics = [] ↔ q.diagnostics = []

/-- Two results have problems, or neither has. -/
def Parsed.SameProblems (p q : Parsed) : Prop :=
  p.diagnostics = [] ↔ q.diagnostics = []

/-! ### Concrete trees -/

namespace Concrete

/-- A tree is like itself, if what is asked of two nodes in the same place is true of each
node and itself. -/
theorem Node.alike_self {P : Node → Node → Prop} (h : ∀ n, P n n) : ∀ n, Node.Alike P n n
  | .mk kind start stop named missing faulty field children => by
    refine .mk (h _) rfl rfl rfl rfl rfl (List.forall₂_same.2 fun m hm => ?_)
    exact Node.alike_self h m
termination_by n => sizeOf n
decreasing_by
  have hsize := List.sizeOf_lt_of_mem hm
  simp [Node.children] at hsize ⊢
  omega

variable {source file other : String}

theorem Ecma.agree_self (n : Node) :
    Ecma.Agree ⟨file, .ofString source⟩ ⟨other, .ofString source⟩ n n :=
  ⟨fun _ => rfl, fun _ => rfl, fun _ => Iff.rfl⟩

theorem Rust.agree_self (n : Node) :
    Rust.Agree ⟨file, .ofString source⟩ ⟨other, .ofString source⟩ n n :=
  ⟨fun _ => rfl⟩

end Concrete

/-! ### Python -/

namespace Python

/-- The tags for statements are known from the statements alone. -/
theorem map_tag_treeOf (file : String) (depth : Nat) (body : List Stmt) :
    (body.map (treeOf file depth)).map Tree.tag = body.map Stmt.tag := by
  rw [List.map_map]
  exact List.map_congr_left fun t _ => tag_treeOf file depth t

/-- How far the chunks have come under two names. The numbers of nodes made only count
looks. -/
structure Pieces.Akin (ps qs : Pieces) : Prop where
  tags : ps.trees.map Tree.tag = qs.trees.map Tree.tag
  problems : ps.problems = qs.problems
  atStart : ps.atStart = qs.atStart

variable (read : String → Reading) (source file other language : String)

theorem Pieces.alike_add {ps qs : Pieces} (chunk : Chunk) (h : ps.Akin qs) :
    Timed.Alike Pieces.Akin (ps.add read file chunk) (qs.add read other chunk) := by
  unfold Pieces.add
  refine Timed.alike_bind Timed.alike_check fun _ _ _ => ?_
  split
  · exact Timed.alike_pure h
  cases read chunk.text with
  | refused => exact Timed.alike_throw (.same _)
  | broken message line? column? =>
    refine Timed.alike_pure ⟨?_, ?_, rfl⟩
    · rw [List.map_append, List.map_append, h.tags]
      rfl
    · rw [h.problems]
  | statements body =>
    dsimp only
    rw [run_chunkStatements, run_chunkStatements]
    refine Timed.alike_bind (Timed.alike_checkTimes _ _) fun _ _ _ => ?_
    refine Timed.alike_pure ⟨?_, h.problems, rfl⟩
    rw [List.map_append, List.map_append, map_tag_treeOf, map_tag_treeOf, h.tags, h.atStart]

theorem alike_build :
    Timed.Alike Parsed.Akin (build read source file language) (build read source other language) := by
  unfold build
  cases read source with
  | refused => exact Timed.alike_throw (.same _)
  | statements body =>
    refine Timed.alike_bind Timed.alike_check fun _ _ _ => ?_
    rw [run_block, run_block, treesOf_eq, treesOf_eq]
    refine Timed.alike_bind (Timed.alike_checkTimes _ _) fun _ _ _ => ?_
    refine Timed.alike_pure ⟨?_, Iff.rfl⟩
    exact (map_tag_treeOf file 0 _).trans (map_tag_treeOf other 0 _).symm
  | broken message line? column? =>
    have hstart : Pieces.Akin ⟨[], [], 0, 0, true⟩ ⟨[], [], 0, 0, true⟩ := ⟨rfl, rfl, rfl⟩
    have hchunks := Timed.alike_foldlM
      (fun ps qs chunk h => Pieces.alike_add read file other chunk h) (splitTopLevel source) hstart
    refine Timed.alike_bind hchunks fun ps qs h => Timed.alike_pure ⟨h.tags, ?_⟩
    rw [h.problems]

end Python

/-! ### Outlines -/

namespace Outline

/-- The problems of an outline are braces, and a token does not know its file. -/
theorem alike_build (source file other language : String) :
    Timed.Alike Parsed.SameProblems (build source file language) (build source other language) := by
  unfold build
  refine Timed.alike_bind (Timed.alike_checkTimes _ _) fun _ _ _ => Timed.alike_pure ?_
  show (State.ofTokens file _).diagnostics = [] ↔ (State.ofTokens other _).diagnostics = []
  rw [State.diagnostics_ofTokens, State.diagnostics_ofTokens]

end Outline

/-! ### Parsing -/

namespace FrontEnd

variable (g : Grammars) {source file other language : String}

/-- Only for TypeScript a file name tells a grammar, by one ending. -/
theorem grammar_eq
    (hfile : language = "typescript" → file.endsWith ".tsx" = false)
    (hother : language = "typescript" → other.endsWith ".tsx" = false) (frontEnd : FrontEnd) :
    frontEnd.grammar language file = frontEnd.grammar language other := by
  cases frontEnd with
  | ecma =>
    show Concrete.Ecma.grammar _ _ = Concrete.Ecma.grammar _ _
    unfold Concrete.Ecma.grammar
    by_cases htyped : language = "typescript"
    · rw [hfile htyped, hother htyped]
    · rw [if_neg (by simpa using htyped), if_neg (by simpa using htyped)]
  | _ => rfl

/-- Two file names that tell the same grammar give results that are alike. -/
theorem alike_parse (frontEnd : FrontEnd)
    (hgrammar : frontEnd.grammar language file = frontEnd.grammar language other) :
    Timed.Alike Parsed.SameProblems (frontEnd.parse g source file language)
      (frontEnd.parse g source other language) := by
  have haccept : ∀ p q : Parsed, p.Akin q → Timed.Alike Parsed.SameProblems
      (Timed.ofExcept p.accept) (Timed.ofExcept q.accept) :=
    fun p q h => Timed.alike_ofExcept (Parsed.sameEnd_accept h.problems h.tags h.problems)
  unfold parse
  refine Timed.alike_bind Timed.alike_check fun _ _ _ => ?_
  cases frontEnd with
  | ecma =>
    refine Timed.alike_bind (S := Parsed.SameProblems) ?_ fun p q h =>
      haccept p q ⟨Parsed.Alike.tags h, h.problems⟩
    show Timed.Alike _ (Concrete.build _ _ _ (g.concrete (ecma.grammar language file) source))
      (Concrete.build _ _ _ (g.concrete (ecma.grammar language other) source))
    rw [← hgrammar]
    exact Concrete.alike_build (Concrete.Ecma.alike_dialect _ _ _)
      (Concrete.Node.alike_self Concrete.Ecma.agree_self _) source source language language
  | rust =>
    refine Timed.alike_bind (S := Parsed.SameProblems) ?_ fun p q h =>
      haccept p q ⟨Parsed.Alike.tags h, h.problems⟩
    exact Concrete.alike_build (Concrete.Rust.alike_dialect _ _)
      (Concrete.Node.alike_self Concrete.Rust.agree_self _) source source language language
  | python =>
    exact Timed.alike_bind (Python.alike_build g.python source file other language) haccept
  | outline =>
    exact Timed.alike_bind (Outline.alike_build source file other language)
      fun p q h => Timed.alike_pure h

/-- The same of the results, if nothing is left of the budget or there is no limit. -/
theorem sameEnd_parse (frontEnd : FrontEnd)
    (hgrammar : frontEnd.grammar language file = frontEnd.grammar language other)
    {budget : Budget} (hbudget : budget.allowed = some 0 ∨ budget.allowed = none) :
    SameEnd Parsed.SameProblems ((frontEnd.parse g source file language).outcome budget).1
      ((frontEnd.parse g source other language).outcome budget).1 := by
  obtain ⟨allowed, given, seconds⟩ := budget
  rcases hbudget with rfl | rfl
  · -- The look before the parse is one too many.
    have hlook : ∀ name, (frontEnd.parse g source name language).outcome ⟨some 0, given, seconds⟩
        = (.error (.outOfTime given seconds), 1) :=
      fun name => Timed.runFrom_bind_error (x := Timed.check) rfl
    rw [hlook, hlook]
    exact .error (.same _)
  · rw [(frontEnd.metered_parse g source file language).outcome_free,
      (frontEnd.metered_parse g source other language).outcome_free]
    exact (frontEnd.alike_parse g hgrammar).outcome

end FrontEnd

/-- Seconds are either used up or without a limit. -/
theorem Budget.allowed_of_ofSeconds {given : Value} {budget : Budget}
    (h : Budget.ofSeconds given = .ok budget) :
    budget.allowed = some 0 ∨ budget.allowed = none := by
  obtain ⟨number, _, h⟩ := Except.bind_eq_ok.1 h
  obtain ⟨seconds, _, h⟩ := Except.bind_eq_ok.1 h
  cases h
  dsimp only
  split
  · exact .inl rfl
  · exact .inr rfl

namespace Registry

variable (r : Registry) (g : Grammars) (source : String) {hint file other : String}

/-- A hint and its canonical name are parsed alike. -/
theorem parse_normalizeLanguage :
    r.parse g source (normalizeLanguage hint) file = r.parse g source hint file := by
  unfold parse resolve
  rw [normalizeLanguage_idem]

theorem sameEnd_parse
    (hgrammar : ∀ frontEnd : FrontEnd, frontEnd.grammar (normalizeLanguage hint) file
      = frontEnd.grammar (normalizeLanguage hint) other) :
    SameEnd Parsed.SameProblems (r.parse g source hint file) (r.parse g source hint other) := by
  unfold parse
  cases r.needSize source with
  | error fault => exact .error (.same fault)
  | ok _ =>
  cases r.resolve hint with
  | error fault => exact .error (.same fault)
  | ok frontEnd =>
  cases hbudget : Budget.ofSeconds r.timeout with
  | error fault => exact .error (.same fault)
  | ok budget =>
    exact frontEnd.sameEnd_parse g (hgrammar frontEnd) (Budget.allowed_of_ofSeconds hbudget)

end Registry

end CodeHabits
