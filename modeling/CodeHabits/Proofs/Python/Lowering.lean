import CodeHabits.Proofs.Python.Syntax
import CodeHabits.Python.Lowering

/-!
# `CodeHabits.Proofs.Python.Lowering`: lowering one statement at a time

Lowering carries the count of the classes around. Every part of it puts the count back
(`Scoped.Restores`), so it is a parameter rather than a state: `treeOf` is the tree for a
statement in so many classes, and several statements give the trees that each gives alone
(`run_statements`).

The root of the tree for a statement has the statement's place and a tag of its kind.
`children_treeOf` says what is below it, in one form for all kinds of statements: the trees
in its expressions and then those for its bodies, each without its docstring.
-/

set_option autoImplicit false

namespace CodeHabits.Python

namespace Scoped

variable {α β : Type}

theorem run_bind {x : Scoped α} {f : α → Scoped β} {a : α} {depth after : Nat}
    (h : x.run depth = (a, after)) : (x >>= f).run depth = (f a).run after := by
  show (f (x.run depth).1).run (x.run depth).2 = _
  rw [h]

/-- The count of classes is in the end what it was at the start. -/
def Restores (x : Scoped α) : Prop :=
  ∀ depth, (x.run depth).2 = depth

theorem restores_pure (a : α) : Restores (pure a) :=
  fun _ => rfl

theorem restores_bind {x : Scoped α} {f : α → Scoped β} (hx : Restores x)
    (hf : ∀ a, Restores (f a)) : Restores (x >>= f) := by
  intro depth
  show ((f (x.run depth).1).run (x.run depth).2).2 = depth
  rw [hf, hx]

/-- Behind a function the count is put back, whatever became of it inside. -/
theorem restores_insideFunction (x : Scoped α) : Restores (insideFunction x) :=
  fun _ => rfl

theorem restores_insideClass {x : Scoped α} (hx : Restores x) : Restores (insideClass x) := by
  intro depth
  show (x.run (depth + 1)).2 - 1 = depth
  rw [hx, Nat.add_sub_cancel]

end Scoped

variable (file : String)

open Scoped

mutual

theorem restores_statement : ∀ t : Stmt, Restores (statement file t)
  | .function p head body => by
    rw [statement]
    exact restores_bind (fun _ => rfl) fun depth =>
      restores_bind (restores_insideFunction _) fun _ => restores_pure _
  | .classDef p head body => by
    rw [statement]
    exact restores_bind (restores_insideClass (restores_block body)) fun _ => restores_pure _
  | .importing p first count => by
    rw [statement]
    exact restores_pure _
  | .importFrom p level module names => by
    rw [statement]
    exact restores_pure _
  | .loop p word head body orelse => by
    rw [statement]
    exact restores_bind (restores_block body) fun _ =>
      restores_bind (restores_block orelse) fun _ => restores_pure _
  | .conditional p test body orelse => by
    rw [statement]
    exact restores_bind (restores_block body) fun _ =>
      restores_bind (restores_block orelse) fun _ => restores_pure _
  | .matching p subject cases => by
    rw [statement]
    exact restores_bind (restores_caseBlocks cases) fun _ => restores_pure _
  | .trying p body handlers orelse final => by
    rw [statement]
    exact restores_bind (restores_block body) fun _ =>
      restores_bind (restores_blocks handlers) fun _ =>
      restores_bind (restores_block orelse) fun _ =>
      restores_bind (restores_block final) fun _ => restores_pure _
  | .returning p value? => by
    rw [statement]
    exact restores_pure _
  | .assign p annotated targets value? => by
    rw [statement]
    exact restores_pure _
  | .augmented p operator value => by
    rw [statement]
    exact restores_pure _
  | .withBlock p isAsync items body => by
    rw [statement]
    exact restores_bind (restores_block body) fun _ => restores_pure _
  | .expression p value => by
    rw [statement]
    exact restores_pure _
  | .other p kind parts => by
    rw [statement]
    exact restores_pure _

theorem restores_block : ∀ body : List Stmt, Restores (block file body)
  | [] => by
    rw [block]
    exact restores_pure _
  | first :: rest => by
    rw [block]
    split
    · exact restores_statements rest
    · exact restores_bind (restores_statement first) fun _ =>
        restores_bind (restores_statements rest) fun _ => restores_pure _

theorem restores_statements : ∀ body : List Stmt, Restores (statements file body)
  | [] => by
    rw [statements]
    exact restores_pure _
  | first :: rest => by
    rw [statements]
    exact restores_bind (restores_statement first) fun _ =>
      restores_bind (restores_statements rest) fun _ => restores_pure _

theorem restores_blocks : ∀ bodies : List (List Stmt), Restores (blocks file bodies)
  | [] => by
    rw [blocks]
    exact restores_pure _
  | body :: rest => by
    rw [blocks]
    exact restores_bind (restores_block body) fun _ =>
      restores_bind (restores_blocks rest) fun _ => restores_pure _

theorem restores_caseBlocks : ∀ cases : List (Bool × List Stmt), Restores (caseBlocks file cases)
  | [] => by
    rw [caseBlocks]
    exact restores_pure _
  | (_, body) :: rest => by
    rw [caseBlocks]
    exact restores_bind (restores_block body) fun _ =>
      restores_bind (restores_caseBlocks rest) fun _ => restores_pure _

end

/-! ### What is given -/

/-- The tree for a statement in so many classes. -/
def treeOf (depth : Nat) (t : Stmt) : Tree :=
  ((statement file t).run depth).1

/-- The trees for a body in so many classes. -/
def treesOf (depth : Nat) (body : List Stmt) : List Tree :=
  ((block file body).run depth).1

theorem run_statement (depth : Nat) (t : Stmt) :
    (statement file t).run depth = (treeOf file depth t, depth) :=
  Prod.ext rfl (restores_statement file t depth)

theorem run_block (depth : Nat) (body : List Stmt) :
    (block file body).run depth = (treesOf file depth body, depth) :=
  Prod.ext rfl (restores_block file body depth)

/-- Each of several statements is lowered as if it stood alone. -/
theorem run_statements (depth : Nat) (body : List Stmt) :
    (statements file body).run depth = (body.map (treeOf file depth), depth) := by
  induction body with
  | nil =>
    rw [statements]
    rfl
  | cons first rest ih =>
    rw [statements, run_bind (run_statement file depth first), run_bind ih]
    rfl

theorem run_blocks (depth : Nat) (bodies : List (List Stmt)) :
    (blocks file bodies).run depth = (bodies.flatMap (treesOf file depth), depth) := by
  induction bodies with
  | nil =>
    rw [blocks]
    rfl
  | cons body rest ih =>
    rw [blocks, run_bind (run_block file depth body), run_bind ih]
    rfl

theorem run_caseBlocks (depth : Nat) (cases : List (Bool × List Stmt)) :
    (caseBlocks file cases).run depth
      = ((cases.map Prod.snd).flatMap (treesOf file depth), depth) := by
  induction cases with
  | nil =>
    rw [caseBlocks]
    rfl
  | cons c rest ih =>
    rw [caseBlocks, run_bind (run_block file depth c.2), run_bind ih]
    rfl

/-- A body without its docstring. -/
def withoutDocstring : List Stmt → List Stmt
  | [] => []
  | first :: rest => if first.isDocstring then rest else first :: rest

theorem mem_of_mem_withoutDocstring {body : List Stmt} {t : Stmt}
    (h : t ∈ withoutDocstring body) : t ∈ body := by
  cases body with
  | nil => exact h
  | cons first rest =>
    rw [withoutDocstring] at h
    split at h
    · exact List.mem_cons_of_mem first h
    · exact h

theorem treesOf_eq (depth : Nat) (body : List Stmt) :
    treesOf file depth body = (withoutDocstring body).map (treeOf file depth) := by
  cases body with
  | nil =>
    rw [treesOf, block]
    rfl
  | cons first rest =>
    rw [treesOf, block, withoutDocstring]
    split
    · rw [run_statements]
    · rw [run_bind (run_statement file depth first), run_bind (run_statements file depth rest)]
      rfl

/-- Statements give trees one after the other, but for a docstring at the start of a file. -/
theorem run_chunkStatements (atStart : Bool) (depth : Nat) (body : List Stmt) :
    (chunkStatements file atStart body).run depth
      = ((if atStart then withoutDocstring body else body).map (treeOf file depth), depth) := by
  unfold chunkStatements
  cases atStart with
  | true => exact (run_block file depth body).trans (by rw [treesOf_eq]; rfl)
  | false => exact run_statements file depth body

theorem expressions_eq (es : List Expr) :
    expressions file es = es.flatMap (expression file) := by
  induction es with
  | nil => rw [expressions, List.flatMap_nil]
  | cons e rest ih => rw [expressions, ih, List.flatMap_cons]

theorem expressionOf_eq (e? : Option Expr) :
    expressionOf file e? = e?.toList.flatMap (expression file) := by
  cases e? with
  | none => rfl
  | some e => rw [expressionOf, Option.toList_some, List.flatMap_singleton]

/-- How many classes there are around what is inside a statement. -/
def Stmt.depthInside (depth : Nat) : Stmt → Nat
  | .function _ _ _ => 0
  | .classDef _ _ _ => depth + 1
  | _ => depth

/-- The tag of the tree for a statement. -/
def Stmt.tag : Stmt → Tag
  | .function _ _ _ => .functionDef
  | .classDef _ _ _ => .classDef
  | .importing _ _ _ | .importFrom _ _ _ _ => .importing
  | .loop _ _ _ _ _ => .loop
  | .conditional _ _ _ _ | .matching _ _ _ => .conditional
  | .trying _ _ _ _ _ => .trying
  | .returning _ _ => .returning
  | .assign _ _ targets _ =>
    if targets.all Expr.isName || targets.all Expr.isUnpacking then .varDecl else .assignment
  | .augmented _ _ _ => .assignment
  | .withBlock _ _ _ _ => .block
  | .expression _ _ => .expression
  | .other _ _ _ => .statement

/-- A function is noted as one in a class if there is any class to count. -/
theorem treeOf_function (depth : Nat) (p : Place) (head : FunctionHead) (body : List Stmt) :
    treeOf file depth (.function p head body)
      = treeAt file .functionDef p (head.attributes (depth != 0)) (treesOf file 0 body) := by
  rw [treeOf, statement]
  rfl

theorem treeOf_assign (depth : Nat) (p : Place) (annotated : Bool) (targets : List Expr)
    (value? : Option Expr) :
    treeOf file depth (.assign p annotated targets value?)
      = assignment file p annotated targets value? := by
  rw [treeOf, statement]
  rfl

theorem tag_assignment (p : Place) (annotated : Bool) (targets : List Expr)
    (value? : Option Expr) :
    (assignment file p annotated targets value?).tag
      = if targets.all Expr.isName || targets.all Expr.isUnpacking then .varDecl
        else .assignment := by
  unfold assignment
  by_cases hnames : targets.all Expr.isName = true
  · simp [hnames, treeAt, Tree.tag]
  · by_cases hunpacking : targets.all Expr.isUnpacking = true
    · simp [hnames, hunpacking, treeAt, Tree.tag]
    · simp [hnames, hunpacking, treeAt, Tree.tag]

theorem span_assignment (p : Place) (annotated : Bool) (targets : List Expr)
    (value? : Option Expr) :
    (assignment file p annotated targets value?).span = p.span file := by
  unfold assignment
  dsimp only
  split
  · rfl
  · split <;> rfl

theorem children_assignment (p : Place) (annotated : Bool) (targets : List Expr)
    (value? : Option Expr) :
    (assignment file p annotated targets value?).children = expressionOf file value? := by
  unfold assignment
  dsimp only
  split
  · rfl
  · split <;> rfl

theorem tag_treeOf (depth : Nat) (t : Stmt) : (treeOf file depth t).tag = t.tag := by
  cases t with
  | assign p annotated targets value? => rw [treeOf_assign, tag_assignment, Stmt.tag]
  | _ =>
    rw [treeOf, statement]
    rfl

/-- No statement gives a node for a problem or for a file. -/
theorem Stmt.tag_ne (t : Stmt) : t.tag ≠ .error ∧ t.tag ≠ .module := by
  cases t with
  | assign p annotated targets value? =>
    rw [Stmt.tag]
    split <;> simp
  | _ => simp [Stmt.tag]

theorem span_treeOf (depth : Nat) (t : Stmt) : (treeOf file depth t).span = t.place.span file := by
  cases t with
  | assign p annotated targets value? => rw [treeOf_assign, span_assignment, Stmt.place]
  | _ =>
    rw [treeOf, statement]
    rfl

/-- Below the tree for a statement are those for its expressions and, behind them, those for
its bodies. -/
theorem children_treeOf (depth : Nat) (t : Stmt) :
    (treeOf file depth t).children = t.values.flatMap (expression file)
      ++ t.bodies.flatMap (treesOf file (t.depthInside depth)) := by
  cases t with
  | function p head body =>
    rw [treeOf_function]
    show treesOf file 0 body = _
    simp [Stmt.values, Stmt.bodies, Stmt.depthInside]
  | classDef p head body =>
    rw [treeOf, statement]
    show treesOf file (depth + 1) body = _
    simp [Stmt.values, Stmt.bodies, Stmt.depthInside]
  | loop p word head body orelse =>
    rw [treeOf, statement, run_bind (run_block file depth body),
      run_bind (run_block file depth orelse)]
    show expression file head ++ treesOf file depth body ++ treesOf file depth orelse = _
    simp [Stmt.values, Stmt.bodies, Stmt.depthInside]
  | conditional p test body orelse =>
    rw [treeOf, statement, run_bind (run_block file depth body),
      run_bind (run_block file depth orelse)]
    show expression file test ++ treesOf file depth body ++ treesOf file depth orelse = _
    simp [Stmt.values, Stmt.bodies, Stmt.depthInside]
  | matching p subject cases =>
    rw [treeOf, statement, run_bind (run_caseBlocks file depth cases)]
    show expression file subject ++ (cases.map Prod.snd).flatMap (treesOf file depth) = _
    simp [Stmt.values, Stmt.bodies, Stmt.depthInside]
  | trying p body handlers orelse final =>
    rw [treeOf, statement, run_bind (run_block file depth body),
      run_bind (run_blocks file depth handlers), run_bind (run_block file depth orelse),
      run_bind (run_block file depth final)]
    show treesOf file depth body ++ handlers.flatMap (treesOf file depth)
      ++ treesOf file depth orelse ++ treesOf file depth final = _
    simp [Stmt.values, Stmt.bodies, Stmt.depthInside]
  | withBlock p isAsync items body =>
    rw [treeOf, statement]
    show expressions file items ++ treesOf file depth body = _
    simp [Stmt.values, Stmt.bodies, Stmt.depthInside, expressions_eq]
  | assign p annotated targets value? =>
    rw [treeOf_assign, children_assignment, expressionOf_eq]
    simp [Stmt.values, Stmt.bodies]
  | returning p value? =>
    rw [treeOf, statement]
    show expressionOf file value? = _
    simp [Stmt.values, Stmt.bodies, expressionOf_eq]
  | augmented p operator value =>
    rw [treeOf, statement]
    show expression file value = _
    simp [Stmt.values, Stmt.bodies]
  | expression p value =>
    rw [treeOf, statement]
    show Python.expression file value = _
    simp [Stmt.values, Stmt.bodies]
  | other p kind parts =>
    rw [treeOf, statement]
    show expressions file parts = _
    simp [Stmt.values, Stmt.bodies, expressions_eq]
  | importing p first count =>
    rw [treeOf, statement]
    rfl
  | importFrom p level module names =>
    rw [treeOf, statement]
    rfl

end CodeHabits.Python
