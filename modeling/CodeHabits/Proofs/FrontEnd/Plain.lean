import CodeHabits.Outline.Builder
import CodeHabits.Proofs.Budget
import CodeHabits.Proofs.Python.Lowering
import CodeHabits.Proofs.Tree.Plain

/-!
# `CodeHabits.Proofs.FrontEnd.Plain`: outlines and trees of Python source are plain

The builder of outlines puts trees together whose facts come from the words of a
statement, and it changes trees that it has built when a clause continues them. What it
has built inside and outside of the open braces stays plain with every token
(`State.Plain.add`), and so does what is left at the end (`State.plain_ofTokens`).

Each kind of expression and statement of Python notes what fits, and so do the trees inside
it: the proofs follow the recursion over the syntax. Reading a source ends well unless the
grammar refuses it, or a chunk of it, as no text of Python at all (`ends_build`).
-/

set_option autoImplicit false

/-! ## Outlines -/

namespace CodeHabits.Outline

open Attributes (Fits)

/-! ### Statements -/

@[simp] theorem isName_nameIn (tokens : List Token) : (nameIn tokens).IsName := by
  unfold nameIn
  split <;> simp

theorem plain_describeKeyword (tag : Tag) (word : String) (tokens behind : List Token)
    {brace : Attributes} (hbrace : brace.Plain) :
    (describeKeyword tag word tokens behind brace).Plain := by
  cases tag <;> simp [describeKeyword, Fits, hbrace]

theorem plain_describePlain (tokens : List Token) {brace : Attributes} (children : List Tree)
    (hbrace : brace.Plain) : (describePlain tokens brace children).2.Plain := by
  unfold describePlain
  split
  · simp [Fits, hbrace]
  · simp [Fits, hbrace]
  · split <;> simp [Fits, hbrace]

/-- What is noted of a statement fits, if the style of its brace does. -/
theorem plain_describe (tokens : List Token) {brace : Attributes} (children : List Tree)
    (hbrace : brace.Plain) : (describe tokens brace children).2.Plain := by
  unfold describe
  split
  · exact plain_describePlain tokens children hbrace
  · split
    · exact plain_describeKeyword _ _ tokens _ hbrace
    · exact plain_describePlain tokens children hbrace

theorem plain_statementTree (file : String) (first : Token) (rest : List Token)
    {brace : Attributes} (stop : Token) {children : List Tree} (hbrace : brace.Plain)
    (hchildren : ∀ t ∈ children, t.Plain) :
    (statementTree file first rest brace stop children).Plain :=
  .node (plain_describe _ children hbrace) hchildren

theorem Owner.plain_brace (o : Owner) : o.brace.Plain := by
  simp [brace, Fits]

/-! ### Changes of what is built -/

/-- Changing one of several trees. -/
theorem plain_modify {trees : List Tree} {change : Tree → Tree} (i : Nat)
    (h : ∀ t ∈ trees, t.Plain) (hchange : ∀ t, t.Plain → (change t).Plain) :
    ∀ t ∈ trees.modify i change, t.Plain := by
  induction trees generalizing i with
  | nil => simp
  | cons t rest ih =>
    have ht := h t (by simp)
    have hrest : ∀ other ∈ rest, other.Plain := fun other hother => h other (by simp [hother])
    cases i with
    | zero =>
      rw [List.modify_zero_cons]
      exact List.forall_mem_cons.2 ⟨hchange t ht, hrest⟩
    | succ i =>
      rw [List.modify_succ_cons]
      exact List.forall_mem_cons.2 ⟨ht, ih i hrest⟩

theorem plain_changeBelow {change : List Tree → List Tree}
    (hchange : ∀ trees, (∀ t ∈ trees, t.Plain) → ∀ t ∈ change trees, t.Plain) (path : Path)
    {trees : List Tree} (h : ∀ t ∈ trees, t.Plain) :
    ∀ t ∈ changeBelow change path trees, t.Plain := by
  induction path generalizing trees with
  | nil => exact hchange trees h
  | cons i path ih =>
    rw [changeBelow]
    refine plain_modify i h fun t ht => ?_
    exact .node ht.attributes (ih ht.children)

theorem plain_changeAt {change : Tree → Tree} (hchange : ∀ t, t.Plain → (change t).Plain)
    (path : Path) {trees : List Tree} (h : ∀ t ∈ trees, t.Plain) :
    ∀ t ∈ changeAt change path trees, t.Plain := by
  induction path generalizing trees with
  | nil => exact h
  | cons i path ih =>
    cases path with
    | nil => exact plain_modify i h hchange
    | cons j path =>
      rw [changeAt]
      refine plain_modify i h fun t ht => ?_
      exact .node ht.attributes (ih ht.children)

theorem plain_markClause (word : String) {t : Tree} (h : t.Plain) :
    (State.markClause word t).Plain := by
  have hnoted : ∀ name, name ≠ "name" → name ≠ "brace_style" → name ≠ "case_count" →
      name ≠ "arm_count" → (t.withAttribute name (.bool true)).Plain := by
    intro name hname hbrace hcase harm
    exact h.withAttribute (by simp [Fits, hname, hbrace, hcase, harm])
  unfold State.markClause
  split
  · split
    · exact hnoted "has_else" (by decide) (by decide) (by decide) (by decide)
    · exact h
  split
  · exact hnoted "has_catch" (by decide) (by decide) (by decide) (by decide)
  split
  · exact hnoted "has_finally" (by decide) (by decide) (by decide) (by decide)
  · exact h

/-! ### Tokens -/

namespace State

/-- What has been built inside and outside of the open braces is plain. -/
structure Plain (s : State) : Prop where
  trees : ∀ t ∈ s.trees, t.Plain
  outer : ∀ f ∈ s.frames, ∀ t ∈ f.outer, t.Plain

variable {s : State} {file : String}

/-- What is added behind plain trees. -/
theorem plain_added {new trees : List Tree} (hnew : ∀ t ∈ new, t.Plain) (path : Path)
    (h : ∀ t ∈ trees, t.Plain) : ∀ t ∈ changeBelow (· ++ new) path trees, t.Plain :=
  plain_changeBelow (fun _ htrees => List.forall_mem_append.2 ⟨htrees, hnew⟩) path h

theorem Plain.flush (h : s.Plain) : (s.flush file).Plain := by
  unfold State.flush
  split
  · exact h
  · refine ⟨plain_added ?_ _ h.trees, h.outer⟩
    have hstatement := plain_statementTree file
    simpa using hstatement _ _ _ Attributes.plain_nil (by simp)

theorem Plain.openBrace (h : s.Plain) (brace : Token) : (s.openBrace brace).Plain := by
  refine ⟨by simp [State.openBrace], ?_⟩
  exact List.forall_mem_cons.2 ⟨h.trees, h.outer⟩

theorem Plain.closeFrame (h : s.Plain) {f : Frame} {frames : List Frame}
    (hf : ∀ t ∈ f.outer, t.Plain) (hframes : ∀ f ∈ frames, ∀ t ∈ f.outer, t.Plain)
    (close : Token) : (s.closeFrame file f frames close).Plain := by
  unfold State.closeFrame
  dsimp only
  split
  · rename_i o _
    refine ⟨plain_added ?_ _ hf, hframes⟩
    simpa using plain_statementTree file o.first o.rest close o.plain_brace h.trees
  · split
    · refine ⟨plain_added ?_ _ hf, hframes⟩
      have hblock : (Tree.node .block ⟨file, f.brace.line, f.brace.column, close.endLine,
          close.endColumn⟩ [] s.trees).Plain := .node Attributes.plain_nil h.trees
      simpa using hblock
    · exact ⟨plain_added h.trees _ hf, hframes⟩

theorem Plain.closeBrace (h : s.Plain) (close : Token) : (s.closeBrace file close).Plain := by
  have hflushed : (s.flush file).Plain := h.flush
  unfold State.closeBrace
  dsimp only
  split
  · rename_i f frames hframes
    have hall := hflushed.outer
    rw [hframes] at hall
    obtain ⟨hf, hrest⟩ := List.forall_mem_cons.1 hall
    exact hflushed.closeFrame hf hrest close
  · refine ⟨List.forall_mem_append.2 ⟨hflushed.trees, ?_⟩, hflushed.outer⟩
    have herror : ∀ d : Diagnostic,
        (Parsed.errorTree file d close.endLine close.endColumn).Plain := fun d =>
      .node (by simp [Fits]) (by simp)
    simpa using herror _

theorem Plain.breakLine (h : s.Plain) (t : Token) : (s.breakLine file t).Plain := by
  unfold State.breakLine
  split
  · split
    · exact h.flush
    · exact h
  · exact h

theorem Plain.addToken (h : s.Plain) (t : Token) : (s.addToken t).Plain := by
  unfold State.addToken
  split
  · exact ⟨plain_changeAt (fun _ => plain_markClause t.text) _ h.trees, h.outer⟩
  · exact ⟨h.trees, h.outer⟩

/-- Every token leaves plain trees. -/
theorem Plain.add (h : s.Plain) (t : Token) : (s.add file t).Plain := by
  have hbroken : (s.breakLine file t).Plain := h.breakLine t
  unfold State.add
  dsimp only
  split
  · exact hbroken.flush
  split
  · exact hbroken.openBrace t
  split
  · exact hbroken.closeBrace t
  · exact hbroken.addToken t

theorem Plain.closeAll (last : Token) (frames : List Frame) (h : s.Plain)
    (hframes : ∀ f ∈ frames, ∀ t ∈ f.outer, t.Plain) : (s.closeAll file last frames).Plain := by
  induction frames generalizing s with
  | nil => exact h
  | cons f frames ih =>
    obtain ⟨hf, hrest⟩ := List.forall_mem_cons.1 hframes
    have hreported : ∀ diagnostics, Plain { s with diagnostics } :=
      fun _ => ⟨h.trees, h.outer⟩
    rw [State.closeAll]
    exact ih ((hreported _).closeFrame hf hrest last) hrest

theorem plain_ofTokens (file : String) (tokens : List Token) : (ofTokens file tokens).Plain := by
  have hstart : start.Plain := ⟨by simp [start], by simp [start]⟩
  have hrun : ∀ (tokens : List Token) (s : State), s.Plain → (tokens.foldl (add file) s).Plain := by
    intro tokens
    induction tokens with
    | nil => exact fun s hs => hs
    | cons t rest ih => exact fun s hs => ih _ (hs.add t)
  have hflushed : ((tokens.foldl (add file) start).flush file).Plain := (hrun tokens start hstart).flush
  unfold ofTokens
  dsimp only
  split
  · exact hflushed.closeAll _ _ hflushed.outer
  · exact hflushed

end State

theorem ends_build (source file language : String) :
    Timed.Ends (fun parsed => parsed.tree.Plain) (build source file language) := by
  unfold build
  refine Timed.ends_bind (Timed.ends_checkTimes _) fun _ _ => Timed.ends_pure ?_
  exact .node Attributes.plain_nil (State.plain_ofTokens file _).trees

end CodeHabits.Outline

/-! ## Python -/

namespace CodeHabits.Python

open Attributes (Fits)

variable {file : String} {tag : Tag} {p : Place} {attributes : Attributes} {children : List Tree}

theorem plain_treeAt (hattributes : attributes.Plain)
    (hchildren : ∀ t ∈ children, t.Plain) : (treeAt file tag p attributes children).Plain :=
  .node hattributes hchildren

/-- One tree by itself. -/
theorem plain_singleton {t : Tree} (h : t.Plain) : ∀ other ∈ [t], other.Plain := by
  simpa using h

theorem plain_append {front rest : List Tree} (hfront : ∀ t ∈ front, t.Plain)
    (hrest : ∀ t ∈ rest, t.Plain) : ∀ t ∈ front ++ rest, t.Plain :=
  List.forall_mem_append.2 ⟨hfront, hrest⟩

/-! ### Expressions -/

mutual

theorem plain_expression : ∀ (e : Expr), ∀ t ∈ expression file e, t.Plain
  | .name _ _ => by simp [expression]
  | .member _ value _ => by
    rw [expression]
    exact plain_expression value
  | .constant _ _ => by simp [expression]
  | .sequence _ elements => by
    rw [expression]
    exact plain_expressions elements
  | .call p target arguments keywords => by
    rw [expression]
    refine plain_append (plain_expression target) (plain_singleton ?_)
    refine plain_treeAt (by simp [Fits]) ?_
    exact plain_append (plain_expressions arguments) (plain_expressions keywords)
  | .lambda p parameters _ body => by
    rw [expression]
    refine plain_singleton (plain_treeAt (by simp [Fits]) (plain_singleton ?_))
    exact plain_treeAt (by simp [Fits]) (plain_expression body)
  | .comprehension p collected results loops => by
    rw [expression]
    refine plain_singleton (plain_treeAt (by simp [Fits]) ?_)
    exact plain_append (plain_sources loops) (plain_expressions results)
  | .ternary p test body orelse => by
    rw [expression]
    refine plain_singleton (plain_treeAt (by simp [Fits]) ?_)
    exact plain_append (plain_append (plain_expression test) (plain_expression body))
      (plain_expression orelse)
  | .other _ parts => by
    rw [expression]
    exact plain_expressions parts

theorem plain_expressions : ∀ (es : List Expr), ∀ t ∈ expressions file es, t.Plain
  | [] => by simp [expressions]
  | e :: rest => by
    rw [expressions]
    exact plain_append (plain_expression e) (plain_expressions rest)

theorem plain_sources : ∀ (loops : List CompLoop), ∀ t ∈ sources file loops, t.Plain
  | [] => by simp [sources]
  | .mk _ source _ :: rest => by
    rw [sources]
    exact plain_append (plain_expression source) (plain_sources rest)

end

theorem plain_expressionOf (e? : Option Expr) : ∀ t ∈ expressionOf file e?, t.Plain := by
  cases e? with
  | none => simp [expressionOf]
  | some e => exact plain_expression e

/-! ### Statements -/

@[simp] theorem plain_countNoted {name : String} {count : Nat} :
    (countNoted name count).Plain ↔ (count ≠ 0 → Fits name (.ofNat count)) := by
  simp [countNoted]

theorem FunctionHead.plain_attributes (head : FunctionHead) (inClass : Bool) :
    (head.attributes inClass).Plain := by
  simp [attributes, Fits]

theorem ClassHead.plain_attributes (head : ClassHead) : head.attributes.Plain := by
  simp [attributes, Fits]

theorem plain_assignment (annotated : Bool) (targets : List Expr) (value? : Option Expr) :
    (assignment file p annotated targets value?).Plain := by
  unfold assignment
  dsimp only
  split
  · refine plain_treeAt ?_ (plain_expressionOf value?)
    split <;> simp [Fits]
  · split
    · exact plain_treeAt (by simp [Fits]) (plain_expressionOf value?)
    · exact plain_treeAt (by simp [Fits]) (plain_expressionOf value?)

/-- What is noted of a statement does not depend on what is inside. -/
theorem plain_attributes_treeOf (depth : Nat) (t : Stmt) :
    (treeOf file depth t).attributes.Plain := by
  cases t with
  | function p head body =>
    rw [treeOf_function]
    exact head.plain_attributes _
  | classDef p head body =>
    rw [treeOf, statement]
    exact head.plain_attributes
  | importing p first count =>
    rw [treeOf, statement]
    show Attributes.Plain [_, _, _]
    simp [Fits]
  | importFrom p level module names =>
    rw [treeOf, statement]
    show Attributes.Plain [_, _, _]
    simp [Fits]
  | loop p word head body orelse =>
    rw [treeOf, statement]
    show Attributes.Plain (_ :: _)
    simp [Fits]
  | conditional p test body orelse =>
    rw [treeOf, statement]
    show Attributes.Plain [_, _]
    simp [Fits]
  | matching p subject cases =>
    rw [treeOf, statement]
    show Attributes.Plain [_, _, _]
    -- The number of arms is counted.
    simp [Fits, Value.ofNat]
  | trying p body handlers orelse final =>
    rw [treeOf, statement]
    show Attributes.Plain [_, _, _]
    simp [Fits]
  | returning p value? =>
    rw [treeOf, statement]
    show Attributes.Plain [_]
    simp [Fits]
  | assign p annotated targets value? =>
    rw [treeOf_assign]
    exact (plain_assignment annotated targets value?).attributes
  | augmented p operator value =>
    rw [treeOf, statement]
    show Attributes.Plain [_]
    simp [Fits]
  | withBlock p isAsync items body =>
    rw [treeOf, statement]
    show Attributes.Plain [_]
    simp [Fits]
  | expression p value =>
    rw [treeOf, statement]
    exact Attributes.plain_nil
  | other p kind parts =>
    rw [treeOf, statement]
    show Attributes.Plain [_]
    simp [Fits]

theorem plain_treeOf (depth : Nat) (t : Stmt) : (treeOf file depth t).Plain := by
  induction t using Stmt.induction generalizing depth with
  | step t ih =>
    refine .intro (plain_attributes_treeOf depth t) ?_
    rw [children_treeOf]
    refine plain_append ?_ ?_
    · exact List.forall_mem_flatMap.2 fun e _ => plain_expression e
    · refine List.forall_mem_flatMap.2 fun body hbody => ?_
      rw [treesOf_eq]
      refine List.forall_mem_map.2 fun u hu => ?_
      exact ih u (List.mem_flatten_of_mem hbody (mem_of_mem_withoutDocstring hu)) _

theorem plain_treesOf (depth : Nat) (body : List Stmt) :
    ∀ t ∈ treesOf file depth body, t.Plain := by
  rw [treesOf_eq]
  exact List.forall_mem_map.2 fun t _ => plain_treeOf depth t

/-! ### Sources -/

/-- A chunk adds plain trees to plain ones. -/
theorem Pieces.ends_add (read : String → Reading) (file : String) (ps : Pieces) (chunk : Chunk)
    (h : ∀ t ∈ ps.trees, t.Plain) :
    Timed.Ends (fun next => ∀ t ∈ next.trees, t.Plain) (ps.add read file chunk) := by
  unfold Pieces.add
  refine Timed.ends_bind Timed.ends_check fun _ _ => ?_
  split
  · exact Timed.ends_pure h
  cases read chunk.text with
  | refused => exact Timed.ends_throw (.inr (.inl rfl))
  | broken message line? column? =>
    refine Timed.ends_pure (plain_append h (plain_singleton ?_))
    exact .node (by simp [Fits]) (by simp)
  | statements body =>
    dsimp only
    rw [run_chunkStatements]
    refine Timed.ends_bind (Timed.ends_checkTimes _) fun _ _ => Timed.ends_pure ?_
    exact plain_append h (List.forall_mem_map.2 fun t _ => plain_treeOf _ t)

theorem ends_build (read : String → Reading) (source file language : String) :
    Timed.Ends (fun parsed => parsed.tree.Plain) (build read source file language) := by
  unfold build
  cases read source with
  | refused => exact Timed.ends_throw (.inr (.inl rfl))
  | statements body =>
    refine Timed.ends_bind Timed.ends_check fun _ _ => ?_
    refine Timed.ends_bind (Timed.ends_checkTimes _) fun _ _ => ?_
    exact Timed.ends_pure (.node (by simp) (plain_treesOf 0 body))
  | broken message line? column? =>
    refine Timed.ends_bind (Timed.ends_foldlM (fun ps chunk _ h => ps.ends_add read file chunk h)
      (by simp)) fun pieces hpieces => ?_
    exact Timed.ends_pure (.node (by simp) hpieces)

end CodeHabits.Python
