import CodeHabits.Outline.Builder

/-!
# `CodeHabits.Proofs.Outline.Moved`: outlines further down

The builder compares lines and copies them, and nothing else depends on them. So tokens that
stand some lines further down give the same trees, as many lines further down
(`Outline.State.ofTokens_moved`).

Moving is a map on all that the builder holds, and every function of the builder commutes
with it: what a statement is depends on the kinds and texts of its tokens, and a path leads
to the same tree after moving as before. The lemmas follow the definitions one by one.
-/

set_option autoImplicit false

namespace CodeHabits

variable (lines : Nat)

/-- A token, so many lines further down. -/
def Token.moved (t : Token) : Token :=
  { t with line := t.line + lines, endLine := t.endLine + lines }

@[simp] theorem Token.kind_moved (t : Token) : (t.moved lines).kind = t.kind :=
  rfl

@[simp] theorem Token.text_moved (t : Token) : (t.moved lines).text = t.text :=
  rfl

@[simp] theorem Token.line_moved (t : Token) : (t.moved lines).line = t.line + lines :=
  rfl

@[simp] theorem Token.column_moved (t : Token) : (t.moved lines).column = t.column :=
  rfl

@[simp] theorem Token.endLine_moved (t : Token) : (t.moved lines).endLine = t.endLine + lines :=
  rfl

@[simp] theorem Token.endColumn_moved (t : Token) : (t.moved lines).endColumn = t.endColumn :=
  rfl

/-- A span, so many lines further down. -/
def Span.moved (s : Span) : Span :=
  { s with startLine := s.startLine + lines, endLine := s.endLine + lines }

/-- A problem, so many lines further down. -/
def Diagnostic.moved (d : Diagnostic) : Diagnostic :=
  { d with line := d.line + lines }

namespace Tree

mutual

/-- A tree, so many lines further down. -/
def moved : Tree → Tree
  | node tag span attributes cs => node tag (span.moved lines) attributes (movedAll cs)

/-- Several trees, so many lines further down. -/
def movedAll : List Tree → List Tree
  | [] => []
  | t :: rest => moved t :: movedAll rest

end

theorem movedAll_eq_map (ts : List Tree) : movedAll lines ts = ts.map (moved lines) := by
  induction ts with
  | nil => rfl
  | cons t rest ih => rw [movedAll, ih, List.map_cons]

@[simp] theorem moved_node (tag : Tag) (span : Span) (attributes : Attributes)
    (children : List Tree) :
    (node tag span attributes children).moved lines
      = node tag (span.moved lines) attributes (children.map (moved lines)) := by
  rw [moved, movedAll_eq_map]

@[simp] theorem tag_moved (t : Tree) : (t.moved lines).tag = t.tag := by
  cases t
  rw [moved]
  rfl

@[simp] theorem children_moved (t : Tree) :
    (t.moved lines).children = t.children.map (moved lines) := by
  cases t
  rw [moved_node]
  rfl

theorem withAttribute_moved (t : Tree) (name : String) (value : Value) :
    (t.moved lines).withAttribute name value = (t.withAttribute name value).moved lines := by
  cases t
  simp [withAttribute, tag, span, attributes, children]

end Tree

namespace Outline

/-! ### Statements -/

section

variable {lines}

theorem nameIn_moved (behind : List Token) :
    nameIn (behind.map (Token.moved lines)) = nameIn behind := by
  unfold nameIn
  rw [List.dropWhile_map]
  have hkind : (fun t => t.kind == TokenKind.keyword) ∘ Token.moved lines
      = fun t => t.kind == TokenKind.keyword := rfl
  rw [hkind]
  cases behind.dropWhile fun t => t.kind == .keyword <;> rfl

theorem itemCount_moved (tokens : List Token) :
    itemCount (tokens.map (Token.moved lines)) = itemCount tokens := by
  unfold itemCount
  rw [List.foldl_map]
  rfl

theorem beforeParenthesis?_moved (tokens : List Token) :
    beforeParenthesis? (tokens.map (Token.moved lines))
      = (beforeParenthesis? tokens).map (Token.moved lines) := by
  induction tokens using beforeParenthesis?.induct with
  | case1 t u rest h => simp [beforeParenthesis?, h]
  | case2 t u rest h hu => simp [beforeParenthesis?, h, hu]
  | case3 t u rest h hu ih => simpa [beforeParenthesis?, h, hu] using ih
  | case4 tokens h =>
    match tokens, h with
    | [], _ => rfl
    | [t], _ => rfl
    | t :: u :: rest, h => exact absurd rfl (h t u rest)

theorem plainFunction?_moved (tokens : List Token) (children : List Tree) :
    plainFunction? (tokens.map (Token.moved lines)) (children.map (Tree.moved lines))
      = (plainFunction? tokens children).map (Token.moved lines) := by
  unfold plainFunction?
  rw [List.getLast?_map, List.isEmpty_map, beforeParenthesis?_moved]
  cases tokens.getLast? with
  | none => rfl
  | some last =>
    simp only [Option.map_some, Token.text_moved]
    rw [apply_ite (Option.map (Token.moved lines))]
    rfl

theorem callee?_moved (tokens : List Token) :
    callee? (tokens.map (Token.moved lines)) = (callee? tokens).map (Token.moved lines) := by
  match tokens with
  | [] => rfl
  | [t] => rfl
  | t :: u :: rest =>
    simp only [List.map_cons, callee?, Token.kind_moved, Token.text_moved]
    rw [apply_ite (Option.map (Token.moved lines))]
    rfl

theorem describePlain_moved (tokens : List Token) (brace : Attributes) (children : List Tree) :
    describePlain (tokens.map (Token.moved lines)) brace (children.map (Tree.moved lines))
      = describePlain tokens brace children := by
  unfold describePlain
  rw [plainFunction?_moved, callee?_moved, itemCount_moved, List.any_map, List.isEmpty_map]
  cases plainFunction? tokens children with
  | some name => rfl
  | none =>
    cases callee? tokens with
    | some callee => rfl
    | none => rfl

theorem describeKeyword_moved (tag : Tag) (word : String) (tokens behind : List Token)
    (brace : Attributes) :
    describeKeyword tag word (tokens.map (Token.moved lines)) (behind.map (Token.moved lines)) brace
      = describeKeyword tag word tokens behind brace := by
  unfold describeKeyword
  rw [nameIn_moved, itemCount_moved, List.any_map, List.length_map]
  rfl

theorem lead?_moved (tokens : List Token) :
    lead? (tokens.map (Token.moved lines))
      = (lead? tokens).map (Prod.map (Token.moved lines) (List.map (Token.moved lines))) := by
  unfold lead?
  rw [List.dropWhile_map]
  have hlead : (fun t => !isLead t) ∘ Token.moved lines = fun t => !isLead t := rfl
  rw [hlead]
  cases tokens.dropWhile fun t => !isLead t <;> rfl

/-- What a statement is does not depend on the lines of its tokens. -/
theorem describe_moved (tokens : List Token) (brace : Attributes) (children : List Tree) :
    describe (tokens.map (Token.moved lines)) brace (children.map (Tree.moved lines))
      = describe tokens brace children := by
  unfold describe
  rw [lead?_moved]
  cases lead? tokens with
  | none => exact describePlain_moved tokens brace children
  | some found =>
    obtain ⟨word, behind⟩ := found
    simp only [Option.map_some, Prod.map_apply, Token.text_moved, describeKeyword_moved,
      describePlain_moved]

variable (lines) in
theorem statementTree_moved (file : String) (first : Token) (rest : List Token)
    (brace : Attributes) (stop : Token) (children : List Tree) :
    statementTree file (first.moved lines) (rest.map (Token.moved lines)) brace (stop.moved lines)
        (children.map (Tree.moved lines))
      = (statementTree file first rest brace stop children).moved lines := by
  unfold statementTree
  rw [← List.map_cons, describe_moved]
  simp [Span.moved]

/-! ### Changes of what is built -/

theorem modify_moved {change changed : Tree → Tree}
    (h : ∀ t : Tree, changed (t.moved lines) = (change t).moved lines) (trees : List Tree)
    (i : Nat) :
    (trees.map (Tree.moved lines)).modify i changed
      = (trees.modify i change).map (Tree.moved lines) := by
  induction trees generalizing i with
  | nil => simp
  | cons t rest ih =>
    cases i with
    | zero => simp [h]
    | succ i => simp [ih]

theorem changeBelow_moved (new : List Tree) (path : Path) (trees : List Tree) :
    changeBelow (· ++ new.map (Tree.moved lines)) path (trees.map (Tree.moved lines))
      = (changeBelow (· ++ new) path trees).map (Tree.moved lines) := by
  induction path generalizing trees with
  | nil => simp [changeBelow]
  | cons i path ih =>
    rw [changeBelow, changeBelow]
    refine modify_moved (fun t => ?_) trees i
    cases t
    simp [ih, Tree.tag, Tree.span, Tree.attributes, Tree.children]

theorem markClause_moved (word : String) (t : Tree) :
    State.markClause word (t.moved lines) = (State.markClause word t).moved lines := by
  unfold State.markClause
  rw [Tree.tag_moved]
  simp only [Tree.withAttribute_moved]
  split
  · split <;> rfl
  split
  · rfl
  split <;> rfl

theorem changeAt_moved (word : String) (path : Path) (trees : List Tree) :
    changeAt (State.markClause word) path (trees.map (Tree.moved lines))
      = (changeAt (State.markClause word) path trees).map (Tree.moved lines) := by
  induction path generalizing trees with
  | nil => rfl
  | cons i path ih =>
    cases path with
    | nil => exact modify_moved (markClause_moved word) trees i
    | cons j path =>
      rw [changeAt, changeAt]
      refine modify_moved (fun t => ?_) trees i
      cases t
      simp [ih, Tree.tag, Tree.span, Tree.attributes, Tree.children]

theorem countBelow_moved (path : Path) (trees : List Tree) :
    countBelow path (trees.map (Tree.moved lines)) = countBelow path trees := by
  induction path generalizing trees with
  | nil => simp [countBelow]
  | cons i path ih =>
    rw [countBelow, countBelow, List.getElem?_map]
    cases trees[i]? with
    | none => rfl
    | some t => simp [ih]

end

/-! ### Tokens -/

/-- The owner of a block, so many lines further down. -/
def Owner.moved (o : Owner) : Owner :=
  ⟨o.first.moved lines, o.rest.map (Token.moved lines), o.sameLine⟩

/-- An open brace, so many lines further down. -/
def Frame.moved (f : Frame) : Frame :=
  ⟨f.brace.moved lines, f.owner?.map (Owner.moved lines), f.outer.map (Tree.moved lines),
    f.destination⟩

namespace State

/-- All that has been taken in, so many lines further down. -/
def moved (s : State) : State :=
  ⟨s.trees.map (Tree.moved lines), s.frames.map (Frame.moved lines),
    s.current.map (Token.moved lines), s.lastClosed, s.clause,
    s.diagnostics.map (Diagnostic.moved lines)⟩

variable {lines} (file : String) (s : State)

theorem getLast_moved (first : Token) (rest : List Token) :
    (first.moved lines :: rest.map (Token.moved lines)).getLast (by simp)
      = ((first :: rest).getLast (by simp)).moved lines :=
  List.getLast_map (l := first :: rest) (by simp)

theorem flush_moved : (s.moved lines).flush file = (s.flush file).moved lines := by
  obtain ⟨trees, frames, current, lastClosed, clause, diagnostics⟩ := s
  cases current with
  | nil => rfl
  | cons first rest =>
    have hleaf := statementTree_moved lines file first rest []
      ((first :: rest).getLast (by simp)) []
    simp only [flush, moved, List.map_cons, List.map_nil, getLast_moved, State.mk.injEq, and_true]
    rw [← changeBelow_moved, List.map_singleton, ← hleaf, List.map_nil]

theorem openBrace_moved (brace : Token) :
    (s.moved lines).openBrace (brace.moved lines) = (s.openBrace brace).moved lines := by
  obtain ⟨trees, frames, current, lastClosed, clause, diagnostics⟩ := s
  cases current with
  | nil => rfl
  | cons first rest =>
    have hline : ∀ n, (n + lines == brace.line + lines) = (n == brace.line) := by
      intro n
      rw [Bool.eq_iff_iff, beq_iff_eq, beq_iff_eq, Nat.add_right_cancel_iff]
    simp only [openBrace, moved, Frame.moved, List.map_cons, List.map_nil, getLast_moved,
      Token.text_moved, Token.endLine_moved, Token.line_moved, hline]
    rw [apply_ite (Option.map (Owner.moved lines))]
    rfl

theorem closeFrame_moved (f : Frame) (frames : List Frame) (close : Token) :
    (s.moved lines).closeFrame file (f.moved lines) (frames.map (Frame.moved lines))
        (close.moved lines)
      = (s.closeFrame file f frames close).moved lines := by
  obtain ⟨brace, owner?, outer, destination⟩ := f
  unfold closeFrame
  simp only [Frame.moved, countBelow_moved]
  cases owner? with
  | some o =>
    have hblock := statementTree_moved lines file o.first o.rest o.brace close s.trees
    simp only [moved, ← changeBelow_moved, List.map_singleton, ← hblock]
    rfl
  | none =>
    simp only [Option.map_none]
    rw [apply_ite (State.moved lines)]
    simp only [moved, ← changeBelow_moved, List.map_singleton, Tree.moved_node]
    rfl

theorem closeBrace_moved (close : Token) :
    (s.moved lines).closeBrace file (close.moved lines)
      = (s.closeBrace file close).moved lines := by
  unfold closeBrace
  rw [flush_moved]
  generalize s.flush file = s
  obtain ⟨trees, frames, current, lastClosed, clause, diagnostics⟩ := s
  cases frames with
  | nil => simp [moved, Diagnostic.moved, Parsed.errorTree, Span.moved]
  | cons f frames => exact closeFrame_moved file _ f frames close

theorem breakLine_moved (t : Token) :
    (s.moved lines).breakLine file (t.moved lines) = (s.breakLine file t).moved lines := by
  unfold breakLine
  have hlast : (s.moved lines).current.getLast? = s.current.getLast?.map (Token.moved lines) :=
    List.getLast?_map
  rw [hlast]
  cases s.current.getLast? with
  | none => rfl
  | some last =>
    have hcontinues : continues (last.moved lines) (t.moved lines) = continues last t := rfl
    have hline : (last.endLine + lines < t.line + lines) = (last.endLine < t.line) := by simp
    simp only [Option.map_some, hcontinues, Token.endLine_moved, Token.line_moved, hline]
    rw [apply_ite (State.moved lines), flush_moved]

theorem addToken_moved (t : Token) :
    (s.moved lines).addToken (t.moved lines) = (s.addToken t).moved lines := by
  have hempty : (s.moved lines).current.isEmpty = s.current.isEmpty := List.isEmpty_map
  unfold addToken
  rw [hempty, Token.text_moved, apply_ite (State.moved lines)]
  simp only [moved, changeAt_moved, List.map_append, List.map_singleton]

theorem add_moved (t : Token) :
    (s.moved lines).add file (t.moved lines) = (s.add file t).moved lines := by
  unfold add
  simp only [breakLine_moved, Token.kind_moved, Token.text_moved, flush_moved, openBrace_moved,
    closeBrace_moved, addToken_moved]
  simp only [apply_ite (State.moved lines)]

theorem foldl_moved (tokens : List Token) :
    (tokens.map (Token.moved lines)).foldl (State.add file) (s.moved lines)
      = (tokens.foldl (State.add file) s).moved lines := by
  rw [List.foldl_map]
  exact List.foldl_hom (State.moved lines) fun s t => add_moved file s t

theorem closeAll_moved (last : Token) (frames : List Frame) :
    closeAll file (last.moved lines) (s.moved lines) (frames.map (Frame.moved lines))
      = (closeAll file last s frames).moved lines := by
  induction frames generalizing s with
  | nil => rfl
  | cons f frames ih =>
    rw [List.map_cons, closeAll, closeAll, ← ih, ← closeFrame_moved]
    simp [moved, Diagnostic.moved, Frame.moved]

/-- The same tokens further down give the same outline further down. -/
theorem ofTokens_moved (tokens : List Token) :
    ofTokens file (tokens.map (Token.moved lines)) = (ofTokens file tokens).moved lines := by
  have hstart : State.start.moved lines = .start := rfl
  unfold ofTokens
  rw [← hstart, foldl_moved, flush_moved, List.getLast?_map]
  cases tokens.getLast? with
  | none => rfl
  | some last => exact closeAll_moved file _ last _

end State

end Outline

end CodeHabits
