import CodeHabits.Proofs.Outline.Steps
import CodeHabits.Proofs.Table
import CodeHabits.Proofs.Tree.Nested

/-!
# `CodeHabits.Proofs.Outline.Reported`: what an outline says of braces

The problems that the builder reports are the braces without a counterpart, those that
close nothing first (`State.diagnostics_ofTokens`). Each of the latter leaves an error node
at the top of the outline, and there are no others: while braces are open, nothing that is
built holds an error node (`ErrorsAt`), and what was built outside of all of them holds one
for each brace that closed nothing so far (`State.Layered`).

Statements and clauses change trees that were built before. Of a tree they change what is
noted and what is below it, but neither its tag nor its span.
-/

set_option autoImplicit false

namespace CodeHabits

/-- No node of a tree is an error node. -/
inductive Tree.Unbroken : Tree → Prop
  | node {tag : Tag} {span : Span} {attributes : Attributes} {children : List Tree}
      (htag : tag ≠ .error) (hchildren : ∀ t ∈ children, t.Unbroken) :
      Tree.Unbroken (.node tag span attributes children)

namespace Tree.Unbroken

variable {t : Tree}

theorem tag (h : t.Unbroken) : t.tag ≠ .error := by
  cases h with
  | node htag _ => exact htag

theorem children (h : t.Unbroken) : ∀ child ∈ t.children, child.Unbroken := by
  cases h with
  | node _ hchildren => exact hchildren

theorem walk (h : t.Unbroken) : ∀ node ∈ t.walk, node.tag ≠ .error := by
  have hall : ∀ node ∈ t.walk, node.Unbroken :=
    forall_mem_walkFrom (fun _ ht => ht.children) (by simpa using h)
  exact fun node hnode => (hall node hnode).tag

end Tree.Unbroken

namespace Outline

/-! ### Statements -/

theorem keywordTags_ne_error : ∀ entry ∈ keywordTags, entry.2 ≠ .error := by
  decide

theorem describePlain_ne_error (tokens : List Token) (brace : Attributes) (children : List Tree) :
    (describePlain tokens brace children).1 ≠ .error := by
  unfold describePlain
  split
  · simp
  · simp
  · split
    · simp
    · split <;> simp

theorem describe_ne_error (tokens : List Token) (brace : Attributes) (children : List Tree) :
    (describe tokens brace children).1 ≠ .error := by
  unfold describe
  split
  · exact describePlain_ne_error tokens brace children
  · split
    · rename_i tag htag
      obtain ⟨entry, hentry, _, rfl⟩ := Table.exists_mem_of_get? htag
      exact keywordTags_ne_error entry hentry
    · exact describePlain_ne_error tokens brace children

theorem unbroken_statementTree (file : String) (first : Token) (rest : List Token)
    (brace : Attributes) (stop : Token) {children : List Tree}
    (hchildren : ∀ t ∈ children, t.Unbroken) :
    (statementTree file first rest brace stop children).Unbroken :=
  .node (describe_ne_error _ brace children) hchildren

/-! ### Trees with error nodes on top -/

/-- The error nodes among trees have these spans, and there are none below. -/
structure ErrorsAt (spans : List Span) (trees : List Tree) : Prop where
  spans : (trees.filter fun t => t.tag = .error).map Tree.span = spans
  below : ∀ t ∈ trees, ∀ child ∈ t.children, child.Unbroken

variable {spans : List Span} {trees new : List Tree}

/-- Trees without any error node. -/
theorem errorsAt_nil_iff : ErrorsAt [] trees ↔ ∀ t ∈ trees, t.Unbroken := by
  constructor
  · intro h t ht
    have htag := List.filter_eq_nil_iff.1 (List.map_eq_nil_iff.1 h.spans) t ht
    obtain ⟨tag, span, attributes, children⟩ := t
    exact .node (fun herror => htag (decide_eq_true herror)) (h.below _ ht)
  · intro h
    constructor
    · rw [List.map_eq_nil_iff, List.filter_eq_nil_iff]
      exact fun t ht => by simpa using (h t ht).tag
    · exact fun t ht => (h t ht).children

theorem ErrorsAt.append {more : List Span} (h : ErrorsAt spans trees) (hnew : ErrorsAt more new) :
    ErrorsAt (spans ++ more) (trees ++ new) := by
  constructor
  · rw [List.filter_append, List.map_append, h.spans, hnew.spans]
  · exact List.forall_mem_append.2 ⟨h.below, hnew.below⟩

/-- A change to one tree that keeps its tag and its span and brings in no error node. -/
theorem ErrorsAt.modify (h : ErrorsAt spans trees) {change : Tree → Tree} (i : Nat)
    (htag : ∀ t, (change t).tag = t.tag) (hspan : ∀ t, (change t).span = t.span)
    (hbelow : ∀ t, (∀ child ∈ t.children, child.Unbroken) →
      ∀ child ∈ (change t).children, child.Unbroken) :
    ErrorsAt spans (trees.modify i change) := by
  induction trees generalizing i spans with
  | nil => simpa using h
  | cons t rest ih =>
    obtain ⟨hspans, hall⟩ := h
    obtain ⟨ht, hrest⟩ := List.forall_mem_cons.1 hall
    cases i with
    | zero =>
      rw [List.modify_zero_cons]
      constructor
      · rw [← hspans, List.filter_cons, List.filter_cons, htag]
        split <;> simp [hspan]
      · exact List.forall_mem_cons.2 ⟨hbelow t ht, hrest⟩
    | succ i =>
      rw [List.modify_succ_cons]
      have hchanged := ih ⟨rfl, hrest⟩ i
      constructor
      · rw [← hspans, List.filter_cons, List.filter_cons]
        split <;> simp [hchanged.spans]
      · exact List.forall_mem_cons.2 ⟨ht, hchanged.below⟩

/-- What is added below the end of a path holds no error node. -/
theorem ErrorsAt.changeBelow (h : ErrorsAt spans trees) (hnew : ∀ t ∈ new, t.Unbroken)
    (path : Path) : ErrorsAt spans (changeBelow (· ++ new) path trees) := by
  induction path generalizing spans trees with
  | nil =>
    rw [Outline.changeBelow]
    simpa using h.append (errorsAt_nil_iff.2 hnew)
  | cons i path ih =>
    rw [Outline.changeBelow]
    exact h.modify i (fun _ => rfl) (fun _ => rfl) fun t ht =>
      errorsAt_nil_iff.1 (ih (errorsAt_nil_iff.2 ht))

/-- Marking a clause changes only what is noted. -/
theorem markClause_keeps (word : String) (t : Tree) :
    (State.markClause word t).tag = t.tag ∧ (State.markClause word t).span = t.span ∧
      (State.markClause word t).children = t.children := by
  unfold State.markClause
  split
  · split <;> exact ⟨rfl, rfl, rfl⟩
  split
  · exact ⟨rfl, rfl, rfl⟩
  split <;> exact ⟨rfl, rfl, rfl⟩

theorem ErrorsAt.changeAt (h : ErrorsAt spans trees) (word : String) (path : Path) :
    ErrorsAt spans (changeAt (State.markClause word) path trees) := by
  induction path generalizing spans trees with
  | nil => exact h
  | cons i path ih =>
    cases path with
    | nil =>
      refine h.modify i ?_ ?_ ?_
      · exact fun t => (markClause_keeps word t).1
      · exact fun t => (markClause_keeps word t).2.1
      · intro t ht
        rwa [(markClause_keeps word t).2.2]
    | cons j path =>
      rw [Outline.changeAt]
      exact h.modify i (fun _ => rfl) (fun _ => rfl) fun t ht =>
        errorsAt_nil_iff.1 (ih (errorsAt_nil_iff.2 ht))

/-! ### Frames -/

/-- Where a token is in its file. -/
def spanOf (file : String) (t : Token) : Span :=
  ⟨file, t.line, t.column, t.endLine, t.endColumn⟩

namespace State

/-- The error nodes have these spans and are on top of what has been built outside of all
braces. -/
def Layered (spans : List Span) (trees : List Tree) : List Frame → Prop
  | [] => ErrorsAt spans trees
  | f :: frames => ErrorsAt [] trees ∧ Layered spans f.outer frames

variable {file : String} {frames : List Frame} {s : State}

/-- What may be done to trees with error nodes may be done inside of braces too. -/
theorem Layered.change {trees' : List Tree} (h : Layered spans trees frames)
    (hchange : ∀ {spans}, ErrorsAt spans trees → ErrorsAt spans trees') :
    Layered spans trees' frames := by
  cases frames with
  | nil => exact hchange h
  | cons f frames => exact ⟨hchange h.1, h.2⟩

theorem Layered.flush (h : Layered spans s.trees s.frames) :
    Layered spans (s.flush file).trees (s.flush file).frames := by
  rw [flush_frames]
  unfold State.flush
  split
  · exact h
  · rename_i first rest _
    have hleaf : ∀ stop, (statementTree file first rest [] stop []).Unbroken :=
      fun stop => unbroken_statementTree file first rest [] stop (by simp)
    exact h.change fun herrors => herrors.changeBelow (by simpa using hleaf _) s.clause

/-- A block that is closed holds no error node, wherever it goes. -/
theorem Layered.closed {f : Frame} {close : Token} {s' : State}
    (h : Layered spans s.trees (f :: frames)) (hclosed : Closed file s f frames close s') :
    Layered spans s'.trees frames := by
  obtain ⟨hinside, houter⟩ := h
  rw [errorsAt_nil_iff] at hinside
  have hplaced : ∀ new : List Tree, (∀ t ∈ new, t.Unbroken) → Layered spans (f.placed new) frames :=
    fun new hnew => houter.change fun herrors => herrors.changeBelow hnew f.destination
  cases hclosed with
  | @owned o howner =>
    refine hplaced _ ?_
    simpa using unbroken_statementTree file o.first o.rest o.brace close hinside
  | block =>
    refine hplaced _ ?_
    intro t ht
    rw [List.mem_singleton.1 ht]
    exact .node (by simp) hinside
  | clause => exact hplaced _ hinside

/-- What is open and what has been reported are the braces without a counterpart. -/
structure Reports (file : String) (b : Braces) (s : State) : Prop where
  open_braces : s.frames.map Frame.brace = b.unclosed
  diagnostics : s.diagnostics = b.strays.map unexpected
  trees : Layered (b.strays.map (spanOf file)) s.trees s.frames

theorem Reports.flush {b : Braces} (h : Reports file b s) : Reports file b (s.flush file) := by
  constructor
  · rw [flush_frames, h.open_braces]
  · rw [flush_diagnostics, h.diagnostics]
  · exact h.trees.flush

theorem Reports.step {b : Braces} {t : Token} {s' : State} (h : Reports file b s)
    (hstep : Step file s t s') : Reports file (b.add t) s' := by
  cases hstep with
  | ended hends =>
    rw [b.add_other (opens_eq_false_of_ends hends) (closes_eq_false_of_ends hends)]
    exact h.flush
  | opened hopens =>
    rw [b.add_opens hopens]
    constructor
    · exact congrArg (t :: ·) h.open_braces
    · exact h.diagnostics
    · exact ⟨errorsAt_nil_iff.2 (by simp [openBrace]), h.trees⟩
  | @closed f frames hcloses hframes =>
    have hopen : b.unclosed = f.brace :: frames.map Frame.brace := by
      rw [← h.open_braces, hframes, List.map_cons]
    have htrees := h.flush.trees
    rw [flush_frames, hframes] at htrees
    rw [Braces.add_closes hcloses hopen]
    constructor
    · rw [closeFrame_frames]
    · rw [closeFrame_diagnostics, flush_diagnostics, h.diagnostics]
    · rw [closeFrame_frames]
      exact htrees.closed (closed_closeFrame file _ f frames t)
  | stray hcloses hframes =>
    have hnone : b.unclosed = [] := by
      rw [← h.open_braces, hframes, List.map_nil]
    have hflushed : (s.flush file).frames = [] := by rw [flush_frames, hframes]
    have htrees := h.flush.trees
    rw [hflushed] at htrees
    rw [Braces.add_stray hcloses hnone]
    have herror : ErrorsAt [spanOf file t]
        [Parsed.errorTree file (unexpected t) t.endLine t.endColumn] :=
      ⟨rfl, by simp [Parsed.errorTree, Tree.children]⟩
    constructor
    · exact congrArg (List.map Frame.brace) hflushed
    · rw [List.map_append, ← h.flush.diagnostics]
      rfl
    · have hnew := ErrorsAt.append htrees herror
      rw [List.map_append]
      show Layered _ _ (s.flush file).frames
      rw [hflushed]
      exact hnew
  | resumed _ hopens hcloses =>
    rw [b.add_other hopens hcloses]
    constructor
    · exact h.open_braces
    · exact h.diagnostics
    · exact h.trees.change fun herrors => herrors.changeAt t.text s.lastClosed
  | added _ hopens hcloses =>
    rw [b.add_other hopens hcloses]
    exact ⟨h.open_braces, h.diagnostics, h.trees⟩

theorem reports_run (file : String) (tokens : List Token) :
    Reports file (braces tokens) (tokens.foldl (State.add file) .start) := by
  refine run_induction (P := fun front s => Reports file (braces front) s) ?_ ?_ ?_ tokens
  · exact ⟨rfl, rfl, errorsAt_nil_iff.2 (by simp [start])⟩
  · exact Reports.flush
  · intro front s t s' h hstep
    rw [braces_append_singleton]
    exact h.step hstep

/-- Closing what is open reports each brace and brings in no error node. -/
theorem closeAll_reports (last : Token) (h : Layered spans s.trees frames) :
    (closeAll file last s frames).diagnostics
        = s.diagnostics ++ (frames.map Frame.brace).map unterminated ∧
      ErrorsAt spans (closeAll file last s frames).trees := by
  induction frames generalizing s with
  | nil => exact ⟨by simp [closeAll], h⟩
  | cons f frames ih =>
    have hlayered : Layered spans (s.report (unterminated f.brace)).trees (f :: frames) := h
    obtain ⟨hdiagnostics, herrors⟩ := ih (hlayered.closed (closed_closeFrame file _ f frames last))
    rw [closeAll_cons]
    refine ⟨?_, herrors⟩
    rw [hdiagnostics, closeFrame_diagnostics, List.map_cons, List.map_cons]
    exact List.append_assoc _ _ _

theorem ofTokens_reports (file : String) (tokens : List Token) :
    (ofTokens file tokens).diagnostics
        = (braces tokens).strays.map unexpected ++ (braces tokens).unclosed.map unterminated ∧
      ErrorsAt ((braces tokens).strays.map (spanOf file)) (ofTokens file tokens).trees := by
  have hrun := (reports_run file tokens).flush
  unfold ofTokens
  dsimp only
  cases hlast : tokens.getLast? with
  | none =>
    rw [List.getLast?_eq_none_iff] at hlast
    rw [hlast] at hrun ⊢
    exact ⟨hrun.diagnostics.trans (by simp), hrun.trees⟩
  | some last =>
    rw [← hrun.diagnostics, ← hrun.open_braces]
    exact closeAll_reports last hrun.trees

/-- The problems are the braces without a counterpart. -/
theorem diagnostics_ofTokens (file : String) (tokens : List Token) :
    (ofTokens file tokens).diagnostics
      = (braces tokens).strays.map unexpected ++ (braces tokens).unclosed.map unterminated :=
  (ofTokens_reports file tokens).1

theorem errorsAt_ofTokens (file : String) (tokens : List Token) :
    ErrorsAt ((braces tokens).strays.map (spanOf file)) (ofTokens file tokens).trees :=
  (ofTokens_reports file tokens).2

end State

end Outline

end CodeHabits
