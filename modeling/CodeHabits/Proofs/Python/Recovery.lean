import CodeHabits.Proofs.Concrete.Lowers
import CodeHabits.Proofs.Python.Lowering

/-!
# `CodeHabits.Proofs.Python.Recovery`: what is read of a source

A source that breaks the grammar is read chunk by chunk. `recovered` states what a run over
the chunks adds, whatever the budget (`recovered_of_run`), and `tree_of_build` what is below
the root of any source that is read. Without a limit there is a tree unless a chunk is
refused (`exists_run`).

The trees below the root are for the statements that are read (`statementsRead`) and for the
chunks that break the grammar (`mem_sourceTrees`). What problems and docstrings have no part
in is the same as if every statement were lowered by itself (`flatMap_children_of_build`).

`recovery_agrees` compares the two ways in which a statement may be read: with the source as
a whole, or in a chunk of a source that breaks the grammar. The chunks in front of the first
problem give the trees that their statements would give in one piece, with one exception:
whether a docstring may follow is asked of chunks there and of statements here, and a chunk
that is all comments has no statement. That is the only thing the two disagree about.
-/

set_option autoImplicit false

/-! ## Trees and statements -/

namespace CodeHabits.Python

variable {read : String → Reading} {source file language : String}

/-! ### Runs over the chunks -/

section

variable (read : String → Reading) (file : String)

/-- The statements of a chunk, where they are in the source. -/
def Chunk.moved (chunk : Chunk) (body : List Stmt) : List Stmt :=
  body.map (Stmt.down (chunk.firstLine - 1))

/-- The trees for chunks: a chunk that breaks the grammar gives a node for the problem, and
only at the start of the file a docstring is left out. -/
def recovered (depth : Nat) (atStart : Bool) : List Chunk → List Tree
  | [] => []
  | chunk :: rest =>
    if chunk.isBlank then recovered depth atStart rest
    else match read chunk.text with
      | .refused => []
      | .broken message line? column? =>
        chunk.errorTree file (chunk.problem message line? column?) :: recovered depth false rest
      | .statements body =>
        (if atStart then withoutDocstring (chunk.moved body) else chunk.moved body).map
            (treeOf file depth)
          ++ recovered depth false rest

/-- Whether a chunk that is not blank can be read, well or badly. -/
def Chunk.Legible (chunk : Chunk) : Prop :=
  chunk.isBlank = false → read chunk.text ≠ .refused

end

/-- What a run over chunks adds is what is recovered of them, and it ends well only if every
chunk can be read. -/
theorem recovered_of_run {chunks : List Chunk} {ps qs : Pieces} {budget : Budget}
    {used left : Nat}
    (h : (chunks.foldlM (Pieces.add read file) ps).runFrom budget used = (.ok qs, left)) :
    qs.trees = ps.trees ++ recovered read file ps.depth ps.atStart chunks ∧
      ∀ chunk ∈ chunks, chunk.Legible read := by
  induction chunks generalizing ps used with
  | nil =>
    cases h
    rw [recovered, List.append_nil]
    exact ⟨rfl, by simp⟩
  | cons chunk rest ih =>
    rw [List.foldlM_cons] at h
    obtain ⟨next, middle, hadd, hrest⟩ := Timed.runFrom_bind_eq_ok h
    obtain ⟨_, looked, _, hadd⟩ := Timed.runFrom_bind_eq_ok hadd
    obtain ⟨hnext, hlegible⟩ := ih hrest
    rw [recovered, List.forall_mem_cons]
    by_cases hblank : chunk.isBlank = true
    · rw [if_pos hblank] at hadd ⊢
      cases hadd
      exact ⟨hnext, fun h => absurd hblank (by simp [h]), hlegible⟩
    · rw [if_neg hblank] at hadd ⊢
      cases hread : read chunk.text with
      | refused =>
        rw [hread] at hadd
        cases hadd
      | broken message line? column? =>
        rw [hread] at hadd
        cases hadd
        rw [hnext, List.append_assoc]
        exact ⟨rfl, fun _ => by simp [hread], hlegible⟩
      | statements body =>
        rw [hread] at hadd
        dsimp only at hadd
        -- The count of classes is back where it was, so the next chunk starts with the same.
        rw [run_chunkStatements, Stmt.downAll_eq] at hadd
        obtain ⟨_, _, _, hadd⟩ := Timed.runFrom_bind_eq_ok hadd
        cases hadd
        rw [hnext, List.append_assoc]
        exact ⟨rfl, fun _ => by simp [hread], hlegible⟩

/-- Without a limit there is a result if every chunk can be read, well or badly. -/
theorem exists_run (file : String) {chunks : List Chunk}
    (hchunks : ∀ chunk ∈ chunks, chunk.Legible read) (ps : Pieces) (used : Nat) :
    ∃ qs left, (chunks.foldlM (Pieces.add read file) ps).runFrom .unlimited used
      = (.ok qs, left) := by
  induction chunks generalizing ps used with
  | nil => exact ⟨ps, used, rfl⟩
  | cons chunk rest ih =>
    obtain ⟨hchunk, hrest⟩ := List.forall_mem_cons.1 hchunks
    have hcheck : Timed.check.runFrom .unlimited used = (.ok (), used + 1) := rfl
    have hadd : ∃ next middle, (ps.add read file chunk).runFrom .unlimited used
        = (.ok next, middle) := by
      rw [Pieces.add, Timed.runFrom_bind_ok hcheck]
      by_cases hblank : chunk.isBlank = true
      · rw [if_pos hblank]
        exact ⟨ps, used + 1, rfl⟩
      · rw [if_neg hblank]
        cases hread : read chunk.text with
        | refused => exact absurd hread (hchunk (by simpa using hblank))
        | broken message line? column? => exact ⟨_, used + 1, rfl⟩
        | statements body =>
          dsimp only
          rw [run_chunkStatements, Timed.runFrom_bind_ok (Timed.runFrom_checkTimes _ _)]
          exact ⟨_, _, rfl⟩
    obtain ⟨next, middle, hadd⟩ := hadd
    rw [List.foldlM_cons, Timed.runFrom_bind_ok hadd]
    exact ih hrest next middle

/-- The trees right below the root, if reading the source gives any. -/
def sourceTrees (read : String → Reading) (source file : String) : List Tree :=
  match read source with
  | .statements body => treesOf file 0 body
  | .broken _ _ _ => recovered read file 0 true (splitTopLevel source)
  | .refused => []

theorem tree_of_build {budget : Budget} {parsed : Parsed} {looks : Nat}
    (h : (build read source file language).outcome budget = (.ok parsed, looks)) :
    parsed.tree = Parsed.moduleTree source file (sourceTrees read source file) := by
  rw [sourceTrees]
  unfold build at h
  cases hread : read source with
  | refused =>
    rw [hread] at h
    cases h
  | statements body =>
    rw [hread] at h
    obtain ⟨_, _, _, h⟩ := Timed.runFrom_bind_eq_ok h
    obtain ⟨_, _, _, h⟩ := Timed.runFrom_bind_eq_ok h
    cases h
    rfl
  | broken message line? column? =>
    rw [hread] at h
    obtain ⟨pieces, _, hchunks, h⟩ := Timed.runFrom_bind_eq_ok h
    cases h
    rw [(recovered_of_run hchunks).1]
    rfl

theorem legible_of_build {budget : Budget} {parsed : Parsed} {looks : Nat} {message : String}
    {line? column? : Option Int}
    (h : (build read source file language).outcome budget = (.ok parsed, looks))
    (hsource : read source = .broken message line? column?) :
    ∀ chunk ∈ splitTopLevel source, chunk.Legible read := by
  unfold build at h
  rw [hsource] at h
  obtain ⟨pieces, _, hchunks, _⟩ := Timed.runFrom_bind_eq_ok h
  exact (recovered_of_run hchunks).2

theorem exists_build_of_statements (file language : String) {body : List Stmt}
    (h : read source = .statements body) :
    ∃ parsed looks, (build read source file language).outcome .unlimited = (.ok parsed, looks) := by
  have hcheck : Timed.check.runFrom .unlimited 0 = (.ok (), 1) := rfl
  show ∃ parsed looks, (build read source file language).runFrom .unlimited 0 = (.ok parsed, looks)
  rw [build, h]
  dsimp only
  rw [Timed.runFrom_bind_ok hcheck, run_block]
  dsimp only
  rw [Timed.runFrom_bind_ok (Timed.runFrom_checkTimes _ _)]
  exact ⟨_, _, rfl⟩

theorem exists_build_of_broken (file language : String) {message : String}
    {line? column? : Option Int} (h : read source = .broken message line? column?)
    (hchunks : ∀ chunk ∈ splitTopLevel source, chunk.Legible read) :
    ∃ parsed looks, (build read source file language).outcome .unlimited = (.ok parsed, looks) := by
  obtain ⟨pieces, left, hrun⟩ := exists_run file hchunks ⟨[], [], 0, 0, true⟩ 0
  show ∃ parsed looks, (build read source file language).runFrom .unlimited 0 = (.ok parsed, looks)
  rw [build, h]
  dsimp only
  rw [Timed.runFrom_bind_ok hrun]
  exact ⟨_, _, rfl⟩

/-! ### What the trees are for -/

section

variable (read : String → Reading)

/-- The statements of a chunk as it is read, where they are in the source. -/
def Chunk.statements (chunk : Chunk) : List Stmt :=
  if chunk.isBlank then []
  else match read chunk.text with
    | .statements body => chunk.moved body
    | _ => []

/-- The statements that are read of a source: all of it, or those of the chunks that can be
read. -/
def statementsRead (source : String) : List Stmt :=
  match read source with
  | .statements body => body
  | .broken _ _ _ => (splitTopLevel source).flatMap (Chunk.statements read)
  | .refused => []

end

theorem mem_recovered {depth : Nat} {atStart : Bool} {chunks : List Chunk} {t : Tree}
    (h : t ∈ recovered read file depth atStart chunks) :
    (∃ chunk ∈ chunks, ∃ problem, t = chunk.errorTree file problem) ∨
      ∃ stmt ∈ chunks.flatMap (Chunk.statements read), t = treeOf file depth stmt := by
  induction chunks generalizing atStart with
  | nil => cases h
  | cons chunk rest ih =>
    have hrest {atStart : Bool} (h : t ∈ recovered read file depth atStart rest) :
        (∃ c ∈ chunk :: rest, ∃ problem, t = c.errorTree file problem) ∨
          ∃ stmt ∈ (chunk :: rest).flatMap (Chunk.statements read), t = treeOf file depth stmt := by
      refine (ih h).imp ?_ ?_
      · rintro ⟨c, hc, hproblem⟩
        exact ⟨c, List.mem_cons_of_mem chunk hc, hproblem⟩
      · rintro ⟨stmt, hstmt, ht⟩
        exact ⟨stmt, List.mem_append_right _ hstmt, ht⟩
    rw [recovered] at h
    by_cases hblank : chunk.isBlank = true
    · rw [if_pos hblank] at h
      exact hrest h
    · rw [if_neg hblank] at h
      cases hread : read chunk.text with
      | refused =>
        rw [hread] at h
        cases h
      | broken message line? column? =>
        rw [hread] at h
        rcases List.mem_cons.1 h with rfl | h
        · exact .inl ⟨chunk, List.mem_cons_self, _, rfl⟩
        · exact hrest h
      | statements body =>
        rw [hread] at h
        rcases List.mem_append.1 h with h | h
        · obtain ⟨stmt, hstmt, rfl⟩ := List.mem_map.1 h
          refine .inr ⟨stmt, List.mem_append_left _ ?_, rfl⟩
          rw [Chunk.statements, if_neg hblank, hread]
          split at hstmt
          · exact mem_of_mem_withoutDocstring hstmt
          · exact hstmt
        · exact hrest h

/-- A tree below the root is for a chunk that breaks the grammar or for a statement read. -/
theorem mem_sourceTrees {t : Tree} (h : t ∈ sourceTrees read source file) :
    (∃ chunk ∈ splitTopLevel source, ∃ problem, t = chunk.errorTree file problem) ∨
      ∃ stmt ∈ statementsRead read source, t = treeOf file 0 stmt := by
  rw [sourceTrees] at h
  rw [statementsRead]
  cases hread : read source with
  | refused =>
    rw [hread] at h
    cases h
  | statements body =>
    rw [hread] at h
    dsimp only at h
    rw [treesOf_eq] at h
    obtain ⟨stmt, hstmt, rfl⟩ := List.mem_map.1 h
    exact .inr ⟨stmt, mem_of_mem_withoutDocstring hstmt, rfl⟩
  | broken message line? column? =>
    rw [hread] at h
    exact mem_recovered h

section

variable {β : Type} {f : Tree → List β}

theorem flatMap_withoutDocstring {depth : Nat}
    (hdocstring : ∀ t : Stmt, t.isDocstring = true → f (treeOf file depth t) = [])
    (body : List Stmt) :
    ((withoutDocstring body).map (treeOf file depth)).flatMap f
      = body.flatMap fun t => f (treeOf file depth t) := by
  cases body with
  | nil => rfl
  | cons first rest =>
    rw [withoutDocstring]
    split
    · rw [List.flatMap_cons, hdocstring first ‹_›, List.nil_append, List.flatMap_map]
    · rw [List.flatMap_map]

theorem flatMap_recovered {depth : Nat} {atStart : Bool} {chunks : List Chunk}
    (hchunks : ∀ chunk ∈ chunks, chunk.Legible read)
    (hproblem : ∀ chunk : Chunk, ∀ problem, f (chunk.errorTree file problem) = [])
    (hdocstring : ∀ t : Stmt, t.isDocstring = true → f (treeOf file depth t) = []) :
    (recovered read file depth atStart chunks).flatMap f
      = (chunks.flatMap (Chunk.statements read)).flatMap fun t => f (treeOf file depth t) := by
  induction chunks generalizing atStart with
  | nil => rfl
  | cons chunk rest ih =>
    obtain ⟨hchunk, hrest⟩ := List.forall_mem_cons.1 hchunks
    rw [recovered, List.flatMap_cons, List.flatMap_append, Chunk.statements]
    by_cases hblank : chunk.isBlank = true
    · rw [if_pos hblank, if_pos hblank, ih hrest]
      rfl
    · rw [if_neg hblank, if_neg hblank]
      cases hread : read chunk.text with
      | refused => exact absurd hread (hchunk (by simpa using hblank))
      | broken message line? column? =>
        dsimp only
        rw [List.flatMap_cons, hproblem, ih hrest]
        rfl
      | statements body =>
        dsimp only
        rw [List.flatMap_append, ih hrest]
        congr 1
        split
        · exact flatMap_withoutDocstring hdocstring _
        · rw [List.flatMap_map]

/-- What is taken from the trees of a source, but not from problems and docstrings, is taken
from the statements that are read one by one. -/
theorem flatMap_children_of_build {budget : Budget} {parsed : Parsed}
    {looks : Nat} (h : (build read source file language).outcome budget = (.ok parsed, looks))
    (hproblem : ∀ chunk : Chunk, ∀ problem, f (chunk.errorTree file problem) = [])
    (hdocstring : ∀ t : Stmt, t.isDocstring = true → f (treeOf file 0 t) = []) :
    parsed.tree.children.flatMap f
      = (statementsRead read source).flatMap fun t => f (treeOf file 0 t) := by
  rw [tree_of_build h]
  show (sourceTrees read source file).flatMap f = _
  rw [sourceTrees, statementsRead]
  cases hread : read source with
  | refused => rfl
  | statements body =>
    dsimp only
    rw [treesOf_eq, flatMap_withoutDocstring hdocstring]
  | broken message line? column? =>
    exact flatMap_recovered (legible_of_build h hread) hproblem hdocstring

end

end CodeHabits.Python

/-! ## Recovery and the whole file -/

namespace CodeHabits.Python

variable {read : String → Reading} {source file language : String}

section

variable (read : String → Reading)

/-- The statements of the chunks before the first one that breaks the grammar, where they are
in the source. -/
def statementsBeforeProblem : List Chunk → List Stmt
  | [] => []
  | chunk :: rest =>
    if chunk.isBlank then statementsBeforeProblem rest
    else match read chunk.text with
      | .statements body => chunk.moved body ++ statementsBeforeProblem rest
      | _ => []

/-- The first chunk that is not blank has no statement: it is all comments. -/
def StartsWithoutStatement (chunks : List Chunk) : Prop :=
  ∃ chunk ∈ chunks.find? fun c => !c.isBlank, read chunk.text = .statements []

/-- The first statement is a docstring, but not in the first chunk. -/
def LateDocstring (chunks : List Chunk) : Prop :=
  StartsWithoutStatement read chunks ∧
    ∃ first ∈ (statementsBeforeProblem read chunks).head?, first.isDocstring = true

end

/-- Trees for statements are no nodes for problems. -/
theorem takeWhile_append_trees (depth : Nat) (body : List Stmt) (trees : List Tree) :
    (body.map (treeOf file depth) ++ trees).takeWhile (fun t => t.tag ≠ .error)
      = body.map (treeOf file depth) ++ trees.takeWhile (fun t => t.tag ≠ .error) := by
  refine List.takeWhile_append_of_pos fun t ht => ?_
  obtain ⟨stmt, -, rfl⟩ := List.mem_map.1 ht
  rw [tag_treeOf]
  exact decide_eq_true stmt.tag_ne.1

/-- Once a chunk has been read, nothing is left out up to the first problem. -/
theorem takeWhile_recovered_later (depth : Nat) (chunks : List Chunk) :
    (recovered read file depth false chunks).takeWhile (fun t => t.tag ≠ .error)
      = (statementsBeforeProblem read chunks).map (treeOf file depth) := by
  induction chunks with
  | nil => rfl
  | cons chunk rest ih =>
    rw [recovered, statementsBeforeProblem]
    by_cases hblank : chunk.isBlank = true
    · rw [if_pos hblank, if_pos hblank, ih]
    · rw [if_neg hblank, if_neg hblank]
      cases read chunk.text with
      | refused => rfl
      | broken message line? column? => rfl
      | statements body =>
        dsimp only
        rw [if_neg Bool.false_ne_true, takeWhile_append_trees, ih, List.map_append]

theorem withoutDocstring_append {body : List Stmt} (h : body ≠ []) (more : List Stmt) :
    withoutDocstring (body ++ more) = withoutDocstring body ++ more := by
  cases body with
  | nil => exact absurd rfl h
  | cons first rest =>
    rw [List.cons_append, withoutDocstring, withoutDocstring]
    split
    · rfl
    · rfl

theorem startsWithoutStatement_of_blank {chunk : Chunk} (h : chunk.isBlank = true)
    (rest : List Chunk) :
    StartsWithoutStatement read (chunk :: rest) ↔ StartsWithoutStatement read rest := by
  simp [StartsWithoutStatement, h]

theorem startsWithoutStatement_iff {chunk : Chunk} (h : chunk.isBlank = false)
    (rest : List Chunk) :
    StartsWithoutStatement read (chunk :: rest) ↔ read chunk.text = .statements [] := by
  simp [StartsWithoutStatement, h]

/-- If the first chunk is all comments, nothing at all is left out. -/
theorem takeWhile_recovered_of_comments {depth : Nat} {chunks : List Chunk}
    (h : StartsWithoutStatement read chunks) :
    (recovered read file depth true chunks).takeWhile (fun t => t.tag ≠ .error)
      = (statementsBeforeProblem read chunks).map (treeOf file depth) := by
  induction chunks with
  | nil => rfl
  | cons chunk rest ih =>
    rw [recovered, statementsBeforeProblem]
    by_cases hblank : chunk.isBlank = true
    · rw [if_pos hblank, if_pos hblank]
      exact ih ((startsWithoutStatement_of_blank hblank rest).1 h)
    · rw [if_neg hblank, if_neg hblank]
      rw [Bool.not_eq_true] at hblank
      rw [(startsWithoutStatement_iff hblank rest).1 h]
      exact takeWhile_recovered_later depth rest

/-- Otherwise a docstring is left out and nothing else. -/
theorem takeWhile_recovered_of_statement {depth : Nat} {chunks : List Chunk}
    (h : ¬ StartsWithoutStatement read chunks) :
    (recovered read file depth true chunks).takeWhile (fun t => t.tag ≠ .error)
      = (withoutDocstring (statementsBeforeProblem read chunks)).map (treeOf file depth) := by
  induction chunks with
  | nil => rfl
  | cons chunk rest ih =>
    rw [recovered, statementsBeforeProblem]
    by_cases hblank : chunk.isBlank = true
    · rw [if_pos hblank, if_pos hblank]
      exact ih (mt (startsWithoutStatement_of_blank hblank rest).2 h)
    · rw [if_neg hblank, if_neg hblank]
      rw [Bool.not_eq_true] at hblank
      rw [startsWithoutStatement_iff hblank] at h
      cases hread : read chunk.text with
      | refused => rfl
      | broken message line? column? => rfl
      | statements body =>
        have hbody : chunk.moved body ≠ [] := by
          intro hempty
          rw [List.map_eq_nil_iff.1 hempty] at hread
          exact h hread
        dsimp only
        rw [if_pos rfl, takeWhile_append_trees, takeWhile_recovered_later, ← List.map_append,
          withoutDocstring_append hbody]

/-- The trees up to the first problem, and those for the same statements in one piece, as
lists of statements. -/
theorem takeWhile_recovered_iff (chunks : List Chunk) :
    ((recovered read file 0 true chunks).takeWhile (fun t => t.tag ≠ .error)
        = treesOf file 0 (statementsBeforeProblem read chunks) ↔ ¬ LateDocstring read chunks) ∧
    (LateDocstring read chunks →
      ∃ docstring ∈ (statementsBeforeProblem read chunks).head?, docstring.isDocstring = true ∧
        (recovered read file 0 true chunks).takeWhile (fun t => t.tag ≠ .error)
          = treeOf file 0 docstring :: treesOf file 0 (statementsBeforeProblem read chunks)) := by
  rw [treesOf_eq]
  by_cases hstart : StartsWithoutStatement read chunks
  · rw [takeWhile_recovered_of_comments hstart]
    cases hknown : statementsBeforeProblem read chunks with
    | nil => simp [LateDocstring, hknown, withoutDocstring]
    | cons first rest =>
      by_cases hdocstring : first.isDocstring = true
      · simp [LateDocstring, hstart, hknown, withoutDocstring, hdocstring]
      · simp [LateDocstring, hknown, withoutDocstring, hdocstring]
  · rw [takeWhile_recovered_of_statement hstart]
    simp [LateDocstring, hstart]

/-- Up to the first chunk that breaks the grammar, a source is read as it would be if these
chunks were all: the trees in front of the first node for a problem are those of a file
with the statements of these chunks. The exception is a docstring behind a chunk that is all
comments: it is not left out then, and its tree is in front of all others. -/
theorem recovery_agrees (file language : String) {message : String} {line? column? : Option Int}
    (hsource : read source = .broken message line? column?)
    (hchunks : ∀ chunk ∈ splitTopLevel source, chunk.Legible read) :
    ∃ parsed whole looks more,
      (build read source file language).outcome .unlimited = (.ok parsed, looks) ∧
      (build (fun _ => .statements (statementsBeforeProblem read (splitTopLevel source)))
        source file language).outcome .unlimited = (.ok whole, more) ∧
      (parsed.tree.children.takeWhile (fun t => t.tag ≠ .error) = whole.tree.children ↔
        ¬ LateDocstring read (splitTopLevel source)) ∧
      (LateDocstring read (splitTopLevel source) →
        ∃ docstring ∈ (statementsBeforeProblem read (splitTopLevel source)).head?,
          docstring.isDocstring = true ∧
            parsed.tree.children.takeWhile (fun t => t.tag ≠ .error)
              = treeOf file 0 docstring :: whole.tree.children) := by
  obtain ⟨parsed, looks, hparsed⟩ := exists_build_of_broken file language hsource hchunks
  have hwhole : ∃ whole more, (build (fun _ => .statements
      (statementsBeforeProblem read (splitTopLevel source))) source file language).outcome
      .unlimited = (.ok whole, more) := exists_build_of_statements file language rfl
  obtain ⟨whole, more, hwhole⟩ := hwhole
  refine ⟨parsed, whole, looks, more, hparsed, hwhole, ?_⟩
  have hpieces : parsed.tree.children = recovered read file 0 true (splitTopLevel source) := by
    rw [tree_of_build hparsed, sourceTrees, hsource]
    rfl
  have hall : whole.tree.children
      = treesOf file 0 (statementsBeforeProblem read (splitTopLevel source)) := by
    rw [tree_of_build hwhole]
    rfl
  rw [hpieces, hall]
  exact takeWhile_recovered_iff (splitTopLevel source)

/-- A comment, a docstring below it, a statement, and a parenthesis that stays open. -/
def notedSource : String :=
  "# note\n\"Doc.\"\ny = 1\nx = (\n"

/-- What reading the source and its chunks answers. -/
def notedReading (text : String) : Reading :=
  if text = "# note" then .statements []
  else if text = "\"Doc.\"" then
    .statements [.expression ⟨1, 0, 1, 6⟩ (.constant ⟨1, 0, 1, 6⟩ true)]
  else if text = "y = 1" then
    .statements [.assign ⟨1, 0, 1, 5⟩ false [.name ⟨1, 0, 1, 1⟩ "y"]
      (some (.constant ⟨1, 4, 1, 5⟩ false))]
  else .broken "invalid syntax" (some (if text = notedSource then 4 else 1)) (some 5)

/-- The chunk of the comment takes the docstring's turn. -/
theorem recovery_agrees_of_comment :
    notedReading notedSource = .broken "invalid syntax" (some 4) (some 5) ∧
      (∀ chunk ∈ splitTopLevel notedSource, chunk.Legible notedReading) ∧
      LateDocstring notedReading (splitTopLevel notedSource) ∧
      ∃ parsed whole looks more,
        (build notedReading notedSource "a.py" "python").outcome .unlimited
          = (.ok parsed, looks) ∧
        (build (fun _ => .statements
            (statementsBeforeProblem notedReading (splitTopLevel notedSource)))
          notedSource "a.py" "python").outcome .unlimited = (.ok whole, more) ∧
        parsed.tree.children.takeWhile (fun t => t.tag ≠ .error) ≠ whole.tree.children := by
  have hchunks : splitTopLevel notedSource = [⟨1, ["# note".toList]⟩, ⟨2, ["\"Doc.\"".toList]⟩,
      ⟨3, ["y = 1".toList]⟩, ⟨4, ["x = (".toList, []]⟩] := by
    decide +kernel
  have hsource : notedReading notedSource = .broken "invalid syntax" (some 4) (some 5) := by
    rw [notedReading, if_neg (by decide +kernel), if_neg (by decide +kernel),
      if_neg (by decide +kernel), if_pos rfl]
  have hnote : notedReading (Chunk.text ⟨1, ["# note".toList]⟩) = .statements [] := by
    rw [notedReading, if_pos (by decide +kernel)]
  have hdocstring : notedReading (Chunk.text ⟨2, ["\"Doc.\"".toList]⟩)
      = .statements [.expression ⟨1, 0, 1, 6⟩ (.constant ⟨1, 0, 1, 6⟩ true)] := by
    rw [notedReading, if_neg (by decide +kernel), if_pos (by decide +kernel)]
  have hlegible : ∀ chunk ∈ splitTopLevel notedSource, chunk.Legible notedReading := by
    intro chunk _ _
    unfold notedReading
    split
    · simp
    · split
      · simp
      · split <;> simp
  have hlate : LateDocstring notedReading (splitTopLevel notedSource) := by
    rw [hchunks]
    have hblank : ∀ chunk ∈ ([⟨1, ["# note".toList]⟩, ⟨2, ["\"Doc.\"".toList]⟩] : List Chunk),
        ¬ chunk.isBlank = true := by decide +kernel
    simp only [List.forall_mem_cons] at hblank
    constructor
    · exact (startsWithoutStatement_iff (by simpa using hblank.1) _).2 hnote
    · rw [statementsBeforeProblem, if_neg hblank.1, hnote, statementsBeforeProblem,
        if_neg hblank.2.1, hdocstring]
      exact ⟨_, rfl, rfl⟩
  obtain ⟨parsed, whole, looks, more, hparsed, hwhole, hagrees, -⟩ :=
    recovery_agrees "a.py" "python" hsource hlegible
  exact ⟨hsource, hlegible, hlate, parsed, whole, looks, more, hparsed, hwhole,
    fun h => hagrees.1 h hlate⟩

end CodeHabits.Python
