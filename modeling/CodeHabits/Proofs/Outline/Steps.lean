import CodeHabits.Outline.Builder
import CodeHabits.Proofs.Outline.Braces

/-!
# `CodeHabits.Proofs.Outline.Steps`: what the builder does with a token

Taking in a token is one of six things (`State.Step`), after the statement at hand may have
been ended. What the start has, and what the end of a statement and each of these things
keep, every run has (`State.run_induction`). The tokens taken in so far are told along with
the state, so that an invariant may say what the state has to do with them.
-/

set_option autoImplicit false

namespace CodeHabits.Outline

/-- A semicolon. -/
def ends (t : Token) : Bool :=
  t.kind == .punct && t.text == ";"

theorem opens_eq_false_of_ends {t : Token} (h : ends t = true) : opens t = false := by
  simp only [ends, Bool.and_eq_true, beq_iff_eq] at h
  simp [opens, h.2]

theorem closes_eq_false_of_ends {t : Token} (h : ends t = true) : closes t = false := by
  simp only [ends, Bool.and_eq_true, beq_iff_eq] at h
  simp [closes, h.2]

/-- The problem of a closing brace that closes nothing. -/
def unexpected (brace : Token) : Diagnostic :=
  ⟨"Unexpected '\x7d'", brace.line, brace.column⟩

/-- The problem of a brace that is not closed. -/
def unterminated (brace : Token) : Diagnostic :=
  ⟨"Unterminated block", brace.line, brace.column⟩

namespace Frame

variable (f : Frame)

/-- What has been built outside of a brace, with more trees where its block goes. -/
def placed (new : List Tree) : List Tree :=
  changeBelow (· ++ new) f.destination f.outer

/-- The way to a tree in a block, after the block has become the tree of a statement. -/
def below (path : Path) : Path :=
  if path.isEmpty then [] else f.destination ++ countBelow f.destination f.outer :: path

/-- The way to a tree in a block, after its trees have been put below the statement that a
clause continues. -/
def beside (path : Path) : Path :=
  if path.isEmpty then []
  else f.destination ++ path.moved (countBelow f.destination f.outer)

variable {f} {path : Path}

@[simp] theorem below_eq_nil_iff : f.below path = [] ↔ path = [] := by
  cases path <;> simp [below]

@[simp] theorem beside_eq_nil_iff : f.beside path = [] ↔ path = [] := by
  cases path <;> simp [beside, Path.moved]

end Frame

theorem length_changeBelow (new : List Tree) (path : Path) (trees : List Tree) :
    (changeBelow (· ++ new) path trees).length
      = trees.length + if path = [] then new.length else 0 := by
  cases path <;> simp [changeBelow]

theorem length_changeAt (change : Tree → Tree) (path : Path) (trees : List Tree) :
    (changeAt change path trees).length = trees.length := by
  match path with
  | [] => rfl
  | [i] => simp [changeAt]
  | i :: j :: path => simp [changeAt]

namespace State

variable (file : String)

/-- Reports a closing brace that closes nothing. -/
def stray (s : State) (close : Token) : State :=
  { s with
    trees := s.trees ++ [Parsed.errorTree file (unexpected close) close.endLine close.endColumn]
    diagnostics := s.diagnostics ++ [unexpected close] }

/-- Reports a problem. -/
def report (s : State) (problem : Diagnostic) : State :=
  { s with diagnostics := s.diagnostics ++ [problem] }

/-- Lets a clause continue the statement whose block was closed last. -/
def resume (s : State) (word : String) : State :=
  { s with
    trees := changeAt (markClause word) s.lastClosed s.trees
    lastClosed := []
    clause := s.lastClosed }

/-- What the builder does with a token that begins no other line. -/
inductive Step (s : State) (t : Token) : State → Prop
  | ended (h : ends t = true) : Step s t (s.flush file)
  | opened (h : opens t = true) : Step s t (s.openBrace t)
  | closed {f : Frame} {frames : List Frame} (h : closes t = true)
      (hframes : s.frames = f :: frames) : Step s t ((s.flush file).closeFrame file f frames t)
  | stray (h : closes t = true) (hframes : s.frames = []) : Step s t ((s.flush file).stray file t)
  | resumed (hends : ends t = false) (hopens : opens t = false) (hcloses : closes t = false)
      (hcurrent : s.current = []) (hlast : s.lastClosed ≠ []) (hword : t.text ∈ clauseWords) :
      Step s t (s.resume t.text)
  | added (hends : ends t = false) (hopens : opens t = false) (hcloses : closes t = false)
      (hword : s.current = [] → s.lastClosed ≠ [] → t.text ∉ clauseWords) :
      Step s t { s with current := s.current ++ [t] }

/-- What closing a brace makes of its block. -/
inductive Closed (s : State) (f : Frame) (frames : List Frame) (close : Token) : State → Prop
  | owned {o : Owner} (howner : f.owner? = some o) :
      Closed s f frames close
        { s with
          trees := f.placed [statementTree file o.first o.rest o.brace close s.trees]
          frames
          lastClosed := f.destination ++ [countBelow f.destination f.outer]
          clause := f.below s.clause }
  | block (howner : f.owner? = none) (hdestination : f.destination = []) :
      Closed s f frames close
        { s with
          trees := f.placed [.node .block ⟨file, f.brace.line, f.brace.column, close.endLine,
            close.endColumn⟩ [] s.trees]
          frames
          lastClosed := []
          clause := f.below s.clause }
  | clause (howner : f.owner? = none) (hdestination : f.destination ≠ []) :
      Closed s f frames close
        { s with
          trees := f.placed s.trees
          frames
          lastClosed := f.destination
          clause := f.beside s.clause }

variable {file} {s : State}

@[simp] theorem flush_frames : (s.flush file).frames = s.frames := by
  unfold flush
  split <;> rfl

@[simp] theorem flush_diagnostics : (s.flush file).diagnostics = s.diagnostics := by
  unfold flush
  split <;> rfl

@[simp] theorem flush_current : (s.flush file).current = [] := by
  unfold flush
  split
  · assumption
  · rfl

theorem flush_of_nil (h : s.current = []) : s.flush file = s := by
  unfold flush
  rw [h]

theorem flush_clause (h : s.current ≠ []) : (s.flush file).clause = [] := by
  unfold flush
  split
  · contradiction
  · rfl

theorem flush_lastClosed (h : s.current ≠ []) : (s.flush file).lastClosed = [] := by
  unfold flush
  split
  · contradiction
  · rfl

/-- The end of a statement adds a tree outside of others unless it is part of a clause. -/
theorem length_trees_flush (h : s.current ≠ []) :
    (s.flush file).trees.length = s.trees.length + if s.clause = [] then 1 else 0 := by
  unfold flush
  split
  · contradiction
  · exact length_changeBelow _ s.clause s.trees

section

variable {f : Frame} {frames : List Frame} {close : Token}

theorem closeFrame_of_owner {o : Owner} (howner : f.owner? = some o) :
    s.closeFrame file f frames close =
      { s with
        trees := f.placed [statementTree file o.first o.rest o.brace close s.trees]
        frames
        lastClosed := f.destination ++ [countBelow f.destination f.outer]
        clause := f.below s.clause } := by
  unfold closeFrame
  rw [howner]
  rfl

theorem closeFrame_of_block (howner : f.owner? = none) (hdestination : f.destination = []) :
    s.closeFrame file f frames close =
      { s with
        trees := f.placed [.node .block ⟨file, f.brace.line, f.brace.column, close.endLine,
          close.endColumn⟩ [] s.trees]
        frames
        lastClosed := []
        clause := f.below s.clause } := by
  unfold closeFrame
  rw [howner]
  dsimp only
  rw [if_pos (List.isEmpty_iff.2 hdestination)]
  rfl

theorem closeFrame_of_clause (howner : f.owner? = none) (hdestination : f.destination ≠ []) :
    s.closeFrame file f frames close =
      { s with
        trees := f.placed s.trees
        frames
        lastClosed := f.destination
        clause := f.beside s.clause } := by
  unfold closeFrame
  rw [howner]
  dsimp only
  rw [if_neg fun hempty => hdestination (List.isEmpty_iff.1 hempty)]
  rfl

theorem closed_closeFrame (file : String) (s : State) (f : Frame) (frames : List Frame)
    (close : Token) : Closed file s f frames close (s.closeFrame file f frames close) := by
  cases howner : f.owner? with
  | some o =>
    rw [closeFrame_of_owner howner]
    exact .owned howner
  | none =>
    by_cases hdestination : f.destination = []
    · rw [closeFrame_of_block howner hdestination]
      exact .block howner hdestination
    · rw [closeFrame_of_clause howner hdestination]
      exact .clause howner hdestination

theorem Closed.frames_eq {s' : State} (h : Closed file s f frames close s') :
    s'.frames = frames := by
  cases h <;> rfl

theorem Closed.current {s' : State} (h : Closed file s f frames close s') :
    s'.current = s.current := by
  cases h <;> rfl

theorem Closed.diagnostics {s' : State} (h : Closed file s f frames close s') :
    s'.diagnostics = s.diagnostics := by
  cases h <;> rfl

/-- A block adds a tree outside of others unless it is part of a clause. -/
theorem Closed.length_trees {s' : State} (h : Closed file s f frames close s') :
    s'.trees.length = f.outer.length + if f.destination = [] then 1 else 0 := by
  cases h with
  | owned => exact length_changeBelow _ f.destination f.outer
  | block => exact length_changeBelow _ f.destination f.outer
  | clause _ hdestination =>
    refine (length_changeBelow _ f.destination f.outer).trans ?_
    rw [if_neg hdestination, if_neg hdestination]

theorem Closed.lastClosed_eq_nil_iff {s' : State} (h : Closed file s f frames close s') :
    s'.lastClosed = [] ↔ f.owner? = none ∧ f.destination = [] := by
  cases h with
  | owned howner => simp [howner]
  | block howner hdestination => simp [howner, hdestination]
  | clause howner => simp [howner]

theorem Closed.clause_eq_nil_iff {s' : State} (h : Closed file s f frames close s') :
    s'.clause = [] ↔ s.clause = [] := by
  cases h with
  | owned => exact Frame.below_eq_nil_iff
  | block => exact Frame.below_eq_nil_iff
  | clause => exact Frame.beside_eq_nil_iff

@[simp] theorem closeFrame_frames : (s.closeFrame file f frames close).frames = frames :=
  (closed_closeFrame file s f frames close).frames_eq

@[simp] theorem closeFrame_current : (s.closeFrame file f frames close).current = s.current :=
  (closed_closeFrame file s f frames close).current

@[simp] theorem closeFrame_diagnostics :
    (s.closeFrame file f frames close).diagnostics = s.diagnostics :=
  (closed_closeFrame file s f frames close).diagnostics

end

/-- Of the braces that are still open, the innermost is reported and closed first. -/
theorem closeAll_cons (last : Token) (s : State) (f : Frame) (frames : List Frame) :
    closeAll file last s (f :: frames)
      = closeAll file last ((s.report (unterminated f.brace)).closeFrame file f frames last)
          frames :=
  rfl

variable (file) in
theorem ofTokens_of_getLast {tokens : List Token} {last : Token}
    (h : tokens.getLast? = some last) :
    ofTokens file tokens =
      closeAll file last ((tokens.foldl (State.add file) .start).flush file)
        ((tokens.foldl (State.add file) .start).flush file).frames := by
  unfold ofTokens
  rw [h]

/-- Before a token the statement at hand may be ended. -/
theorem breakLine_cases (s : State) (t : Token) :
    s.breakLine file t = s ∨ s.breakLine file t = s.flush file := by
  unfold breakLine
  split
  · split
    · exact .inr rfl
    · exact .inl rfl
  · exact .inl rfl

theorem step_closeBrace (s : State) {t : Token} (h : closes t = true) :
    Step file s t (s.closeBrace file t) := by
  cases hframes : s.frames with
  | nil =>
    have hstray : s.closeBrace file t = (s.flush file).stray file t := by
      simp [closeBrace, hframes, stray, unexpected]
    rw [hstray]
    exact .stray h hframes
  | cons f frames =>
    have hclosed : s.closeBrace file t = (s.flush file).closeFrame file f frames t := by
      simp [closeBrace, hframes]
    rw [hclosed]
    exact .closed h hframes

theorem step_addToken (s : State) {t : Token} (hends : ends t = false) (hopens : opens t = false)
    (hcloses : closes t = false) : Step file s t (s.addToken t) := by
  unfold addToken
  split
  · rename_i h
    simp only [Bool.and_eq_true, List.isEmpty_iff, Bool.not_eq_true', List.isEmpty_eq_false_iff,
      List.contains_iff_mem] at h
    exact .resumed hends hopens hcloses h.1.1 h.1.2 h.2
  · rename_i h
    refine .added hends hopens hcloses fun hcurrent hlast hword => h ?_
    simp [hcurrent, hlast, hword]

variable (file) in
/-- What is done with a token that begins no other line, by its kind. -/
def take (s : State) (t : Token) : State :=
  if ends t then s.flush file
  else if opens t then s.openBrace t
  else if closes t then s.closeBrace file t
  else s.addToken t

theorem add_eq_take (s : State) (t : Token) :
    s.add file t = (s.breakLine file t).take file t :=
  rfl

theorem step_take (s : State) (t : Token) : Step file s t (s.take file t) := by
  unfold take
  split
  · rename_i hends
    exact .ended hends
  split
  · rename_i hopens
    exact .opened hopens
  split
  · rename_i hcloses
    exact step_closeBrace s hcloses
  · rename_i hends hopens hcloses
    rw [Bool.not_eq_true] at hends hopens hcloses
    exact step_addToken s hends hopens hcloses

theorem step_add (s : State) (t : Token) : Step file (s.breakLine file t) t (s.add file t) :=
  step_take _ t

/-- A semicolon or a closing brace leaves no statement at hand. -/
theorem Step.current_eq_nil {t : Token} {s' : State} (h : Step file s t s')
    (hlast : Outline.ends t = true ∨ Outline.closes t = true) : s'.current = [] := by
  cases h with
  | ended => exact flush_current
  | opened hopens =>
    rcases hlast with hends | hcloses
    · rw [opens_eq_false_of_ends hends] at hopens
      cases hopens
    · rw [opens_eq_false_of_closes hcloses] at hopens
      cases hopens
  | closed => rw [closeFrame_current, flush_current]
  | stray => exact flush_current
  | resumed _ _ _ hcurrent => exact hcurrent
  | added hends _ hcloses => simp [hends, hcloses] at hlast

/-- A run keeps what ending a statement and each step keep. -/
theorem run_induction {P : List Token → State → Prop} (start : P [] .start)
    (flush : ∀ {front s}, P front s → P front (s.flush file))
    (step : ∀ {front s t s'}, P front s → Step file s t s' → P (front ++ [t]) s')
    (tokens : List Token) : P tokens (tokens.foldl (State.add file) .start) := by
  induction tokens using List.reverseRecOn with
  | nil => exact start
  | append_singleton front t ih =>
    rw [List.foldl_append, List.foldl_cons, List.foldl_nil]
    refine step ?_ (step_add _ t)
    rcases breakLine_cases (front.foldl (State.add file) .start) t with h | h
    · rw [h]
      exact ih
    · rw [h]
      exact flush ih

end State

end CodeHabits.Outline
