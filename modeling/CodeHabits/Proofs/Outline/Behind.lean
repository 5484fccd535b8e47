import CodeHabits.Proofs.Outline.Steps

/-!
# `CodeHabits.Proofs.Outline.Behind`: more trees in front

The builder does not look at trees that it has built, except to count them and along the
paths that it holds. So if there are more trees in front from the beginning on, they stay as
they are, all others follow them, and the positions at which paths begin are moved on by
their number (`Outline.State.ofTokens_behind`).

Only what has been built outside of all braces gets the trees in front. While braces are open
that waits in the last frame, with the path to where the outermost block goes, and inside of
braces nothing is different.
-/

set_option autoImplicit false

namespace CodeHabits.Outline

theorem modify_append_add {α : Type} (front back : List α) (i : Nat) (change : α → α) :
    (front ++ back).modify (i + front.length) change = front ++ back.modify i change := by
  induction front with
  | nil => simp
  | cons x front ih =>
    rw [List.length_cons, ← Nat.add_assoc, List.cons_append, List.modify_succ_cons, ih]
    rfl

@[simp] theorem Path.moved_nil (offset : Nat) : Path.moved [] offset = [] :=
  rfl

@[simp] theorem Path.isEmpty_moved (path : Path) (offset : Nat) :
    List.isEmpty (path.moved offset) = List.isEmpty path := by
  cases path <;> rfl

@[simp] theorem Path.moved_eq_nil_iff {path : Path} {offset : Nat} :
    path.moved offset = [] ↔ path = [] := by
  cases path <;> simp [Path.moved]

variable (front : List Tree)

theorem changeBelow_behind (new : List Tree) (path : Path) (trees : List Tree) :
    changeBelow (· ++ new) (path.moved front.length) (front ++ trees)
      = front ++ changeBelow (· ++ new) path trees := by
  cases path with
  | nil => exact List.append_assoc front trees new
  | cons i path => exact modify_append_add front trees i _

theorem changeAt_behind (change : Tree → Tree) (path : Path) (trees : List Tree) :
    changeAt change (path.moved front.length) (front ++ trees)
      = front ++ changeAt change path trees := by
  match path with
  | [] => rfl
  | [i] => exact modify_append_add front trees i _
  | i :: j :: path => exact modify_append_add front trees i _

theorem countBelow_behind (i : Nat) (path : Path) (trees : List Tree) :
    countBelow ((i + front.length) :: path) (front ++ trees) = countBelow (i :: path) trees := by
  rw [countBelow, countBelow, List.getElem?_append_right (Nat.le_add_left _ _),
    Nat.add_sub_cancel]

/-- A path to one more tree below the end of a path, and on from there. -/
theorem append_count_behind (path rest : Path) (trees : List Tree) :
    path.moved front.length ++ countBelow (path.moved front.length) (front ++ trees) :: rest
      = Path.moved (path ++ countBelow path trees :: rest) front.length := by
  cases path with
  | nil => simp [Path.moved, countBelow, Nat.add_comm]
  | cons i path => simp [Path.moved, countBelow_behind]

/-- An open brace, with more trees in front of what has been built outside of it. -/
def Frame.behind (f : Frame) : Frame :=
  { f with outer := front ++ f.outer, destination := f.destination.moved front.length }

section

variable (f : Frame)

theorem placed_behind (new : List Tree) : (f.behind front).placed new = front ++ f.placed new :=
  changeBelow_behind front new f.destination f.outer

theorem below_behind (path : Path) :
    (f.behind front).below path = (f.below path).moved front.length := by
  cases path with
  | nil => rfl
  | cons i path => exact append_count_behind front f.destination (i :: path) f.outer

theorem beside_behind (h : f.destination ≠ []) (path : Path) :
    (f.behind front).beside path = (f.beside path).moved front.length := by
  obtain ⟨brace, owner?, outer, destination⟩ := f
  obtain ⟨j, destination, rfl⟩ := List.exists_cons_of_ne_nil h
  cases path with
  | nil => rfl
  | cons i path => simp [Frame.behind, Frame.beside, Path.moved, countBelow_behind]

end

/-- Open braces, with more trees in front of what has been built outside of all of them. -/
def framesBehind : List Frame → List Frame
  | [] => []
  | f :: frames => (if frames.isEmpty then f.behind front else f) :: framesBehind frames

namespace State

/-- All that has been taken in, with more trees in front. -/
def behind (s : State) : State :=
  match s.frames with
  | [] =>
    { s with
      trees := front ++ s.trees
      lastClosed := s.lastClosed.moved front.length
      clause := s.clause.moved front.length }
  | f :: frames => { s with frames := framesBehind front (f :: frames) }

variable (file : String) (s : State)

@[simp] theorem frames_behind : (s.behind front).frames = framesBehind front s.frames := by
  unfold behind
  split
  · rename_i h
    rw [h]
    rfl
  · rename_i h
    rw [h]

@[simp] theorem current_behind : (s.behind front).current = s.current := by
  unfold behind
  split <;> rfl

theorem trees_behind {s : State} (h : s.frames = []) :
    (s.behind front).trees = front ++ s.trees := by
  unfold behind
  rw [h]

theorem flush_behind : (s.behind front).flush file = (s.flush file).behind front := by
  obtain ⟨trees, frames, current, lastClosed, clause, diagnostics⟩ := s
  cases current with
  | nil => cases frames <;> rfl
  | cons first rest =>
    cases frames with
    | nil => simp only [behind, flush, changeBelow_behind]; rfl
    | cons f frames => rfl

theorem openBrace_behind (brace : Token) :
    (s.behind front).openBrace brace = (s.openBrace brace).behind front := by
  obtain ⟨trees, frames, current, lastClosed, clause, diagnostics⟩ := s
  cases frames with
  | nil =>
    cases current with
    | nil => rfl
    | cons first rest => simp [behind, openBrace, framesBehind, Frame.behind]
  | cons f frames => rfl

theorem closeFrame_behind {s : State} {f : Frame} {frames : List Frame} (h : s.frames = f :: frames)
    (close : Token) :
    (s.behind front).closeFrame file (if frames.isEmpty then f.behind front else f)
        (framesBehind front frames) close
      = (s.closeFrame file f frames close).behind front := by
  have hbehind : s.behind front = { s with frames := framesBehind front (f :: frames) } := by
    unfold behind
    rw [h]
  rw [hbehind]
  cases frames with
  | nil =>
    -- The outermost brace is closed: its block goes to where the trees in front are.
    rw [if_pos List.isEmpty_nil]
    cases howner : f.owner? with
    | some o =>
      rw [closeFrame_of_owner howner, closeFrame_of_owner (f := f.behind front) howner,
        placed_behind, below_behind]
      simp only [behind, framesBehind, Frame.behind, append_count_behind]
    | none =>
      by_cases hdestination : f.destination = []
      · have hmoved : (f.behind front).destination = [] := Path.moved_eq_nil_iff.2 hdestination
        rw [closeFrame_of_block howner hdestination,
          closeFrame_of_block (f := f.behind front) howner hmoved, placed_behind, below_behind]
        rfl
      · have hmoved : (f.behind front).destination ≠ [] :=
          fun hnil => hdestination (Path.moved_eq_nil_iff.1 hnil)
        rw [closeFrame_of_clause howner hdestination,
          closeFrame_of_clause (f := f.behind front) howner hmoved, placed_behind,
          beside_behind front f hdestination]
        rfl
  | cons g frames =>
    rw [if_neg (by simp)]
    cases howner : f.owner? with
    | some o =>
      rw [closeFrame_of_owner howner, closeFrame_of_owner howner]
      rfl
    | none =>
      by_cases hdestination : f.destination = []
      · rw [closeFrame_of_block howner hdestination, closeFrame_of_block howner hdestination]
        rfl
      · rw [closeFrame_of_clause howner hdestination, closeFrame_of_clause howner hdestination]
        rfl

theorem closeBrace_behind (close : Token) :
    (s.behind front).closeBrace file close = (s.closeBrace file close).behind front := by
  unfold closeBrace
  rw [flush_behind]
  generalize s.flush file = s
  dsimp only
  cases hframes : s.frames with
  | nil =>
    obtain ⟨trees, frames, current, lastClosed, clause, diagnostics⟩ := s
    obtain rfl : frames = [] := hframes
    simp [behind]
  | cons f frames =>
    rw [frames_behind, hframes]
    exact closeFrame_behind front file hframes close

theorem breakLine_behind (t : Token) :
    (s.behind front).breakLine file t = (s.breakLine file t).behind front := by
  unfold breakLine
  rw [current_behind, flush_behind]
  cases s.current.getLast? with
  | none => rfl
  | some last =>
    dsimp only
    split <;> rfl

theorem addToken_behind (t : Token) :
    (s.behind front).addToken t = (s.addToken t).behind front := by
  obtain ⟨trees, frames, current, lastClosed, clause, diagnostics⟩ := s
  unfold addToken
  rw [apply_ite (State.behind front)]
  cases frames with
  | nil => simp only [behind, Path.isEmpty_moved, Path.moved_nil, changeAt_behind]
  | cons f frames => rfl

theorem add_behind (t : Token) : (s.behind front).add file t = (s.add file t).behind front := by
  unfold add
  simp only [breakLine_behind, flush_behind, openBrace_behind, closeBrace_behind, addToken_behind]
  simp only [apply_ite (State.behind front)]

theorem foldl_behind (tokens : List Token) :
    tokens.foldl (State.add file) (s.behind front)
      = (tokens.foldl (State.add file) s).behind front :=
  List.foldl_hom (State.behind front) fun s t => add_behind front file s t

theorem report_behind (problem : Diagnostic) :
    (s.behind front).report problem = (s.report problem).behind front := by
  unfold behind report
  dsimp only
  split <;> rfl

/-- Closing what is open leaves the trees in front where they are. -/
theorem trees_closeAll_behind {s : State} {frames : List Frame} (h : s.frames = frames)
    (last : Token) :
    (closeAll file last (s.behind front) (framesBehind front frames)).trees
      = front ++ (closeAll file last s frames).trees := by
  induction frames generalizing s with
  | nil => exact trees_behind front h
  | cons f frames ih =>
    have hbrace : (if frames.isEmpty then f.behind front else f).brace = f.brace := by
      split <;> rfl
    have hreported : (s.report (unterminated f.brace)).frames = f :: frames := h
    rw [framesBehind, closeAll_cons, closeAll_cons, hbrace, report_behind,
      closeFrame_behind front file hreported]
    exact ih closeFrame_frames

end State

end CodeHabits.Outline
