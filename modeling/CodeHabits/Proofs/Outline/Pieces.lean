import CodeHabits.Proofs.Outline.Behind
import CodeHabits.Proofs.Outline.Moved
import CodeHabits.Proofs.Outline.Reported

/-!
# `CodeHabits.Proofs.Outline.Pieces`: pieces of code, one behind the other

A piece of code is complete if its braces are balanced and it ends with a semicolon or a
closing brace (`Complete`). Then no brace is open behind it and no statement is at hand, but
a clause may be: one without a block of its own, as in `if (a) { b } else ;`. It is forgotten
with the end of a statement and with an opening brace, and a semicolon or a closing brace
behind a clause word is neither. So the next statement is taken to be part of that clause,
wherever it stands.

The trees of two pieces are the trees of the first one and then those of the second one if
the first piece leaves no clause open (`trees_append_of_clause`), since then there are just
more trees in front (`State.behind`). If it leaves one open, there is one tree less
(`length_trees_append_of_clause`): the two runs stay side by side, with the same statements at
hand and the same braces open, but the first statement or block goes below a tree in the one
and next to all trees in the other (`Begins`, `Trails`).
-/

set_option autoImplicit false

namespace CodeHabits.Outline

/-- Tokens with balanced braces, of which the last one is a semicolon or a brace. -/
structure Complete (tokens : List Token) : Prop where
  balanced : Balanced tokens
  ended : ∃ last ∈ tokens.getLast?, ends last = true ∨ closes last = true

/-- The last token that is neither a semicolon nor a closing brace. -/
def lastWord? (tokens : List Token) : Option Token :=
  tokens.reverse.find? fun t => !ends t && !closes t

theorem lastWord?_append_singleton (front : List Token) (t : Token) :
    lastWord? (front ++ [t]) = if ends t || closes t then lastWord? front else some t := by
  unfold lastWord?
  rw [List.reverse_append, List.reverse_singleton, List.singleton_append, List.find?_cons]
  cases ends t <;> cases closes t <;> rfl

/-- A word that begins a statement: it is no brace and no semicolon, and continues nothing. -/
structure Begin (t : Token) : Prop where
  ends : ends t = false
  opens : opens t = false
  closes : closes t = false
  word : t.text ∉ clauseWords

theorem begin_of_kind {t : Token} (hkind : t.kind = .ident ∨ t.kind = .keyword)
    (hword : t.text ∉ clauseWords) : Begin t := by
  have hpunct : (t.kind == .punct) = false := by
    rcases hkind with h | h <;> rw [h] <;> rfl
  constructor
  · rw [Outline.ends, hpunct, Bool.false_and]
  · rw [Outline.opens, hpunct, Bool.false_and]
  · rw [Outline.closes, hpunct, Bool.false_and]
  · exact hword

namespace State

variable {file : String} {s u : State} {t : Token}

/-! ### What is left at the end -/

theorem current_run (file : String) {tokens : List Token}
    (h : ∃ last ∈ tokens.getLast?, Outline.ends last = true ∨ Outline.closes last = true) :
    (tokens.foldl (State.add file) .start).current = [] := by
  obtain ⟨last, hlast, hends⟩ := h
  obtain ⟨front, rfl⟩ := List.getLast?_eq_some_iff.1 hlast
  rw [List.foldl_append, List.foldl_cons, List.foldl_nil]
  exact (step_add _ last).current_eq_nil hends

/-- Only a clause word leaves a clause behind when no statement is at hand. -/
theorem exists_lastWord_of_clause (file : String) (tokens : List Token)
    (hcurrent : (tokens.foldl (State.add file) .start).current = [])
    (hclause : (tokens.foldl (State.add file) .start).clause ≠ []) :
    ∃ t ∈ lastWord? tokens, t.text ∈ clauseWords := by
  have hflush : ∀ {front : List Token} {s : State},
      (s.current = [] → s.clause ≠ [] → ∃ t ∈ lastWord? front, t.text ∈ clauseWords) →
      (s.flush file).clause ≠ [] → ∃ t ∈ lastWord? front, t.text ∈ clauseWords := by
    intro front s h hclause
    by_cases hcurrent : s.current = []
    · rw [flush_of_nil hcurrent] at hclause
      exact h hcurrent hclause
    · exact absurd (flush_clause hcurrent) hclause
  refine run_induction (P := fun front s =>
    s.current = [] → s.clause ≠ [] → ∃ t ∈ lastWord? front, t.text ∈ clauseWords)
    ?_ ?_ ?_ tokens hcurrent hclause
  · exact fun _ hclause => absurd rfl hclause
  · exact fun h _ hclause => hflush h hclause
  · intro front s t s' h hstep hcurrent hclause
    rw [lastWord?_append_singleton]
    cases hstep with
    | ended hends =>
      rw [hends, Bool.true_or, if_pos rfl]
      exact hflush h hclause
    | opened => exact absurd rfl hclause
    | closed hcloses =>
      rw [hcloses, Bool.or_true, if_pos rfl]
      exact hflush h (mt (closed_closeFrame file _ _ _ t).clause_eq_nil_iff.2 hclause)
    | stray hcloses =>
      rw [hcloses, Bool.or_true, if_pos rfl]
      exact hflush h hclause
    | resumed hends _ hcloses _ _ hword =>
      rw [hends, hcloses]
      exact ⟨t, rfl, hword⟩
    | added => simp at hcurrent

/-! ### No clause is open -/

theorem flush_forget (file : String) (h : s.current ≠ []) (other : Path) :
    ({ s with lastClosed := other } : State).flush file = s.flush file := by
  obtain ⟨trees, frames, current, lastClosed, clause, diagnostics⟩ := s
  cases current with
  | nil => exact absurd rfl h
  | cons first rest => rfl

/-- Where the same statement is at hand, a token begins another one or it does not. -/
theorem breakLine_same (file : String) (h : s.current = u.current) (t : Token) :
    (s.breakLine file t = s ∧ u.breakLine file t = u) ∨
      (s.breakLine file t = s.flush file ∧ u.breakLine file t = u.flush file) := by
  unfold breakLine
  rw [h]
  split
  · split
    · exact .inr ⟨rfl, rfl⟩
    · exact .inl ⟨rfl, rfl⟩
  · exact .inl ⟨rfl, rfl⟩

/-- While a statement is at hand, the next token does not continue what was closed last. -/
theorem add_forget (file : String) (h : s.current ≠ []) (other : Path) (t : Token) :
    ({ s with lastClosed := other } : State).add file t = s.add file t ∨
      ({ s with lastClosed := other } : State).add file t
          = { s.add file t with lastClosed := other } ∧ (s.add file t).current ≠ [] := by
  have hflush := flush_forget file h other
  have hcurrent : s.current.isEmpty = false := by simpa using h
  unfold add
  rcases breakLine_same file (s := { s with lastClosed := other }) (u := s) rfl t with
    ⟨hforget, hsame⟩ | ⟨hforget, hsame⟩
  · rw [hforget, hsame]
    dsimp only
    split
    · exact .inl hflush
    split
    · exact .inl rfl
    split
    · left
      unfold closeBrace
      rw [hflush]
    · right
      simp [addToken, hcurrent]
  · left
    rw [hforget, hsame, hflush]

theorem flush_foldl_forget (file : String) (h : s.current ≠ []) (other : Path)
    (tokens : List Token) :
    (tokens.foldl (State.add file) { s with lastClosed := other }).flush file
      = (tokens.foldl (State.add file) s).flush file := by
  induction tokens generalizing s with
  | nil => exact flush_forget file h other
  | cons t rest ih =>
    rw [List.foldl_cons, List.foldl_cons]
    rcases add_forget file h other t with hsame | ⟨hforget, hcurrent⟩
    · rw [hsame]
    · rw [hforget]
      exact ih hcurrent

/-! ### A clause is open -/

/-- How many trees there are outside of all braces, with and without the first piece in
front: the first tree of the second piece is missing in the one. That tree may be a block that
is not closed yet. -/
inductive Short (n : Nat) : List Tree → List Frame → List Tree → List Frame → Prop
  | outside {trees others : List Tree} (h : trees.length + 1 = n + others.length) :
      Short n trees [] others []
  | entered {trees others : List Tree} {f g : Frame} (hf : f.destination ≠ [])
      (hg : g.destination = []) (howner : g.owner? ≠ none)
      (h : f.outer.length = n + g.outer.length) : Short n trees [f] others [g]
  | inside {trees others : List Tree} {f g : Frame} {frames rest : List Frame}
      (howner : f.owner? = none ↔ g.owner? = none)
      (hdestination : f.destination = [] ↔ g.destination = [])
      (h : Short n f.outer frames g.outer rest) : Short n trees (f :: frames) others (g :: rest)

theorem Short.change {n : Nat} {trees others trees' others' : List Tree} {frames rest : List Frame}
    (h : Short n trees frames others rest)
    (hlength : trees'.length + others.length = trees.length + others'.length) :
    Short n trees' frames others' rest := by
  cases h with
  | outside h => exact .outside (by omega)
  | entered hf hg howner h => exact .entered hf hg howner h
  | inside howner hdestination h => exact .inside howner hdestination h

/-- Two runs side by side, one of which has a tree less outside of all braces. -/
structure Trails (n : Nat) (s u : State) : Prop where
  current : s.current = u.current
  lastClosed : s.lastClosed = [] ↔ u.lastClosed = []
  clause : s.clause = [] ↔ u.clause = []
  short : Short n s.trees s.frames u.trees u.frames

/-- The statement at hand is the first one behind the first piece. With that piece in front
it belongs to a clause. -/
structure Begins (n : Nat) (s u : State) : Prop where
  frames : s.frames = [] ∧ u.frames = []
  same : s.current = u.current
  current : u.current ≠ []
  open_clause : s.clause ≠ []
  no_clause : u.clause = []
  length : s.trees.length = n + u.trees.length

variable {n : Nat}

theorem Trails.flush (h : Trails n s u) : Trails n (s.flush file) (u.flush file) := by
  by_cases hcurrent : u.current = []
  · rw [flush_of_nil hcurrent, flush_of_nil (h.current.trans hcurrent)]
    exact h
  · have hother : s.current ≠ [] := by
      rw [h.current]
      exact hcurrent
    constructor
    · rw [flush_current, flush_current]
    · rw [flush_lastClosed hother, flush_lastClosed hcurrent]
    · rw [flush_clause hother, flush_clause hcurrent]
    · rw [flush_frames, flush_frames]
      refine h.short.change ?_
      rw [length_trees_flush hother, length_trees_flush hcurrent]
      simp only [h.clause]
      omega

/-- With the end of the first statement, one of the runs has got a tree more. -/
theorem Begins.flush (h : Begins n s u) : Trails n (s.flush file) (u.flush file) := by
  have hother : s.current ≠ [] := by
    rw [h.same]
    exact h.current
  constructor
  · rw [flush_current, flush_current]
  · rw [flush_lastClosed hother, flush_lastClosed h.current]
  · rw [flush_clause hother, flush_clause h.current]
  · rw [flush_frames, flush_frames, h.frames.1, h.frames.2]
    refine .outside ?_
    rw [length_trees_flush hother, length_trees_flush h.current, if_neg h.open_clause,
      if_pos h.no_clause, h.length]
    omega

theorem Trails.openBrace (h : Trails n s u) (brace : Token) :
    Trails n (s.openBrace brace) (u.openBrace brace) := by
  obtain ⟨trees, frames, current, lastClosed, clause, diagnostics⟩ := s
  obtain ⟨others, rest, same, lastOther, clauseOther, problems⟩ := u
  obtain rfl : current = same := h.current
  have hempty : List.isEmpty clause = List.isEmpty clauseOther := by
    rw [Bool.eq_iff_iff, List.isEmpty_iff, List.isEmpty_iff]
    exact h.clause
  refine ⟨rfl, Iff.rfl, Iff.rfl, .inside ?_ h.clause h.short⟩
  cases current with
  | nil => rfl
  | cons first tokens =>
    dsimp only
    rw [hempty]

/-- The block of the first statement is entered. With the first piece in front it goes below
the statement that the clause continues, be there an owner or not. -/
theorem Begins.openBrace (h : Begins n s u) (brace : Token) :
    Trails n (s.openBrace brace) (u.openBrace brace) := by
  obtain ⟨trees, frames, current, lastClosed, clause, diagnostics⟩ := s
  obtain ⟨others, rest, same, lastOther, clauseOther, problems⟩ := u
  obtain ⟨⟨rfl, rfl⟩, hcurrent, hnonempty, hopen, rfl, hlength⟩ := h
  obtain ⟨first, tokens, rfl⟩ := List.exists_cons_of_ne_nil hnonempty
  refine ⟨rfl, Iff.rfl, Iff.rfl, .entered hopen rfl ?_ hlength⟩
  simp

theorem Trails.closed {f g : Frame} {frames rest : List Frame} {close : Token} {s' u' : State}
    (h : Trails n s u) (hframes : s.frames = f :: frames) (hrest : u.frames = g :: rest)
    (hs : Closed file s f frames close s') (hu : Closed file u g rest close u') :
    Trails n s' u' := by
  have hcurrent : s'.current = u'.current := by
    rw [hs.current, hu.current]
    exact h.current
  have hclause : s'.clause = [] ↔ u'.clause = [] := by
    rw [hs.clause_eq_nil_iff, hu.clause_eq_nil_iff]
    exact h.clause
  have hshort := h.short
  rw [hframes, hrest] at hshort
  cases hshort with
  | entered hf hg howner hlength =>
    -- The first block goes below a tree in the one run and is a tree of its own in the other.
    refine ⟨hcurrent, ?_, hclause, ?_⟩
    · rw [hs.lastClosed_eq_nil_iff, hu.lastClosed_eq_nil_iff]
      simp [hf, howner]
    · rw [hs.frames_eq, hu.frames_eq]
      refine .outside ?_
      rw [hs.length_trees, hu.length_trees, if_neg hf, if_pos hg]
      omega
  | inside howner hdestination hinside =>
    refine ⟨hcurrent, ?_, hclause, ?_⟩
    · rw [hs.lastClosed_eq_nil_iff, hu.lastClosed_eq_nil_iff, howner, hdestination]
    · rw [hs.frames_eq, hu.frames_eq]
      refine hinside.change ?_
      rw [hs.length_trees, hu.length_trees]
      simp only [hdestination]
      omega

theorem Short.nil_iff {trees others : List Tree} {frames rest : List Frame}
    (h : Short n trees frames others rest) : frames = [] ↔ rest = [] := by
  cases h <;> simp

theorem Trails.closeBrace (h : Trails n s u) (close : Token) :
    Trails n (s.closeBrace file close) (u.closeBrace file close) := by
  have hflush : Trails n (s.flush file) (u.flush file) := h.flush
  unfold State.closeBrace
  dsimp only
  split
  · rename_i f frames hframes
    split
    · rename_i g rest hrest
      exact hflush.closed hframes hrest (closed_closeFrame file _ f frames close)
        (closed_closeFrame file _ g rest close)
    · rename_i hrest
      rw [hflush.short.nil_iff.2 hrest] at hframes
      cases hframes
  · rename_i hframes
    split
    · rename_i g rest hrest
      rw [hflush.short.nil_iff.1 hframes] at hrest
      cases hrest
    · -- The error node is one more tree in both runs.
      refine ⟨hflush.current, hflush.lastClosed, hflush.clause, hflush.short.change ?_⟩
      simp only [List.length_append]
      omega

theorem closeBrace_flush (close : Token) :
    (s.flush file).closeBrace file close = s.closeBrace file close := by
  unfold closeBrace
  rw [flush_of_nil flush_current]

theorem Trails.addToken (h : Trails n s u) (t : Token) :
    Trails n (s.addToken t) (u.addToken t) := by
  have hempty : List.isEmpty s.lastClosed = List.isEmpty u.lastClosed := by
    rw [Bool.eq_iff_iff, List.isEmpty_iff, List.isEmpty_iff]
    exact h.lastClosed
  unfold State.addToken
  rw [h.current, hempty]
  split
  · refine ⟨rfl, Iff.rfl, h.lastClosed, h.short.change ?_⟩
    rw [length_changeAt, length_changeAt]
  · exact ⟨rfl, h.lastClosed, h.clause, h.short⟩

theorem Trails.take (h : Trails n s u) (t : Token) : Trails n (s.take file t) (u.take file t) := by
  unfold State.take
  split
  · exact h.flush
  split
  · exact h.openBrace t
  split
  · exact h.closeBrace t
  · exact h.addToken t

theorem Trails.add (h : Trails n s u) (t : Token) : Trails n (s.add file t) (u.add file t) := by
  rw [add_eq_take, add_eq_take]
  rcases breakLine_same file h.current t with ⟨hs, hu⟩ | ⟨hs, hu⟩
  · rw [hs, hu]
    exact h.take t
  · rw [hs, hu]
    exact h.flush.take t

theorem addToken_of_current (h : s.current ≠ []) (t : Token) :
    s.addToken t = { s with current := s.current ++ [t] } := by
  have hcurrent : s.current.isEmpty = false := by simpa using h
  simp [addToken, hcurrent]

/-- The first statement goes on, or one of the runs has got a tree more. -/
theorem Begins.add (h : Begins n s u) (t : Token) :
    Begins n (s.add file t) (u.add file t) ∨ Trails n (s.add file t) (u.add file t) := by
  rw [add_eq_take, add_eq_take]
  rcases breakLine_same file h.same t with ⟨hs, hu⟩ | ⟨hs, hu⟩
  · rw [hs, hu]
    unfold take
    split
    · exact .inr h.flush
    split
    · exact .inr (h.openBrace t)
    split
    · right
      rw [← closeBrace_flush, ← closeBrace_flush (s := u)]
      exact h.flush.closeBrace t
    · left
      have hcurrent : s.current ≠ [] := by
        rw [h.same]
        exact h.current
      rw [addToken_of_current hcurrent, addToken_of_current h.current]
      exact ⟨h.frames, congrArg (· ++ [t]) h.same, by simp, h.open_clause, h.no_clause, h.length⟩
  · rw [hs, hu]
    exact .inr (h.flush.take t)

/-- The run with the first piece in front keeps one tree less. -/
theorem Begins.foldl (h : Begins n s u ∨ Trails n s u) (tokens : List Token) :
    Trails n ((tokens.foldl (State.add file) s).flush file)
      ((tokens.foldl (State.add file) u).flush file) := by
  induction tokens generalizing s u with
  | nil =>
    rcases h with hbegins | htrails
    · exact hbegins.flush
    · exact htrails.flush
  | cons t rest ih =>
    rcases h with hbegins | htrails
    · exact ih (hbegins.add t)
    · exact ih (.inr (htrails.add t))

theorem Trails.length_closeAll {frames rest : List Frame} (h : Trails n s u)
    (hframes : s.frames = frames) (hrest : u.frames = rest) (last : Token) :
    (closeAll file last s frames).trees.length + 1
      = n + (closeAll file last u rest).trees.length := by
  induction frames generalizing s u rest with
  | nil =>
    have hshort := h.short
    obtain rfl := hrest
    rw [h.short.nil_iff.1 hframes, closeAll, closeAll]
    rw [hframes, h.short.nil_iff.1 hframes] at hshort
    cases hshort with
    | outside hlength => exact hlength
  | cons f frames ih =>
    cases rest with
    | nil =>
      rw [h.short.nil_iff.2 hrest] at hframes
      cases hframes
    | cons g rest =>
      have hreported :
          Trails n (s.report (unterminated f.brace)) (u.report (unterminated g.brace)) :=
        ⟨h.current, h.lastClosed, h.clause, h.short⟩
      rw [closeAll_cons, closeAll_cons]
      exact ih
        (hreported.closed hframes hrest (closed_closeFrame file _ f frames last)
          (closed_closeFrame file _ g rest last))
        closeFrame_frames closeFrame_frames

/-! ### Two pieces -/

section

variable (file : String) {front : List Token}

theorem frames_run (h : Balanced front) :
    (front.foldl (State.add file) .start).frames = [] := by
  have hopen := (reports_run file front).open_braces
  rw [balanced_iff.1 h, List.map_eq_nil_iff] at hopen
  exact hopen

theorem diagnostics_run (h : Balanced front) :
    (front.foldl (State.add file) .start).diagnostics = [] := by
  rw [(reports_run file front).diagnostics, balanced_iff.1 h]
  rfl

/-- Behind a complete piece there is nothing to be ended or closed. -/
theorem ofTokens_of_complete (h : Complete front) :
    ofTokens file front = front.foldl (State.add file) .start := by
  unfold ofTokens
  dsimp only
  rw [flush_of_nil (current_run file h.ended), frames_run file h.balanced]
  split <;> rfl

theorem add_begin (hcurrent : s.current = []) (ht : Begin t) :
    s.add file t = { s with current := [t] } := by
  have hbreak : s.breakLine file t = s := by
    unfold breakLine
    rw [hcurrent]
    rfl
  rw [add_eq_take, hbreak, take, ht.ends, ht.opens, ht.closes]
  simp [addToken, hcurrent, ht.word]

variable {first : Token} (rest : List Token)

/-- The statement at hand once the first word of a piece has been taken in. -/
theorem foldl_append_begin (hfront : Complete front) (hfirst : Begin first) :
    (front ++ first :: rest).foldl (State.add file) .start
      = rest.foldl (State.add file) { ofTokens file front with current := [first] } := by
  rw [List.foldl_append, List.foldl_cons, add_begin file (current_run file hfront.ended) hfirst,
    ofTokens_of_complete file hfront]

/-- If no clause is left open, the trees of the second piece follow those of the first. -/
theorem trees_append_of_clause (hfront : Complete front) (hfirst : Begin first)
    (hclause : (ofTokens file front).clause = []) :
    (ofTokens file (front ++ first :: rest)).trees
      = (ofTokens file front).trees ++ (ofTokens file (first :: rest)).trees := by
  have hlast : (first :: rest).getLast? = some ((first :: rest).getLast (by simp)) :=
    List.getLast?_eq_some_getLast _
  have hlonger : (front ++ first :: rest).getLast? = some ((first :: rest).getLast (by simp)) := by
    simp [hlast]
  let begun : State := { start with current := [first] }
  have hbegun : ({ ofTokens file front with current := [first] } : State)
      = { begun.behind (ofTokens file front).trees with
          lastClosed := (ofTokens file front).lastClosed } := by
    have hframes := frames_run file hfront.balanced
    have hdiagnostics := diagnostics_run file hfront.balanced
    rw [← ofTokens_of_complete file hfront] at hframes hdiagnostics
    generalize ofTokens file front = s at *
    obtain ⟨trees, frames, current, lastClosed, clause, diagnostics⟩ := s
    dsimp only at hframes hdiagnostics hclause
    simp [begun, behind, start, hframes, hdiagnostics, hclause]
  rw [ofTokens_of_getLast file hlast, ofTokens_of_getLast file hlonger,
    foldl_append_begin file rest hfront hfirst, hbegun, List.foldl_cons,
    add_begin file rfl hfirst, flush_foldl_forget file (by simp [begun, behind, start]),
    foldl_behind, flush_behind, frames_behind]
  exact trees_closeAll_behind _ file rfl _

/-- If a clause is left open, the first tree of the second piece is not next to the others. -/
theorem length_trees_append_of_clause (hfront : Complete front) (hfirst : Begin first)
    (hclause : (ofTokens file front).clause ≠ []) :
    (ofTokens file (front ++ first :: rest)).trees.length + 1
      = (ofTokens file front).trees.length + (ofTokens file (first :: rest)).trees.length := by
  have hlast : (first :: rest).getLast? = some ((first :: rest).getLast (by simp)) :=
    List.getLast?_eq_some_getLast _
  have hlonger : (front ++ first :: rest).getLast? = some ((first :: rest).getLast (by simp)) := by
    simp [hlast]
  have hframes := frames_run file hfront.balanced
  rw [← ofTokens_of_complete file hfront] at hframes
  have hbegins : Begins (ofTokens file front).trees.length
      { ofTokens file front with current := [first] } { start with current := [first] } :=
    ⟨⟨hframes, rfl⟩, rfl, by simp, hclause, rfl, rfl⟩
  rw [ofTokens_of_getLast file hlast, ofTokens_of_getLast file hlonger,
    foldl_append_begin file rest hfront hfirst, List.foldl_cons, add_begin file rfl hfirst]
  exact (Begins.foldl (.inl hbegins) rest).length_closeAll rfl rfl _

theorem trees_append_iff (hfront : Complete front) (hfirst : Begin first) :
    (ofTokens file (front ++ first :: rest)).trees
        = (ofTokens file front).trees ++ (ofTokens file (first :: rest)).trees
      ↔ (ofTokens file front).clause = [] := by
  constructor
  · intro h
    by_contra hclause
    have hlength := length_trees_append_of_clause file rest hfront hfirst hclause
    rw [h, List.length_append] at hlength
    omega
  · exact trees_append_of_clause file rest hfront hfirst

end

end State

/-- A piece of code with balanced braces ends with a semicolon or a closing brace, and on the
next line there is another one, which begins with a word that continues nothing. If the
tokens of both are those of the first one and those of the second one further down, then so
are the trees, exactly if the first piece leaves no clause open. It does not if its last word
is no clause word. -/
theorem pieces_independent {a b : String} {lines : Nat} (file language : String)
    (hbalanced : Balanced (Lexer.tokens surface a))
    (hlast : ∃ last ∈ (Lexer.tokens surface a).getLast?, ends last = true ∨ closes last = true)
    (hfirst : ∃ first ∈ (Lexer.tokens surface b).head?,
      (first.kind = .ident ∨ first.kind = .keyword) ∧ first.text ∉ clauseWords)
    (htokens : Lexer.tokens surface (a ++ "\n" ++ b)
      = Lexer.tokens surface a ++ (Lexer.tokens surface b).map (Token.moved lines)) :
    ((outline (a ++ "\n" ++ b) file language).tree.children
        = (outline a file language).tree.children
          ++ (outline b file language).tree.children.map (Tree.moved lines)
      ↔ (State.ofTokens file (Lexer.tokens surface a)).clause = []) ∧
    ((∀ word ∈ lastWord? (Lexer.tokens surface a), word.text ∉ clauseWords) →
      (State.ofTokens file (Lexer.tokens surface a)).clause = []) := by
  have hcomplete : Complete (Lexer.tokens surface a) := ⟨hbalanced, hlast⟩
  constructor
  · obtain ⟨first, hhead, hkind, hword⟩ := hfirst
    obtain ⟨rest, hcons⟩ := List.head?_eq_some_iff.1 hhead
    have hbegin : Begin (first.moved lines) := begin_of_kind hkind hword
    show (State.ofTokens file _).trees
      = (State.ofTokens file _).trees ++ (State.ofTokens file _).trees.map (Tree.moved lines) ↔ _
    have hmoved : (State.ofTokens file (Lexer.tokens surface b)).trees.map (Tree.moved lines)
        = (State.ofTokens file ((Lexer.tokens surface b).map (Token.moved lines))).trees := by
      rw [State.ofTokens_moved]
      rfl
    rw [hmoved, htokens, hcons, List.map_cons]
    exact State.trees_append_iff file _ hcomplete hbegin
  · intro hword
    by_contra hclause
    rw [State.ofTokens_of_complete file hcomplete] at hclause
    obtain ⟨word, hmem, hclauseWord⟩ :=
      State.exists_lastWord_of_clause file _ (State.current_run file hlast) hclause
    exact hword word hmem hclauseWord

/-- The clause of the first piece has no block and ends with a semicolon, and what follows on
the next line goes below the statement that it continues. -/
theorem pieces_independent_of_empty_clause :
    Balanced (Lexer.tokens surface "if \x7b \x7d else ;") ∧
      (∃ last ∈ (Lexer.tokens surface "if \x7b \x7d else ;").getLast?,
        ends last = true ∨ closes last = true) ∧
      (∃ first ∈ (Lexer.tokens surface "y").head?,
        (first.kind = .ident ∨ first.kind = .keyword) ∧ first.text ∉ clauseWords) ∧
      Lexer.tokens surface ("if \x7b \x7d else ;" ++ "\n" ++ "y")
        = Lexer.tokens surface "if \x7b \x7d else ;"
          ++ (Lexer.tokens surface "y").map (Token.moved 1) ∧
      (outline ("if \x7b \x7d else ;" ++ "\n" ++ "y") "a.go" "go").tree.children
        ≠ (outline "if \x7b \x7d else ;" "a.go" "go").tree.children
          ++ (outline "y" "a.go" "go").tree.children.map (Tree.moved 1) := by
  have hfront : Lexer.tokens surface "if \x7b \x7d else ;"
      = [⟨.keyword, "if", 1, 0, 1, 2⟩, ⟨.punct, "\x7b", 1, 3, 1, 4⟩, ⟨.punct, "\x7d", 1, 5, 1, 6⟩,
        ⟨.keyword, "else", 1, 7, 1, 11⟩, ⟨.punct, ";", 1, 12, 1, 13⟩] := by
    decide +kernel
  have hback : Lexer.tokens surface "y" = [⟨.ident, "y", 1, 0, 1, 1⟩] := by
    decide +kernel
  have htokens : Lexer.tokens surface ("if \x7b \x7d else ;" ++ "\n" ++ "y")
      = Lexer.tokens surface "if \x7b \x7d else ;"
        ++ (Lexer.tokens surface "y").map (Token.moved 1) := by
    decide +kernel
  have hbalanced : Balanced (Lexer.tokens surface "if \x7b \x7d else ;") := by
    rw [hfront]
    exact .other rfl rfl (.block rfl .nil rfl (.other rfl rfl (.other rfl rfl .nil)))
  have hlast : ∃ last ∈ (Lexer.tokens surface "if \x7b \x7d else ;").getLast?,
      ends last = true ∨ closes last = true := by
    rw [hfront]
    exact ⟨_, rfl, .inl rfl⟩
  have hfirst : ∃ first ∈ (Lexer.tokens surface "y").head?,
      (first.kind = .ident ∨ first.kind = .keyword) ∧ first.text ∉ clauseWords := by
    rw [hback]
    exact ⟨_, rfl, .inl rfl, by decide⟩
  have hclause : (State.ofTokens "a.go" (Lexer.tokens surface "if \x7b \x7d else ;")).clause
      = [0] := by
    rw [hfront]
    decide +kernel
  refine ⟨hbalanced, hlast, hfirst, htokens, ?_⟩
  rw [Ne, (pieces_independent "a.go" "go" hbalanced hlast hfirst htokens).1, hclause]
  simp

end CodeHabits.Outline
