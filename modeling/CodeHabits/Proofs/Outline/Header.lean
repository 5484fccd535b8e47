import CodeHabits.Proofs.Outline.Steps

/-!
# `CodeHabits.Proofs.Outline.Header`: what makes a block a definition

The tokens in front of a brace are the header of its block. Unless they belong to a clause,
the block becomes one tree that is put behind those that are there already, and the trees of
its body go below (`State.trees_of_block`). Nothing is below exactly if there are only
semicolons in the braces (`State.trees_of_body`).

What such a tree is and what is noted of it depends on the header, except that a header
without a word for what it is makes a function only if something is below it (`Shaped`,
`tag_describe_iff`). So blocks with one header are all functions or all none, if the header
has such a word or the bodies are alike in being empty or not (`definition_recognised`). A
function with an empty body is missed if no word says that it is one.
-/

set_option autoImplicit false

namespace CodeHabits.Outline

/-! ### Headers -/

/-- What the first word of a statement that is no modifier says the statement is. -/
def leadTag? (tokens : List Token) : Option Tag :=
  (lead? tokens).bind fun lead => keywordTags.get? lead.1.text

/-- A header with a word for functions. -/
def Declares (header : List Token) : Prop :=
  leadTag? header = some .functionDef

/-- A header of which no word says what it is, and which ends with parentheses behind
something. -/
structure Shaped (header : List Token) : Prop where
  no_word : leadTag? header = none
  last : ∃ last ∈ header.getLast?, last.text = ")"
  name : (beforeParenthesis? header).isSome = true

theorem Shaped.not_declares {header : List Token} (h : Shaped header) : ¬ Declares header := by
  rw [Declares, h.no_word]
  simp

section

variable {tokens : List Token} (brace : Attributes)

theorem describe_of_leadTag {tag : Tag} (h : leadTag? tokens = some tag) :
    ∃ attributes, ∀ children, describe tokens brace children = (tag, attributes) := by
  obtain ⟨⟨word, behind⟩, hlead, htag⟩ := Option.bind_eq_some_iff.1 h
  refine ⟨describeKeyword tag word.text tokens behind brace, fun children => ?_⟩
  unfold describe
  rw [hlead]
  dsimp only at htag ⊢
  rw [htag]

theorem describe_of_none (h : leadTag? tokens = none) (children : List Tree) :
    describe tokens brace children = describePlain tokens brace children := by
  unfold describe
  cases hlead : lead? tokens with
  | none => rfl
  | some lead =>
    rw [leadTag?, hlead, Option.bind_some] at h
    dsimp only
    rw [h]

theorem isSome_plainFunction?_iff (h : leadTag? tokens = none) (children : List Tree) :
    (plainFunction? tokens children).isSome = true ↔ Shaped tokens ∧ children ≠ [] := by
  unfold plainFunction?
  cases hlast : tokens.getLast? with
  | none =>
    refine iff_of_false Bool.false_ne_true ?_
    rintro ⟨⟨_, ⟨last, hmem, _⟩, _⟩, _⟩
    rw [hlast] at hmem
    cases hmem
  | some last =>
    have hshaped : Shaped tokens ↔ last.text = ")" ∧ (beforeParenthesis? tokens).isSome = true := by
      constructor
      · rintro ⟨_, ⟨other, hmem, htext⟩, hname⟩
        obtain rfl : last = other := Option.some.inj (hlast.symm.trans hmem)
        exact ⟨htext, hname⟩
      · rintro ⟨htext, hname⟩
        exact ⟨h, ⟨last, hlast, htext⟩, hname⟩
    rw [hshaped]
    cases children <;> by_cases htext : last.text = ")" <;> simp [htext]

theorem tag_describePlain_iff (children : List Tree) :
    (describePlain tokens brace children).1 = .functionDef
      ↔ (plainFunction? tokens children).isSome = true := by
  unfold describePlain
  cases plainFunction? tokens children with
  | some name => simp
  | none =>
    cases callee? tokens with
    | some callee => simp
    | none =>
      dsimp only
      split
      · simp
      · split <;> simp

/-- A header makes a function by its word, or by its shape and what is below. -/
theorem tag_describe_iff (children : List Tree) :
    (describe tokens brace children).1 = .functionDef
      ↔ Declares tokens ∨ (Shaped tokens ∧ children ≠ []) := by
  cases hlead : leadTag? tokens with
  | some tag =>
    obtain ⟨attributes, hdescribe⟩ := describe_of_leadTag brace hlead
    have hshaped : ¬ Shaped tokens := by
      intro hshaped
      rw [hshaped.no_word] at hlead
      cases hlead
    simp [hdescribe, Declares, hlead, hshaped]
  | none =>
    have hdeclares : ¬ Declares tokens := by
      rw [Declares, hlead]
      simp
    rw [describe_of_none brace hlead, tag_describePlain_iff, isSome_plainFunction?_iff hlead]
    simp [hdeclares]

theorem tag_statementTree_iff (file : String) (first : Token) (rest : List Token)
    (brace : Attributes) (stop : Token) (children : List Tree) :
    (statementTree file first rest brace stop children).tag = .functionDef
      ↔ Declares (first :: rest) ∨ (Shaped (first :: rest) ∧ children ≠ []) :=
  tag_describe_iff brace children

/-- Of what is below it counts only whether there is anything. -/
theorem describe_congr {children others : List Tree} (h : children = [] ↔ others = []) :
    describe tokens brace children = describe tokens brace others := by
  have hempty : children.isEmpty = others.isEmpty := by
    rw [Bool.eq_iff_iff, List.isEmpty_iff, List.isEmpty_iff]
    exact h
  cases hlead : leadTag? tokens with
  | some tag =>
    obtain ⟨attributes, hdescribe⟩ := describe_of_leadTag brace hlead
    rw [hdescribe, hdescribe]
  | none =>
    rw [describe_of_none brace hlead, describe_of_none brace hlead]
    unfold describePlain plainFunction?
    rw [hempty]

end

/-! ### Bodies -/

/-- Nothing but semicolons. -/
def Vacant (body : List Token) : Prop :=
  ∀ t ∈ body, ends t = true

namespace State

variable {file : String} {s : State} {t : Token} {body : List Token}

@[simp] theorem breakLine_frames : (s.breakLine file t).frames = s.frames := by
  rcases (breakLine_cases s t : s.breakLine file t = s ∨ _) with h | h
  · rw [h]
  · rw [h, flush_frames]

theorem flush_breakLine : (s.breakLine file t).flush file = s.flush file := by
  rcases (breakLine_cases s t : s.breakLine file t = s ∨ _) with h | h
  · rw [h]
  · rw [h, flush_of_nil flush_current]

theorem add_opens (s : State) (h : opens t = true) :
    s.add file t = (s.breakLine file t).openBrace t := by
  have hends : Outline.ends t = false := by
    by_contra hends
    rw [Bool.not_eq_false] at hends
    rw [opens_eq_false_of_ends hends] at h
    cases h
  rw [add_eq_take, take, hends, h]
  rfl

variable (file) in
theorem closed_add {f : Frame} {frames : List Frame} (h : closes t = true)
    (hframes : s.frames = f :: frames) : Closed file (s.flush file) f frames t (s.add file t) := by
  have hbroken : (s.breakLine file t).frames = f :: frames := by rw [breakLine_frames, hframes]
  have hclose : s.add file t = (s.flush file).closeFrame file f frames t := by
    have hends : Outline.ends t = false := by
      by_contra hends
      rw [Bool.not_eq_false] at hends
      rw [closes_eq_false_of_ends hends] at h
      cases h
    rw [add_eq_take, take, hends, opens_eq_false_of_closes h, h]
    simp [closeBrace, flush_breakLine, hframes]
  rw [hclose]
  exact closed_closeFrame file _ f frames t

theorem add_frames_of_other (hopens : opens t = false) (hcloses : closes t = false) :
    (s.add file t).frames = s.frames := by
  have hstep : Step file (s.breakLine file t) t (s.add file t) := step_add s t
  generalize s.add file t = s' at hstep
  cases hstep with
  | ended => rw [flush_frames, breakLine_frames]
  | opened h => simp [hopens] at h
  | closed h => simp [hcloses] at h
  | stray h => simp [hcloses] at h
  | resumed => exact breakLine_frames
  | added => exact breakLine_frames

variable (file) in
/-- Balanced tokens leave what is outside of them as it was. -/
theorem frames_foldl (h : Balanced body) (s : State) :
    (body.foldl (State.add file) s).frames = s.frames := by
  induction h generalizing s with
  | nil => rfl
  | other hopens hcloses _ ih => rw [List.foldl_cons, ih, add_frames_of_other hopens hcloses]
  | @block o c inside rest hopens _ hcloses _ ihinside ihrest =>
    rw [List.foldl_append, List.foldl_cons, List.foldl_cons, ihrest]
    have hinside := ihinside (s.add file o)
    rw [add_opens s hopens] at hinside ⊢
    rw [(closed_add file hcloses hinside).frames_eq, breakLine_frames]

/-- Nothing has been taken in behind the innermost open brace. -/
structure Fresh (s : State) : Prop where
  trees : s.trees = []
  current : s.current = []
  lastClosed : s.lastClosed = []
  clause : s.clause = []

/-- A tree has been built behind the innermost open brace, or the statement at hand becomes
one. -/
def Busy (s : State) : Prop :=
  s.trees ≠ [] ∨ (s.current ≠ [] ∧ s.clause = [])

theorem Fresh.add_ends (h : Fresh s) (ht : Outline.ends t = true) : s.add file t = s := by
  have hbreak : s.breakLine file t = s := by
    rcases (breakLine_cases s t : s.breakLine file t = s ∨ _) with hsame | hflush
    · exact hsame
    · rw [hflush, flush_of_nil h.current]
  rw [add_eq_take, hbreak, take, ht, if_pos rfl, flush_of_nil h.current]

theorem trees_flush_ne_nil (h : Busy s) : (s.flush file).trees ≠ [] := by
  by_cases hcurrent : s.current = []
  · rw [flush_of_nil hcurrent]
    rcases h with htrees | ⟨hother, -⟩
    · exact htrees
    · exact absurd hcurrent hother
  · intro hnone
    have hlength : (s.flush file).trees.length = _ := length_trees_flush hcurrent
    rw [hnone] at hlength
    rcases h with htrees | ⟨-, hclause⟩
    · have hsome : s.trees.length ≠ 0 := by simpa using htrees
      simp at hlength
      omega
    · simp [hclause] at hlength

theorem Busy.breakLine (h : Busy s) : Busy (s.breakLine file t) := by
  rcases (breakLine_cases s t : s.breakLine file t = s ∨ _) with hsame | hflush
  · rw [hsame]
    exact h
  · rw [hflush]
    exact .inl (trees_flush_ne_nil h)

theorem Busy.add_other (h : Busy s) (hopens : opens t = false) (hcloses : closes t = false) :
    Busy (s.add file t) := by
  have hbroken : Busy (s.breakLine file t) := h.breakLine
  have hstep : Step file (s.breakLine file t) t (s.add file t) := step_add s t
  generalize s.breakLine file t = u at hbroken hstep
  generalize s.add file t = s' at hstep
  cases hstep with
  | ended => exact .inl (trees_flush_ne_nil hbroken)
  | opened h => simp [hopens] at h
  | closed h => simp [hcloses] at h
  | stray h => simp [hcloses] at h
  | resumed _ _ _ hcurrent =>
    rcases hbroken with htrees | ⟨hother, -⟩
    · left
      rw [← List.length_pos_iff] at htrees ⊢
      exact (length_changeAt _ u.lastClosed u.trees).symm ▸ htrees
    · exact absurd hcurrent hother
  | added =>
    rcases hbroken with htrees | ⟨-, hclause⟩
    · exact .inl htrees
    · exact .inr ⟨by simp, hclause⟩

/-- A block leaves a tree, unless it goes below a tree that is there already. -/
theorem busy_of_block {o c : Token} {inside : List Token} (h : s.trees ≠ [] ∨ s.clause = [])
    (hopens : opens o = true) (hinside : Balanced inside) (hcloses : closes c = true) :
    Busy ((inside.foldl (State.add file) (s.add file o)).add file c) := by
  -- The trees in front wait in the frame of the brace while its block is taken in.
  have hbroken : (s.breakLine file o).trees ≠ [] ∨ (s.breakLine file o).clause = [] := by
    rcases (breakLine_cases s o : s.breakLine file o = s ∨ _) with hsame | hflush
    · rw [hsame]
      exact h
    · by_cases hcurrent : s.current = []
      · rw [hflush, flush_of_nil hcurrent]
        exact h
      · rw [hflush, flush_clause hcurrent]
        exact .inr rfl
  have hframes := frames_foldl file hinside (s.add file o)
  rw [add_opens s hopens] at hframes ⊢
  have hlength := (closed_add file hcloses hframes).length_trees
  left
  rw [← List.length_pos_iff, hlength]
  rcases hbroken with htrees | hclause
  · exact Nat.add_pos_left (List.length_pos_iff.2 htrees) _
  · rw [if_pos hclause]
    exact Nat.succ_pos _

theorem Busy.foldl (hbody : Balanced body) (h : Busy s) : Busy (body.foldl (State.add file) s) := by
  induction hbody generalizing s with
  | nil => exact h
  | other hopens hcloses _ ih => exact ih (h.add_other hopens hcloses)
  | block hopens hinside hcloses _ _ ihrest =>
    rw [List.foldl_append, List.foldl_cons, List.foldl_cons]
    refine ihrest (busy_of_block ?_ hopens hinside hcloses)
    exact h.imp_right And.right

theorem Fresh.foldl_ends (h : Fresh s) (hbody : Vacant body) :
    body.foldl (State.add file) s = s := by
  induction body with
  | nil => rfl
  | cons t rest ih =>
    obtain ⟨ht, hrest⟩ := List.forall_mem_cons.1 hbody
    rw [List.foldl_cons, h.add_ends ht, ih hrest]

theorem Fresh.busy_foldl (h : Fresh s) (hbody : Balanced body) (hsome : ¬ Vacant body) :
    Busy (body.foldl (State.add file) s) := by
  induction hbody with
  | nil => exact absurd (by simp [Vacant]) hsome
  | @other t rest hopens hcloses hrest ih =>
    rw [List.foldl_cons]
    by_cases hends : Outline.ends t = true
    · rw [h.add_ends hends]
      exact ih fun hall => hsome (List.forall_mem_cons.2 ⟨hends, hall⟩)
    · -- The token begins a statement.
      rw [Bool.not_eq_true] at hends
      have hbreak : s.breakLine file t = s := by
        rcases (breakLine_cases s t : s.breakLine file t = s ∨ _) with hsame | hflush
        · exact hsame
        · rw [hflush, flush_of_nil h.current]
      have hadd : s.add file t = { s with current := [t] } := by
        rw [add_eq_take, hbreak, take, hends, hopens, hcloses]
        simp [addToken, h.lastClosed, h.current]
      rw [hadd]
      exact Busy.foldl hrest (.inr ⟨by simp, h.clause⟩)
  | block hopens hinside hcloses hrest =>
    rw [List.foldl_append, List.foldl_cons, List.foldl_cons]
    exact Busy.foldl hrest (busy_of_block (.inr h.clause) hopens hinside hcloses)

variable (file) in
/-- Only semicolons leave no tree behind an opening brace. -/
theorem trees_of_body (h : Fresh s) (hbody : Balanced body) :
    ((body.foldl (State.add file) s).flush file).trees = [] ↔ Vacant body := by
  constructor
  · intro hnone
    by_contra hsome
    exact trees_flush_ne_nil (h.busy_foldl hbody hsome) hnone
  · intro hall
    rw [h.foldl_ends hall, flush_of_nil h.current, h.trees]

/-- The tokens in front of a brace own its block. -/
theorem exists_owner {first : Token} {rest : List Token} (hcurrent : s.current = first :: rest)
    (hclause : s.clause = []) (brace : Token) :
    ∃ o : Owner, o.first = first ∧ o.rest = rest ∧
      (s.openBrace brace).frames = ⟨brace, some o, s.trees, []⟩ :: s.frames := by
  obtain ⟨trees, frames, current, lastClosed, clause, diagnostics⟩ := s
  obtain rfl : current = first :: rest := hcurrent
  obtain rfl : clause = [] := hclause
  exact ⟨_, rfl, rfl, rfl⟩

/-- A block with a header that belongs to no clause becomes one more tree. -/
theorem trees_of_block {brace first : Token} {rest : List Token} (hopens : opens brace = true)
    (hcurrent : (s.breakLine file brace).current = first :: rest)
    (hclause : (s.breakLine file brace).clause = []) :
    ∃ noted : Attributes, ∀ {body : List Token} {close : Token}, Balanced body →
      closes close = true →
      ∃ children, ((brace :: body ++ [close]).foldl (State.add file) s).trees
          = (s.breakLine file brace).trees
            ++ [statementTree file first rest noted close children] ∧
        (children = [] ↔ Vacant body) := by
  obtain ⟨o, rfl, rfl, hopened⟩ := exists_owner hcurrent hclause brace
  refine ⟨o.brace, fun {body close} hbody hcloses => ?_⟩
  have hfresh : Fresh ((s.breakLine file brace).openBrace brace) := ⟨rfl, rfl, rfl, rfl⟩
  have hframes := frames_foldl file hbody ((s.breakLine file brace).openBrace brace)
  have hclosed := closed_add file hcloses (hframes.trans hopened)
  refine ⟨_, ?_, trees_of_body file hfresh hbody⟩
  rw [List.foldl_append, List.foldl_cons, List.foldl_cons, List.foldl_nil, add_opens s hopens]
  generalize State.add file _ close = s' at hclosed
  cases hclosed with
  | owned howner =>
    obtain rfl := Option.some.inj howner
    rfl
  | block howner => cases howner
  | clause howner => cases howner

end State

/-- A header stands in front of a brace and belongs to no clause. Whatever its body, the block
becomes one tree behind those that are there. The header makes a function by its word; or by
its shape, but then only if there is more than semicolons in the body. So the trees for two
bodies are both functions or both none, unless the header has that shape and just one of the
bodies is empty. If they are, the same is noted of both. -/
theorem definition_recognised {file : String} {before body₁ body₂ : List Token}
    {brace close₁ close₂ : Token} {s : State}
    (hs : (before.foldl (State.add file) .start).breakLine file brace = s)
    (hheader : s.current ≠ []) (hclause : s.clause = []) (hopens : opens brace = true)
    (hbody₁ : Balanced body₁) (hbody₂ : Balanced body₂) (hcloses₁ : closes close₁ = true)
    (hcloses₂ : closes close₂ = true) :
    ∃ node₁ node₂ : Tree,
      ((before ++ brace :: body₁ ++ [close₁]).foldl (State.add file) .start).trees
          = s.trees ++ [node₁] ∧
      ((before ++ brace :: body₂ ++ [close₂]).foldl (State.add file) .start).trees
          = s.trees ++ [node₂] ∧
      (node₁.tag = .functionDef
        ↔ Declares s.current ∨ (Shaped s.current ∧ ¬ Vacant body₁)) ∧
      ((node₁.tag = .functionDef ↔ node₂.tag = .functionDef)
        ↔ (Shaped s.current → (Vacant body₁ ↔ Vacant body₂))) ∧
      (node₁.tag = .functionDef → node₂.tag = .functionDef →
        node₁.attributes = node₂.attributes) := by
  obtain ⟨first, rest, hcurrent⟩ := List.exists_cons_of_ne_nil hheader
  subst hs
  obtain ⟨noted, hblock⟩ := State.trees_of_block hopens hcurrent hclause
  obtain ⟨children₁, htrees₁, hempty₁⟩ := hblock hbody₁ hcloses₁
  obtain ⟨children₂, htrees₂, hempty₂⟩ := hblock hbody₂ hcloses₂
  have htag₁ := tag_statementTree_iff file first rest noted close₁ children₁
  have htag₂ := tag_statementTree_iff file first rest noted close₂ children₂
  rw [Ne, hempty₁] at htag₁
  rw [Ne, hempty₂] at htag₂
  rw [hcurrent]
  refine ⟨statementTree file first rest noted close₁ children₁,
    statementTree file first rest noted close₂ children₂, ?_, ?_, htag₁, ?_, ?_⟩
  · rw [List.append_assoc, List.foldl_append]
    exact htrees₁
  · rw [List.append_assoc, List.foldl_append]
    exact htrees₂
  · rw [htag₁, htag₂]
    by_cases hshaped : Shaped (first :: rest)
    · simp only [hshaped, hshaped.not_declares, false_or, true_and, true_implies, not_iff_not]
    · simp [hshaped]
  · intro hfunction₁ hfunction₂
    rw [htag₁] at hfunction₁
    rw [htag₂] at hfunction₂
    rcases hfunction₁ with hdeclares | ⟨hshaped, hsome₁⟩
    · -- A word settles everything that is noted.
      obtain ⟨attributes, hdescribe⟩ := describe_of_leadTag noted hdeclares
      simp [statementTree, hdescribe, Tree.attributes]
    · obtain ⟨-, hsome₂⟩ := hfunction₂.resolve_left hshaped.not_declares
      have hsame : describe (first :: rest) noted children₁ = describe _ noted children₂ :=
        describe_congr noted (iff_of_false (hempty₁.not.2 hsome₁) (hempty₂.not.2 hsome₂))
      simp [statementTree, hsame, Tree.attributes]

/-- A function that no word says to be one is missed if its body is empty. -/
theorem definition_recognised_of_empty_body :
    ∃ node₁ node₂ : Tree,
      ((Lexer.tokens surface "int main(void) \x7b \x7d").foldl (State.add "a.c") .start).trees
          = [node₁] ∧
      ((Lexer.tokens surface "int main(void) \x7b x \x7d").foldl (State.add "a.c") .start).trees
          = [node₂] ∧
      node₁.tag ≠ .functionDef ∧ node₂.tag = .functionDef := by
  let header : List Token := [⟨.ident, "int", 1, 0, 1, 3⟩, ⟨.ident, "main", 1, 4, 1, 8⟩,
    ⟨.punct, "(", 1, 8, 1, 9⟩, ⟨.ident, "void", 1, 9, 1, 13⟩, ⟨.punct, ")", 1, 13, 1, 14⟩]
  let brace : Token := ⟨.punct, "\x7b", 1, 15, 1, 16⟩
  let statement : Token := ⟨.ident, "x", 1, 17, 1, 18⟩
  let close₁ : Token := ⟨.punct, "\x7d", 1, 17, 1, 18⟩
  let close₂ : Token := ⟨.punct, "\x7d", 1, 19, 1, 20⟩
  have htokens₁ : Lexer.tokens surface "int main(void) \x7b \x7d"
      = header ++ brace :: [] ++ [close₁] := by
    decide +kernel
  have htokens₂ : Lexer.tokens surface "int main(void) \x7b x \x7d"
      = header ++ brace :: [statement] ++ [close₂] := by
    decide +kernel
  let s := (header.foldl (State.add "a.c") .start).breakLine "a.c" brace
  have hcurrent : s.current = header := by decide +kernel
  have htrees : s.trees = [] := List.isEmpty_iff.1 (by decide +kernel)
  have hbody : Balanced [statement] := .other rfl rfl .nil
  have hcloses₁ : closes close₁ = true := rfl
  have hcloses₂ : closes close₂ = true := rfl
  obtain ⟨node₁, node₂, hnode₁, hnode₂, htag, hboth, -⟩ :=
    definition_recognised (s := s) rfl (by decide +kernel) (by decide +kernel) rfl .nil hbody
      hcloses₁ hcloses₂
  rw [hcurrent] at htag hboth
  rw [htrees] at hnode₁ hnode₂
  have hshaped : Shaped header := ⟨by decide +kernel, ⟨_, rfl, rfl⟩, by decide +kernel⟩
  have hvacant : Vacant [] := by simp [Vacant]
  have hsome : ¬ Vacant [statement] := by
    unfold Vacant
    decide +kernel
  have hmissed : node₁.tag ≠ .functionDef := by
    rw [Ne, htag]
    simp [hshaped.not_declares, hvacant]
  refine ⟨node₁, node₂, ?_, ?_, hmissed, ?_⟩
  · rw [htokens₁]
    exact hnode₁
  · rw [htokens₂]
    exact hnode₂
  · by_contra hother
    exact hsome ((hboth.1 (iff_of_false hmissed hother) hshaped).1 hvacant)

end CodeHabits.Outline
