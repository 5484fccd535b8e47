import CodeHabits.Proofs.Outline.Paths
import CodeHabits.Proofs.Token.Covering

/-!
# `CodeHabits.Proofs.Outline.Nesting`: what a statement spans

The span of a statement with a block ends with the brace that closes the block. What is below
the statement then is within its span. A clause puts more below it later, and the span stays
as it is: so the children of a statement are within its span, or else they are behind it and a
clause word follows its block (`children_within_or_continued`).

The invariant of a run says of the tokens that are not part of the statement at hand where
they end (`reach`). Everything that has been built ends there or before, what has been built
inside a brace begins behind that brace, and the statements that a clause continues or may
continue are where the paths to them lead (`State.Settled`).
-/

set_option autoImplicit false

namespace CodeHabits.Outline

/-- A closing brace ends at this place, and only semicolons and closing braces follow. -/
def ClosedAt (front : List Token) (place : Int ×ₗ Int) : Prop :=
  ∃ before close quiet, front = before ++ close :: quiet ∧ closes close = true ∧
    close.stop = place ∧ ∀ t ∈ quiet, ends t = true ∨ closes t = true

/-- A clause word continues the statement whose block ends at this place. -/
def ContinuedAt (tokens : List Token) (place : Int ×ₗ Int) : Prop :=
  ∃ front word back, tokens = front ++ word :: back ∧ ClosedAt front place ∧
    word.text ∈ clauseWords

theorem ClosedAt.append_singleton {front : List Token} {place : Int ×ₗ Int} {t : Token}
    (h : ClosedAt front place) (ht : ends t = true ∨ closes t = true) :
    ClosedAt (front ++ [t]) place := by
  obtain ⟨before, close, quiet, rfl, hcloses, hplace, hquiet⟩ := h
  refine ⟨before, close, quiet ++ [t], by simp, hcloses, hplace, ?_⟩
  exact List.forall_mem_append.2 ⟨hquiet, by simpa using ht⟩

/-- The inner span is within the outer one, or it is behind the outer one as part of a clause. -/
def Holds (tokens : List Token) (outer inner : Span) : Prop :=
  inner.Within outer ∨ (outer.last ≤ inner.first ∧ ContinuedAt tokens outer.last)

/-- No node ends before it begins, and each holds those below it. -/
inductive Arranged (tokens : List Token) : Tree → Prop
  | node {tag : Tag} {span : Span} {attributes : Attributes} {children : List Tree}
      (hspan : span.first ≤ span.last) (hholds : ∀ t ∈ children, Holds tokens span t.span)
      (hchildren : ∀ t ∈ children, Arranged tokens t) :
      Arranged tokens (.node tag span attributes children)

namespace Arranged

variable {tokens : List Token} {t : Tree}

theorem span (h : Arranged tokens t) : t.span.first ≤ t.span.last := by
  cases h with
  | node hspan _ _ => exact hspan

theorem holds (h : Arranged tokens t) : ∀ child ∈ t.children, Holds tokens t.span child.span := by
  cases h with
  | node _ hholds _ => exact hholds

theorem children (h : Arranged tokens t) : ∀ child ∈ t.children, Arranged tokens child := by
  cases h with
  | node _ _ hchildren => exact hchildren

end Arranged

/-- A tree between two places. -/
structure Between (tokens : List Token) (lower upper : Int ×ₗ Int) (t : Tree) : Prop where
  arranged : Arranged tokens t
  lower_le : lower ≤ t.span.first
  le_upper : t.span.last ≤ upper

/-- A path leads to a statement that a clause continues and that ends before a place. -/
def Awaits (tokens : List Token) (place : Int ×ₗ Int) (path : Path) (trees : List Tree) : Prop :=
  ∃ s, Leads path trees s ∧ s.last ≤ place ∧ ContinuedAt tokens s.last

theorem Awaits.mono {tokens : List Token} {place later : Int ×ₗ Int} {path : Path}
    {trees : List Tree} (h : Awaits tokens place path trees) (hlater : place ≤ later) :
    Awaits tokens later path trees := by
  obtain ⟨s, hleads, hlast, hcontinued⟩ := h
  exact ⟨s, hleads, le_trans hlast hlater, hcontinued⟩

/-! ### Changes to trees -/

section

variable {tokens : List Token} {trees trees' new : List Tree} {lower upper : Int ×ₗ Int}

theorem forall_span_of_map_eq {P : Span → Prop} (h : trees'.map Tree.span = trees.map Tree.span)
    (hP : ∀ t ∈ trees, P t.span) : ∀ t ∈ trees', P t.span := by
  have hspans : ∀ s ∈ trees'.map Tree.span, P s := by
    rw [h]
    exact List.forall_mem_map.2 hP
  exact List.forall_mem_map.1 hspans

/-- What is below a tree may be changed as long as the spans stay as they are. -/
theorem Arranged.withChildren {t : Tree} {children : List Tree} (h : Arranged tokens t)
    (hspans : children.map Tree.span = t.children.map Tree.span)
    (hchildren : ∀ child ∈ children, Arranged tokens child) (tag : Tag)
    (attributes : Attributes) : Arranged tokens (.node tag t.span attributes children) :=
  .node h.span (forall_span_of_map_eq hspans h.holds) hchildren

/-- Trees may be put below one that a clause continues if they begin behind it. -/
theorem arranged_changeBelow {path : Path} {s : Span} (hleads : Leads path trees s)
    (hcontinued : ContinuedAt tokens s.last) (h : ∀ t ∈ trees, Arranged tokens t)
    (hnew : ∀ t ∈ new, Arranged tokens t ∧ s.last ≤ t.span.first) :
    ∀ t ∈ changeBelow (· ++ new) path trees, Arranged tokens t := by
  induction hleads with
  | @here i trees t hget =>
    have ht : Arranged tokens t := h t (List.mem_of_getElem? hget)
    refine forall_mem_modify h i fun other hother => ?_
    obtain rfl : t = other := Option.some.inj (hget.symm.trans hother)
    -- The new trees are below this one, behind its end.
    refine .node ht.span ?_ ?_
    · refine List.forall_mem_append.2 ⟨ht.holds, fun child hchild => ?_⟩
      exact .inr ⟨(hnew child hchild).2, hcontinued⟩
    · exact List.forall_mem_append.2 ⟨ht.children, fun child hchild => (hnew child hchild).1⟩
  | @deeper i path trees t s hget hpath ih =>
    have ht : Arranged tokens t := h t (List.mem_of_getElem? hget)
    refine forall_mem_modify h i fun other hother => ?_
    obtain rfl : t = other := Option.some.inj (hget.symm.trans hother)
    -- The new trees are further below, and the children keep their spans.
    exact ht.withChildren (map_span_changeBelow new hpath.ne_nil _) (ih hcontinued ht.children hnew)
      _ _

theorem arranged_changeAt (word : String) (path : Path) (h : ∀ t ∈ trees, Arranged tokens t) :
    ∀ t ∈ changeAt (State.markClause word) path trees, Arranged tokens t := by
  induction path generalizing trees with
  | nil => exact h
  | cons i path ih =>
    have hold : ∀ t, trees[i]? = some t → Arranged tokens t := fun t hget =>
      h t (List.mem_of_getElem? hget)
    cases path with
    | nil =>
      refine forall_mem_modify h i fun t hget => ?_
      obtain ⟨-, hspan, hchildren⟩ := markClause_keeps word t
      generalize State.markClause word t = marked at hspan hchildren
      obtain ⟨tag, span, attributes, children⟩ := marked
      obtain rfl : span = t.span := hspan
      obtain rfl : children = t.children := hchildren
      exact (hold t hget).withChildren rfl (hold t hget).children _ _
    | cons j path =>
      rw [changeAt]
      refine forall_mem_modify h i fun t hget => ?_
      exact (hold t hget).withChildren (map_span_changeAt word (j :: path) _)
        (ih (hold t hget).children) _ _

theorem Between.of_map_span (h : ∀ t ∈ trees, Between tokens lower upper t)
    (hspans : trees'.map Tree.span = trees.map Tree.span)
    (harranged : ∀ t ∈ trees', Arranged tokens t) : ∀ t ∈ trees', Between tokens lower upper t := by
  have hbounds : ∀ t ∈ trees', lower ≤ t.span.first ∧ t.span.last ≤ upper :=
    forall_span_of_map_eq (P := fun s => lower ≤ s.first ∧ s.last ≤ upper) hspans fun t ht =>
      ⟨(h t ht).lower_le, (h t ht).le_upper⟩
  exact fun t ht => ⟨harranged t ht, (hbounds t ht).1, (hbounds t ht).2⟩

theorem Between.changeBelow {place : Int ×ₗ Int} {path : Path}
    (h : ∀ t ∈ trees, Between tokens lower upper t) (hlower : lower ≤ place)
    (hpath : path ≠ [] → Awaits tokens place path trees)
    (hnew : ∀ t ∈ new, Between tokens place upper t) :
    ∀ t ∈ changeBelow (· ++ new) path trees, Between tokens lower upper t := by
  by_cases hnil : path = []
  · subst hnil
    refine List.forall_mem_append.2 ⟨h, fun t ht => ?_⟩
    exact ⟨(hnew t ht).arranged, le_trans hlower (hnew t ht).lower_le, (hnew t ht).le_upper⟩
  · obtain ⟨s, hleads, hlast, hcontinued⟩ := hpath hnil
    refine Between.of_map_span h (map_span_changeBelow new hnil trees) ?_
    refine arranged_changeBelow hleads hcontinued (fun t ht => (h t ht).arranged) fun t ht => ?_
    exact ⟨(hnew t ht).arranged, le_trans hlast (hnew t ht).lower_le⟩

theorem Between.changeAt (h : ∀ t ∈ trees, Between tokens lower upper t) (word : String)
    (path : Path) :
    ∀ t ∈ changeAt (State.markClause word) path trees, Between tokens lower upper t :=
  Between.of_map_span h (map_span_changeAt word path trees)
    (arranged_changeAt word path fun t ht => (h t ht).arranged)

theorem Between.mono {t : Tree} {upper' : Int ×ₗ Int} (h : Between tokens lower upper t)
    (hupper : upper ≤ upper') : Between tokens lower upper' t :=
  ⟨h.arranged, h.lower_le, le_trans h.le_upper hupper⟩

end

/-! ### Open braces -/

/-- Where the block of a brace begins: with its owner, if it has one. -/
def Frame.begin (f : Frame) : Int ×ₗ Int :=
  match f.owner? with
  | some o => o.first.place
  | none => f.brace.place

/-- Where the innermost open brace ends. -/
def floor : List Frame → Int ×ₗ Int
  | [] => toLex (1, 0)
  | f :: _ => f.brace.stop

/-- A brace has been opened behind a place, and what has been built outside of it is behind
that place too and ends before another one. -/
structure Frame.Opened (tokens : List Token) (lower upper : Int ×ₗ Int) (f : Frame) : Prop where
  lower_le : lower ≤ f.begin
  begin_le : f.begin ≤ f.brace.stop
  outer : ∀ t ∈ f.outer, Between tokens lower upper t
  destination : f.destination ≠ [] → Awaits tokens f.begin f.destination f.outer

/-- Open braces, each opened behind the one below it. -/
def Stacked (tokens : List Token) (upper : Int ×ₗ Int) : List Frame → Prop
  | [] => True
  | f :: frames => f.Opened tokens (floor frames) upper ∧ Stacked tokens upper frames

theorem Stacked.mono {tokens : List Token} {upper upper' : Int ×ₗ Int} {frames : List Frame}
    (h : Stacked tokens upper frames) (hupper : upper ≤ upper') : Stacked tokens upper' frames := by
  induction frames with
  | nil => exact h
  | cons f frames ih =>
    obtain ⟨hopened, hrest⟩ := h
    refine ⟨⟨hopened.lower_le, hopened.begin_le, ?_, hopened.destination⟩, ih hrest⟩
    exact fun t ht => (hopened.outer t ht).mono hupper

section

variable {file : String} {tokens : List Token} {lower : Int ×ₗ Int} {s s' : State} {f : Frame}
  {frames : List Frame} {close : Token}

theorem Frame.Opened.valid {upper : Int ×ₗ Int} (h : f.Opened tokens lower upper) :
    f.destination ≠ [] → ∃ s, Leads f.destination f.outer s := by
  intro hdestination
  obtain ⟨s, hleads, -⟩ := h.destination hdestination
  exact ⟨s, hleads⟩

/-- The tree of a block spans from where the block begins to its closing brace. -/
theorem between_block (hbegin : f.begin ≤ f.brace.stop) (hclose : f.brace.stop ≤ close.stop)
    {trees : List Tree} (htrees : ∀ t ∈ trees, Between tokens f.brace.stop close.stop t)
    (tag : Tag) {span : Span} (attributes : Attributes) (hfirst : span.first = f.begin)
    (hlast : span.last = close.stop) :
    Between tokens f.begin close.stop (.node tag span attributes trees) := by
  refine ⟨.node ?_ ?_ fun t ht => (htrees t ht).arranged, ?_, ?_⟩
  · rw [hfirst, hlast]
    exact le_trans hbegin hclose
  · refine fun t ht => .inl ⟨?_, ?_⟩
    · rw [hfirst]
      exact le_trans hbegin (htrees t ht).lower_le
    · rw [hlast]
      exact (htrees t ht).le_upper
  · exact ge_of_eq hfirst
  · exact le_of_eq hlast

/-- A block that is closed is put where it belongs. -/
theorem between_closed (hclosed : State.Closed file s f frames close s')
    (hopened : f.Opened tokens lower close.stop) (hclose : f.brace.stop ≤ close.stop)
    (htrees : ∀ t ∈ s.trees, Between tokens f.brace.stop close.stop t) :
    ∀ t ∈ s'.trees, Between tokens lower close.stop t := by
  -- What is put there begins where the block does, behind what the destination leads to.
  have hplaced : ∀ new, (∀ t ∈ new, Between tokens f.begin close.stop t) →
      ∀ t ∈ f.placed new, Between tokens lower close.stop t :=
    fun _ hnew => Between.changeBelow hopened.outer hopened.lower_le hopened.destination hnew
  cases hclosed with
  | @owned o howner =>
    refine hplaced _ (List.forall_mem_singleton.2 ?_)
    refine between_block hopened.begin_le hclose htrees _ _ ?_ rfl
    rw [Frame.begin, howner]
    rfl
  | block howner =>
    refine hplaced _ (List.forall_mem_singleton.2 ?_)
    refine between_block hopened.begin_le hclose htrees _ _ ?_ rfl
    rw [Frame.begin, howner]
    rfl
  | clause =>
    -- The trees of the block go there one by one, without a tree for the block.
    refine hplaced _ fun t ht => ?_
    exact ⟨(htrees t ht).arranged, le_trans hopened.begin_le (htrees t ht).lower_le,
      (htrees t ht).le_upper⟩

end

/-! ### How far the tokens reach -/

/-- Where tokens end. -/
def reach (front : List Token) : Int ×ₗ Int :=
  match front.getLast? with
  | some t => t.stop
  | none => toLex (1, 0)

@[simp] theorem reach_append_singleton (front : List Token) (t : Token) :
    reach (front ++ [t]) = t.stop := by
  simp [reach]

section

variable {tokens front : List Token} {upper : Int ×ₗ Int}
  (horder : Lexer.InOrder (toLex (1, 0)) upper tokens)

include horder

/-- A token begins behind those in front of it. -/
theorem reach_le_place {t : Token} (h : front ++ [t] <+: tokens) : reach front ≤ t.place := by
  rcases List.eq_nil_or_concat front with rfl | ⟨before, u, rfl⟩
  · exact horder.first_le t (h.subset (by simp))
  · rw [List.concat_eq_append] at h ⊢
    have hpairwise := horder.pairwise.sublist h.sublist
    rw [reach_append_singleton]
    exact (List.pairwise_append.1 hpairwise).2.2 u (by simp) t (by simp)

theorem place_le_stop {t : Token} (h : front ++ [t] <+: tokens) : t.place ≤ t.stop :=
  horder.place_le_stop t (h.subset (by simp))

theorem reach_le_append {more : List Token} (h : front ++ more <+: tokens) :
    reach front ≤ reach (front ++ more) := by
  induction more using List.reverseRecOn with
  | nil => rw [List.append_nil]
  | append_singleton more t ih =>
    rw [← List.append_assoc] at h ⊢
    rw [reach_append_singleton]
    exact le_trans (ih ((List.prefix_append _ _).trans h))
      (le_trans (reach_le_place horder h) (place_le_stop horder h))

/-- The first of some tokens does not begin behind the end of the last one. -/
theorem place_le_reach {first : Token} {rest : List Token}
    (h : front ++ first :: rest <+: tokens) : first.place ≤ reach (front ++ first :: rest) := by
  rw [List.append_cons] at h ⊢
  have hfirst : front ++ [first] <+: tokens := (List.prefix_append _ _).trans h
  refine le_trans (place_le_stop horder hfirst) ?_
  rw [← reach_append_singleton front]
  exact reach_le_append horder h

end

namespace State

/-- The statement that is closed last ends here, and a clause does or may continue it. -/
def Resumable (tokens before : List Token) (place : Int ×ₗ Int) : Prop :=
  ContinuedAt tokens place ∨ ClosedAt before place

/-- What has been built of the tokens before the statement at hand. -/
structure Settled (tokens before : List Token) (s : State) : Prop where
  trees : ∀ t ∈ s.trees, Between tokens (floor s.frames) (reach before) t
  frames : Stacked tokens (reach before) s.frames
  floor_le : floor s.frames ≤ reach before
  clause : s.clause ≠ [] → Awaits tokens (reach before) s.clause s.trees
  lastClosed : s.current = [] → s.lastClosed ≠ [] →
    ∃ span, Leads s.lastClosed s.trees span ∧ span.last ≤ reach before ∧
      Resumable tokens before span.last

variable {file : String} {tokens before : List Token} {s s' : State} {t : Token}
  {upper : Int ×ₗ Int} (horder : Lexer.InOrder (toLex (1, 0)) upper tokens)

/-- More tokens, none of which has been built into anything. -/
theorem Settled.later (h : Settled tokens before s) {more : List Token}
    (hreach : reach before ≤ reach (before ++ more))
    (hlast : ∀ place, Resumable tokens before place → Resumable tokens (before ++ more) place) :
    Settled tokens (before ++ more) s := by
  constructor
  case trees => exact fun t ht => (h.trees t ht).mono hreach
  case frames => exact h.frames.mono hreach
  case floor_le => exact le_trans h.floor_le hreach
  case clause => exact fun hclause => (h.clause hclause).mono hreach
  case lastClosed =>
    intro hcurrent hsome
    obtain ⟨span, hleads, hle, hresumable⟩ := h.lastClosed hcurrent hsome
    exact ⟨span, hleads, le_trans hle hreach, hlast _ hresumable⟩

theorem flush_of_cons {first : Token} {rest : List Token} (h : s.current = first :: rest) :
    s.flush file =
      { s with
        trees := changeBelow (· ++ [statementTree file first rest []
          ((first :: rest).getLast (List.cons_ne_nil _ _)) []]) s.clause s.trees
        current := []
        lastClosed := []
        clause := [] } := by
  obtain ⟨trees, frames, current, lastClosed, clause, diagnostics⟩ := s
  obtain rfl : current = first :: rest := h
  rfl

include horder

theorem Settled.flush (h : Settled tokens before s) (hfront : before ++ s.current <+: tokens) :
    Settled tokens (before ++ s.current) (s.flush file) := by
  cases hcurrent : s.current with
  | nil =>
    rw [flush_of_nil hcurrent, List.append_nil]
    exact h
  | cons first rest =>
    rw [hcurrent] at hfront
    have hreach := reach_le_append horder hfront
    have hfirst : reach before ≤ first.place := by
      rw [List.append_cons] at hfront
      exact reach_le_place horder ((List.prefix_append _ _).trans hfront)
    have hlast : ((first :: rest).getLast (List.cons_ne_nil _ _)).stop
        = reach (before ++ first :: rest) := by
      rw [reach, List.getLast?_append_of_ne_nil _ (List.cons_ne_nil _ _),
        List.getLast?_eq_some_getLast]
    have htree : Between tokens first.place (reach (before ++ first :: rest))
        (statementTree file first rest [] ((first :: rest).getLast (List.cons_ne_nil _ _)) []) := by
      refine ⟨.node ?_ (by simp) (by simp), le_refl _, le_of_eq hlast⟩
      exact le_trans (place_le_reach horder hfront) (ge_of_eq hlast)
    rw [flush_of_cons hcurrent]
    constructor
    case trees =>
      refine Between.changeBelow (fun t ht => (h.trees t ht).mono hreach)
        (le_trans h.floor_le hfirst) (fun hclause => (h.clause hclause).mono hfirst) ?_
      exact List.forall_mem_singleton.2 htree
    case frames => exact h.frames.mono hreach
    case floor_le => exact le_trans h.floor_le hreach
    case clause => exact fun hclause => absurd rfl hclause
    case lastClosed => exact fun _ hsome => absurd rfl hsome

/-- A semicolon or a closing brace does not keep a clause from continuing a statement. -/
theorem Settled.quiet (h : Settled tokens before s) (hfront : before ++ [t] <+: tokens)
    (ht : Outline.ends t = true ∨ closes t = true) : Settled tokens (before ++ [t]) s := by
  refine h.later (reach_le_append horder hfront) ?_
  rintro place (hcontinued | hclosed)
  · exact .inl hcontinued
  · exact .inr (hclosed.append_singleton ht)

omit horder in
/-- What opens a brace owns its block, unless it is the head of a clause. -/
theorem exists_openBrace (s : State) (brace : Token) :
    ∃ owner? : Option Owner, s.openBrace brace =
        { s with
          trees := []
          frames := ⟨brace, owner?, s.trees, s.clause⟩ :: s.frames
          current := []
          lastClosed := []
          clause := [] } ∧
      ∀ o ∈ owner?, ∃ rest, s.current = o.first :: rest := by
  obtain ⟨trees, frames, current, lastClosed, clause, diagnostics⟩ := s
  refine ⟨_, rfl, fun o howner => ?_⟩
  cases current with
  | nil => cases howner
  | cons first rest =>
    dsimp only at howner
    split at howner
    · cases howner
    · obtain rfl := Option.some.inj howner
      exact ⟨rest, rfl⟩

theorem Settled.openBrace (h : Settled tokens before s)
    (hfront : before ++ s.current ++ [t] <+: tokens) :
    Settled tokens (before ++ s.current ++ [t]) (s.openBrace t) := by
  have hcurrent : before ++ s.current <+: tokens := (List.prefix_append _ _).trans hfront
  have hplace : reach (before ++ s.current) ≤ t.place := reach_le_place horder hfront
  have hstop : t.place ≤ t.stop := place_le_stop horder hfront
  have hreach : reach before ≤ reach (before ++ s.current) := reach_le_append horder hcurrent
  obtain ⟨owner?, hopened, howner⟩ := exists_openBrace s t
  -- The block begins with the statement at hand or with the brace, so behind what is settled.
  have hbegin : reach before ≤ Frame.begin ⟨t, owner?, s.trees, s.clause⟩ ∧
      Frame.begin ⟨t, owner?, s.trees, s.clause⟩ ≤ t.place := by
    cases owner? with
    | none => exact ⟨le_trans hreach hplace, le_refl _⟩
    | some o =>
      obtain ⟨rest, hrest⟩ := howner o rfl
      rw [hrest] at hcurrent hplace
      refine ⟨?_, le_trans (place_le_reach horder hcurrent) hplace⟩
      rw [List.append_cons] at hcurrent
      exact reach_le_place horder ((List.prefix_append _ _).trans hcurrent)
  have hlater : reach before ≤ t.stop := le_trans hreach (le_trans hplace hstop)
  rw [hopened]
  constructor
  case trees => exact fun tree htree => absurd htree List.not_mem_nil
  case frames =>
    rw [reach_append_singleton]
    refine ⟨⟨le_trans h.floor_le hbegin.1, le_trans hbegin.2 hstop, ?_, ?_⟩, h.frames.mono hlater⟩
    · exact fun tree htree => (h.trees tree htree).mono hlater
    · exact fun hclause => (h.clause hclause).mono hbegin.1
  case floor_le => exact le_of_eq (reach_append_singleton _ t).symm
  case clause => exact fun hclause => absurd rfl hclause
  case lastClosed => exact fun _ hsome => absurd rfl hsome

theorem Settled.closed {f : Frame} {frames : List Frame} (h : Settled tokens before s)
    (hframes : s.frames = f :: frames) (hfront : before ++ [t] <+: tokens)
    (hcloses : closes t = true) (hclosed : Closed file s f frames t s') :
    Settled tokens (before ++ [t]) s' := by
  have hreach : reach before ≤ t.stop :=
    le_trans (reach_le_place horder hfront) (place_le_stop horder hfront)
  have htrees := h.trees
  have hfloor := h.floor_le
  have hstacked := h.frames.mono hreach
  rw [hframes] at htrees hfloor hstacked
  obtain ⟨hopened, hrest⟩ := hstacked
  have hclose : f.brace.stop ≤ t.stop := le_trans hfloor hreach
  have hbegin : f.begin ≤ t.stop := le_trans hopened.begin_le hclose
  constructor
  case trees =>
    rw [hclosed.frames_eq, reach_append_singleton]
    exact between_closed hclosed hopened hclose fun tree htree => (htrees tree htree).mono hreach
  case frames =>
    rw [hclosed.frames_eq, reach_append_singleton]
    exact hrest
  case floor_le =>
    rw [hclosed.frames_eq, reach_append_singleton]
    exact le_trans hopened.lower_le hbegin
  case clause =>
    -- A clause without a statement is still open behind the brace, and its path gets longer.
    intro hclause
    obtain ⟨span, hleads, hle, hcontinued⟩ :=
      h.clause fun hnil => hclause (hclosed.clause_eq_nil_iff.2 hnil)
    rw [reach_append_singleton]
    refine ⟨span, ?_, le_trans hle hreach, hcontinued⟩
    cases hclosed with
    | owned => exact hleads.placed_below hopened.valid _ _ _
    | block => exact hleads.placed_below hopened.valid _ _ _
    | clause => exact hleads.placed_beside hopened.valid
  case lastClosed =>
    intro _ hsome
    rw [reach_append_singleton]
    cases hclosed with
    | owned =>
      refine ⟨_, Leads.placed_last hopened.valid _, le_refl _, .inr ?_⟩
      exact ⟨before, t, [], rfl, hcloses, rfl, by simp⟩
    | block => exact absurd rfl hsome
    | clause =>
      obtain ⟨span, hleads, hle, hcontinued⟩ := hopened.destination hsome
      exact ⟨span, hleads.changeBelow _ _, le_trans hle hbegin, .inl hcontinued⟩

theorem Settled.stray (h : Settled tokens before s) (hframes : s.frames = [])
    (hfront : before ++ [t] <+: tokens) (hcloses : closes t = true) :
    Settled tokens (before ++ [t]) (s.stray file t) := by
  have hquiet := h.quiet horder hfront (.inr hcloses)
  constructor
  case trees =>
    refine List.forall_mem_append.2 ⟨hquiet.trees, List.forall_mem_singleton.2 ?_⟩
    refine ⟨.node (place_le_stop horder hfront) (by simp) (by simp), ?_, ?_⟩
    · show floor s.frames ≤ t.place
      rw [hframes]
      exact horder.first_le t (hfront.subset (by simp))
    · exact le_of_eq (reach_append_singleton before t).symm
  case frames => exact hquiet.frames
  case floor_le => exact hquiet.floor_le
  case clause =>
    intro hclause
    obtain ⟨span, hleads, hrest⟩ := hquiet.clause hclause
    exact ⟨span, hleads.append _, hrest⟩
  case lastClosed =>
    intro hcurrent hsome
    obtain ⟨span, hleads, hrest⟩ := hquiet.lastClosed hcurrent hsome
    exact ⟨span, hleads.append _, hrest⟩

theorem Settled.resume (h : Settled tokens before s) (hcurrent : s.current = [])
    (hlast : s.lastClosed ≠ []) (hfront : before ++ [t] <+: tokens)
    (hword : t.text ∈ clauseWords) : Settled tokens (before ++ [t]) (s.resume t.text) := by
  have hreach := reach_le_append horder hfront
  constructor
  case trees =>
    exact Between.changeAt (fun tree htree => (h.trees tree htree).mono hreach) t.text s.lastClosed
  case frames => exact h.frames.mono hreach
  case floor_le => exact le_trans h.floor_le hreach
  case clause =>
    intro _
    obtain ⟨span, hleads, hle, hresumable⟩ := h.lastClosed hcurrent hlast
    refine ⟨span, hleads.changeAt t.text s.lastClosed, le_trans hle hreach, ?_⟩
    rcases hresumable with hcontinued | hclosed
    · exact hcontinued
    · -- The word is the first one to continue the statement.
      obtain ⟨back, rfl⟩ := hfront
      exact ⟨before, t, back, by simp, hclosed, hword⟩
  case lastClosed => exact fun _ hsome => absurd rfl hsome

theorem Settled.step (h : Settled tokens before s)
    (hfront : before ++ s.current ++ [t] <+: tokens) (hstep : Step file s t s') :
    ∃ before', before ++ s.current ++ [t] = before' ++ s'.current ∧ Settled tokens before' s' := by
  have hflush : Settled tokens (before ++ s.current) (s.flush file) :=
    h.flush horder ((List.prefix_append _ _).trans hfront)
  cases hstep with
  | ended hends =>
    refine ⟨_, ?_, hflush.quiet horder hfront (.inl hends)⟩
    rw [flush_current, List.append_nil]
  | opened =>
    refine ⟨_, ?_, h.openBrace horder hfront⟩
    exact (List.append_nil _).symm
  | @closed f frames hcloses hframes =>
    refine ⟨_, ?_, hflush.closed horder (flush_frames.trans hframes) hfront hcloses
      (closed_closeFrame file _ f frames t)⟩
    rw [closeFrame_current, flush_current, List.append_nil]
  | stray hcloses hframes =>
    refine ⟨_, ?_, hflush.stray horder (flush_frames.trans hframes) hfront hcloses⟩
    show _ = _ ++ (s.flush file).current
    rw [flush_current, List.append_nil]
  | resumed _ _ _ hcurrent hlast hword =>
    rw [hcurrent, List.append_nil] at hfront ⊢
    refine ⟨_, ?_, h.resume horder hcurrent hlast hfront hword⟩
    show _ = _ ++ s.current
    rw [hcurrent, List.append_nil]
  | added =>
    refine ⟨before, List.append_assoc _ _ _, h.trees, h.frames, h.floor_le, h.clause, ?_⟩
    exact fun hnil => absurd hnil (by simp)

theorem settled_run (file : String) {front : List Token} (hfront : front <+: tokens) :
    ∃ before, front = before ++ (front.foldl (State.add file) .start).current ∧
      Settled tokens before (front.foldl (State.add file) .start) := by
  refine run_induction (P := fun front s => front <+: tokens →
    ∃ before, front = before ++ s.current ∧ Settled tokens before s) ?_ ?_ ?_ front hfront
  · refine fun _ => ⟨[], rfl, ?_⟩
    constructor
    case trees => exact fun tree htree => absurd htree List.not_mem_nil
    case frames => trivial
    case floor_le => exact le_refl _
    case clause => exact fun hclause => absurd rfl hclause
    case lastClosed => exact fun _ hsome => absurd rfl hsome
  · intro front s h hfront
    obtain ⟨before, rfl, hsettled⟩ := h hfront
    exact ⟨_, by rw [flush_current, List.append_nil], hsettled.flush horder hfront⟩
  · intro front s t s' h hstep hfront
    obtain ⟨before, rfl, hsettled⟩ := h ((List.prefix_append _ _).trans hfront)
    exact hsettled.step horder hfront hstep

omit horder in
/-- What is open at the end is closed where the last token ends. -/
theorem between_closeAll {last : Token} {frames : List Frame}
    (htrees : ∀ t ∈ s.trees, Between tokens (floor frames) last.stop t)
    (hframes : Stacked tokens last.stop frames) (hfloor : floor frames ≤ last.stop) :
    ∀ t ∈ (closeAll file last s frames).trees, Between tokens (toLex (1, 0)) last.stop t := by
  induction frames generalizing s with
  | nil => exact htrees
  | cons f frames ih =>
    obtain ⟨hopened, hrest⟩ := hframes
    rw [closeAll_cons]
    refine ih ?_ hrest (le_trans hopened.lower_le (le_trans hopened.begin_le hfloor))
    exact between_closed (closed_closeFrame file _ f frames last) hopened hfloor htrees

theorem between_ofTokens (file : String) :
    ∀ t ∈ (ofTokens file tokens).trees, Between tokens (toLex (1, 0)) (reach tokens) t := by
  cases hlast : tokens.getLast? with
  | none =>
    rw [List.getLast?_eq_none_iff] at hlast
    rw [hlast]
    exact fun t ht => absurd ht List.not_mem_nil
  | some last =>
    have hreach : reach tokens = last.stop := by rw [reach, hlast]
    obtain ⟨before, hbefore, hsettled⟩ := settled_run horder file (List.prefix_refl tokens)
    have hflush : Settled tokens _ ((tokens.foldl (State.add file) .start).flush file) :=
      hsettled.flush horder (by rw [← hbefore])
    rw [← hbefore] at hflush
    have htrees := hflush.trees
    have hframes := hflush.frames
    have hfloor := hflush.floor_le
    rw [hreach] at htrees hframes hfloor ⊢
    rw [ofTokens_of_getLast file hlast]
    exact between_closeAll htrees hframes hfloor

end State

theorem Arranged.nested {tokens : List Token} {t : Tree} (h : Arranged tokens t)
    (hnone : ∀ place, ¬ ContinuedAt tokens place) : t.Nested := by
  induction h with
  | node hspan hholds _ ih =>
    refine .node hspan (fun t ht => ?_) ih
    exact (hholds t ht).resolve_right fun hbehind => hnone _ hbehind.2

theorem reach_le_endPlace (source : String) :
    reach (Lexer.tokens surface source) ≤ Text.endPlace source.toList := by
  unfold reach
  split
  · rename_i t ht
    have horder := Lexer.inOrder_tokens Lexer.regular_outlineSurface source
    exact horder.le_last t (List.mem_of_getLast? ht)
  · exact Text.endPlace_of_prefix List.nil_prefix

theorem last_moduleTree (source file : String) (children : List Tree) :
    (Parsed.moduleTree source file children).span.last = Text.endPlace source.toList := by
  rw [Text.endPlace, ← Text.length_feedLines]
  simp [Parsed.moduleTree, Tree.span, Span.last, Text.getLast?_feedLines]

theorem arranged_outline (source file language : String) :
    Arranged (Lexer.tokens surface source) (outline source file language).tree := by
  have horder := Lexer.inOrder_tokens Lexer.regular_outlineSurface source
  have htrees := State.between_ofTokens horder file
  have hend := reach_le_endPlace source
  have hlast := last_moduleTree source file
    (State.ofTokens file (Lexer.tokens surface source)).trees
  refine .node ?_ (fun t ht => .inl ⟨(htrees t ht).lower_le, ?_⟩) fun t ht => (htrees t ht).arranged
  · exact le_of_le_of_eq (Text.endPlace_of_prefix List.nil_prefix) hlast.symm
  · exact le_of_le_of_eq (le_trans (htrees t ht).le_upper hend) hlast.symm

/-- In the tree of a text no node ends before it begins, and none begins behind a node below
it. What is below a node is within its span, unless a clause word continues the statement that
the node is for: then it may be behind it. So if there are no such words, all that is below a
node is within its span. -/
theorem children_within_or_continued (source file language : String) :
    (∀ node ∈ (outline source file language).tree.walk,
      node.span.first ≤ node.span.last ∧
        ∀ child ∈ node.children, node.span.first ≤ child.span.first ∧
          (child.span.Within node.span ∨
            (node.span.last ≤ child.span.first ∧
              ContinuedAt (Lexer.tokens surface source) node.span.last))) ∧
      ((∀ t ∈ Lexer.tokens surface source, t.text ∉ clauseWords) →
        (outline source file language).tree.Nested) := by
  have harranged := arranged_outline source file language
  constructor
  · intro node hnode
    have hall : ∀ node ∈ (outline source file language).tree.walk, Arranged _ node :=
      Tree.forall_mem_walkFrom (fun _ h => h.children) (by simpa using harranged)
    have hnode := hall node hnode
    refine ⟨hnode.span, fun child hchild => ?_⟩
    have hholds := hnode.holds child hchild
    refine ⟨?_, hholds⟩
    rcases hholds with hwithin | ⟨hbehind, -⟩
    · exact hwithin.first
    · exact le_trans hnode.span hbehind
  · intro hwords
    refine harranged.nested ?_
    rintro place ⟨front, word, back, htokens, -, hword⟩
    exact hwords word (by simp [htokens]) hword

example : (outline "if (a) \x7b x \x7d else \x7b y \x7d" "a.go" "go").tree.children.map
    (fun t => (t.span.endColumn, t.children.map fun child => child.span.endColumn))
      = [(12, [10, 21])] := by
  decide +kernel

end CodeHabits.Outline
