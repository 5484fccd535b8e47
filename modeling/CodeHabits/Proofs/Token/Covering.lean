import CodeHabits.Outline.Statement
import CodeHabits.Proofs.Text.Position
import CodeHabits.Proofs.Token.Matchers
import Mathlib.Data.List.Forall2

/-!
# `CodeHabits.Proofs.Token.Covering`: tokens cover their text

The tokens of a text are pieces of it, one behind the other, and all that stands between
them is dropped on purpose (`LaidOut`). Their lines and columns are carried along from one
lexeme to the next, over those that are dropped and over line feeds inside of tokens. Here
they are counted instead, each from the beginning of the text (`Stands`). The two agree
since counting goes on behind what has been counted (`Position.after_behind`).

The proof follows the loop: it is about the text from any offset on, so the offsets of the
tokens behind a lexeme are there when it is put in front of them.
-/

set_option autoImplicit false

namespace CodeHabits.Lexer

/-- The position behind the first characters of a text. -/
def Position.behind (front : List Char) : Position :=
  ⟨front.count '\n' + 1, (Text.lastLine front).length⟩

theorem Position.after_behind (front cs : List Char) :
    (behind front).after cs = behind (front ++ cs) := by
  induction cs generalizing front with
  | nil => rw [List.append_nil]; rfl
  | cons c rest ih =>
    have hstep : (behind front).after (c :: rest) = (behind (front ++ [c])).after rest := by
      by_cases h : c = '\n'
      · simp [after, behind, h, Text.lastLine_append_feed]
      · simp [after, behind, h, Text.lastLine_append_singleton]
    rw [hstep, ih, List.append_assoc, List.singleton_append]

/-- A token is the piece of a text at an offset. Its line is one more than the number of
line feeds before it, its column the number of characters since the last one, and its end
is described in the same way. If it is an operator, no longer one stands there. -/
structure Stands (text : List Char) (start : Nat) (t : Token) : Prop where
  slice : (text.drop start).take t.text.length = t.text.toList
  nonempty : 0 < t.text.length
  line : t.line = (text.take start).count '\n' + 1
  column : t.column = (Text.lastLine (text.take start)).length
  endLine : t.endLine = (text.take (start + t.text.length)).count '\n' + 1
  endColumn : t.endColumn = (Text.lastLine (text.take (start + t.text.length))).length
  operator : t.kind = .operator → Longest (text.drop start) t.text.length

/-- From one offset to a later one a text has nothing that is kept. -/
structure Gap (surface : Surface) (text : List Char) (start stop : Nat) : Prop where
  le : start ≤ stop
  skips : Skips surface (text.drop start) (text.drop stop)

theorem Gap.trans {surface : Surface} {text : List Char} {start middle stop : Nat}
    (h : Gap surface text start middle) (hnext : Gap surface text middle stop) :
    Gap surface text start stop :=
  ⟨Nat.le_trans h.le hnext.le, h.skips.trans hnext.skips⟩

/-- The offsets at which tokens end. -/
def stops (starts : List Nat) (tokens : List Token) : List Nat :=
  List.zipWith (fun start t => start + t.text.length) starts tokens

/-- From an offset on a text has tokens at some offsets, with gaps before, between and
behind them. -/
structure LaidOut (surface : Surface) (text : List Char) (offset : Nat) (starts : List Nat)
    (tokens : List Token) : Prop where
  stands : List.Forall₂ (Stands text) starts tokens
  increasing : starts.Pairwise (· < ·)
  from_offset : ∀ start ∈ starts, offset ≤ start
  gaps : List.Forall₂ (Gap surface text) (offset :: stops starts tokens) (starts ++ [text.length])

variable {surface : Surface} {text : List Char}

theorem laidOut_end (surface : Surface) (text : List Char) :
    LaidOut surface text text.length [] [] := by
  constructor
  case stands => exact .nil
  case increasing => exact .nil
  case from_offset => simp
  case gaps => exact .cons ⟨Nat.le_refl _, .nothing _⟩ .nil

/-- What is dropped makes the first gap longer. -/
theorem LaidOut.skip {offset middle : Nat} {starts : List Nat} {tokens : List Token}
    (h : LaidOut surface text middle starts tokens) (hgap : Gap surface text offset middle) :
    LaidOut surface text offset starts tokens := by
  constructor
  case stands => exact h.stands
  case increasing => exact h.increasing
  case from_offset => exact fun start hstart => Nat.le_trans hgap.le (h.from_offset start hstart)
  case gaps =>
    obtain ⟨stop, rest, hfirst, hrest, hstarts⟩ := List.forall₂_cons_left_iff.1 h.gaps
    rw [hstarts]
    exact .cons (hgap.trans hfirst) hrest

/-- A token that stands where a text begins comes before the others. -/
theorem LaidOut.token {offset : Nat} {t : Token} {starts : List Nat} {tokens : List Token}
    (h : LaidOut surface text (offset + t.text.length) starts tokens)
    (ht : Stands text offset t) :
    LaidOut surface text offset (offset :: starts) (t :: tokens) := by
  have hlater : ∀ start ∈ starts, offset < start := by
    intro start hstart
    have hbehind := h.from_offset start hstart
    have hpos := ht.nonempty
    omega
  constructor
  case stands => exact .cons ht h.stands
  case increasing => exact List.pairwise_cons.2 ⟨hlater, h.increasing⟩
  case from_offset =>
    rintro start (_ | ⟨_, hstart⟩)
    · exact Nat.le_refl offset
    · exact Nat.le_of_lt (hlater start hstart)
  case gaps => exact .cons ⟨Nat.le_refl offset, .nothing _⟩ h.gaps

theorem Lexeme.kind?_eq_none {lexeme : Lexeme} (h : lexeme.kind? surface = none) :
    lexeme.category = .dropped := by
  unfold kind? at h
  split at h
  · assumption
  · cases h
  · cases h

theorem Lexeme.category_of_operator {lexeme : Lexeme} (h : lexeme.kind? surface = some .operator) :
    lexeme.category = .token .operator := by
  unfold kind? at h
  split at h
  · cases h
  · split at h <;> cases h
  · rename_i kind hcategory
    cases h
    exact hcategory

/-- What is put in place from an offset on is laid out there. -/
theorem exists_laidOut (h : surface.Regular) {offset : Nat} (hoffset : offset ≤ text.length) :
    ∃ starts, LaidOut surface text offset starts
      (place surface (.behind (text.take offset)) (lexemes surface (text.drop offset))) := by
  induction hleft : text.length - offset using Nat.strong_induction_on generalizing offset with
  | _ left ih =>
    cases hcs : text.drop offset with
    | nil =>
      have hend : offset = text.length := Nat.le_antisymm hoffset (List.drop_eq_nil_iff.1 hcs)
      rw [lexemes, place, hend]
      exact ⟨[], laidOut_end surface text⟩
    | cons c rest =>
      have hlength : text.length - offset = (c :: rest).length := by
        rw [← hcs, List.length_drop]
      rw [lexemes, place]
      -- Everything that is asked of the first lexeme is asked of the text from the offset on.
      rw [← hcs] at hlength ⊢
      set taken := (first surface (text.drop offset)).2 with htaken
      have hpos : 1 ≤ taken := one_le_first surface _
      have hle : taken ≤ text.length - offset := by
        rw [hlength]
        exact first_le_length h (by simp [hcs])
      have hnext : offset + taken ≤ text.length := by omega
      obtain ⟨starts, hbehind⟩ := ih (text.length - (offset + taken)) (by omega) hnext rfl
      have hafter : (Position.behind (text.take offset)).after ((text.drop offset).take taken)
          = .behind (text.take (offset + taken)) := by
        rw [Position.after_behind, ← List.take_add]
      rw [List.drop_drop, hafter]
      unfold Lexeme.token?
      dsimp only
      rw [hafter]
      generalize hlexeme : Lexeme.mk (first surface (text.drop offset)).1
        ((text.drop offset).take taken) = lexeme
      cases hkind : lexeme.kind? surface with
      | none =>
        have hdropped := Lexeme.kind?_eq_none hkind
        rw [← hlexeme] at hdropped
        refine ⟨starts, hbehind.skip ⟨by omega, ?_⟩⟩
        rw [← List.drop_drop]
        exact skips_of_first h hdropped
      | some kind =>
        refine ⟨offset :: starts, ?_⟩
        have hchars : ((text.drop offset).take taken).length = taken := by
          rw [List.length_take, List.length_drop]
          omega
        apply LaidOut.token
        · simpa [hchars] using hbehind
        · constructor <;> simp only [String.length_ofList, String.toList_ofList, hchars]
          case nonempty => exact hpos
          case line => rfl
          case column => rfl
          case endLine => rfl
          case endColumn => rfl
          case operator =>
            intro hoperator
            rw [hoperator] at hkind
            have hcategory := Lexeme.category_of_operator hkind
            rw [← hlexeme] at hcategory
            exact longest_of_first h hcategory

/-- Every alternative takes at least one character, so cutting a text comes to its end, and
the tokens of the text cover it: each stands where its line and its column say, and what
stands between them is dropped on purpose. -/
theorem tokens_cover_text (h : surface.Regular) (source : String) :
    (∀ form ∈ alternatives surface, Advances form.2) ∧
      ∃ starts, LaidOut surface source.toList 0 starts (tokens surface source) :=
  ⟨fun form hform => (sound_of_mem h form hform).advances,
    exists_laidOut h (Nat.zero_le source.toList.length)⟩

theorem regular_outlineSurface : Outline.surface.Regular := by
  constructor
  · decide
  · decide
  · decide

/-- A text with both kinds of comments, a string over two lines and an operator that begins
with another one. -/
theorem tokens_cover_text_of_comments :
    Outline.surface.Regular ∧
      (∀ form ∈ alternatives Outline.surface, Advances form.2) ∧
      ∃ starts, LaidOut Outline.surface "a /* b\n */ >>= 'c\\\nd' # e".toList 0 starts
        (tokens Outline.surface "a /* b\n */ >>= 'c\\\nd' # e") :=
  ⟨regular_outlineSurface, tokens_cover_text regular_outlineSurface _⟩

example : (tokens Outline.surface "a /* b\n */ >>= 'c\\\nd' # e").map
    (fun t => (t.text, t.line, t.column, t.endLine, t.endColumn))
      = [("a", 1, 0, 1, 1), (">>=", 2, 4, 2, 7), ("'c\\\nd'", 2, 8, 3, 2)] := by
  cbv

/-! ### Tokens in order -/

end CodeHabits.Lexer

namespace CodeHabits

/-- Where a token begins. -/
def Token.place (t : Token) : Int ×ₗ Int :=
  toLex ((t.line : Int), (t.column : Int))

/-- Where a token ends. -/
def Token.stop (t : Token) : Int ×ₗ Int :=
  toLex ((t.endLine : Int), (t.endColumn : Int))

namespace Lexer

variable {surface : Surface} {text : List Char}

theorem Stands.place_eq {start : Nat} {t : Token} (h : Stands text start t) :
    t.place = Text.endPlace (text.take start) := by
  rw [Token.place, h.line, h.column, Text.endPlace]

theorem Stands.lt_length {start : Nat} {t : Token} (h : Stands text start t) :
    start < text.length := by
  have hlength := congrArg List.length h.slice
  rw [List.length_take, List.length_drop, String.length_toList] at hlength
  have hpos := h.nonempty
  omega

section

variable {starts : List Nat} {tokens : List Token}

theorem map_place_of_stands (h : List.Forall₂ (Stands text) starts tokens) :
    tokens.map Token.place = starts.map fun start => Text.endPlace (text.take start) := by
  induction h with
  | nil => rfl
  | cons ht _ ih => rw [List.map_cons, List.map_cons, ht.place_eq, ih]

theorem lt_length_of_stands (h : List.Forall₂ (Stands text) starts tokens) :
    ∀ start ∈ starts, start < text.length := by
  induction h with
  | nil => simp
  | cons ht _ ih => exact List.forall_mem_cons.2 ⟨ht.lt_length, ih⟩

/-- Tokens at greater and greater offsets begin at later and later places. -/
theorem LaidOut.pairwise_place {offset : Nat} (h : LaidOut surface text offset starts tokens) :
    tokens.Pairwise fun t u => t.place < u.place := by
  have hplaces : (tokens.map Token.place).Pairwise (· < ·) := by
    rw [map_place_of_stands h.stands, List.pairwise_map]
    refine h.increasing.imp_of_mem fun _ hlater hlt => ?_
    exact Text.endPlace_take_lt hlt (Nat.le_of_lt (lt_length_of_stands h.stands _ hlater))
  exact List.pairwise_map.1 hplaces

end

theorem pairwise_place_tokens (h : surface.Regular) (source : String) :
    (tokens surface source).Pairwise fun t u => t.place < u.place := by
  obtain ⟨starts, hlaid⟩ := exists_laidOut h (Nat.zero_le source.toList.length)
  exact hlaid.pairwise_place

/-- Tokens between two places, none of which begins before the one in front of it ends. -/
structure InOrder (first last : Int ×ₗ Int) (tokens : List Token) : Prop where
  place_le_stop : ∀ t ∈ tokens, t.place ≤ t.stop
  first_le : ∀ t ∈ tokens, first ≤ t.place
  le_last : ∀ t ∈ tokens, t.stop ≤ last
  pairwise : tokens.Pairwise fun t u => t.stop ≤ u.place

theorem Stands.stop_eq {start : Nat} {t : Token} (h : Stands text start t) :
    t.stop = Text.endPlace (text.take (start + t.text.length)) := by
  rw [Token.stop, h.endLine, h.endColumn, Text.endPlace]

/-- With gaps in between, tokens are in order. -/
theorem inOrder_of_gaps {offset : Nat} {starts : List Nat} {tokens : List Token}
    (hstands : List.Forall₂ (Stands text) starts tokens)
    (hgaps : List.Forall₂ (Gap surface text) (offset :: stops starts tokens)
      (starts ++ [text.length])) :
    InOrder (Text.endPlace (text.take offset)) (Text.endPlace text) tokens := by
  induction hstands generalizing offset with
  | nil => constructor <;> simp
  | @cons start t starts tokens ht _ ih =>
    obtain ⟨hgap, hrest⟩ := List.forall₂_cons.1 hgaps
    have hlater : InOrder t.stop (Text.endPlace text) tokens := by
      rw [ht.stop_eq]
      exact ih hrest
    have hfirst : Text.endPlace (text.take offset) ≤ t.place := by
      rw [ht.place_eq]
      exact Text.endPlace_of_prefix (List.take_prefix_take_left hgap.le)
    have hspan : t.place ≤ t.stop := by
      rw [ht.place_eq, ht.stop_eq]
      exact Text.endPlace_of_prefix (List.take_prefix_take_left (Nat.le_add_right _ _))
    have hlast : t.stop ≤ Text.endPlace text := by
      rw [ht.stop_eq]
      exact Text.endPlace_of_prefix (List.take_prefix _ _)
    constructor
    case place_le_stop => exact List.forall_mem_cons.2 ⟨hspan, hlater.place_le_stop⟩
    case first_le =>
      refine List.forall_mem_cons.2 ⟨hfirst, fun u hu => ?_⟩
      exact le_trans (le_trans hfirst hspan) (hlater.first_le u hu)
    case le_last => exact List.forall_mem_cons.2 ⟨hlast, hlater.le_last⟩
    case pairwise => exact List.pairwise_cons.2 ⟨hlater.first_le, hlater.pairwise⟩

/-- The tokens of a text are in order. -/
theorem inOrder_tokens (h : surface.Regular) (source : String) :
    InOrder (toLex (1, 0)) (Text.endPlace source.toList) (tokens surface source) := by
  obtain ⟨starts, hlaid⟩ := exists_laidOut h (Nat.zero_le source.toList.length)
  exact inOrder_of_gaps hlaid.stands hlaid.gaps

/-- No token comes twice. -/
theorem nodup_tokens (h : surface.Regular) (source : String) :
    (tokens surface source).Nodup := by
  refine List.Pairwise.imp ?_ (pairwise_place_tokens h source)
  rintro t u hlt rfl
  exact lt_irrefl _ hlt

end Lexer

end CodeHabits
