import CodeHabits.Outline.Statement
import Mathlib.Algebra.Ring.Nat

/-!
# `CodeHabits.Proofs.Outline.Items`: the items in parentheses

Tokens whose parentheses and square brackets are balanced are the tokens of pieces: tokens
that are no brackets, and pairs of brackets with pieces inside (`Piece.Paired`). The items of
pieces are what the commas among them separate, and those that are not empty count
(`countItems`). Commas further inside are not among the pieces.

The loop that counts items keeps a depth, but only parentheses change it. So a comma inside
square brackets separates items like one outside of them: the loop counts the items of the
first parentheses with their square brackets read as any other tokens (`loosenedAll`). It
counts too many exactly if a comma stands in square brackets (`items_counted`).
-/

set_option autoImplicit false

namespace CodeHabits.Outline

/-- The brackets that may stand in a statement. -/
inductive Bracket where
  | round
  | square

/-- The text of an opening bracket. -/
def Bracket.opening : Bracket → String
  | round => "("
  | square => "["

/-- The text of a closing bracket. -/
def Bracket.closing : Bracket → String
  | round => ")"
  | square => "]"

/-- A token that is no bracket, or a pair of brackets with what stands inside. -/
inductive Piece where
  | plain (t : Token)
  | group (bracket : Bracket) (opening : Token) (inside : List Piece) (closing : Token)

namespace Piece

/-- The tokens are what the piece says they are. -/
inductive Paired : Piece → Prop
  | plain {t : Token}
      (hbracket : ∀ b : Bracket, t.text ≠ b.opening ∧ t.text ≠ b.closing) : Paired (.plain t)
  | group {bracket : Bracket} {opening closing : Token} {inside : List Piece}
      (hopening : opening.text = bracket.opening) (hclosing : closing.text = bracket.closing)
      (hinside : ∀ p ∈ inside, p.Paired) : Paired (.group bracket opening inside closing)

mutual

/-- The tokens of a piece. -/
def tokens : Piece → List Token
  | plain t => [t]
  | group _ opening inside closing => opening :: tokensOf inside ++ [closing]

/-- The tokens of several pieces. -/
def tokensOf : List Piece → List Token
  | [] => []
  | p :: rest => tokens p ++ tokensOf rest

end

/-- A comma that separates items. -/
def isComma : Piece → Bool
  | plain t => t.text == ","
  | group .. => false

mutual

/-- What stands in the first parentheses of a piece. -/
def firstGroup? : Piece → Option (List Piece)
  | plain _ => none
  | group .round _ inside _ => some inside
  | group .square _ inside _ => firstGroupOf? inside

/-- What stands in the first parentheses of several pieces. -/
def firstGroupOf? : List Piece → Option (List Piece)
  | [] => none
  | p :: rest => (firstGroup? p).or (firstGroupOf? rest)

end

mutual

/-- A piece with its square brackets read as any other tokens. -/
def loosened : Piece → List Piece
  | plain t => [plain t]
  | group .round opening inside closing => [group .round opening inside closing]
  | group .square opening inside closing =>
    plain opening :: (loosenedAll inside ++ [plain closing])

/-- Several pieces with their square brackets read in this way. -/
def loosenedAll : List Piece → List Piece
  | [] => []
  | p :: rest => loosened p ++ loosenedAll rest

end

/-- Square brackets with a comma that is not in parentheses inside. -/
def Splits (p : Piece) : Prop :=
  ∃ opening inside closing, p = .group .square opening inside closing ∧
    ∃ q ∈ loosenedAll inside, q.isComma = true

end Piece

open Piece

/-- The number of items that commas separate, without empty ones. -/
def countItems (ps : List Piece) : Nat :=
  (ps.splitOnP isComma).countP fun item => !item.isEmpty

/-! ### Counting along the pieces -/

/-- How many items are complete, and whether one has been begun. -/
abbrev Tally := Nat × Bool

/-- Takes in a piece. -/
def Tally.add (c : Tally) (p : Piece) : Tally :=
  if p.isComma then (if c.2 then c.1 + 1 else c.1, false) else (c.1, true)

/-- The number of items, with the one that has been begun. -/
def Tally.items (c : Tally) : Nat :=
  if c.2 then c.1 + 1 else c.1

theorem Tally.add_of_comma {p : Piece} (h : p.isComma = true) (c : Tally) :
    c.add p = (c.items, false) :=
  if_pos h

theorem Tally.add_of_other {p : Piece} (h : p.isComma = false) (c : Tally) :
    c.add p = (c.1, true) := by
  rw [Tally.add, h]
  rfl

/-- The number of items that are not empty, where the first one may have been begun. -/
def countBegun (begun : Bool) : List (List Piece) → Nat
  | [] => 0
  | item :: rest =>
    (if begun || !item.isEmpty then 1 else 0) + rest.countP fun item => !item.isEmpty

theorem countBegun_false (items : List (List Piece)) :
    countBegun false items = items.countP fun item => !item.isEmpty := by
  cases items with
  | nil => rfl
  | cons item rest => rw [countBegun, List.countP_cons, Bool.false_or, Nat.add_comm]

theorem items_foldl_begun (ps : List Piece) (c : Tally) :
    (ps.foldl Tally.add c).items = c.1 + countBegun c.2 (ps.splitOnP isComma) := by
  induction ps generalizing c with
  | nil =>
    obtain ⟨count, begun⟩ := c
    cases begun <;> rfl
  | cons p rest ih =>
    rw [List.foldl_cons, ih, List.splitOnP_cons_eq_if_modifyHead]
    cases hcomma : p.isComma with
    | true =>
      obtain ⟨count, begun⟩ := c
      rw [Tally.add_of_comma hcomma, if_pos rfl, countBegun, countBegun_false]
      cases begun <;> simp [Tally.items, Nat.add_assoc]
    | false =>
      obtain ⟨item, items, hsplit⟩ := List.exists_cons_of_ne_nil (List.splitOnP_ne_nil isComma rest)
      rw [Tally.add_of_other hcomma, if_neg Bool.false_ne_true, hsplit]
      simp [countBegun]

/-- Counted one after the other, the items are those that the commas separate. -/
theorem items_foldl_add (ps : List Piece) :
    (ps.foldl Tally.add (0, false)).items = countItems ps := by
  rw [items_foldl_begun, countBegun_false, Nat.zero_add, countItems]

/-- Counting may begin with items that are complete already. -/
theorem foldl_add_shift (ps : List Piece) (count : Nat) (c : Tally) :
    ps.foldl Tally.add (count + c.1, c.2)
      = (count + (ps.foldl Tally.add c).1, (ps.foldl Tally.add c).2) := by
  induction ps generalizing c with
  | nil => rfl
  | cons p rest ih =>
    have hadd : Tally.add (count + c.1, c.2) p = (count + (c.add p).1, (c.add p).2) := by
      obtain ⟨complete, begun⟩ := c
      cases hcomma : p.isComma with
      | true => cases begun <;> simp [Tally.add, hcomma, Nat.add_assoc]
      | false => simp [Tally.add, hcomma]
    rw [List.foldl_cons, hadd, ih, List.foldl_cons]

/-! ### The loop -/

/-- A token other than a parenthesis leaves the depth as it is. -/
theorem ItemCount.add_other {t : Token} (hopening : t.text ≠ "(") (hclosing : t.text ≠ ")")
    (depth : Int) (count : Nat) (pending : Bool) :
    ItemCount.add ⟨depth, count, pending, false⟩ t
      = if depth = 1 ∧ t.text = "," then ⟨depth, if pending then count + 1 else count, false, false⟩
        else ⟨depth, count, pending || decide (1 ≤ depth), false⟩ := by
  simp [ItemCount.add, hopening, hclosing]

/-- A parenthesis inside of others goes one deeper, and is part of an item. -/
theorem ItemCount.add_opening {t : Token} (h : t.text = "(") {depth : Int} (hdepth : 1 ≤ depth)
    (count : Nat) (pending : Bool) :
    ItemCount.add ⟨depth, count, pending, false⟩ t = ⟨depth + 1, count, true, false⟩ := by
  have hout : depth ≠ 0 := by omega
  have hdeeper : (1 : Int) ≤ depth + 1 := by omega
  simp [ItemCount.add, h, hout, hdeeper]

/-- The parenthesis that closes it goes back. -/
theorem ItemCount.add_closing {t : Token} (h : t.text = ")") {depth : Int} (hdepth : 1 ≤ depth)
    (count : Nat) (pending : Bool) :
    ItemCount.add ⟨depth + 1, count, pending, false⟩ t = ⟨depth, count, true, false⟩ := by
  have hback : depth + 1 - 1 = depth := by omega
  have hout : depth ≠ 0 := by omega
  simp [ItemCount.add, h, hback, hout, hdepth]

theorem Piece.text_ne_of_square {t : Token}
    (h : t.text = Bracket.square.opening ∨ t.text = Bracket.square.closing) :
    t.text ≠ "(" ∧ t.text ≠ ")" ∧ t.text ≠ "," := by
  rcases h with h | h <;> rw [h] <;> decide

theorem Piece.paired_plain {t : Token} (h : t.text ∉ ["(", ")", "[", "]"]) :
    (Piece.plain t).Paired := by
  simp only [List.mem_cons, List.not_mem_nil, or_false, not_or] at h
  obtain ⟨hround, hround', hsquare, hsquare'⟩ := h
  refine .plain fun b => ?_
  cases b with
  | round => exact ⟨hround, hround'⟩
  | square => exact ⟨hsquare, hsquare'⟩

theorem Piece.Paired.inside {bracket : Bracket} {opening closing : Token} {inside : List Piece}
    (h : (Piece.group bracket opening inside closing).Paired) :
    opening.text = bracket.opening ∧ closing.text = bracket.closing ∧ ∀ p ∈ inside, p.Paired := by
  cases h with
  | group hopening hclosing hinside => exact ⟨hopening, hclosing, hinside⟩

theorem Piece.Paired.text_ne {t : Token} (h : (Piece.plain t).Paired) :
    t.text ≠ "(" ∧ t.text ≠ ")" := by
  cases h with
  | plain hbracket => exact hbracket .round

theorem Piece.foldl_tokens_group (bracket : Bracket) (opening : Token) (inside : List Piece)
    (closing : Token) (c : ItemCount) :
    (Piece.group bracket opening inside closing).tokens.foldl ItemCount.add c
      = ((tokensOf inside).foldl ItemCount.add (c.add opening)).add closing := by
  rw [Piece.tokens, List.cons_append, List.foldl_cons, List.foldl_append, List.foldl_cons,
    List.foldl_nil]

mutual

/-- Inside of parentheses that are inside of others, all tokens are part of one item. -/
theorem foldl_tokens_deep {p : Piece} (h : p.Paired) {depth : Int} (hdepth : 2 ≤ depth)
    (count : Nat) :
    p.tokens.foldl ItemCount.add ⟨depth, count, true, false⟩ = ⟨depth, count, true, false⟩ := by
  have hone : (1 : Int) ≤ depth := by omega
  have hother : depth ≠ 1 := by omega
  cases p with
  | plain t =>
    rw [tokens, List.foldl_cons, List.foldl_nil, ItemCount.add_other h.text_ne.1 h.text_ne.2]
    simp [hother]
  | group bracket opening inside closing =>
    obtain ⟨hopening, hclosing, hinside⟩ := h.inside
    rw [foldl_tokens_group]
    cases bracket with
    | round =>
      rw [ItemCount.add_opening hopening hone, foldl_tokensOf_deep hinside (by omega),
        ItemCount.add_closing hclosing hone]
    | square =>
      obtain ⟨hround, hback, -⟩ := text_ne_of_square (.inl hopening)
      obtain ⟨hround', hback', -⟩ := text_ne_of_square (.inr hclosing)
      have hstep : ∀ t : Token, t.text ≠ "(" → t.text ≠ ")" →
          ItemCount.add ⟨depth, count, true, false⟩ t = ⟨depth, count, true, false⟩ := by
        intro t hround hback
        rw [ItemCount.add_other hround hback]
        simp [hother]
      rw [hstep opening hround hback, foldl_tokensOf_deep hinside hdepth,
        hstep closing hround' hback']

/-- The same of several pieces. -/
theorem foldl_tokensOf_deep {ps : List Piece} (h : ∀ p ∈ ps, p.Paired) {depth : Int}
    (hdepth : 2 ≤ depth) (count : Nat) :
    (tokensOf ps).foldl ItemCount.add ⟨depth, count, true, false⟩
      = ⟨depth, count, true, false⟩ := by
  cases ps with
  | nil => rfl
  | cons p rest =>
    obtain ⟨hp, hrest⟩ := List.forall_mem_cons.1 h
    rw [tokensOf, List.foldl_append, foldl_tokens_deep hp hdepth, foldl_tokensOf_deep hrest hdepth]

end

/-- The loop inside of the first parentheses. -/
def Tally.inside (c : Tally) : ItemCount :=
  ⟨1, c.1, c.2, false⟩

/-- The loop behind the first parentheses. -/
def Tally.behind (c : Tally) : ItemCount :=
  ⟨1, c.1, c.2, true⟩

theorem Tally.foldl_behind (c : Tally) (tokens : List Token) :
    tokens.foldl ItemCount.add c.behind = c.behind := by
  induction tokens with
  | nil => rfl
  | cons t rest ih => exact ih

theorem Tally.add_inside {t : Token} (h : t.text ≠ "(" ∧ t.text ≠ ")") (c : Tally) :
    ItemCount.add c.inside t = (c.add (.plain t)).inside := by
  rw [inside, ItemCount.add_other h.1 h.2, Tally.add, isComma]
  by_cases hcomma : t.text = "," <;> simp [inside, hcomma]

mutual

/-- Outside of parentheses nothing is counted. -/
theorem foldl_tokens_outside {p : Piece} (h : p.Paired) (hnone : firstGroup? p = none) :
    p.tokens.foldl ItemCount.add ⟨0, 0, false, false⟩ = ⟨0, 0, false, false⟩ := by
  have hstep : ∀ t : Token, t.text ≠ "(" → t.text ≠ ")" →
      ItemCount.add ⟨0, 0, false, false⟩ t = ⟨0, 0, false, false⟩ := by
    intro t hopening hclosing
    rw [ItemCount.add_other hopening hclosing]
    simp
  cases p with
  | plain t => exact hstep t h.text_ne.1 h.text_ne.2
  | group bracket opening inside closing =>
    obtain ⟨hopening, hclosing, hinside⟩ := h.inside
    cases bracket with
    | round => cases hnone
    | square =>
      obtain ⟨hround, hback, -⟩ := text_ne_of_square (.inl hopening)
      obtain ⟨hround', hback', -⟩ := text_ne_of_square (.inr hclosing)
      rw [foldl_tokens_group, hstep opening hround hback, foldl_tokensOf_outside hinside hnone,
        hstep closing hround' hback']

/-- The same of several pieces. -/
theorem foldl_tokensOf_outside {ps : List Piece} (h : ∀ p ∈ ps, p.Paired)
    (hnone : firstGroupOf? ps = none) :
    (tokensOf ps).foldl ItemCount.add ⟨0, 0, false, false⟩ = ⟨0, 0, false, false⟩ := by
  cases ps with
  | nil => rfl
  | cons p rest =>
    obtain ⟨hp, hrest⟩ := List.forall_mem_cons.1 h
    obtain ⟨hfirst, hother⟩ := Option.or_eq_none_iff.1 hnone
    rw [tokensOf, List.foldl_append, foldl_tokens_outside hp hfirst,
      foldl_tokensOf_outside hrest hother]

end

mutual

/-- Directly inside of the first parentheses the loop takes a piece for what it is without its
square brackets. -/
theorem foldl_tokens_inside {p : Piece} (h : p.Paired) (c : Tally) :
    p.tokens.foldl ItemCount.add c.inside = ((loosened p).foldl Tally.add c).inside := by
  cases p with
  | plain t => exact c.add_inside h.text_ne
  | group bracket opening inside closing =>
    obtain ⟨hopening, hclosing, hinside⟩ := h.inside
    rw [foldl_tokens_group]
    cases bracket with
    | round =>
      -- The whole group is part of one item.
      rw [Tally.inside, ItemCount.add_opening hopening (by decide),
        foldl_tokensOf_deep hinside (by decide), ItemCount.add_closing hclosing (by decide)]
      rfl
    | square =>
      obtain ⟨hround, hback, -⟩ := text_ne_of_square (.inl hopening)
      obtain ⟨hround', hback', -⟩ := text_ne_of_square (.inr hclosing)
      rw [Tally.add_inside ⟨hround, hback⟩, foldl_tokensOf_inside hinside,
        Tally.add_inside ⟨hround', hback'⟩, loosened, List.foldl_cons, List.foldl_append]
      rfl

/-- The same of several pieces. -/
theorem foldl_tokensOf_inside {ps : List Piece} (h : ∀ p ∈ ps, p.Paired) (c : Tally) :
    (tokensOf ps).foldl ItemCount.add c.inside = ((loosenedAll ps).foldl Tally.add c).inside := by
  cases ps with
  | nil => rfl
  | cons p rest =>
    obtain ⟨hp, hrest⟩ := List.forall_mem_cons.1 h
    rw [tokensOf, List.foldl_append, foldl_tokens_inside hp, foldl_tokensOf_inside hrest,
      loosenedAll, List.foldl_append]

end

mutual

/-- The loop ends with the first parentheses. -/
theorem foldl_tokens_behind {p : Piece} (h : p.Paired) {found : List Piece}
    (hfound : firstGroup? p = some found) :
    p.tokens.foldl ItemCount.add ⟨0, 0, false, false⟩
      = ((loosenedAll found).foldl Tally.add (0, false)).behind := by
  cases p with
  | plain t => cases hfound
  | group bracket opening inside closing =>
    obtain ⟨hopening, hclosing, hinside⟩ := h.inside
    rw [foldl_tokens_group]
    cases bracket with
    | round =>
      obtain rfl : inside = found := Option.some.inj hfound
      have hopen : ItemCount.add ⟨0, 0, false, false⟩ opening = Tally.inside (0, false) := by
        simp [ItemCount.add, Tally.inside, hopening, Bracket.opening]
      rw [hopen, foldl_tokensOf_inside hinside]
      simp [ItemCount.add, Tally.inside, Tally.behind, hclosing, Bracket.closing]
    | square =>
      obtain ⟨hround, hback, -⟩ := text_ne_of_square (.inl hopening)
      have hopen : ItemCount.add ⟨0, 0, false, false⟩ opening = ⟨0, 0, false, false⟩ := by
        rw [ItemCount.add_other hround hback]
        simp
      -- The first parentheses are inside of these brackets.
      rw [hopen, foldl_tokensOf_behind hinside hfound]
      exact Tally.foldl_behind _ [closing]

/-- The same of several pieces. -/
theorem foldl_tokensOf_behind {ps : List Piece} (h : ∀ p ∈ ps, p.Paired) {found : List Piece}
    (hfound : firstGroupOf? ps = some found) :
    (tokensOf ps).foldl ItemCount.add ⟨0, 0, false, false⟩
      = ((loosenedAll found).foldl Tally.add (0, false)).behind := by
  cases ps with
  | nil => cases hfound
  | cons p rest =>
    obtain ⟨hp, hrest⟩ := List.forall_mem_cons.1 h
    rw [tokensOf, List.foldl_append]
    rcases Option.or_eq_some_iff.1 hfound with hfirst | ⟨hnone, hother⟩
    · rw [foldl_tokens_behind hp hfirst]
      exact Tally.foldl_behind _ _
    · rw [foldl_tokens_outside hp hnone, foldl_tokensOf_behind hrest hother]

end

mutual

theorem Piece.paired_firstGroup {p : Piece} (h : p.Paired) {found : List Piece}
    (hfound : firstGroup? p = some found) : ∀ q ∈ found, q.Paired := by
  cases p with
  | plain t => cases hfound
  | group bracket opening inside closing =>
    obtain ⟨-, -, hinside⟩ := h.inside
    cases bracket with
    | round =>
      obtain rfl : inside = found := Option.some.inj hfound
      exact hinside
    | square => exact paired_firstGroupOf hinside hfound

theorem Piece.paired_firstGroupOf {ps : List Piece} (h : ∀ p ∈ ps, p.Paired) {found : List Piece}
    (hfound : firstGroupOf? ps = some found) : ∀ q ∈ found, q.Paired := by
  cases ps with
  | nil => cases hfound
  | cons p rest =>
    obtain ⟨hp, hrest⟩ := List.forall_mem_cons.1 h
    rcases Option.or_eq_some_iff.1 hfound with hfirst | ⟨-, hother⟩
    · exact paired_firstGroup hp hfirst
    · exact paired_firstGroupOf hrest hother

end

/-- The loop counts the items of the first parentheses without their square brackets. -/
theorem itemCount_eq {ps found : List Piece} (h : ∀ p ∈ ps, p.Paired)
    (hfound : firstGroupOf? ps = some found) :
    itemCount (tokensOf ps) = countItems (loosenedAll found) := by
  rw [itemCount, foldl_tokensOf_behind h hfound, ← items_foldl_add]
  rfl

/-! ### What the square brackets add -/

/-- The number of items that end within the square brackets of a piece. -/
def Piece.added : Piece → Nat
  | .plain _ => 0
  | .group .round _ _ _ => 0
  | .group .square _ inside _ => ((loosenedAll inside).foldl Tally.add (0, true)).1

theorem foldl_loosened {p : Piece} (h : p.Paired) (c : Tally) :
    (loosened p).foldl Tally.add c = (p.added + (c.add p).1, (c.add p).2) := by
  cases p with
  | plain t =>
    rw [Piece.added, Nat.zero_add]
    rfl
  | group bracket opening inside closing =>
    obtain ⟨hopening, hclosing, -⟩ := h.inside
    cases bracket with
    | round =>
      rw [Piece.added, Nat.zero_add]
      rfl
    | square =>
      have hother : (plain opening).isComma = false := by
        simpa [isComma] using (text_ne_of_square (.inl hopening)).2.2
      have hother' : (plain closing).isComma = false := by
        simpa [isComma] using (text_ne_of_square (.inr hclosing)).2.2
      have hgroup : c.add (.group .square opening inside closing) = (c.1, true) :=
        Tally.add_of_other rfl c
      rw [loosened, List.foldl_cons, List.foldl_append, Tally.add_of_other hother,
        ← Nat.add_zero c.1, foldl_add_shift _ c.1 (0, true), List.foldl_cons, List.foldl_nil,
        Tally.add_of_other hother', hgroup, Nat.add_comm]
      rfl

theorem foldl_loosenedAll {ps : List Piece} (h : ∀ p ∈ ps, p.Paired) (c : Tally) :
    (loosenedAll ps).foldl Tally.add c
      = ((ps.map Piece.added).sum + (ps.foldl Tally.add c).1, (ps.foldl Tally.add c).2) := by
  induction ps generalizing c with
  | nil =>
    rw [List.map_nil, List.sum_nil, Nat.zero_add]
    rfl
  | cons p rest ih =>
    obtain ⟨hp, hrest⟩ := List.forall_mem_cons.1 h
    rw [loosenedAll, List.foldl_append, foldl_loosened hp, foldl_add_shift, ih hrest,
      List.map_cons, List.sum_cons, List.foldl_cons, Nat.add_assoc]

theorem countItems_loosenedAll {ps : List Piece} (h : ∀ p ∈ ps, p.Paired) :
    countItems (loosenedAll ps) = (ps.map Piece.added).sum + countItems ps := by
  rw [← items_foldl_add, foldl_loosenedAll h, ← items_foldl_add]
  unfold Tally.items
  split
  · rw [Nat.add_assoc]
  · rfl

/-- An item that has been begun ends at the first comma. -/
theorem foldl_add_begun_eq_zero_iff (ps : List Piece) :
    (ps.foldl Tally.add (0, true)).1 = 0 ↔ ∀ p ∈ ps, p.isComma = false := by
  induction ps with
  | nil => simp
  | cons p rest ih =>
    rw [List.foldl_cons, List.forall_mem_cons]
    cases hcomma : p.isComma with
    | true =>
      have hended : ((rest.foldl Tally.add (1 + 0, false))).1 ≠ 0 := by
        rw [foldl_add_shift rest 1 (0, false)]
        omega
      simpa [Tally.add_of_comma hcomma, Tally.items] using hended
    | false =>
      rw [Tally.add_of_other hcomma]
      simpa using ih

theorem Piece.added_eq_zero_iff (p : Piece) : p.added = 0 ↔ ¬ p.Splits := by
  cases p with
  | plain t => simp [Piece.added, Splits]
  | group bracket opening inside closing =>
    cases bracket with
    | round => simp [Piece.added, Splits]
    | square =>
      rw [Piece.added, foldl_add_begun_eq_zero_iff]
      simp [Splits]

/-- The loop counts the items of the first parentheses as if their square brackets were any
other tokens. These are the items of the parentheses, and more of them exactly if a comma
stands in square brackets. -/
theorem items_counted {ps found : List Piece} (h : ∀ p ∈ ps, p.Paired)
    (hfound : firstGroupOf? ps = some found) :
    itemCount (tokensOf ps) = countItems (loosenedAll found) ∧
      countItems found ≤ itemCount (tokensOf ps) ∧
      (itemCount (tokensOf ps) = countItems found ↔ ∀ p ∈ found, ¬ p.Splits) := by
  have hcount := itemCount_eq h hfound
  have hadded := countItems_loosenedAll (paired_firstGroupOf h hfound)
  refine ⟨hcount, by omega, ?_⟩
  rw [hcount, hadded, Nat.add_eq_right, List.sum_eq_zero_iff_forall_eq_nat, List.forall_mem_map]
  exact forall₂_congr fun p _ => p.added_eq_zero_iff

/-- The array is one item of the call, but the comma in it separates items too. -/
theorem items_counted_of_array :
    ∃ ps found, tokensOf ps = Lexer.tokens surface "f([1, 2], 3)" ∧ (∀ p ∈ ps, p.Paired) ∧
      firstGroupOf? ps = some found ∧ countItems found = 2 ∧ itemCount (tokensOf ps) = 3 := by
  let array : Piece := .group .square ⟨.punct, "[", 1, 2, 1, 3⟩
    [.plain ⟨.number, "1", 1, 3, 1, 4⟩, .plain ⟨.punct, ",", 1, 4, 1, 5⟩,
      .plain ⟨.number, "2", 1, 6, 1, 7⟩] ⟨.punct, "]", 1, 7, 1, 8⟩
  let found : List Piece :=
    [array, .plain ⟨.punct, ",", 1, 8, 1, 9⟩, .plain ⟨.number, "3", 1, 10, 1, 11⟩]
  let ps : List Piece := [.plain ⟨.ident, "f", 1, 0, 1, 1⟩,
    .group .round ⟨.punct, "(", 1, 1, 1, 2⟩ found ⟨.punct, ")", 1, 11, 1, 12⟩]
  have harray : array.Paired := by
    refine .group rfl rfl ?_
    simp only [List.forall_mem_cons]
    exact ⟨paired_plain (by decide), paired_plain (by decide), paired_plain (by decide), by simp⟩
  have hfound : ∀ p ∈ found, p.Paired := by
    simp only [found, List.forall_mem_cons]
    exact ⟨harray, paired_plain (by decide), paired_plain (by decide), by simp⟩
  have hps : ∀ p ∈ ps, p.Paired := by
    simp only [ps, List.forall_mem_cons]
    exact ⟨paired_plain (by decide), .group rfl rfl hfound, by simp⟩
  refine ⟨ps, found, by decide +kernel, hps, rfl, by decide +kernel, ?_⟩
  have hfirst : firstGroupOf? ps = some found := rfl
  rw [(items_counted hps hfirst).1]
  decide +kernel

end CodeHabits.Outline
