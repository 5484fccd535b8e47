import CodeHabits.Token
import Mathlib.Data.List.Induction
import Mathlib.Data.List.Nodup

/-!
# `CodeHabits.Proofs.Outline.Braces`: which braces match

Braces match as brackets do. `Balanced` says so without a stack: a list of tokens is
balanced if each opening brace has balanced tokens and a closing brace behind it. A closing
brace is a stray one if it does not end balanced tokens behind an opening brace, and an
opening brace is unclosed if no closing brace ends balanced tokens behind it (`Matched`).

`braces` finds these with the usual stack. `matched_braces` says that it finds the right
ones, and `balanced_iff` that it finds none exactly in balanced tokens. Both rest on what
the top of the stack tells: behind the brace that is there, all tokens are balanced
(`exists_of_unclosed`).
-/

set_option autoImplicit false

namespace CodeHabits.Outline

/-- An opening brace. -/
def opens (t : Token) : Bool :=
  t.kind == .punct && t.text == "\x7b"

/-- A closing brace. -/
def closes (t : Token) : Bool :=
  t.kind == .punct && t.text == "\x7d"

theorem opens_eq_false_of_closes {t : Token} (h : closes t = true) : opens t = false := by
  simp only [closes, Bool.and_eq_true, beq_iff_eq] at h
  simp [opens, h.2]

/-- Every brace has its counterpart. -/
inductive Balanced : List Token → Prop
  | nil : Balanced []
  | other {t : Token} {rest : List Token} (hopens : opens t = false) (hcloses : closes t = false)
      (hrest : Balanced rest) : Balanced (t :: rest)
  | block {o c : Token} {inside rest : List Token} (hopens : opens o = true)
      (hinside : Balanced inside) (hcloses : closes c = true) (hrest : Balanced rest) :
      Balanced (o :: inside ++ c :: rest)

/-- The braces without a counterpart among the tokens so far. -/
structure Braces where
  /-- Opening braces, the last one first. -/
  unclosed : List Token
  /-- Closing braces, the first one first. -/
  strays : List Token

/-- Takes in a token. -/
def Braces.add (b : Braces) (t : Token) : Braces :=
  if opens t then { b with unclosed := t :: b.unclosed }
  else if closes t then
    match b.unclosed with
    | [] => { b with strays := b.strays ++ [t] }
    | _ :: outer => { b with unclosed := outer }
  else b

/-- The braces without a counterpart. -/
def braces (tokens : List Token) : Braces :=
  tokens.foldl Braces.add ⟨[], []⟩

namespace Braces

theorem add_opens (b : Braces) {t : Token} (h : opens t = true) :
    b.add t = ⟨t :: b.unclosed, b.strays⟩ :=
  if_pos h

theorem add_other (b : Braces) {t : Token} (hopens : opens t = false) (hcloses : closes t = false) :
    b.add t = b := by
  simp [add, hopens, hcloses]

theorem add_closes {b : Braces} {t o : Token} {outer : List Token} (h : closes t = true)
    (hopen : b.unclosed = o :: outer) : b.add t = ⟨outer, b.strays⟩ := by
  simp [add, opens_eq_false_of_closes h, h, hopen]

theorem add_stray {b : Braces} {t : Token} (h : closes t = true) (hnone : b.unclosed = []) :
    b.add t = ⟨[], b.strays ++ [t]⟩ := by
  simp [add, opens_eq_false_of_closes h, h, hnone]

/-- What a token is to the braces in front of it. -/
inductive Step (b : Braces) (t : Token) : Braces → Prop
  | opened (h : opens t = true) : Step b t ⟨t :: b.unclosed, b.strays⟩
  | stray (h : closes t = true) (hnone : b.unclosed = []) : Step b t ⟨[], b.strays ++ [t]⟩
  | closed {o : Token} {outer : List Token} (h : closes t = true)
      (hopen : b.unclosed = o :: outer) : Step b t ⟨outer, b.strays⟩
  | other (hopens : opens t = false) (hcloses : closes t = false) : Step b t b

theorem step_add (b : Braces) (t : Token) : Step b t (b.add t) := by
  by_cases hopens : opens t = true
  · rw [b.add_opens hopens]
    exact .opened hopens
  by_cases hcloses : closes t = true
  · cases hunclosed : b.unclosed with
    | nil =>
      rw [add_stray hcloses hunclosed]
      exact .stray hcloses hunclosed
    | cons o outer =>
      rw [add_closes hcloses hunclosed]
      exact .closed hcloses hunclosed
  · rw [Bool.not_eq_true] at hopens hcloses
    rw [b.add_other hopens hcloses]
    exact .other hopens hcloses

end Braces

@[simp] theorem braces_nil : braces [] = ⟨[], []⟩ :=
  rfl

@[simp] theorem braces_append_singleton (front : List Token) (t : Token) :
    braces (front ++ [t]) = (braces front).add t := by
  rw [braces, List.foldl_append]
  rfl

theorem Balanced.append {tokens more : List Token} (h : Balanced tokens) (hmore : Balanced more) :
    Balanced (tokens ++ more) := by
  induction h with
  | nil => exact hmore
  | other hopens hcloses _ ih => exact .other hopens hcloses ih
  | block hopens hinside hcloses _ _ ih =>
    rw [List.append_assoc, List.cons_append]
    exact .block hopens hinside hcloses ih

/-- Balanced tokens leave everything as it was. -/
theorem Balanced.foldl_add {tokens : List Token} (h : Balanced tokens) (b : Braces) :
    tokens.foldl Braces.add b = b := by
  induction h generalizing b with
  | nil => rfl
  | other hopens hcloses _ ih =>
    rw [List.foldl_cons, b.add_other hopens hcloses]
    exact ih b
  | block hopens _ hcloses _ ihinside ihrest =>
    rw [List.foldl_append, List.foldl_cons, List.foldl_cons, ihinside, b.add_opens hopens,
      Braces.add_closes hcloses rfl]
    exact ihrest b

/-- Behind balanced tokens the brace in front of them is on top. -/
theorem braces_of_balanced {before inside : List Token} {o : Token} (hopens : opens o = true)
    (hinside : Balanced inside) :
    braces (before ++ o :: inside) = ⟨o :: (braces before).unclosed, (braces before).strays⟩ := by
  rw [braces, List.foldl_append, List.foldl_cons, hinside.foldl_add, Braces.add_opens _ hopens]
  rfl

/-- Behind the brace on top all tokens are balanced. The brace below it is on top of what
is in front, so the induction is on the number of tokens. -/
theorem exists_of_unclosed {tokens : List Token} {o : Token} {outer : List Token}
    (h : (braces tokens).unclosed = o :: outer) :
    ∃ before inside, tokens = before ++ o :: inside ∧ opens o = true ∧ Balanced inside ∧
      braces before = ⟨outer, (braces tokens).strays⟩ := by
  induction hcount : tokens.length using Nat.strongRecOn generalizing tokens o outer with
  | ind count ih =>
    rcases List.eq_nil_or_concat tokens with rfl | ⟨front, t, rfl⟩
    · cases h
    rw [List.concat_eq_append] at h hcount ⊢
    have hfront : front.length < count := by
      rw [← hcount, List.length_append, List.length_singleton]
      exact Nat.lt_succ_self _
    rw [braces_append_singleton] at h ⊢
    generalize hadd : (braces front).add t = b at h ⊢
    cases hadd ▸ (braces front).step_add t with
    | opened hopens =>
      obtain ⟨rfl, rfl⟩ := List.cons.inj h
      exact ⟨front, [], rfl, hopens, .nil, rfl⟩
    | stray => cases h
    | @closed x below hcloses hunclosed =>
      -- A block has just been closed, and it stands behind the brace.
      obtain rfl : below = o :: outer := h
      obtain ⟨middle, inner, rfl, hx, hinner, hmiddle⟩ := ih _ hfront hunclosed rfl
      have hshorter : middle.length < count := by
        rw [List.length_append] at hfront
        omega
      have hbelow : (braces middle).unclosed = o :: outer := by rw [hmiddle]
      obtain ⟨before, inside, rfl, ho, hinside, hbefore⟩ := ih _ hshorter hbelow rfl
      refine ⟨before, inside ++ (x :: inner ++ t :: []), by simp, ho, ?_, ?_⟩
      · exact hinside.append (.block hx hinner hcloses .nil)
      · rw [hbefore, hmiddle]
    | other hopens hcloses =>
      obtain ⟨before, inside, rfl, ho, hinside, hbefore⟩ := ih _ hfront h rfl
      refine ⟨before, inside ++ [t], by simp, ho, ?_, hbefore⟩
      exact hinside.append (.other hopens hcloses .nil)

theorem balanced_iff {tokens : List Token} : Balanced tokens ↔ braces tokens = ⟨[], []⟩ := by
  constructor
  · intro h
    exact h.foldl_add ⟨[], []⟩
  intro h
  induction hcount : tokens.length using Nat.strongRecOn generalizing tokens with
  | ind count ih =>
    rcases List.eq_nil_or_concat tokens with rfl | ⟨front, t, rfl⟩
    · exact .nil
    rw [List.concat_eq_append] at h hcount ⊢
    have hfront : front.length < count := by
      rw [← hcount, List.length_append, List.length_singleton]
      exact Nat.lt_succ_self _
    rw [braces_append_singleton] at h
    generalize hadd : (braces front).add t = b at h
    cases hadd ▸ (braces front).step_add t with
    | opened => cases h
    | stray => simp at h
    | closed hcloses hunclosed =>
      -- The last brace closes a block, and what is in front of the block is balanced.
      obtain ⟨before, inside, rfl, ho, hinside, hbefore⟩ := exists_of_unclosed hunclosed
      have hshorter : before.length < count := by
        rw [List.length_append] at hfront
        omega
      have hbalanced : Balanced before := ih _ hshorter (hbefore.trans h) rfl
      rw [List.append_assoc]
      exact hbalanced.append (.block ho hinside hcloses .nil)
    | other hopens hcloses =>
      exact (ih _ hfront h rfl).append (.other hopens hcloses .nil)

/-! ### Braces without a counterpart -/

/-- No brace is open behind these tokens. -/
def NoneOpen (front : List Token) : Prop :=
  ∀ before o inside, front = before ++ o :: inside → opens o = true → ¬ Balanced inside

/-- None of these tokens closes a brace in front of them. -/
def NoneCloses (back : List Token) : Prop :=
  ∀ inside c after, back = inside ++ c :: after → closes c = true → ¬ Balanced inside

/-- A closing brace in front of which no brace is open. -/
def IsStray (tokens : List Token) (t : Token) : Prop :=
  ∃ front back, tokens = front ++ t :: back ∧ closes t = true ∧ NoneOpen front

/-- An opening brace that is not closed. -/
def IsUnclosed (tokens : List Token) (t : Token) : Prop :=
  ∃ front back, tokens = front ++ t :: back ∧ opens t = true ∧ NoneCloses back

/-- The braces of `tokens` without a counterpart: closing ones in their order, and opening
ones with the last one first. -/
structure Matched (tokens strays unclosed : List Token) : Prop where
  in_order : (strays ++ unclosed.reverse).Sublist tokens
  mem_strays : ∀ t, t ∈ strays ↔ IsStray tokens t
  mem_unclosed : ∀ t, t ∈ unclosed ↔ IsUnclosed tokens t

theorem sublist_braces (tokens : List Token) :
    ((braces tokens).strays ++ (braces tokens).unclosed.reverse).Sublist tokens := by
  induction tokens using List.reverseRecOn with
  | nil => exact List.Sublist.slnil
  | append_singleton front t ih =>
    have hone : [t].Sublist [t] := List.Sublist.refl _
    have hfront : front.Sublist (front ++ [t]) := List.sublist_append_left _ _
    rw [braces_append_singleton]
    generalize hadd : (braces front).add t = b
    cases hadd ▸ (braces front).step_add t with
    | opened =>
      rw [List.reverse_cons, ← List.append_assoc]
      exact ih.append hone
    | stray _ hnone =>
      rw [hnone, List.reverse_nil, List.append_nil] at ih
      rw [List.reverse_nil, List.append_nil]
      exact ih.append hone
    | closed _ hunclosed =>
      rw [hunclosed, List.reverse_cons, ← List.append_assoc] at ih
      exact ((List.sublist_append_left _ _).trans ih).trans hfront
    | other => exact ih.trans hfront

/-- Where an element stands in a list with one more at the end. -/
theorem append_singleton_eq_iff {α : Type} {front before back : List α} {last x : α} :
    front ++ [last] = before ++ x :: back ↔
      (front = before ∧ last = x ∧ back = []) ∨
        ∃ inner, back = inner ++ [last] ∧ front = before ++ x :: inner := by
  rcases List.eq_nil_or_concat back with rfl | ⟨inner, y, rfl⟩
  · simp
  · have hsplit : before ++ x :: (inner ++ [y]) = (before ++ x :: inner) ++ [y] := by simp
    rw [List.concat_eq_append, hsplit, List.append_singleton_inj]
    constructor
    · rintro ⟨rfl, rfl⟩
      exact .inr ⟨inner, rfl, rfl⟩
    · rintro (⟨_, _, hnil⟩ | ⟨other, heq, rfl⟩)
      · simp at hnil
      · obtain ⟨rfl, rfl⟩ := List.append_singleton_inj.1 heq
        exact ⟨rfl, rfl⟩

section

variable {tokens : List Token} {c t : Token}

theorem unclosed_eq_nil_iff : (braces tokens).unclosed = [] ↔ NoneOpen tokens := by
  constructor
  · rintro h before o inside rfl hopens hinside
    rw [braces_of_balanced hopens hinside] at h
    cases h
  · intro h
    cases hunclosed : (braces tokens).unclosed with
    | nil => rfl
    | cons o outer =>
      obtain ⟨before, inside, hsplit, hopens, hinside, _⟩ := exists_of_unclosed hunclosed
      exact absurd hinside (h before o inside hsplit hopens)

/-- Whether a closing brace is a stray one is settled where it stands. -/
theorem isStray_append_singleton_iff :
    IsStray (tokens ++ [c]) t ↔
      (c = t ∧ closes c = true ∧ (braces tokens).unclosed = []) ∨ IsStray tokens t := by
  unfold IsStray
  simp only [append_singleton_eq_iff, unclosed_eq_nil_iff]
  constructor
  · rintro ⟨front, back, ⟨rfl, rfl, rfl⟩ | ⟨inner, rfl, rfl⟩, hcloses, hnone⟩
    · exact .inl ⟨rfl, hcloses, hnone⟩
    · exact .inr ⟨front, inner, rfl, hcloses, hnone⟩
  · rintro (⟨rfl, hcloses, hnone⟩ | ⟨front, inner, rfl, hcloses, hnone⟩)
    · exact ⟨tokens, [], .inl ⟨rfl, rfl, rfl⟩, hcloses, hnone⟩
    · exact ⟨front, inner ++ [c], .inr ⟨inner, rfl, rfl⟩, hcloses, hnone⟩

theorem noneCloses_append_singleton_iff {back : List Token} :
    NoneCloses (back ++ [c]) ↔ NoneCloses back ∧ (closes c = true → ¬ Balanced back) := by
  constructor
  · intro h
    refine ⟨?_, h back c [] rfl⟩
    rintro inside d after rfl hcloses
    exact h inside d (after ++ [c]) (by simp) hcloses
  · rintro ⟨hback, hc⟩ inside d after hsplit hcloses
    rcases append_singleton_eq_iff.1 hsplit with ⟨rfl, rfl, _⟩ | ⟨inner, rfl, rfl⟩
    · exact hc hcloses
    · exact hback inside d inner rfl hcloses

/-- A brace stays unclosed unless the next token ends balanced tokens behind it. -/
theorem isUnclosed_append_singleton_iff :
    IsUnclosed (tokens ++ [c]) t ↔
      (c = t ∧ opens c = true) ∨
        ∃ front back, tokens = front ++ t :: back ∧ opens t = true ∧ NoneCloses back ∧
          (closes c = true → ¬ Balanced back) := by
  unfold IsUnclosed
  simp only [append_singleton_eq_iff]
  constructor
  · rintro ⟨front, back, ⟨rfl, rfl, rfl⟩ | ⟨inner, rfl, rfl⟩, hopens, hnone⟩
    · exact .inl ⟨rfl, hopens⟩
    · exact .inr ⟨front, inner, rfl, hopens, noneCloses_append_singleton_iff.1 hnone⟩
  · rintro (⟨rfl, hopens⟩ | ⟨front, inner, rfl, hopens, hnone⟩)
    · exact ⟨tokens, [], .inl ⟨rfl, rfl, rfl⟩, hopens, fun inside d after h => by simp at h⟩
    · exact ⟨front, inner ++ [c], .inr ⟨inner, rfl, rfl⟩, hopens,
        noneCloses_append_singleton_iff.2 hnone⟩

theorem mem_strays_iff : t ∈ (braces tokens).strays ↔ IsStray tokens t := by
  induction tokens using List.reverseRecOn with
  | nil => simp [IsStray]
  | append_singleton tokens c ih =>
    rw [isStray_append_singleton_iff, ← ih, braces_append_singleton]
    generalize hadd : (braces tokens).add c = b
    cases hadd ▸ (braces tokens).step_add c with
    | opened hopens =>
      have hcloses : closes c = false := by
        by_contra hcloses
        rw [Bool.not_eq_false] at hcloses
        simp [opens_eq_false_of_closes hcloses] at hopens
      simp [hcloses]
    | stray hcloses hnone => simp [hcloses, hnone, or_comm, eq_comm]
    | closed _ hunclosed => simp [hunclosed]
    | other _ hcloses => simp [hcloses]

/-- If no token stands twice, a brace is on top exactly if the tokens behind it are
balanced. -/
theorem balanced_iff_on_top {front back outer : List Token} {o : Token}
    (hnodup : (front ++ t :: back).Nodup) (hopens : opens t = true)
    (h : (braces (front ++ t :: back)).unclosed = o :: outer) : Balanced back ↔ o = t := by
  constructor
  · intro hback
    rw [braces_of_balanced hopens hback] at h
    exact (List.cons.inj h).1.symm
  · rintro rfl
    obtain ⟨before, inside, hsplit, _, hinside, _⟩ := exists_of_unclosed h
    have honce : o ∉ front ∧ o ∉ back := by
      simp only [List.nodup_append, List.nodup_cons] at hnodup
      exact ⟨fun ho => hnodup.2.2 o ho o List.mem_cons_self rfl, hnodup.2.1.1⟩
    obtain ⟨_, _, rfl⟩ := (List.append_cons_inj_of_notMem honce.1 honce.2).1 hsplit
    exact hinside

/-- That an opening brace is not closed depends on the tokens behind it. If no token stands
twice, these are known from the brace. -/
theorem mem_unclosed_iff (hnodup : tokens.Nodup) :
    t ∈ (braces tokens).unclosed ↔ IsUnclosed tokens t := by
  induction tokens using List.reverseRecOn with
  | nil => simp [IsUnclosed]
  | append_singleton tokens c ih =>
    have htokens : tokens.Nodup := (List.nodup_append.1 hnodup).1
    rw [isUnclosed_append_singleton_iff, braces_append_singleton]
    generalize hadd : (braces tokens).add c = b
    cases hadd ▸ (braces tokens).step_add c with
    | opened hopens =>
      have hcloses : closes c = false := by
        by_contra hcloses
        rw [Bool.not_eq_false] at hcloses
        simp [opens_eq_false_of_closes hcloses] at hopens
      rw [List.mem_cons, ih htokens, @eq_comm _ t c]
      simp [hopens, hcloses, IsUnclosed]
    | stray hcloses hnone =>
      -- The stack is empty, so no brace in front is unclosed.
      have hall : ¬ IsUnclosed tokens t := by
        rw [← ih htokens, hnone]
        exact List.not_mem_nil
      simp only [opens_eq_false_of_closes hcloses, List.not_mem_nil, false_iff]
      rintro (⟨_, hopens⟩ | ⟨front, back, hsplit, hopens, hback, _⟩)
      · cases hopens
      · exact hall ⟨front, back, hsplit, hopens, hback⟩
    | @closed o outer hcloses hunclosed =>
      -- The brace on top is closed now. It is the one with balanced tokens behind it.
      have hdistinct : (o :: outer).Nodup := by
        rw [← hunclosed, ← List.nodup_reverse]
        exact htokens.sublist ((List.sublist_append_right _ _).trans (sublist_braces tokens))
      have hmem : t ∈ o :: outer ↔ IsUnclosed tokens t := by
        rw [← hunclosed]
        exact ih htokens
      simp only [opens_eq_false_of_closes hcloses]
      constructor
      · intro ht
        obtain ⟨front, back, rfl, hopens, hback⟩ := hmem.1 (List.mem_cons_of_mem o ht)
        refine .inr ⟨front, back, rfl, hopens, hback, fun _ hbalanced => ?_⟩
        rw [balanced_iff_on_top htokens hopens hunclosed] at hbalanced
        exact (List.nodup_cons.1 hdistinct).1 (hbalanced ▸ ht)
      · rintro (⟨_, hopens⟩ | ⟨front, back, rfl, hopens, hback, hbalanced⟩)
        · cases hopens
        · rcases List.mem_cons.1 (hmem.2 ⟨front, back, rfl, hopens, hback⟩) with rfl | ht
          · exact absurd ((balanced_iff_on_top htokens hopens hunclosed).2 rfl) (hbalanced hcloses)
          · exact ht
    | other hopens hcloses => simp [hopens, hcloses, ih htokens, IsUnclosed]

/-- The stack finds the braces without a counterpart. -/
theorem matched_braces (hnodup : tokens.Nodup) :
    Matched tokens (braces tokens).strays (braces tokens).unclosed :=
  ⟨sublist_braces tokens, fun _ => mem_strays_iff, fun _ => mem_unclosed_iff hnodup⟩

end

end CodeHabits.Outline
