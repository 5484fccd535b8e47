import CodeHabits.Proofs.Binary64.Order
import CodeHabits.Proofs.Value.Arithmetic
import CodeHabits.Proofs.Value.Exact
import CodeHabits.Proofs.Value.Order
import Mathlib.Data.List.Sort
import Mathlib.Data.Prod.Lex
import Mathlib.Data.String.Basic
import Mathlib.Order.OrderDual
import Mathlib.Order.WithBot

/-!
# `CodeHabits.Proofs.Value.Place`: numbers on a line

Whole and floating-point numbers stand on one line, with the infinite ones at its ends. The
one that is no number stands nowhere. Comparing two numbers is comparing their places
(`Number.lt_eq_place`, `Number.le_eq_place`), and what is less or equal to something is on
the line (`Number.onLine_of_le`), so this order is a total one wherever it says yes at all
(`Number.le_trans_of_le`).

`Proofs.Value.Exact` says the same of numbers with exact values. Scores are products of
floating-point numbers and may become infinite, so they need the whole line.
-/

set_option autoImplicit false

namespace CodeHabits

/-- Where a number stands: at a rational number, or at one of the two ends. -/
abbrev Place := WithBot (WithTop Rat)

/-! ### Places of keys -/

namespace Key

/-- The keys of numbers that stand on the line. -/
def OnLine : Key → Prop
  | .number _ | .infinite _ => True
  | .null | .nan | .text _ => False

instance : DecidablePred OnLine
  | .number _ | .infinite _ => .isTrue trivial
  | .null | .nan | .text _ => .isFalse id

/-- Where a key stands on the line. What stands nowhere is put at zero. -/
def place : Key → Place
  | .number q => ((q : WithTop Rat) : Place)
  | .infinite true => ⊥
  | .infinite false => ⊤
  | .null | .nan | .text _ => ((0 : Rat) : WithTop Rat)

theorem number_lt_end (q : Rat) : (number q).place < (infinite false).place :=
  WithBot.coe_lt_coe.2 (WithTop.coe_lt_top q)

variable {a b : Key}

theorem before?_eq_place (ha : a.OnLine) (hb : b.OnLine) :
    a.before? b = some (decide (a.place < b.place)) := by
  cases a with
  | number p =>
    cases b with
    | number q => simp [before?, place]
    | infinite negative =>
      cases negative with
      | true => simp [before?, place]
      | false => simp [before?, number_lt_end p]
    | _ => cases hb
  | infinite negative =>
    cases b with
    | number q => cases negative <;> simp [before?, place]
    | infinite other => cases negative <;> cases other <;> simp [before?, place]
    | _ => cases hb
  | _ => cases ha

theorem place_inj (ha : a.OnLine) (hb : b.OnLine) : a.place = b.place ↔ a = b := by
  cases a with
  | number p =>
    cases b with
    | number q => simp [place]
    | infinite negative => cases negative <;> simp [place]
    | _ => cases hb
  | infinite negative =>
    cases b with
    | number q => cases negative <;> simp [place]
    | infinite other => cases negative <;> cases other <;> simp [place]
    | _ => cases hb
  | _ => cases ha

theorem onLine_of_before? (ha : a.Numeric) (h : (a.before? b).getD false = true) :
    a.OnLine ∧ b.OnLine := by
  cases a with
  | number p =>
    cases b with
    | number q => exact ⟨trivial, trivial⟩
    | infinite negative => exact ⟨trivial, trivial⟩
    | _ => cases h
  | infinite negative =>
    cases b with
    | number q => exact ⟨trivial, trivial⟩
    | infinite other => exact ⟨trivial, trivial⟩
    | _ => cases h
  | nan => cases b <;> cases h
  | _ => cases ha

end Key

/-! ### Places of floating-point numbers -/

namespace Binary64

open Float.Model Float.Model.UnpackedFloat

/-- The key of an unpacked number. -/
def keyOf : UnpackedFloat → Key
  | .notANumber => .nan
  | .infinity .positive => .infinite false
  | .infinity .negative => .infinite true
  | x => .number ((exactOf x).getD 0)

theorem ofReal_of_toRat? {x : Float} {q : Rat} (h : toRat? x = some q) :
    Key.ofReal x = .number q :=
  Number.key_of_asRat? (a := .real x) h

/-- What has no exact value is read the same way by its bits and by its parts. -/
theorem ofReal_eq_keyOf_of_none {x : Float} (h : toRat? x = none) :
    Key.ofReal x = keyOf x.toModel.unpack := by
  have hexponent : x.toBits.toNat / pow2 52 % 2048 = 2047 := by
    by_contra hne
    have hsome := toRat?_isSome_iff.2 hne
    rw [h] at hsome
    cases hsome
  have hbits : x.toBits.toNat = x.toModel.toBits.toBitVec.toNat := rfl
  have hmantissa := unpackMantissa_toNat x.toModel.toBits.toBitVec
  have hexponent' := unpackExponent_toNat x.toModel.toBits.toBitVec
  unfold Key.ofReal
  delta decode
  dsimp only
  rw [if_pos hexponent]
  rw [hbits] at hexponent ⊢
  delta Float.Model.unpack UnpackedFloat.unpack
  dsimp only
  generalize x.toModel.toBits.toBitVec = b at *
  have hones : @unpackExponent Format.binary64 b = -1#11 := by
    apply BitVec.eq_of_toNat_eq
    rw [hexponent']
    exact hexponent
  rw [if_pos hones]
  -- With all ones for the exponent, the mantissa tells infinities from what is no number.
  by_cases hnone : @unpackMantissa Format.binary64 b = 0#52
  · have hzero : b.toNat % pow2 52 = 0 := by
      show b.toNat % 2 ^ 52 = 0
      rw [← hmantissa, hnone]
      rfl
    rw [if_pos hnone, if_pos hzero]
    have hsign := le_toNat_iff_signBits b
    cases hcase : Sign.ofBitVec (@unpackSign Format.binary64 b) with
    | positive =>
      rw [hcase] at hsign
      have hpositive : ¬ pow2 63 ≤ b.toNat := fun h => absurd (hsign.1 h) (by decide)
      simp [keyOf, hpositive]
    | negative =>
      rw [hcase] at hsign
      have hnegative : pow2 63 ≤ b.toNat := hsign.2 rfl
      simp [keyOf, hnegative]
  · have hzero : b.toNat % pow2 52 ≠ 0 := by
      show b.toNat % 2 ^ 52 ≠ 0
      rw [← hmantissa]
      exact fun h => hnone (BitVec.eq_of_toNat_eq h)
    rw [if_neg hnone, if_neg hzero]
    rfl

/-- The key of a number is that of its parts. -/
theorem ofReal_eq_keyOf (x : Float) : Key.ofReal x = keyOf x.toModel.unpack := by
  cases h : toRat? x with
  | none => exact ofReal_eq_keyOf_of_none h
  | some q =>
    rw [ofReal_of_toRat? h]
    cases worth_of_toRat? h with
    | zero hx =>
      rw [hx]
      rfl
    | positive hx =>
      rw [hx]
      rfl
    | negative hx =>
      rw [hx]
      rfl

variable {x y : Float}

/-- What stands on the line has an exact value or stands at one of the ends. -/
theorem cases_of_onLine (h : (Key.ofReal x).OnLine) :
    (∃ q, Worth x q ∧ Key.ofReal x = .number q) ∨
      ∃ s, x.toModel.unpack = .infinity s ∧ Key.ofReal x = keyOf (.infinity s) := by
  cases hvalue : toRat? x with
  | some q => exact .inl ⟨q, worth_of_toRat? hvalue, ofReal_of_toRat? hvalue⟩
  | none =>
    have hkey := ofReal_eq_keyOf x
    rw [toRat?_eq_exactOf] at hvalue
    cases hx : x.toModel.unpack with
    | notANumber =>
      rw [hkey, hx] at h
      cases h
    | infinity s =>
      rw [hx] at hkey
      exact .inr ⟨s, rfl, hkey⟩
    | zero s =>
      rw [hx] at hvalue
      cases hvalue
    | finite s m e hm =>
      rw [hx, exactOf_finite] at hvalue
      cases hvalue

/-- What has an exact value lies before one end of the line and behind the other one. -/
theorem compare_infinity_of_worth {q : Rat} (h : Worth x q) (s : Sign) :
    x.toModel.unpack.compare (.infinity s)
      = some (cmp (Key.number q).place (keyOf (.infinity s)).place) := by
  have hplaces : cmp (Key.number q).place (keyOf (.infinity s)).place
      = match s with | .positive => .lt | .negative => .gt := by
    cases s with
    | positive => exact (cmp_eq_lt_iff _ _).2 (Key.number_lt_end q)
    | negative => exact (cmp_eq_gt_iff _ _).2 (WithBot.bot_lt_coe _)
  rw [hplaces]
  cases h with
  | zero hx | positive hx _ _ | negative hx _ _ =>
    rw [hx]
    cases s with
    | positive => rfl
    | negative => rfl

/-- And the other way round. -/
theorem infinity_compare_of_worth {q : Rat} (h : Worth x q) (s : Sign) :
    (UnpackedFloat.infinity s).compare x.toModel.unpack
      = some (cmp (keyOf (.infinity s)).place (Key.number q).place) := by
  have hplaces : cmp (keyOf (.infinity s)).place (Key.number q).place
      = match s with | .positive => .gt | .negative => .lt := by
    cases s with
    | positive => exact (cmp_eq_gt_iff _ _).2 (Key.number_lt_end q)
    | negative => exact (cmp_eq_lt_iff _ _).2 (WithBot.bot_lt_coe _)
  rw [hplaces]
  cases h with
  | zero hx | positive hx _ _ | negative hx _ _ =>
    rw [hx]
    cases s with
    | positive => rfl
    | negative => rfl

theorem infinity_compare_infinity (s t : Sign) :
    (UnpackedFloat.infinity s).compare (.infinity t)
      = some (cmp (keyOf (.infinity s)).place (keyOf (.infinity t)).place) := by
  have hends : (keyOf (.infinity .negative)).place < (keyOf (.infinity .positive)).place :=
    WithBot.bot_lt_coe _
  cases s with
  | positive =>
    cases t with
    | positive =>
      rw [cmp_self_eq_eq]
      rfl
    | negative =>
      rw [(cmp_eq_gt_iff _ _).2 hends]
      rfl
  | negative =>
    cases t with
    | positive =>
      rw [(cmp_eq_lt_iff _ _).2 hends]
      rfl
    | negative =>
      rw [cmp_self_eq_eq]
      rfl

/-- Comparing numbers with an end of the line and with each other is comparing places. -/
theorem compare_eq_place (hx : (Key.ofReal x).OnLine) (hy : (Key.ofReal y).OnLine) :
    x.toModel.unpack.compare y.toModel.unpack
      = some (cmp (Key.ofReal x).place (Key.ofReal y).place) := by
  rcases cases_of_onLine hx with ⟨p, hp, hxkey⟩ | ⟨s, hxend, hxkey⟩
  · rcases cases_of_onLine hy with ⟨q, hq, hykey⟩ | ⟨t, hyend, hykey⟩
    · have hcmp : cmp (Key.number p).place (Key.number q).place = cmp p q := by
        simp [cmp, cmpUsing, Key.place]
      rw [hxkey, hykey, hcmp, hp.compare_eq_cmp hq]
    · rw [hxkey, hykey, hyend, compare_infinity_of_worth hp]
  · rcases cases_of_onLine hy with ⟨q, hq, hykey⟩ | ⟨t, hyend, hykey⟩
    · rw [hxkey, hykey, hxend, infinity_compare_of_worth hq]
    · rw [hxkey, hykey, hxend, hyend, infinity_compare_infinity]

theorem lt_iff_place (hx : (Key.ofReal x).OnLine) (hy : (Key.ofReal y).OnLine) :
    x < y ↔ (Key.ofReal x).place < (Key.ofReal y).place := by
  rw [lt_iff, compare_eq_place hx hy, Option.some_inj, cmp_eq_lt_iff]

theorem le_iff_place (hx : (Key.ofReal x).OnLine) (hy : (Key.ofReal y).OnLine) :
    x ≤ y ↔ (Key.ofReal x).place ≤ (Key.ofReal y).place := by
  rw [le_iff, compare_eq_place hx hy, Option.any_some, ← not_lt, ← cmp_eq_gt_iff]
  cases cmp (Key.ofReal x).place (Key.ofReal y).place with
  | lt => simp
  | eq => simp
  | gt => simp

/-- The one that is no number is not less or equal to anything. -/
theorem onLine_of_le (h : x ≤ y) : (Key.ofReal x).OnLine ∧ (Key.ofReal y).OnLine := by
  rw [le_iff] at h
  rw [ofReal_eq_keyOf, ofReal_eq_keyOf]
  constructor
  · cases hx : x.toModel.unpack with
    | notANumber =>
      rw [hx] at h
      cases h
    | infinity s => cases s <;> trivial
    | zero s => trivial
    | finite s m e hm => trivial
  · cases hy : y.toModel.unpack with
    | notANumber =>
      rw [hy] at h
      cases hx : x.toModel.unpack with
      | notANumber | infinity | zero | finite =>
        rw [hx] at h
        cases h
    | infinity s => cases s <;> trivial
    | zero s => trivial
    | finite s m e hm => trivial

end Binary64

/-! ### Places of numbers -/

namespace Number

/-- The number stands on the line: it is not the one that is no number. -/
def OnLine (a : Number) : Prop :=
  a.label.key.OnLine

/-- Where the number stands. -/
def place (a : Number) : Place :=
  a.label.key.place

variable {a b c : Number}

theorem place_int (n : Int) : place (.int n) = (((n : Rat) : WithTop Rat) : Place) := rfl

theorem lt_eq_place (ha : a.OnLine) (hb : b.OnLine) : a.lt b = decide (a.place < b.place) := by
  have hkeys : (a.label.key.before? b.label.key).getD false = decide (a.place < b.place) := by
    rw [Key.before?_eq_place ha hb]
    rfl
  cases a with
  | int m =>
    cases b with
    | int n => exact decide_eq_decide.2 (by simp [place_int])
    | real y => exact hkeys
  | real x =>
    cases b with
    | int n => exact hkeys
    | real y => exact decide_eq_decide.2 (Binary64.lt_iff_place ha hb)

theorem le_eq_place (ha : a.OnLine) (hb : b.OnLine) : a.le b = decide (a.place ≤ b.place) := by
  have hkeys : (a.lt b || (a.label.key == b.label.key)) = decide (a.place ≤ b.place) := by
    have hsame : a.place = b.place ↔ a.label.key = b.label.key := Key.place_inj ha hb
    rw [lt_eq_place ha hb, Bool.eq_iff_iff]
    simp [le_iff_lt_or_eq, hsame]
  cases a with
  | int m =>
    cases b with
    | int n => exact decide_eq_decide.2 (by simp [place_int])
    | real y => exact hkeys
  | real x =>
    cases b with
    | int n => exact hkeys
    | real y => exact decide_eq_decide.2 (Binary64.le_iff_place ha hb)

/-- Only what is on the line is less or equal to something, or something to it. -/
theorem onLine_of_le (h : a.le b = true) : a.OnLine ∧ b.OnLine := by
  have hkeys : ∀ k l : Key, k.Numeric → k.OnLine ∨ l.OnLine →
      ((k.before? l).getD false || (k == l)) = true → k.OnLine ∧ l.OnLine := by
    intro k l hk hkl h
    rcases Bool.or_eq_true_iff.1 h with hbefore | hsame
    · exact Key.onLine_of_before? hk hbefore
    · rw [beq_iff_eq.1 hsame] at hkl ⊢
      exact ⟨or_self_iff.1 hkl, or_self_iff.1 hkl⟩
  cases a with
  | int m =>
    cases b with
    | int n => exact ⟨trivial, trivial⟩
    | real y => exact hkeys (.number m) _ trivial (.inl trivial) h
  | real x =>
    cases b with
    | int n => exact hkeys _ (.number n) (Label.numeric_ofReal x) (.inr trivial) h
    | real y => exact Binary64.onLine_of_le (of_decide_eq_true h)

/-- Less or equal is a transitive order. -/
theorem le_trans_of_le (h : a.le b = true) (k : b.le c = true) : a.le c = true := by
  obtain ⟨ha, hb⟩ := onLine_of_le h
  obtain ⟨_, hc⟩ := onLine_of_le k
  rw [le_eq_place ha hb] at h
  rw [le_eq_place hb hc] at k
  rw [le_eq_place ha hc]
  exact decide_eq_true ((of_decide_eq_true h).trans (of_decide_eq_true k))

end Number

/-!
## Sorting things by their places

A precedence may have no answer. Where it answers for things as a linear order answers for
their places (`Precedence.Follows`), they can be sorted, and then their places ascend
(`sorted_of_follows`). An order by several numbers, each decisive only where those before
it are equal, follows lexicographic places (`Precedence.Follows.greaterFirst`).

Of two rankings by the same places, one begins the other if it has fewer things but
everything that ranks before a thing of its own (`isPrefix_of_closed`).
-/

open OrderDual (toDual)

variable {α β γ ν : Type}

/-! ### Numbers that compare as their keys do -/

/-- Two numbers can be compared, and compare as two keys do. -/
structure Compares [LinearOrder γ] [Magnitude ν] (x y : ν) (k l : γ) : Prop where
  lt : ∃ less, Magnitude.lt x y = .ok less ∧ (less = true ↔ k < l)
  le : ∃ most, Magnitude.le x y = .ok most ∧ (most = true ↔ k ≤ l)

theorem Rat.compares (x y : Rat) : Compares x y x y where
  lt := ⟨_, rfl, decide_eq_true_iff⟩
  le := ⟨_, rfl, decide_eq_true_iff⟩

namespace Value

/-- The value is a number that stands on the line. -/
def OnLine (a : Value) : Prop :=
  ∃ n, a.number? = some n ∧ n.OnLine

/-- Where a value stands that is a number. -/
def place (a : Value) : Place :=
  a.number?.elim 0 Number.place

variable {a b : Value}

theorem OnLine.compares (ha : a.OnLine) (hb : b.OnLine) : Compares a b a.place b.place := by
  obtain ⟨m, hm, hmline⟩ := ha
  obtain ⟨n, hn, hnline⟩ := hb
  rw [place, place, hm, hn]
  constructor
  · refine ⟨m.lt n, lt_of_numbers hm hn, ?_⟩
    rw [Number.lt_eq_place hmline hnline]
    exact decide_eq_true_iff
  · refine ⟨m.le n, le_of_numbers hm hn, ?_⟩
    rw [Number.le_eq_place hmline hnline]
    exact decide_eq_true_iff

theorem onLine_of_le (ha : a.number?.isSome) (hb : b.number?.isSome)
    (h : Magnitude.le a b = .ok true) : a.OnLine ∧ b.OnLine := by
  obtain ⟨m, hm⟩ := Option.isSome_iff_exists.1 ha
  obtain ⟨n, hn⟩ := Option.isSome_iff_exists.1 hb
  rw [le_of_numbers hm hn] at h
  obtain ⟨hmline, hnline⟩ := Number.onLine_of_le (Except.ok.inj h)
  exact ⟨⟨m, hm, hmline⟩, n, hn, hnline⟩

theorem OnLine.le_iff (ha : a.OnLine) (hb : b.OnLine) :
    Magnitude.le a b = .ok true ↔ a.place ≤ b.place := by
  obtain ⟨most, hmost, hiff⟩ := (ha.compares hb).le
  rw [hmost, ← hiff, Except.ok.injEq]

end Value

/-! ### Orders that follow places -/

/-- Of two things the order puts first the one with the lesser place. -/
def Precedence.Follows [LinearOrder β] (p : Precedence α) (place : α → β) (a b : α) : Prop :=
  ∃ first, p a b = some first ∧ (first = true ↔ place a < place b)

/-- Where the first numbers compare as their keys and the rest follows places, the greater
key decides first. -/
theorem Precedence.Follows.greaterFirst [LinearOrder β] [LinearOrder γ] [Magnitude ν]
    {about : α → ν} {second : Precedence α} {key : α → γ} {place : α → β} {a b : α}
    (hkeys : Compares (about b) (about a) (key b) (key a)) (h : second.Follows place a b) :
    (Precedence.greaterFirst about second).Follows (fun x => toLex (toDual (key x), place x))
      a b := by
  obtain ⟨less, hless, hlt⟩ := hkeys.lt
  obtain ⟨most, hmost, hle⟩ := hkeys.le
  obtain ⟨first, hfirst, hplace⟩ := h
  unfold Follows Precedence.greaterFirst
  rw [hless, hmost, Prod.Lex.toLex_lt_toLex]
  cases less with
  | true =>
    have hbefore : key b < key a := hlt.1 rfl
    exact ⟨true, rfl, iff_of_true rfl (.inl (OrderDual.toDual_lt_toDual.2 hbefore))⟩
  | false =>
    have hnotless : ¬ key b < key a := fun h => Bool.false_ne_true (hlt.2 h)
    cases most with
    | true =>
      -- The first numbers are equal, so the second order decides.
      have hequal : key b = key a := (not_lt.1 hnotless).antisymm' (hle.1 rfl)
      refine ⟨first, hfirst, ?_⟩
      rw [hplace]
      simp [hequal]
    | false =>
      have hnotmost : ¬ key b ≤ key a := fun h => Bool.false_ne_true (hle.2 h)
      refine ⟨false, rfl, iff_of_false Bool.false_ne_true ?_⟩
      rintro (hbefore | ⟨hequal, _⟩)
      · exact hnotless (OrderDual.toDual_lt_toDual.1 hbefore)
      · exact hnotmost (OrderDual.toDual_inj.1 hequal).ge

/-- Texts are the places of what is ordered by texts. -/
theorem Label.follows_textOf {about : α → Label} {a b : α} (ha : (about a).IsText)
    (hb : (about b).IsText) :
    (Precedence.on about .label).Follows (fun x => (about x).textOf) a b :=
  ⟨_, before_of_text ha hb, decide_eq_true_iff⟩

/-- What follows places can be sorted, and then the places ascend. -/
theorem sorted_of_follows [LinearOrder β] {p : Precedence α} {place : α → β} {xs : List α}
    (h : ∀ a ∈ xs, ∀ b ∈ xs, p.Follows place a b) :
    ∃ ys, sorted p xs = .ok ys ∧ ys.Perm xs ∧ ys.Pairwise fun a b => place a ≤ place b := by
  have hordered : allOrdered p xs = true := by
    rw [allOrdered_iff_pairwise]
    apply List.pairwise_of_forall_mem_list
    intro a ha b hb
    obtain ⟨_, hab, _⟩ := h a ha b hb
    obtain ⟨_, hba, _⟩ := h b hb a ha
    exact ⟨Option.isSome_of_eq_some hab, Option.isSome_of_eq_some hba⟩
  -- Sorting the things is sorting the places, which are in a total order.
  have hplaces : (xs.mergeSort fun a b => !(p b a).getD false).map place
      = (xs.map place).mergeSort fun k l => decide (k ≤ l) := by
    apply List.map_mergeSort
    intro a ha b hb
    obtain ⟨first, hfirst, hiff⟩ := h b hb a ha
    rw [hfirst, Option.getD_some, Bool.eq_iff_iff, decide_eq_true_iff, ← not_lt, ← hiff]
    simp
  have hsorted : ((xs.map place).mergeSort fun k l => decide (k ≤ l)).Pairwise
      fun k l => decide (k ≤ l) = true := by
    apply List.pairwise_mergeSort
    · intro a b c hab hbc
      exact decide_eq_true ((of_decide_eq_true hab).trans (of_decide_eq_true hbc))
    · intro a b
      simpa using le_total a b
  rw [← hplaces, List.pairwise_map] at hsorted
  refine ⟨_, if_pos hordered, List.mergeSort_perm _ _, hsorted.imp ?_⟩
  intro a b hab
  exact of_decide_eq_true hab

/-- A ranking with fewer things begins another one if it has everything of the other that
ranks before a thing of its own. -/
theorem isPrefix_of_closed [LinearOrder β] {place : α → β} {fewer all : List α}
    (hfewer : fewer.Pairwise fun a b => place a < place b)
    (hall : all.Pairwise fun a b => place a < place b) (hmem : ∀ a ∈ fewer, a ∈ all)
    (hclosed : ∀ a ∈ fewer, ∀ b ∈ all, place b < place a → b ∈ fewer) : fewer <+: all := by
  induction fewer generalizing all with
  | nil => exact List.nil_prefix
  | cons a rest ih =>
    obtain ⟨hafter, hrest⟩ := List.pairwise_cons.1 hfewer
    cases all with
    | nil => cases hmem a List.mem_cons_self
    | cons b others =>
      obtain ⟨hbefore, hothers⟩ := List.pairwise_cons.1 hall
      have hfirst : b = a := by
        by_contra hne
        have hlater : a ∈ others :=
          (List.mem_cons.1 (hmem a List.mem_cons_self)).resolve_left (Ne.symm hne)
        have hba := hbefore a hlater
        rcases List.mem_cons.1 (hclosed a List.mem_cons_self b List.mem_cons_self hba) with h | h
        · exact hne h
        · exact lt_asymm hba (hafter b h)
      subst hfirst
      rw [List.prefix_cons_inj]
      apply ih hrest hothers
      · intro c hc
        have hne : c ≠ b := fun h => lt_irrefl _ (h ▸ hafter c hc)
        exact (List.mem_cons.1 (hmem c (List.mem_cons_of_mem _ hc))).resolve_left hne
      · intro c hc d hd hdc
        have hne : d ≠ b := fun h => lt_irrefl _ (h ▸ hbefore d hd)
        have hin := hclosed c (List.mem_cons_of_mem _ hc) d (List.mem_cons_of_mem _ hd) hdc
        exact (List.mem_cons.1 hin).resolve_left hne

end CodeHabits
