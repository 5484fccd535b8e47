import CodeHabits.Proofs.Binary64.Order
import CodeHabits.Proofs.Config

/-!
# `CodeHabits.Proofs.Value.Exact`: exact values of numbers

A whole number is its own exact value, and a floating-point number that is finite
has the rational number that its bits stand for. Whatever mixture of the two is
compared, the answer is that of comparing the exact values (`Number.lt_eq_decide`,
`Number.le_eq_decide`).

What lies between two numbers that have exact values has one (`exact_of_between`).
So bounds on both sides, as a configuration is checked for, are bounds on an exact
value.
-/

set_option autoImplicit false

namespace CodeHabits

namespace Binary64

open Float.Model Float.Model.UnpackedFloat

/-- What lies between two finite numbers is finite. -/
theorem toRat?_of_between {x low high : Float} {p q : Rat} (hlow : toRat? low = some p)
    (hhigh : toRat? high = some q) (hle : low ≤ x) (hge : x ≤ high) :
    ∃ r, toRat? x = some r := by
  rw [le_iff] at hle hge
  rw [toRat?_eq_exactOf]
  cases hx : x.toModel.unpack with
  | zero s => exact ⟨0, rfl⟩
  | finite s m e hm => exact ⟨_, exactOf_finite s m e hm⟩
  | notANumber =>
    rw [hx] at hge
    cases hge
  | infinity s =>
    rw [hx] at hle hge
    -- One of the two bounds would have to be infinite as well.
    cases s with
    | positive =>
      have hworth := worth_of_toRat? hhigh
      cases hworth with
      | zero h | positive h | negative h =>
        rw [h] at hge
        cases hge
    | negative =>
      have hworth := worth_of_toRat? hlow
      cases hworth with
      | zero h | positive h | negative h =>
        rw [h] at hle
        cases hle

end Binary64

namespace Number

/-- The exact value of a number, if it has one. -/
def asRat? : Number → Option Rat
  | .int n => some n
  | .real x => Binary64.toRat? x

variable {a b low high : Number} {p q : Rat}

/-- Numbers are told apart by their exact values. -/
theorem key_of_asRat? (h : a.asRat? = some p) : a.label.key = .number p := by
  cases a with
  | int n =>
    cases h
    rfl
  | real x =>
    have hx : Binary64.toRat? x = some p := h
    show Key.ofReal x = _
    unfold Key.ofReal
    cases hdecode : Binary64.decode x with
    | nan => simp [Binary64.toRat?, hdecode] at hx
    | infinite negative => simp [Binary64.toRat?, hdecode] at hx
    | finite negative m e => simp [hx]

/-- Comparing numbers is comparing exact values. -/
theorem lt_eq_decide (ha : a.asRat? = some p) (hb : b.asRat? = some q) :
    a.lt b = decide (p < q) := by
  have hkeys : (a.label.key.before? b.label.key).getD false = decide (p < q) := by
    rw [key_of_asRat? ha, key_of_asRat? hb]
    rfl
  cases a with
  | int m =>
    cases b with
    | int n =>
      cases ha
      cases hb
      exact decide_eq_decide.2 (by exact_mod_cast Iff.rfl)
    | real y => exact hkeys
  | real x =>
    cases b with
    | int n => exact hkeys
    | real y => exact decide_eq_decide.2 (Binary64.lt_iff_toRat? ha hb)

theorem le_eq_decide (ha : a.asRat? = some p) (hb : b.asRat? = some q) :
    a.le b = decide (p ≤ q) := by
  have hkeys : (a.lt b || (a.label.key == b.label.key)) = decide (p ≤ q) := by
    rw [lt_eq_decide ha hb, key_of_asRat? ha, key_of_asRat? hb, Bool.eq_iff_iff]
    simp [le_iff_lt_or_eq]
  cases a with
  | int m =>
    cases b with
    | int n =>
      cases ha
      cases hb
      exact decide_eq_decide.2 (by exact_mod_cast Iff.rfl)
    | real y => exact hkeys
  | real x =>
    cases b with
    | int n => exact hkeys
    | real y => exact decide_eq_decide.2 (Binary64.le_iff_toRat? ha hb)

theorem le_of_lt (h : a.lt b = true) : a.le b = true := by
  cases a with
  | int m =>
    cases b with
    | int n =>
      have hless : m < n := of_decide_eq_true h
      exact decide_eq_true (by omega)
    | real y =>
      show (_ || _) = true
      rw [h]
      rfl
  | real x =>
    cases b with
    | int n =>
      show (_ || _) = true
      rw [h]
      rfl
    | real y => exact decide_eq_true (Binary64.le_of_lt (of_decide_eq_true h))

theorem asRat?_zero : Config.zero.asRat? = some 0 := by
  decide +kernel

theorem asRat?_one : Config.one.asRat? = some 1 := by
  decide +kernel

/-- What is bounded by zero and one has an exact value. -/
theorem exists_asRat?_of_unit (hlow : Config.zero.le a = true) (hhigh : a.le Config.one = true) :
    ∃ q, a.asRat? = some q := by
  cases a with
  | int n => exact ⟨n, rfl⟩
  | real x =>
    have hzero : Binary64.toRat? 0.0 = some 0 := asRat?_zero
    have hone : Binary64.toRat? 1.0 = some 1 := asRat?_one
    exact Binary64.toRat?_of_between hzero hone (of_decide_eq_true hlow) (of_decide_eq_true hhigh)

end Number

namespace Config

variable {n : Number} {q : Rat}

/-- Bounds that hold for a number hold for its exact value. -/
theorem ZeroToOne.exact (h : ZeroToOne n) : ∃ q, n.asRat? = some q ∧ 0 ≤ q ∧ q ≤ 1 := by
  obtain ⟨hlow, hhigh⟩ := h
  obtain ⟨q, hq⟩ := Number.exists_asRat?_of_unit hlow hhigh
  rw [Number.le_eq_decide Number.asRat?_zero hq] at hlow
  rw [Number.le_eq_decide hq Number.asRat?_one] at hhigh
  exact ⟨q, hq, of_decide_eq_true hlow, of_decide_eq_true hhigh⟩

/-- And so do bounds that are not reached. -/
theorem exact_of_openUnit (hlow : zero.lt n = true) (hhigh : n.lt one = true) :
    ∃ q, n.asRat? = some q ∧ 0 < q ∧ q < 1 := by
  obtain ⟨q, hq⟩ := Number.exists_asRat?_of_unit (Number.le_of_lt hlow) (Number.le_of_lt hhigh)
  rw [Number.lt_eq_decide Number.asRat?_zero hq] at hlow
  rw [Number.lt_eq_decide hq Number.asRat?_one] at hhigh
  exact ⟨q, hq, of_decide_eq_true hlow, of_decide_eq_true hhigh⟩

end Config

end CodeHabits
