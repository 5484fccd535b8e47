import CodeHabits.Magnitude
import CodeHabits.Proofs.Except

/-!
# `CodeHabits.Proofs.Magnitude`: confidences in the unit interval

Among floating-point numbers the larger and the smaller one of two always
exist. Forcing a confidence into the unit interval therefore never fails for
these, and `clampReal` says what it gives: the number itself strictly between
zero and one, and else one of the two ends. Doing it again changes nothing
(`clampReal_clampReal`).

Values in general have results only among numbers. What arithmetic gives is a
number (`number?_onNumbers`), and what can be compared with a number is one
(`number_of_compareBy`).
-/

set_option autoImplicit false

namespace CodeHabits

section

variable {ν : Type} [Magnitude ν] {a b result : ν}

/-- The larger of two is one of them. -/
theorem larger_eq_or (h : larger a b = .ok result) : result = a ∨ result = b := by
  obtain ⟨less, _, h⟩ := Except.bind_eq_ok.1 h
  cases h
  split
  · exact .inr rfl
  · exact .inl rfl

/-- And so is the smaller. -/
theorem smaller_eq_or (h : smaller a b = .ok result) : result = a ∨ result = b := by
  obtain ⟨less, _, h⟩ := Except.bind_eq_ok.1 h
  cases h
  split
  · exact .inr rfl
  · exact .inl rfl

end

theorem larger_real (x y : Float) :
    larger (Value.real x) (.real y) = .ok (.real (if x < y then y else x)) := by
  show Except.ok (if decide (x < y) = true then Value.real y else .real x) = _
  by_cases h : x < y <;> simp [h]

theorem smaller_real (x y : Float) :
    smaller (Value.real x) (.real y) = .ok (.real (if y < x then y else x)) := by
  show Except.ok (if decide (y < x) = true then Value.real y else .real x) = _
  by_cases h : y < x <;> simp [h]

/-- A floating-point number forced into the unit interval. -/
def clampReal (x : Float) : Float :=
  let least := if 0.0 < x then x else 0.0
  if least < 1.0 then least else 1.0

theorem clampConfidence_real (x : Float) :
    clampConfidence (Value.real x) = .ok (.real (clampReal x)) := by
  show (larger (Value.real 0.0) (.real x) >>= smaller (Value.real 1.0)) = _
  rw [larger_real]
  exact smaller_real _ _

theorem clampReal_clampReal (x : Float) : clampReal (clampReal x) = clampReal x := by
  have hzero : clampReal 0.0 = 0.0 := by rfl
  have hone : clampReal 1.0 = 1.0 := by rfl
  by_cases hpos : 0.0 < x
  · by_cases hlt : x < 1.0
    · have hx : clampReal x = x := by simp [clampReal, hpos, hlt]
      rw [hx, hx]
    · have hx : clampReal x = 1.0 := by simp [clampReal, hpos, hlt]
      rw [hx, hone]
  · have hx : clampReal x = 0.0 := by
      rw [← hzero]
      simp [clampReal, hpos]
    rw [hx, hzero]

/-! ### Numbers among values -/

namespace Value

/-- A value that is a floating-point number. -/
theorem eq_real_of_number {value : Value} {x : Float} (h : value.number? = some (.real x)) :
    value = .real x := by
  cases value <;> cases h
  rfl

/-- Numbers are compared as numbers. -/
theorem lt_of_numbers {a b : Value} {m n : Number} (ha : a.number? = some m)
    (hb : b.number? = some n) : Magnitude.lt a b = .ok (m.lt n) := by
  have hanumber : a.toNumber = .ok m := by rw [toNumber, ha]
  have hbnumber : b.toNumber = .ok n := by rw [toNumber, hb]
  show compareBy Number.lt _ a b = _
  cases a with
  | text s => cases ha
  | _ => simp only [compareBy, hanumber, hbnumber, Except.ok_bind, Except.pure_eq]

theorem number?_onNumbers {operation : Number → Number → Except Fault Number}
    {a b result : Value} (h : onNumbers operation a b = .ok result) : result.number?.isSome := by
  obtain ⟨m, _, h⟩ := Except.bind_eq_ok.1 h
  obtain ⟨n, _, h⟩ := Except.bind_eq_ok.1 h
  obtain ⟨k, _, h⟩ := Except.bind_eq_ok.1 h
  cases h
  cases k <;> rfl

/-- What is added to a floating-point number makes one. -/
theorem real_of_add {x : Float} {other sum : Value} (h : Magnitude.add (.real x) other = .ok sum) :
    ∃ y, sum = .real y := by
  have h : (do
      let n ← other.toNumber
      let k ← Number.orOverflow ((Number.real x).add? n)
      return k.value) = Except.ok sum := h
  obtain ⟨n, _, h⟩ := Except.bind_eq_ok.1 h
  obtain ⟨k, hk, h⟩ := Except.bind_eq_ok.1 h
  cases h
  have hadd : (Number.real x).add? n = some k := by
    unfold Number.orOverflow at hk
    split at hk
    · rename_i hsome
      rw [hsome]
      exact congrArg some (Except.ok.inj hk)
    · cases hk
  -- The other number is taken as a floating-point number as well.
  obtain ⟨y, _, hadd⟩ := Option.bind_eq_some_iff.1 hadd
  cases hadd
  exact ⟨x + y, rfl⟩

/-- Only a number can be compared with a number. -/
theorem number_of_compareBy {numbers : Number → Number → Bool} {texts : String → String → Bool}
    {a b : Value} {answer : Bool} (h : compareBy numbers texts a b = .ok answer) :
    a.number?.isSome ↔ b.number?.isSome := by
  have hnumber : ∀ {value : Value} {n : Number}, value.toNumber = .ok n → value.number?.isSome := by
    intro value n h
    rw [toNumber] at h
    split at h
    · rename_i hn
      rw [hn]
      rfl
    · cases h
  unfold compareBy at h
  split at h
  · rfl
  · obtain ⟨m, hm, h⟩ := Except.bind_eq_ok.1 h
    obtain ⟨n, hn, h⟩ := Except.bind_eq_ok.1 h
    exact ⟨fun _ => hnumber hn, fun _ => hnumber hm⟩

theorem number_of_larger {a b result : Value} (hb : b.number?.isSome)
    (h : larger a b = .ok result) : result.number?.isSome := by
  obtain ⟨less, hless, h⟩ := Except.bind_eq_ok.1 h
  cases h
  split
  · exact hb
  · exact (number_of_compareBy hless).2 hb

theorem number_of_smaller {a b result : Value} (hb : b.number?.isSome)
    (h : smaller a b = .ok result) : result.number?.isSome := by
  obtain ⟨less, hless, h⟩ := Except.bind_eq_ok.1 h
  cases h
  split
  · exact hb
  · exact (number_of_compareBy hless).1 hb

end Value

end CodeHabits
