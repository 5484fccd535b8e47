import CodeHabits.Proofs.Magnitude
import CodeHabits.Proofs.Value.Exact

/-!
# `CodeHabits.Proofs.Value.Arithmetic`: arithmetic that has a result

Arithmetic on values fails if one of them is no number, or if a whole number that is
mixed with a floating-point number is too large. A number `Mixes` if it is not too
large, and then there is a result whenever the other number is a floating-point
number (`exists_onNumbers_left`, `exists_onNumbers_right`).

The factors of a checked configuration are floating-point numbers, or zero or one.
Such a `Factor` mixes, and arithmetic with it and a confidence gives a floating-point
number again. Comparisons only need numbers.
-/

set_option autoImplicit false

namespace CodeHabits

namespace Number

/-- The number is not too large to be mixed with a floating-point number. -/
def Mixes (n : Number) : Prop :=
  ∃ x, n.toReal? = some x

/-- A floating-point number, zero or one. -/
def Factor : Number → Prop
  | .int k => k = 0 ∨ k = 1
  | .real _ => True

theorem mixes_real (x : Float) : (real x).Mixes :=
  ⟨x, rfl⟩

theorem mixes_zero : (int 0).Mixes :=
  Option.isSome_iff_exists.1 (by decide +kernel)

theorem mixes_one : (int 1).Mixes :=
  Option.isSome_iff_exists.1 (by decide +kernel)

theorem Factor.mixes {n : Number} (h : n.Factor) : n.Mixes := by
  cases n with
  | real x => exact mixes_real x
  | int k =>
    rcases h with rfl | rfl
    · exact mixes_zero
    · exact mixes_one

variable {whole : Int → Int → Int} {other : Float → Float → Float} {n : Number}

theorem exists_lift_left (x : Float) (h : n.Mixes) :
    ∃ y, lift whole other (.real x) n = some (.real y) := by
  obtain ⟨y, hy⟩ := h
  refine ⟨other x y, ?_⟩
  show (some x).bind (fun x => n.toReal?.bind fun y => some (real (other x y))) = _
  rw [hy]
  rfl

theorem exists_lift_right (y : Float) (h : n.Mixes) :
    ∃ z, lift whole other n (.real y) = some (.real z) := by
  obtain ⟨x, hx⟩ := h
  refine ⟨other x y, ?_⟩
  have hlift : lift whole other n (.real y)
      = n.toReal?.bind fun x => some (real (other x y)) := by
    cases n <;> rfl
  rw [hlift, hx]
  rfl

end Number

namespace Value

/-- A value that is a number and mixes. -/
def Mixes (value : Value) : Prop :=
  ∃ n, value.number? = some n ∧ n.Mixes

/-- A value that is a floating-point number, zero or one. -/
def Factor (value : Value) : Prop :=
  ∃ n, value.number? = some n ∧ n.Factor

theorem Factor.mixes {value : Value} (h : value.Factor) : value.Mixes := by
  obtain ⟨n, hn, hfactor⟩ := h
  exact ⟨n, hn, hfactor.mixes⟩

theorem mixes_real (x : Float) : (real x).Mixes :=
  ⟨.real x, rfl, Number.mixes_real x⟩

theorem factor_real (x : Float) : (real x).Factor :=
  ⟨.real x, rfl, trivial⟩

theorem factor_one : (int 1).Factor :=
  ⟨.int 1, rfl, .inr rfl⟩

/-- An operation on values is the operation on the numbers that they are. -/
theorem onNumbers_of_numbers {operation : Number → Number → Except Fault Number} {a b : Value}
    {m n : Number} (ha : a.number? = some m) (hb : b.number? = some n) :
    onNumbers operation a b = (operation m n).map Number.value := by
  have hanumber : a.toNumber = .ok m := by rw [toNumber, ha]
  have hbnumber : b.toNumber = .ok n := by rw [toNumber, hb]
  rw [onNumbers, hanumber, Except.ok_bind, hbnumber, Except.ok_bind]
  cases operation m n <;> rfl

section

variable {whole : Int → Int → Int} {other : Float → Float → Float} {value : Value}

/-- With a floating-point number on the left, there is a result, and it is one. -/
theorem exists_onNumbers_left (x : Float) (h : value.Mixes) :
    ∃ y, onNumbers (fun m n => Number.orOverflow (Number.lift whole other m n)) (.real x) value
      = .ok (.real y) := by
  obtain ⟨n, hn, hmixes⟩ := h
  obtain ⟨y, hy⟩ : ∃ y, Number.lift whole other (.real x) n = some (.real y) :=
    Number.exists_lift_left x hmixes
  exact ⟨y, by rw [onNumbers_of_numbers rfl hn, hy]; rfl⟩

theorem exists_onNumbers_right (y : Float) (h : value.Mixes) :
    ∃ z, onNumbers (fun m n => Number.orOverflow (Number.lift whole other m n)) value (.real y)
      = .ok (.real z) := by
  obtain ⟨m, hm, hmixes⟩ := h
  obtain ⟨z, hz⟩ : ∃ z, Number.lift whole other m (.real y) = some (.real z) :=
    Number.exists_lift_right y hmixes
  exact ⟨z, by rw [onNumbers_of_numbers hm rfl, hz]; rfl⟩

end

/-! ### The operations -/

variable {a b : Value}

theorem exists_add_left (x : Float) (h : a.Mixes) : ∃ y, Magnitude.add (.real x) a = .ok (.real y) :=
  exists_onNumbers_left x h

theorem exists_add_right (x : Float) (h : a.Mixes) :
    ∃ y, Magnitude.add a (.real x) = .ok (.real y) :=
  exists_onNumbers_right x h

theorem exists_mul_left (x : Float) (h : a.Mixes) : ∃ y, Magnitude.mul (.real x) a = .ok (.real y) :=
  exists_onNumbers_left x h

theorem exists_mul_right (x : Float) (h : a.Mixes) :
    ∃ y, Magnitude.mul a (.real x) = .ok (.real y) :=
  exists_onNumbers_right x h

theorem exists_sub_right (x : Float) (h : a.Mixes) :
    ∃ y, Magnitude.sub a (.real x) = .ok (.real y) :=
  exists_onNumbers_right x h

/-- The rest of a factor to the whole is a factor. -/
theorem Factor.exists_rest (h : a.Factor) :
    ∃ rest, Magnitude.sub (Magnitude.ofInt 1) a = .ok rest ∧ rest.Factor := by
  obtain ⟨n, hn, hfactor⟩ := h
  cases n with
  | real x =>
    obtain rfl := eq_real_of_number hn
    obtain ⟨y, hy⟩ := exists_sub_right x factor_one.mixes
    exact ⟨.real y, hy, factor_real y⟩
  | int k =>
    have hsub : Magnitude.sub (Magnitude.ofInt 1) a = .ok (.int (1 - k)) := by
      show onNumbers Magnitude.sub (.int 1) a = _
      rw [onNumbers_of_numbers rfl hn]
      rfl
    refine ⟨.int (1 - k), hsub, .int (1 - k), rfl, ?_⟩
    rcases hfactor with rfl | rfl
    · exact .inr rfl
    · exact .inl rfl

/-- The product of two factors is one. -/
theorem Factor.exists_mul (ha : a.Factor) (hb : b.Factor) :
    ∃ product, Magnitude.mul a b = .ok product ∧ product.Factor := by
  obtain ⟨m, hm, hmfactor⟩ := ha
  obtain ⟨n, hn, hnfactor⟩ := hb
  cases m with
  | real x =>
    obtain rfl := eq_real_of_number hm
    obtain ⟨z, hz⟩ := exists_mul_left x ⟨n, hn, hnfactor.mixes⟩
    exact ⟨.real z, hz, factor_real z⟩
  | int j =>
    cases n with
    | real y =>
      obtain rfl := eq_real_of_number hn
      obtain ⟨z, hz⟩ := exists_mul_right y ⟨.int j, hm, hmfactor.mixes⟩
      exact ⟨.real z, hz, factor_real z⟩
    | int k =>
      have hmul : Magnitude.mul a b = .ok (.int (j * k)) := by
        show onNumbers Magnitude.mul a b = _
        rw [onNumbers_of_numbers hm hn]
        rfl
      refine ⟨.int (j * k), hmul, .int (j * k), rfl, ?_⟩
      rcases hmfactor with rfl | rfl
      · exact .inl (Int.zero_mul k)
      · rw [Int.one_mul]
        exact hnfactor

theorem exists_neg (h : a.number?.isSome) :
    ∃ n, Magnitude.neg a = .ok n ∧ n.number?.isSome := by
  obtain ⟨n, hn⟩ := Option.isSome_iff_exists.1 h
  refine ⟨n.neg.value, ?_, by cases n <;> rfl⟩
  show (a.toNumber >>= fun n => _) = _
  rw [toNumber, hn]
  rfl

/-! ### Comparisons -/

theorem le_of_numbers {m n : Number} (ha : a.number? = some m) (hb : b.number? = some n) :
    Magnitude.le a b = .ok (m.le n) := by
  have hanumber : a.toNumber = .ok m := by rw [toNumber, ha]
  have hbnumber : b.toNumber = .ok n := by rw [toNumber, hb]
  show compareBy Number.le _ a b = _
  cases a with
  | text s => cases ha
  | _ => simp only [compareBy, hanumber, hbnumber, Except.ok_bind, Except.pure_eq]

theorem exists_lt (ha : a.number?.isSome) (hb : b.number?.isSome) :
    ∃ answer, Magnitude.lt a b = .ok answer := by
  obtain ⟨m, hm⟩ := Option.isSome_iff_exists.1 ha
  obtain ⟨n, hn⟩ := Option.isSome_iff_exists.1 hb
  exact ⟨_, lt_of_numbers hm hn⟩

theorem exists_le (ha : a.number?.isSome) (hb : b.number?.isSome) :
    ∃ answer, Magnitude.le a b = .ok answer := by
  obtain ⟨m, hm⟩ := Option.isSome_iff_exists.1 ha
  obtain ⟨n, hn⟩ := Option.isSome_iff_exists.1 hb
  exact ⟨_, le_of_numbers hm hn⟩

theorem exists_larger (ha : a.number?.isSome) (hb : b.number?.isSome) :
    ∃ result, larger a b = .ok result ∧ (result = a ∨ result = b) := by
  obtain ⟨answer, hanswer⟩ := exists_lt ha hb
  have hresult : larger a b = .ok (if answer then b else a) := by
    rw [larger, hanswer]
    rfl
  exact ⟨_, hresult, larger_eq_or hresult⟩

theorem exists_smaller (ha : a.number?.isSome) (hb : b.number?.isSome) :
    ∃ result, smaller a b = .ok result ∧ (result = a ∨ result = b) := by
  obtain ⟨answer, hanswer⟩ := exists_lt hb ha
  have hresult : smaller a b = .ok (if answer then b else a) := by
    rw [smaller, hanswer]
    rfl
  exact ⟨_, hresult, smaller_eq_or hresult⟩

end Value

/-! ### Numbers of a checked configuration -/

/-- A number without an end is one of two. -/
theorem Binary64.eq_of_decode_infinite {x : Float} {negative : Bool}
    (h : decode x = .infinite negative) :
    x = Float.ofBits (if negative then 0xFFF0000000000000 else 0x7FF0000000000000) := by
  have hlt : x.toBits.toNat < 2 ^ 64 := x.toBits.toNat_lt
  have hends : ∀ below : Bool,
      (Float.ofBits (if below then 0xFFF0000000000000 else 0x7FF0000000000000)).toBits.toNat
        = if below then 18442240474082181120 else 9218868437227405312 := by
    decide +kernel
  -- The bits are known, so the number is.
  apply eq_of_bits
  rw [hends]
  simp only [decode] at h
  split at h
  · rename_i hexponent
    split at h
    · rename_i hfraction
      have hnegative : decide (pow2 63 ≤ x.toBits.toNat) = negative := by simpa using h
      simp only [pow2, Nat.pow_eq] at hexponent hfraction hnegative
      cases negative with
      | true =>
        have hlarge := of_decide_eq_true hnegative
        rw [if_pos rfl]
        omega
      | false =>
        have hsmall := of_decide_eq_false hnegative
        rw [if_neg Bool.false_ne_true]
        omega
    · cases h
  · split at h <;> cases h

namespace Number

variable {n low high : Number} {k : Int}

/-- What is more than zero and less than a whole number has an exact value. -/
theorem asRat?_of_lt_int (hpos : Config.zero.lt n = true) (h : n.lt (.int k) = true) :
    ∃ q, n.asRat? = some q := by
  cases n with
  | int m => exact ⟨m, rfl⟩
  | real x =>
    have hkey : ((Key.ofReal x).before? (.number k)).getD false = true := h
    unfold Key.ofReal at hkey
    cases hdecode : Binary64.decode x with
    | nan =>
      rw [hdecode] at hkey
      cases hkey
    | infinite negative =>
      rw [hdecode] at hkey
      obtain rfl : negative = true := hkey
      have hpos : (0.0 : Float) < x := of_decide_eq_true hpos
      rw [Binary64.eq_of_decode_infinite hdecode] at hpos
      exact absurd hpos (by decide +kernel)
    | finite negative m e => simp [asRat?, Binary64.toRat?, hdecode]

/-- And so has what is more than a whole number and not above one. -/
theorem asRat?_of_int_lt (h : (int k).lt n = true) (hone : n.le Config.one = true) :
    ∃ q, n.asRat? = some q := by
  cases n with
  | int m => exact ⟨m, rfl⟩
  | real x =>
    have hkey : ((Key.number k).before? (Key.ofReal x)).getD false = true := h
    unfold Key.ofReal at hkey
    cases hdecode : Binary64.decode x with
    | nan =>
      rw [hdecode] at hkey
      cases hkey
    | infinite negative =>
      rw [hdecode] at hkey
      obtain rfl : negative = false := by simpa [Key.before?] using hkey
      have hone : x ≤ 1.0 := of_decide_eq_true hone
      rw [Binary64.eq_of_decode_infinite hdecode] at hone
      exact absurd hone (by decide +kernel)
    | finite negative m e => simp [asRat?, Binary64.toRat?, hdecode]

/-- Above a positive number and not above one there is only one as a whole number. -/
theorem factor_of_lt (hpos : Config.zero.lt low = true) (hlow : low.lt n = true)
    (hhigh : n.le Config.one = true) : n.Factor := by
  cases n with
  | real x => trivial
  | int k =>
    obtain ⟨p, hp⟩ := asRat?_of_lt_int hpos hlow
    rw [lt_eq_decide asRat?_zero hp] at hpos
    rw [lt_eq_decide hp rfl] at hlow
    rw [le_eq_decide rfl asRat?_one] at hhigh
    have hpositive : (0 : Rat) < k := lt_trans (of_decide_eq_true hpos) (of_decide_eq_true hlow)
    have hone : (k : Rat) ≤ 1 := of_decide_eq_true hhigh
    have hpositive : 0 < k := by exact_mod_cast hpositive
    have hone : k ≤ 1 := by exact_mod_cast hone
    show k = 0 ∨ k = 1
    omega

/-- Below a number that is not above one there is no positive whole number. -/
theorem factor_of_pos (hpos : Config.zero.lt n = true) (hlow : n.lt high = true)
    (hhigh : high.le Config.one = true) : n.Factor := by
  cases n with
  | real x => trivial
  | int k =>
    obtain ⟨q, hq⟩ := asRat?_of_int_lt hlow hhigh
    rw [lt_eq_decide asRat?_zero rfl] at hpos
    rw [lt_eq_decide rfl hq] at hlow
    rw [le_eq_decide hq asRat?_one] at hhigh
    have hpositive : (0 : Rat) < k := of_decide_eq_true hpos
    have hone : (k : Rat) < 1 :=
      lt_of_lt_of_le (of_decide_eq_true hlow) (of_decide_eq_true hhigh)
    have hpositive : 0 < k := by exact_mod_cast hpositive
    have hone : k < 1 := by exact_mod_cast hone
    omega

end Number

/-- Only zero and one are whole numbers from zero to one. -/
theorem Config.ZeroToOne.factor {n : Number} (h : ZeroToOne n) : n.Factor := by
  cases n with
  | real x => trivial
  | int k =>
    obtain ⟨q, hq, hlow, hhigh⟩ := h.exact
    obtain rfl : (k : Rat) = q := Option.some.inj hq
    have hlow : 0 ≤ k := by exact_mod_cast hlow
    have hhigh : k ≤ 1 := by exact_mod_cast hhigh
    show k = 0 ∨ k = 1
    omega

end CodeHabits
