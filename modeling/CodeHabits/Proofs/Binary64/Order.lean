import CodeHabits.Proofs.Binary64.UnitInterval
import Mathlib.Order.Compare
import Mathlib.Tactic.Ring

/-!
# `CodeHabits.Proofs.Binary64.Order`: floating-point numbers in the order of their values

Comparing two finite floating-point numbers is comparing their exact values
(`lt_iff_toRat?`, `le_iff_toRat?`). The bits are compared by exponents first and
by mantissas where the exponents are the same. This is right because the first
digit of a mantissa is only missing at the least exponent: with a greater exponent
a mantissa is worth more than any mantissa with a smaller one
(`scaled_lt_of_exponent_lt`).

The numbers with an exact value are those that are neither infinite nor no number
at all (`toRat?_eq_exactOf`).
-/

set_option autoImplicit false

namespace CodeHabits.Binary64

open Float.Model Float.Model.UnpackedFloat

/-! ### Values of unpacked numbers -/

/-- The exact value of an unpacked number, if it has one. -/
def exactOf : UnpackedFloat → Option Rat
  | .notANumber | .infinity _ => none
  | .zero _ => some 0
  | .finite .positive m e _ => some (m * (2 : Rat) ^ e)
  | .finite .negative m e _ => some (-(m * (2 : Rat) ^ e))

theorem exactOf_finite (s : Sign) (m : Nat) (e : Int) (hm : 0 < m) :
    exactOf (.finite s m e hm)
      = some (if signBits s = 2 ^ 63 then -(m * (2 : Rat) ^ e) else m * (2 : Rat) ^ e) := by
  cases s with
  | negative =>
    show some (-((m : Rat) * (2 : Rat) ^ e)) = _
    simp [signBits]
  | positive =>
    show some ((m : Rat) * (2 : Rat) ^ e) = _
    simp [signBits]

/-- The exact value is that of the unpacked number. -/
theorem toRat?_eq_exactOf (x : Float) : toRat? x = exactOf x.toModel.unpack := by
  have hbits : x.toBits.toNat = x.toModel.toBits.toBitVec.toNat := rfl
  have hmantissa := unpackMantissa_toNat x.toModel.toBits.toBitVec
  have hexponent := unpackExponent_toNat x.toModel.toBits.toBitVec
  delta toRat? decode
  rw [hbits]
  delta Float.Model.unpack UnpackedFloat.unpack
  dsimp only
  generalize x.toModel.toBits.toBitVec = b at *
  have hmantissa' : b.toNat % pow2 52 = (@unpackMantissa Format.binary64 b).toNat := hmantissa.symm
  have hexponent' : b.toNat / pow2 52 % 2048 = (@unpackExponent Format.binary64 b).toNat :=
    hexponent.symm
  have hnegative : decide (pow2 63 ≤ b.toNat)
      = decide (signBits (Sign.ofBitVec (@unpackSign Format.binary64 b)) = 2 ^ 63) :=
    decide_eq_decide.2 (le_toNat_iff_signBits b)
  rw [hmantissa', hexponent', hnegative]
  -- The cases are those of reading the bits: all ones, all zeros, or neither.
  by_cases hlarge : @unpackExponent Format.binary64 b = -1#11
  · have hlarge' : (@unpackExponent Format.binary64 b).toNat = 2047 := by rw [hlarge]; rfl
    rw [if_pos hlarge, if_pos hlarge']
    by_cases hnone : @unpackMantissa Format.binary64 b = 0#52
    · have hnone' : (@unpackMantissa Format.binary64 b).toNat = 0 := by rw [hnone]; rfl
      rw [if_pos hnone, if_pos hnone']
      rfl
    · have hnone' : (@unpackMantissa Format.binary64 b).toNat ≠ 0 :=
        fun h => hnone (BitVec.eq_of_toNat_eq h)
      rw [if_neg hnone, if_neg hnone']
      rfl
  have hlarge' : (@unpackExponent Format.binary64 b).toNat ≠ 2047 :=
    fun h => hlarge (BitVec.eq_of_toNat_eq h)
  rw [if_neg hlarge, if_neg hlarge']
  by_cases hzero : @unpackExponent Format.binary64 b = 0#11
  · have hzero' : (@unpackExponent Format.binary64 b).toNat = 0 := by rw [hzero]; rfl
    rw [if_pos hzero, if_pos hzero']
    by_cases hnone : @unpackMantissa Format.binary64 b = 0#52
    · have hnone' : (@unpackMantissa Format.binary64 b).toNat = 0 := by rw [hnone]; rfl
      rw [dif_pos hnone, hnone']
      show _ = some (0 : Rat)
      simp
    · rw [dif_neg hnone, exactOf_finite, hzero']
      simp [Format.exponentBias]
  · have hzero' : (@unpackExponent Format.binary64 b).toNat ≠ 0 :=
      fun h => hzero (BitVec.eq_of_toNat_eq h)
    have hfirst : (1#1 ++ @unpackMantissa Format.binary64 b).toNat
        = (@unpackMantissa Format.binary64 b).toNat + pow2 52 := by
      rw [BitVec.toNat_append,
        ← Nat.shiftLeft_add_eq_or_of_lt (@unpackMantissa Format.binary64 b).isLt, Nat.add_comm]
      rfl
    rw [if_neg hzero, if_neg hzero', exactOf_finite, hfirst]
    simp [Format.exponentBias]

/-! ### Comparing mantissas and exponents -/

variable {a b m n : Nat} {s t : Sign} {e f : Int}

/-- With a greater exponent any mantissa is worth more. -/
theorem scaled_lt_of_exponent_lt (hx : Standard a s m e) (hy : Standard b t n f) (hlt : e < f) :
    (m : Rat) * (2 : Rat) ^ e < n * (2 : Rat) ^ f := by
  obtain ⟨k, rfl⟩ : ∃ k : Nat, f = e + (k + 1) := ⟨(f - e - 1).toNat, by omega⟩
  have hleast := hx.least
  have hfirst : 2 ^ 52 ≤ n := by
    rcases hy.normal with h | h
    · omega
    · exact h
  have hmantissas : m < n * 2 ^ (k + 1) := by
    have hm := hx.mantissa
    have hpow : 0 < 2 ^ k := Nat.two_pow_pos k
    have hscaled : 2 ^ 52 * 2 ≤ n * (2 ^ k * 2) :=
      Nat.mul_le_mul hfirst (by omega)
    rw [Nat.pow_succ]
    omega
  have hvalue : (n : Rat) * (2 : Rat) ^ (e + (k + 1))
      = ((n * 2 ^ (k + 1) : Nat) : Rat) * (2 : Rat) ^ e := by
    rw [zpow_add₀ two_ne_zero, show ((k : Int) + 1) = ((k + 1 : Nat) : Int) by omega,
      zpow_natCast]
    push_cast
    ring
  rw [hvalue]
  exact mul_lt_mul_of_pos_right (by exact_mod_cast hmantissas) (zpow_pos two_pos e)

/-- Comparing exponents and then mantissas is comparing what they are worth. -/
theorem compare_then_eq (hx : Standard a s m e) (hy : Standard b t n f) :
    (compare e f).then (compare m n) = cmp ((m : Rat) * (2 : Rat) ^ e) (n * (2 : Rat) ^ f) := by
  rcases Int.lt_trichotomy e f with hlt | rfl | hgt
  · rw [Int.compare_eq_lt.2 hlt, (cmp_eq_lt_iff _ _).2 (scaled_lt_of_exponent_lt hx hy hlt)]
    rfl
  · have hscale : (0 : Rat) < (2 : Rat) ^ e := zpow_pos two_pos e
    rw [Int.compare_eq_eq.2 rfl]
    show compare m n = _
    rcases Nat.lt_trichotomy m n with h | rfl | h
    · rw [Nat.compare_eq_lt.2 h, eq_comm, cmp_eq_lt_iff]
      exact mul_lt_mul_of_pos_right (by exact_mod_cast h) hscale
    · rw [Nat.compare_eq_eq.2 rfl, cmp_self_eq_eq]
    · rw [Nat.compare_eq_gt.2 h, eq_comm, cmp_eq_gt_iff]
      exact mul_lt_mul_of_pos_right (by exact_mod_cast h) hscale
  · rw [Int.compare_eq_gt.2 hgt, (cmp_eq_gt_iff _ _).2 (scaled_lt_of_exponent_lt hy hx hgt)]
    rfl

/-! ### Comparing numbers -/

variable {x y : Float} {p q : Rat}

/-- What a number looks like and is worth. -/
inductive Worth (x : Float) : Rat → Prop
  | zero {s : Sign} (hx : x.toModel.unpack = .zero s) : Worth x 0
  | positive {m : Nat} {e : Int} {hm : 0 < m} (hx : x.toModel.unpack = .finite .positive m e hm)
      (hstandard : Standard x.toBits.toNat .positive m e) (hpos : 0 < (m : Rat) * (2 : Rat) ^ e) :
      Worth x (m * (2 : Rat) ^ e)
  | negative {m : Nat} {e : Int} {hm : 0 < m} (hx : x.toModel.unpack = .finite .negative m e hm)
      (hstandard : Standard x.toBits.toNat .negative m e) (hpos : 0 < (m : Rat) * (2 : Rat) ^ e) :
      Worth x (-(m * (2 : Rat) ^ e))

theorem worth_of_toRat? (h : toRat? x = some p) : Worth x p := by
  have hencodes := encodes_unpack x
  rw [toRat?_eq_exactOf] at h
  cases hx : x.toModel.unpack with
  | notANumber =>
    rw [hx] at h
    cases h
  | infinity s =>
    rw [hx] at h
    cases h
  | zero s =>
    rw [hx] at h
    cases h
    exact .zero hx
  | finite s m e hm =>
    rw [hx] at h hencodes
    have hpos : 0 < (m : Rat) * (2 : Rat) ^ e :=
      mul_pos (by exact_mod_cast hm) (zpow_pos two_pos e)
    cases s with
    | positive =>
      cases h
      exact .positive hx hencodes hpos
    | negative =>
      cases h
      exact .negative hx hencodes hpos

/-- Comparing two numbers is comparing what they are worth. -/
theorem Worth.compare_eq_cmp (hx : Worth x p) (hy : Worth y q) :
    x.toModel.unpack.compare y.toModel.unpack = some (cmp p q) := by
  cases hx with
  | zero hx =>
    cases hy with
    | zero hy =>
      rw [hx, hy, cmp_self_eq_eq]
      rfl
    | positive hy _ hpos =>
      rw [hx, hy, (cmp_eq_lt_iff _ _).2 hpos]
      rfl
    | negative hy _ hpos =>
      rw [hx, hy, (cmp_eq_gt_iff _ _).2 (neg_lt_zero.2 hpos)]
      rfl
  | positive hx hxs hxpos =>
    cases hy with
    | zero hy =>
      rw [hx, hy, (cmp_eq_gt_iff _ _).2 hxpos]
      rfl
    | positive hy hys _ =>
      rw [hx, hy, ← compare_then_eq hxs hys]
      rfl
    | negative hy _ hpos =>
      rw [hx, hy, (cmp_eq_gt_iff _ _).2 ((neg_lt_zero.2 hpos).trans hxpos)]
      rfl
  | @negative m e _ hx hxs hxpos =>
    cases hy with
    | zero hy =>
      rw [hx, hy, (cmp_eq_lt_iff _ _).2 (neg_lt_zero.2 hxpos)]
      rfl
    | positive hy _ hpos =>
      rw [hx, hy, (cmp_eq_lt_iff _ _).2 ((neg_lt_zero.2 hxpos).trans hpos)]
      rfl
    | @negative n f _ hy hys _ =>
      -- Among negative numbers the order is the other way round.
      have hswap : cmp (-(m * (2 : Rat) ^ e)) (-(n * (2 : Rat) ^ f))
          = (cmp (m * (2 : Rat) ^ e) (n * (2 : Rat) ^ f)).swap := by
        rw [cmp_swap]
        simp [cmp, cmpUsing]
      rw [hx, hy, hswap, ← compare_then_eq hxs hys]
      rfl

theorem lt_iff_toRat? (hx : toRat? x = some p) (hy : toRat? y = some q) : x < y ↔ p < q := by
  rw [lt_iff, (worth_of_toRat? hx).compare_eq_cmp (worth_of_toRat? hy), Option.some_inj,
    cmp_eq_lt_iff]

theorem le_iff_toRat? (hx : toRat? x = some p) (hy : toRat? y = some q) : x ≤ y ↔ p ≤ q := by
  rw [le_iff, (worth_of_toRat? hx).compare_eq_cmp (worth_of_toRat? hy), Option.any_some, ← not_lt,
    ← cmp_eq_gt_iff]
  cases cmp p q with
  | lt => simp
  | eq => simp
  | gt => simp

end CodeHabits.Binary64

/-!
## The sign does not matter to what is too large

A fraction is too large for a floating-point number if the nearest one is infinite. The
sign is in a bit of its own, so this does not depend on it (`isSome_toRat?_nearest`).
-/

namespace CodeHabits.Binary64

open Float.Model Float.Model.UnpackedFloat

/-- Only the highest exponent stands for no value. -/
theorem toRat?_isSome_iff {x : Float} :
    (toRat? x).isSome ↔ x.toBits.toNat / pow2 52 % 2048 ≠ 2047 := by
  unfold toRat? decode
  dsimp only
  by_cases hlarge : x.toBits.toNat / pow2 52 % 2048 = 2047
  · rw [if_pos hlarge]
    by_cases hnone : x.toBits.toNat % pow2 52 = 0
    · rw [if_pos hnone]
      simp [hlarge]
    · rw [if_neg hnone]
      simp [hlarge]
  · rw [if_neg hlarge]
    by_cases hzero : x.toBits.toNat / pow2 52 % 2048 = 0
    · rw [if_pos hzero]
      simp [hlarge]
    · rw [if_neg hzero]
      simp [hlarge]

/-- The number with another sign. -/
def withSign (s : Sign) : UnpackedFloat → UnpackedFloat
  | .notANumber => .notANumber
  | .infinity _ => .infinity s
  | .zero _ => .zero s
  | .finite _ m e hm => .finite s m e hm

theorem finite_eq_finite {s : Sign} {m n : Nat} {e f : Int} {hm : 0 < m} {hn : 0 < n}
    (hmantissa : m = n) (hexponent : e = f) :
    UnpackedFloat.finite s m e hm = .finite s n f hn := by
  subst hmantissa hexponent
  rfl

/-- Bits that only differ in the sign are unpacked to numbers that do. -/
theorem unpack_eq_withSign {b c : BitVec Format.binary64.numBits}
    (hexponent : @unpackExponent Format.binary64 b = @unpackExponent Format.binary64 c)
    (hmantissa : @unpackMantissa Format.binary64 b = @unpackMantissa Format.binary64 c) :
    UnpackedFloat.unpack Format.binary64 b
      = withSign (Sign.ofBitVec (unpackSign b)) (UnpackedFloat.unpack Format.binary64 c) := by
  delta UnpackedFloat.unpack
  dsimp only
  by_cases hlarge : @unpackExponent Format.binary64 c = -1#11
  · rw [if_pos hlarge, if_pos (hexponent.trans hlarge)]
    by_cases hnone : @unpackMantissa Format.binary64 c = 0#52
    · rw [if_pos hnone, if_pos (hmantissa.trans hnone)]
      rfl
    · rw [if_neg hnone, if_neg fun h => hnone (hmantissa.symm.trans h)]
      rfl
  rw [if_neg hlarge, if_neg fun h => hlarge (hexponent.symm.trans h)]
  by_cases hzero : @unpackExponent Format.binary64 c = 0#11
  · rw [if_pos hzero, if_pos (hexponent.trans hzero)]
    by_cases hnone : @unpackMantissa Format.binary64 c = 0#52
    · rw [dif_pos hnone, dif_pos (hmantissa.trans hnone)]
      rfl
    · rw [dif_neg hnone, dif_neg fun h => hnone (hmantissa.symm.trans h)]
      exact finite_eq_finite (by rw [hmantissa]) (by rw [hexponent])
  · rw [if_neg hzero, if_neg fun h => hzero (hexponent.symm.trans h)]
    exact finite_eq_finite (by rw [hmantissa]) (by rw [hexponent])

/-- The exponent is between the sign and the mantissa. -/
theorem unpackExponent_packComponents (s : Sign) (exponent : BitVec 11) (mantissa : BitVec 52) :
    @unpackExponent Format.binary64 (packComponents Format.binary64 s exponent mantissa)
      = exponent := by
  have hbits : (packComponents Format.binary64 s exponent mantissa).toNat
      = (s.toBitVec.toNat * 2 ^ 11 + exponent.toNat) * 2 ^ 52 + mantissa.toNat := by
    show (s.toBitVec ++ exponent ++ mantissa).toNat = _
    rw [BitVec.toNat_append, ← Nat.shiftLeft_add_eq_or_of_lt mantissa.isLt, BitVec.toNat_append,
      ← Nat.shiftLeft_add_eq_or_of_lt exponent.isLt, Nat.shiftLeft_eq, Nat.shiftLeft_eq]
  have hexponent := exponent.isLt
  have hmantissa := mantissa.isLt
  apply BitVec.eq_of_toNat_eq
  rw [unpackExponent_toNat, hbits]
  omega

/-- The sign does not matter to the exponent with which a number is packed. -/
theorem unpackExponent_pack_withSign (s : Sign) (f : UnpackedFloat) :
    @unpackExponent Format.binary64 (pack Format.binary64 (withSign s f))
      = @unpackExponent Format.binary64 (pack Format.binary64 f) := by
  have hsame : ∀ (s t : Sign) (exponent : BitVec 11) (mantissa : BitVec 52),
      @unpackExponent Format.binary64 (packComponents Format.binary64 s exponent mantissa)
        = @unpackExponent Format.binary64 (packComponents Format.binary64 t exponent mantissa) :=
    fun s t exponent mantissa =>
      (unpackExponent_packComponents s _ _).trans (unpackExponent_packComponents t _ _).symm
  cases f with
  | notANumber => rfl
  | infinity t => exact hsame s t _ _
  | zero t => exact hsame s t _ _
  | finite t m e hm =>
    delta UnpackedFloat.pack
    dsimp only [withSign]
    split
    · exact hsame s t _ _
    · split
      · exact hsame s t _ _
      · exact hsame s t _ _

/-- Whether the number nearest to a fraction has a value does not depend on the sign. -/
theorem isSome_toRat?_nearest (negative : Bool) (num den : Nat) :
    (toRat? (nearest negative num den)).isSome = (toRat? (nearest false num den)).isSome := by
  have hle : magnitudeBits num den ≤ 2047 * 2 ^ 52 := by
    unfold magnitudeBits
    split
    · exact Nat.zero_le _
    · exact Nat.min_le_right _ _
  let packed (negative : Bool) : BitVec Format.binary64.numBits :=
    (UInt64.ofNat ((if negative then pow2 63 else 0) + magnitudeBits num den)).toBitVec
  have hpacked : ∀ negative,
      (packed negative).toNat = (if negative then 2 ^ 63 else 0) + magnitudeBits num den := by
    intro negative
    show ((if negative then 2 ^ 63 else 0) + magnitudeBits num den) % 2 ^ 64 = _
    cases negative <;> simp <;> omega
  have hexponent : ∀ negative, (nearest negative num den).toBits.toNat / pow2 52 % 2048
      = (@unpackExponent Format.binary64
          (pack Format.binary64 (UnpackedFloat.unpack Format.binary64 (packed negative)))).toNat := by
    intro negative
    rw [unpackExponent_toNat]
    rfl
  have hsame : @unpackExponent Format.binary64
        (pack Format.binary64 (UnpackedFloat.unpack Format.binary64 (packed negative)))
      = @unpackExponent Format.binary64
        (pack Format.binary64 (UnpackedFloat.unpack Format.binary64 (packed false))) := by
    rw [unpack_eq_withSign (c := packed false), unpackExponent_pack_withSign]
    · apply BitVec.eq_of_toNat_eq
      rw [unpackExponent_toNat, unpackExponent_toNat, hpacked, hpacked]
      cases negative with
      | true =>
        simp
        omega
      | false => rfl
    · apply BitVec.eq_of_toNat_eq
      rw [unpackMantissa_toNat, unpackMantissa_toNat, hpacked, hpacked]
      cases negative with
      | true =>
        simp
        omega
      | false => rfl
  rw [Bool.eq_iff_iff, toRat?_isSome_iff, toRat?_isSome_iff, hexponent, hexponent, hsame]

end CodeHabits.Binary64
