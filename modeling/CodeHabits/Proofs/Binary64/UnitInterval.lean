import CodeHabits.Proofs.Magnitude
import Mathlib.Algebra.Field.Rat
import Mathlib.Algebra.Order.Field.Basic
import Mathlib.Algebra.Order.Ring.Rat
import Mathlib.Tactic.Positivity

/-!
# `CodeHabits.Proofs.Binary64.UnitInterval`: floating-point numbers from zero to one

The bits of the numbers from zero to one are those of natural numbers from zero
up to the bits of one. `InUnit` says this of a number. It is what forcing a
number into the unit interval gives (`inUnit_clampReal`), such a number is left
alone by it (`clampReal_of_inUnit`), and its exact value lies in the interval
(`toRat?_of_inUnit`).

`inUnit_mul` is about products. The product of two mantissas is shifted to the
standard exponent and rounded, which may carry into one more digit, and is then
shifted once more. Both shifts are followed on exponents only: that of a product
below one stays below that of one, unless the carry makes it one exactly.

Lean gives arithmetic on bits by way of unpacked numbers, which have a sign, a
mantissa and an exponent. `encodes_unpack` connects the two.
-/

set_option autoImplicit false

namespace CodeHabits.Binary64

open Float.Model Float.Model.UnpackedFloat

/-! ### Bits and unpacked numbers -/

theorem lt_iff {x y : Float} :
    x < y ↔ x.toModel.unpack.compare y.toModel.unpack = some .lt := by
  show (decide (x.toModel < y.toModel)) = true ↔ _
  rw [decide_eq_true_iff]
  show (x.toModel.unpack.compare y.toModel.unpack == some .lt) = true ↔ _
  simp

theorem le_iff {x y : Float} :
    x ≤ y ↔ (x.toModel.unpack.compare y.toModel.unpack).any (·.isLE) = true := by
  show (decide (x.toModel ≤ y.toModel)) = true ↔ _
  rw [decide_eq_true_iff]
  rfl

theorem unpackMantissa_toNat (b : BitVec Format.binary64.numBits) :
    (unpackMantissa b).toNat = b.toNat % 2 ^ 52 := by
  simp [unpackMantissa, BitVec.extractLsb]

theorem unpackExponent_toNat (b : BitVec Format.binary64.numBits) :
    (unpackExponent b).toNat = b.toNat / 2 ^ 52 % 2 ^ 11 := by
  simp [unpackExponent, BitVec.extractLsb, Nat.shiftRight_eq_div_pow]

theorem unpackSign_toNat (b : BitVec Format.binary64.numBits) :
    (unpackSign b).toNat = b.toNat / 2 ^ 63 := by
  have hlt : b.toNat < 2 ^ 64 := b.isLt
  delta unpackSign
  simp [BitVec.extractLsb, Nat.shiftRight_eq_div_pow]
  omega

/-- The highest bit, which is the sign. -/
def signBits : Sign → Nat
  | .negative => 2 ^ 63
  | .positive => 0

theorem signBits_ofBitVec (b : BitVec Format.binary64.numBits) :
    signBits (Sign.ofBitVec (unpackSign b)) = b.toNat / 2 ^ 63 * 2 ^ 63 := by
  have hlt : b.toNat < 2 ^ 64 := b.isLt
  have hsign := unpackSign_toNat b
  unfold Sign.ofBitVec
  split
  · rename_i h
    rw [h] at hsign
    have hzero : b.toNat / 2 ^ 63 = 0 := hsign.symm
    rw [hzero]
    rfl
  · rename_i h
    have hne : (unpackSign b).toNat ≠ 0 := fun h0 => h (BitVec.eq_of_toNat_eq h0)
    have hone : b.toNat / 2 ^ 63 = 1 := by omega
    rw [hone]
    rfl

/-- The highest bit is set in what is negative. -/
theorem le_toNat_iff_signBits (b : BitVec Format.binary64.numBits) :
    2 ^ 63 ≤ b.toNat ↔ signBits (Sign.ofBitVec (unpackSign b)) = 2 ^ 63 := by
  have hlt : b.toNat < 2 ^ 64 := b.isLt
  rw [signBits_ofBitVec]
  omega

/-- The bits of a finite number in its standard form. -/
structure Standard (bits : Nat) (s : Sign) (m : Nat) (e : Int) : Prop where
  least : -1074 ≤ e
  /-- Only with the least exponent may the first digit be missing. -/
  normal : e = -1074 ∨ 2 ^ 52 ≤ m
  mantissa : m < 2 ^ 53
  bits_eq : (bits : Int) = signBits s + (e + 1074) * 2 ^ 52 + m

/-- What bits stand for. -/
def Encodes (bits : Nat) : UnpackedFloat → Prop
  | .notANumber | .infinity _ => 2047 * 2 ^ 52 ≤ bits % 2 ^ 63
  | .zero s => bits = signBits s
  | .finite s m e _ => Standard bits s m e

theorem encodes_unpack (x : Float) : Encodes x.toBits.toNat x.toModel.unpack := by
  have hbits : x.toBits.toNat = x.toModel.toBits.toBitVec.toNat := rfl
  have hlt : x.toModel.toBits.toBitVec.toNat < 2 ^ 64 := x.toModel.toBits.toBitVec.isLt
  have hmantissa := unpackMantissa_toNat x.toModel.toBits.toBitVec
  have hexponent := unpackExponent_toNat x.toModel.toBits.toBitVec
  have hsign := signBits_ofBitVec x.toModel.toBits.toBitVec
  rw [hbits]
  delta Float.Model.unpack UnpackedFloat.unpack
  dsimp only
  generalize x.toModel.toBits.toBitVec = b at *
  have hbias : ((Format.binary64.exponentBias : Nat) : Int) = 1023 := rfl
  have hwidth : ((Format.binary64.mantissaBitsWithoutImplicit : Nat) : Int) = 52 := rfl
  by_cases hlarge : @unpackExponent Format.binary64 b = -1#11
  · have hlarge' : 2047 = b.toNat / 2 ^ 52 % 2 ^ 11 := by rw [← hexponent, hlarge]; rfl
    rw [if_pos hlarge]
    by_cases hnone : @unpackMantissa Format.binary64 b = 0#52
    · rw [if_pos hnone]
      show 2047 * 2 ^ 52 ≤ b.toNat % 2 ^ 63
      omega
    · rw [if_neg hnone]
      show 2047 * 2 ^ 52 ≤ b.toNat % 2 ^ 63
      omega
  rw [if_neg hlarge]
  by_cases hzero : @unpackExponent Format.binary64 b = 0#11
  · have hexponent' : (@unpackExponent Format.binary64 b).toNat = 0 := by rw [hzero]; rfl
    rw [if_pos hzero]
    by_cases hnone : @unpackMantissa Format.binary64 b = 0#52
    · have hmantissa' : (@unpackMantissa Format.binary64 b).toNat = 0 := by rw [hnone]; rfl
      rw [dif_pos hnone]
      show b.toNat = signBits _
      omega
    · have hmin : ((@unpackExponent Format.binary64 b).toNat : Int) - (Format.binary64.exponentBias
          + Format.binary64.mantissaBitsWithoutImplicit) + 1 = -1074 := by
        rw [hbias, hwidth]
        omega
      rw [dif_neg hnone]
      exact ⟨by omega, .inl hmin, by omega, by omega⟩
  · have hzero' : (@unpackExponent Format.binary64 b).toNat ≠ 0 :=
      fun h => hzero (BitVec.eq_of_toNat_eq h)
    have hmantissa' :
        (1#1 ++ @unpackMantissa Format.binary64 b).toNat = 2 ^ 52 + b.toNat % 2 ^ 52 := by
      rw [BitVec.toNat_append,
        ← Nat.shiftLeft_add_eq_or_of_lt (@unpackMantissa Format.binary64 b).isLt, hmantissa]
      rfl
    rw [if_neg hzero]
    refine ⟨?_, .inr ?_, ?_, ?_⟩
    · rw [hbias, hwidth]
      omega
    · omega
    · omega
    · rw [hbias, hwidth, hmantissa']
      omega

theorem unpack_zero : (0.0 : Float).toModel.unpack = .zero .positive := by rfl

theorem unpack_one :
    (1.0 : Float).toModel.unpack = .finite .positive (2 ^ 52) (-52) (by decide) := by rfl

/-- Two numbers with the same bits are the same. -/
theorem eq_of_bits {x y : Float} (h : x.toBits.toNat = y.toBits.toNat) : x = y := by
  obtain ⟨⟨a, ha⟩⟩ := x
  obtain ⟨⟨b, hb⟩⟩ := y
  obtain rfl : a = b := UInt64.toNat_inj.1 h
  rfl

/-- A number from zero to one: its bits are no more than those of one, and so
its sign is plus. -/
def InUnit (x : Float) : Prop :=
  x.toBits.toNat ≤ 1023 * 2 ^ 52

/-- What numbers from zero to one look like. -/
theorem InUnit.cases {x : Float} (h : InUnit x) :
    x = 0.0 ∨ ∃ m e hm, x.toModel.unpack = .finite .positive m e hm ∧
      Standard x.toBits.toNat .positive m e := by
  have hunit : x.toBits.toNat ≤ 1023 * 2 ^ 52 := h
  have hencodes := encodes_unpack x
  cases hx : x.toModel.unpack with
  | notANumber =>
    rw [hx] at hencodes
    have : 2047 * 2 ^ 52 ≤ x.toBits.toNat % 2 ^ 63 := hencodes
    omega
  | infinity s =>
    rw [hx] at hencodes
    have : 2047 * 2 ^ 52 ≤ x.toBits.toNat % 2 ^ 63 := hencodes
    omega
  | zero s =>
    rw [hx] at hencodes
    have hbits : x.toBits.toNat = signBits s := hencodes
    cases s with
    | negative =>
      have : signBits .negative = 2 ^ 63 := rfl
      omega
    | positive => exact .inl (eq_of_bits hbits)
  | finite s m e hm =>
    rw [hx] at hencodes
    have hstandard : Standard x.toBits.toNat s m e := hencodes
    cases s with
    | negative =>
      have hsign : signBits .negative = 2 ^ 63 := rfl
      have hbits := hstandard.bits_eq
      have hleast := hstandard.least
      omega
    | positive => exact .inr ⟨m, e, hm, rfl, hstandard⟩

/-- A number above zero that is not above one. -/
theorem inUnit_of_le_one {x : Float} (hpos : 0.0 < x) (h : x ≤ 1.0) : InUnit x := by
  rw [lt_iff, unpack_zero] at hpos
  rw [le_iff, unpack_one] at h
  have hencodes := encodes_unpack x
  cases hx : x.toModel.unpack with
  | notANumber =>
    rw [hx] at hpos
    cases hpos
  | zero s =>
    rw [hx] at hpos
    cases hpos
  | infinity s =>
    rw [hx] at hpos h
    cases s with
    | negative => cases hpos
    | positive => cases h
  | finite s m e hm =>
    rw [hx] at hpos h hencodes
    cases s with
    | negative => cases hpos
    | positive =>
      have hstandard : Standard x.toBits.toNat .positive m e := hencodes
      have hle : ((compare e (-52)).then (compare m (2 ^ 52))).isLE = true := h
      have hmantissa := hstandard.mantissa
      have hbits : (x.toBits.toNat : Int) = (e + 1074) * 2 ^ 52 + m := by
        simpa [signBits] using hstandard.bits_eq
      show x.toBits.toNat ≤ 1023 * 2 ^ 52
      rcases Int.lt_trichotomy e (-52) with he | rfl | he
      · omega
      · have hm : m ≤ 2 ^ 52 := Nat.isLE_compare.1 hle
        omega
      · rw [Int.compare_eq_gt.2 he] at hle
        cases hle

theorem le_of_lt {x y : Float} (h : x < y) : x ≤ y := by
  rw [lt_iff] at h
  rw [le_iff, h]
  rfl

/-- What is above a number from zero to one is above zero. -/
theorem pos_of_inUnit_lt {x y : Float} (hx : InUnit x) (h : x < y) : 0.0 < y := by
  rcases hx.cases with rfl | ⟨m, e, hm, hx, _⟩
  · exact h
  · rw [lt_iff, hx] at h
    rw [lt_iff, unpack_zero]
    cases hy : y.toModel.unpack with
    | notANumber =>
      rw [hy] at h
      cases h
    | zero s =>
      rw [hy] at h
      cases h
    | infinity s =>
      rw [hy] at h
      cases s with
      | negative => cases h
      | positive => rfl
    | finite s m e hm =>
      rw [hy] at h
      cases s with
      | negative => cases h
      | positive => rfl

theorem inUnit_clampReal (x : Float) : InUnit (clampReal x) := by
  have hzero : InUnit 0.0 := Nat.zero_le _
  have hone : InUnit 1.0 := Nat.le_refl _
  by_cases hpos : 0.0 < x
  · by_cases hlt : x < 1.0
    · rw [show clampReal x = x by simp [clampReal, hpos, hlt]]
      exact inUnit_of_le_one hpos (le_of_lt hlt)
    · rw [show clampReal x = 1.0 by simp [clampReal, hpos, hlt]]
      exact hone
  · have hends : (0.0 : Float) < 1.0 := by decide
    rw [show clampReal x = 0.0 by simp [clampReal, hpos, hends]]
    exact hzero

/-- The exponent of a number that is not above one. -/
theorem Standard.exponent_le {bits m : Nat} {e : Int} (h : Standard bits .positive m e)
    (hunit : bits ≤ 1023 * 2 ^ 52) : e ≤ -53 ∨ e = -52 ∧ m = 2 ^ 52 := by
  have hbits : (bits : Int) = (e + 1074) * 2 ^ 52 + m := by
    simpa [signBits] using h.bits_eq
  have hnormal := h.normal
  omega

theorem clampReal_of_inUnit {x : Float} (h : InUnit x) : clampReal x = x := by
  rcases h.cases with rfl | ⟨m, e, hm, hx, hstandard⟩
  · rfl
  · have hpos : 0.0 < x := by
      rw [lt_iff, hx]
      rfl
    rcases hstandard.exponent_le h with he | ⟨rfl, rfl⟩
    · have hlt : x < 1.0 := by
        rw [lt_iff, hx, unpack_one]
        show some ((compare e (-52)).then _) = some .lt
        rw [Int.compare_eq_lt.2 (by omega)]
        rfl
      simp [clampReal, hpos, hlt]
    · obtain rfl : x = 1.0 := eq_of_bits (Int.ofNat.inj hstandard.bits_eq)
      rfl

/-! ### Exact values -/

/-- A fraction of a power of two. -/
theorem scaled_bounds {m k : Nat} (h : m ≤ 2 ^ k) :
    (0 : Rat) ≤ m * (2 : Rat) ^ (-(k : Int)) ∧ (m : Rat) * (2 : Rat) ^ (-(k : Int)) ≤ 1 := by
  have hm : (m : Rat) ≤ 2 ^ k := by exact_mod_cast h
  rw [zpow_neg, zpow_natCast, ← div_eq_mul_inv]
  exact ⟨by positivity, (div_le_one (by positivity)).2 hm⟩

/-- Reading the bits of a number from zero to one. -/
theorem decode_of_inUnit {x : Float} (h : InUnit x) :
    ∃ m k : Nat, decode x = .finite false m (-(k : Int)) ∧ m ≤ 2 ^ k := by
  have hunit : x.toBits.toNat ≤ 1023 * 2 ^ 52 := h
  have hsign : ¬pow2 63 ≤ x.toBits.toNat := by
    show ¬2 ^ 63 ≤ x.toBits.toNat
    omega
  have hpow : pow2 52 = 2 ^ 52 := rfl
  simp only [decode, hsign, decide_false, hpow]
  generalize x.toBits.toNat = bits at *
  rw [if_neg (by omega)]
  have hfraction : ∀ k, 53 ≤ k → bits % 2 ^ 52 + 2 ^ 52 ≤ 2 ^ k := by
    intro k hk
    have := Nat.pow_le_pow_right (show 0 < 2 by omega) hk
    omega
  by_cases hzero : bits / 2 ^ 52 % 2048 = 0
  · rw [if_pos hzero]
    exact ⟨_, 1074, rfl, Nat.le_trans (Nat.le_add_right _ _) (hfraction 1074 (by decide))⟩
  · rw [if_neg hzero]
    refine ⟨bits % 2 ^ 52 + 2 ^ 52, 1075 - bits / 2 ^ 52 % 2048, ?_, ?_⟩
    · rw [show ((bits / 2 ^ 52 % 2048 : Nat) : Int) - 1075
        = -((1075 - bits / 2 ^ 52 % 2048 : Nat) : Int) by omega]
    · by_cases hone : bits = 1023 * 2 ^ 52
      · rw [hone]
        decide
      · exact hfraction _ (by omega)

/-- The exact value of a number from zero to one. -/
theorem toRat?_of_inUnit {x : Float} (h : InUnit x) :
    ∃ q, toRat? x = some q ∧ 0 ≤ q ∧ q ≤ 1 := by
  obtain ⟨m, k, hdecode, hm⟩ := decode_of_inUnit h
  refine ⟨m * (2 : Rat) ^ (-(k : Int)), ?_, scaled_bounds hm⟩
  simp [toRat?, hdecode]

/-! ### Products -/

/-- A shift to the right divides the mantissa. -/
theorem mantissa_shiftRight (em : ExtendedMantissa) (n : Nat) :
    (em >>> n).mantissa = em.mantissa / 2 ^ n := by
  induction n with
  | zero => exact (Nat.div_one _).symm
  | succ n ih =>
    show (em >>> n).mantissa / 2 = _
    rw [ih, Nat.div_div_eq_div_mul, Nat.pow_succ]

theorem roundedMantissa_le (em : ExtendedMantissa) :
    em.roundedMantissa ≤ em.mantissa + 1 := by
  obtain ⟨m, round, sticky⟩ := em
  cases round <;> cases sticky <;>
    simp [ExtendedMantissa.roundedMantissa, ExtendedMantissa.accuracy,
      Accuracy.roundToNearestEven]
  omega

theorem toNat_packComponents (exponent : BitVec 11) (mantissa : BitVec 52) :
    (packComponents Format.binary64 .positive exponent mantissa).toNat
      = exponent.toNat * 2 ^ 52 + mantissa.toNat := by
  show (0#1 ++ exponent ++ mantissa).toNat = _
  rw [BitVec.toNat_append, ← Nat.shiftLeft_add_eq_or_of_lt mantissa.isLt, BitVec.toNat_append,
    ← Nat.shiftLeft_add_eq_or_of_lt exponent.isLt, Nat.shiftLeft_eq, Nat.shiftLeft_eq]
  simp

/-- The bits of a number that is not large, one without its first digit. -/
theorem toNat_pack_le {m : Nat} {e : Int} (hm : 0 < m) (he : e ≤ -52) :
    (pack Format.binary64 (.finite .positive m e hm)).toNat
      ≤ (e + 1075).toNat * 2 ^ 52 + m % 2 ^ 52 := by
  have hbiased : (e + Format.binary64.exponentBias
      + Format.binary64.mantissaBitsWithoutImplicit).toNat = (e + 1075).toNat := by
    show (e + 1023 + 52).toNat = _
    omega
  have hsmall : ¬2 ^ Format.binary64.exponentBits ≤ (e + 1075).toNat + 1 := by
    show ¬2048 ≤ (e + 1075).toNat + 1
    omega
  delta UnpackedFloat.pack
  dsimp only
  rw [hbiased, if_neg hsmall]
  split
  · rw [toNat_packComponents, BitVec.toNat_ofNat, BitVec.toNat_ofNat]
    exact Nat.add_le_add_right (Nat.mul_le_mul_right _ (Nat.mod_le _ _)) _
  · rw [toNat_packComponents, BitVec.toNat_ofNat]
    exact Nat.add_le_add_right (Nat.mul_le_mul_right _ (Nat.zero_le _)) _

/-- Shifting to the standard exponent leaves no more digits than a number has. -/
theorem shiftToTargetExponent_bounds {m : Nat} {e : Int}
    (htotal : totalExponent m e ≤ 0) (he : e ≤ -53) :
    let shifted := shiftToTargetExponent Format.binary64 m e .exact
    shifted.1.mantissa < 2 ^ 53 ∧ -1074 ≤ shifted.2 ∧ shifted.2 ≤ -53 := by
  have htarget : Format.binary64.targetExponent (totalExponent m e)
      = max (totalExponent m e - 53) (-1074) := rfl
  have hlog : totalExponent m e = m.log2 + 1 + e := rfl
  simp only [shiftToTargetExponent, shiftToExponent, mantissa_shiftRight, htarget]
  refine ⟨?_, by omega, by omega⟩
  rw [Nat.div_lt_iff_lt_mul (Nat.two_pow_pos _), ← Nat.pow_add]
  refine Nat.lt_of_lt_of_le (Nat.lt_log2_self (n := m)) (Nat.pow_le_pow_right (by omega) ?_)
  omega

/-- A mantissa that was rounded up to the next power of two is shifted once
more, and no other is. -/
theorem shiftToTargetExponent_rounded {m : Nat} {e : Int} (hm : m ≤ 2 ^ 53) (he : -1074 ≤ e) :
    let shifted := shiftToTargetExponent Format.binary64 m e .exact
    shifted.2 = e ∨ shifted.2 = e + 1 ∧ shifted.1.mantissa = 2 ^ 52 := by
  have htarget : Format.binary64.targetExponent (totalExponent m e)
      = max (m.log2 + 1 + e - 53) (-1074) := rfl
  simp only [shiftToTargetExponent, shiftToExponent, mantissa_shiftRight, htarget]
  by_cases hcarry : m = 2 ^ 53
  · right
    have hlog : m.log2 = 53 := by rw [hcarry]; decide
    rw [hlog]
    refine ⟨by omega, ?_⟩
    rw [show (max ((53 : Nat) + 1 + e - 53) (-1074) - e).toNat = 1 by omega]
    show m / 2 ^ 1 = 2 ^ 52
    omega
  · left
    have hlog : m.log2 ≤ 52 := by
      by_cases hzero : m = 0
      · rw [hzero]
        decide
      · exact Nat.le_of_lt_succ ((Nat.log2_lt hzero).2 (by omega))
    omega

/-- What is rounded below one is not above one. -/
theorem inUnit_round {m : Nat} {e : Int} (htotal : totalExponent m e ≤ 0) (he : e ≤ -53) :
    InUnit ⟨.pack (roundWithAccuracy Format.binary64 .positive m e .exact)⟩ := by
  obtain ⟨hm, hleast, hmost⟩ := shiftToTargetExponent_bounds htotal he
  rw [roundWithAccuracy]
  generalize shiftToTargetExponent Format.binary64 m e .exact = first at *
  have hrounded : first.1.roundedMantissa ≤ 2 ^ 53 := by
    have := roundedMantissa_le first.1
    omega
  have hsecond := shiftToTargetExponent_rounded hrounded hleast
  dsimp only
  generalize shiftToTargetExponent Format.binary64 first.1.roundedMantissa first.2 .exact
    = second at *
  by_cases hzero : second.1.mantissa = 0
  · rw [dif_pos hzero]
    exact Nat.zero_le _
  · rw [dif_neg hzero]
    show (UnpackedFloat.pack Format.binary64 _).toNat ≤ 1023 * 2 ^ 52
    refine Nat.le_trans (toNat_pack_le _ (by omega)) ?_
    rcases hsecond with h | ⟨h, hcarry⟩
    · omega
    · rw [hcarry]
      omega

/-- The product of two numbers from zero to one, of which the second is less
than one. -/
theorem inUnit_mul {x y : Float} (hx : InUnit x) (hy : InUnit y) (hlt : y < 1.0) :
    InUnit (x * y) := by
  show InUnit ⟨.pack (UnpackedFloat.mul Format.binary64 x.toModel.unpack y.toModel.unpack)⟩
  rcases hx.cases with rfl | ⟨m, e, hm, hx', hstandard⟩
  · rcases hy.cases with rfl | ⟨n, f, hn, hy', _⟩
    · exact Nat.zero_le _
    · rw [hy']
      exact Nat.zero_le _
  · rcases hy.cases with rfl | ⟨n, f, hn, hy', hstandard'⟩
    · rw [hx']
      exact Nat.zero_le _
    · rw [hx', hy']
      have hm' : m * n ≠ 0 := by
        have := Nat.mul_pos hm hn
        omega
      have hxe := hstandard.exponent_le hx
      have hyf : f ≤ -53 := by
        rcases hstandard'.exponent_le hy with hf | ⟨rfl, rfl⟩
        · exact hf
        · rw [lt_iff, hy', unpack_one] at hlt
          cases hlt
      have hn' := hstandard'.mantissa
      have hlog : (m * n).log2 + 1 + (e + f) ≤ 0 := by
        rcases hxe with he | ⟨he, hone⟩
        · have hlt : m * n < 2 ^ 106 := by
            calc
              m * n < 2 ^ 53 * 2 ^ 53 := Nat.mul_lt_mul'' hstandard.mantissa hn'
              _ = 2 ^ 106 := by decide
          have := (Nat.log2_lt hm').2 hlt
          omega
        · have hlt : m * n < 2 ^ 105 := by
            rw [hone]
            omega
          have := (Nat.log2_lt hm').2 hlt
          omega
      exact inUnit_round hlog (by omega)

end CodeHabits.Binary64
