import FlowExpr.Proofs.Binary64.Order
import Mathlib

namespace FlowExpr.Binary64

open Float.Model (UnpackedFloat Format)
open Float.Model.UnpackedFloat

variable {em em' : ExtendedMantissa} {m n k b : ℕ} {e : ℤ} {s : Sign}

-- A significand with the digits behind it, as a number of quarters. Below its last quarter nothing is
-- known but whether anything is there, and that counts as one.
def quarters (em : ExtendedMantissa) : ℕ :=
  4 * em.mantissa + 2 * em.roundBit.toNat + em.stickyBit.toNat

theorem quarters_shiftRightOne (em : ExtendedMantissa) :
    quarters em.shiftRightOne = 2 * (quarters em / 4) + min 1 (quarters em % 4) := by
  obtain ⟨m, r, t⟩ := em
  have hodd : (m % 2 != 0).toNat = m % 2 := by
    rcases Nat.mod_two_eq_zero_or_one m with h | h <;> rw [h] <;> rfl
  cases r <;> cases t <;>
    simp only [quarters, ExtendedMantissa.shiftRightOne, hodd, Bool.toNat_true, Bool.toNat_false,
      Bool.or_true, Bool.or_false] <;> omega

theorem shiftRightOne_mono (h : quarters em ≤ quarters em') :
    quarters em.shiftRightOne ≤ quarters em'.shiftRightOne := by
  rw [quarters_shiftRightOne, quarters_shiftRightOne]
  omega

-- Half a digit goes to the even neighbour.
theorem roundedMantissa_mono (h : quarters em ≤ quarters em') :
    em.roundedMantissa ≤ em'.roundedMantissa := by
  obtain ⟨m, r, t⟩ := em
  obtain ⟨m', r', t'⟩ := em'
  cases r <;> cases t <;> cases r' <;> cases t' <;>
    simp [quarters, ExtendedMantissa.roundedMantissa, ExtendedMantissa.accuracy,
      Accuracy.roundToNearestEven] at h ⊢ <;> omega

-- An integer over `2 ^ k`, with what is known of the digits behind it.
def shifted (m k : ℕ) : ExtendedMantissa :=
  Nat.repeat ExtendedMantissa.shiftRightOne k ⟨m, false, false⟩

-- The integer nearest to `m / 2 ^ k`.
def nearest (m k : ℕ) : ℕ :=
  (shifted m k).roundedMantissa

theorem shifted_mul_two_pow (m k : ℕ) : shifted (m * 2 ^ k) k = ⟨m, false, false⟩ := by
  induction k generalizing m with
  | zero => rw [pow_zero, mul_one]; rfl
  | succ k ih =>
      have hstep : shifted (m * 2 ^ (k + 1)) (k + 1) =
          (shifted (m * 2 ^ (k + 1)) k).shiftRightOne := rfl
      rw [hstep, pow_succ', ← mul_assoc, ih (m * 2)]
      simp [ExtendedMantissa.shiftRightOne]

theorem nearest_mul_two_pow (m k : ℕ) : nearest (m * 2 ^ k) k = m := by
  rw [nearest, shifted_mul_two_pow]
  rfl

theorem nearest_scale (m j k : ℕ) : nearest (m * 2 ^ j) (k + j) = nearest m k := by
  have hshift : shifted (m * 2 ^ j) (k + j) = shifted m k := by
    induction k with
    | zero => rw [Nat.zero_add, shifted_mul_two_pow]; rfl
    | succ k ih =>
        have hstep : shifted (m * 2 ^ j) (k + 1 + j) =
            (shifted (m * 2 ^ j) (k + j)).shiftRightOne := by
          rw [Nat.add_right_comm]
          rfl
        rw [hstep, ih]
        rfl
  rw [nearest, hshift, nearest]

theorem nearest_mono (h : m ≤ n) (k : ℕ) : nearest m k ≤ nearest n k := by
  apply roundedMantissa_mono
  induction k with
  | zero => simpa [shifted, Nat.repeat, quarters] using h
  | succ k ih => exact shiftRightOne_mono ih

theorem nearest_bounds (hm : 2 ^ 52 ≤ m) :
    2 ^ 52 ≤ nearest m (m.log2 - 52) ∧ nearest m (m.log2 - 52) ≤ 2 ^ 53 := by
  have hne : m ≠ 0 := by omega
  have hlog : 52 ≤ m.log2 := (Nat.le_log2 hne).mpr hm
  have hlower : 2 ^ 52 * 2 ^ (m.log2 - 52) ≤ m := by
    rw [← pow_add, Nat.add_sub_cancel' hlog]
    exact Nat.log2_self_le hne
  have hupper : m ≤ 2 ^ 53 * 2 ^ (m.log2 - 52) := by
    rw [← pow_add, show 53 + (m.log2 - 52) = m.log2 + 1 by omega]
    exact Nat.lt_log2_self.le
  have hleast := nearest_mono hlower (m.log2 - 52)
  have hgreatest := nearest_mono hupper (m.log2 - 52)
  rw [nearest_mul_two_pow] at hleast hgreatest
  exact ⟨hleast, hgreatest⟩

theorem log2_mul_two_pow (hn : n ≠ 0) (k : ℕ) : (n * 2 ^ k).log2 = n.log2 + k := by
  rw [Nat.log2_eq_iff (Nat.mul_ne_zero hn (Nat.two_pow_pos k).ne')]
  have hlower := Nat.log2_self_le hn
  have hupper : n < 2 ^ (n.log2 + 1) := Nat.lt_log2_self
  constructor
  · rw [pow_add]
    exact Nat.mul_le_mul_right _ hlower
  · rw [Nat.add_right_comm, pow_add]
    exact (Nat.mul_lt_mul_right (Nat.two_pow_pos k)).mpr hupper

theorem log2_eq_of_digits (hlower : 2 ^ 52 ≤ m) (hupper : m < 2 ^ 53) : m.log2 = 52 := by
  rw [Nat.log2_eq_iff (by omega)]
  exact ⟨hlower, hupper⟩

-- A float with all its digits, away from the smallest ones and from the infinite ones.
structure IsNormal (u : UnpackedFloat) (s : Sign) (m : ℕ) (e : ℤ) : Prop where
  digits_le : 2 ^ 52 ≤ m
  digits_lt : m < 2 ^ 53
  exponent_ge : -1074 ≤ e
  exponent_le : e ≤ 971
  eq_finite : ∃ h, u = .finite s m e h

-- The significand may have grown to one digit more by rounding.
def carry (m : ℕ) (e : ℤ) : ℕ × ℤ :=
  if m = 2 ^ 53 then (2 ^ 52, e + 1) else (m, e)

theorem shiftToTargetExponent_eq (he : -1000 ≤ e) :
    shiftToTargetExponent .binary64 m e .exact =
      (shifted m (m.log2 - 52), e + (m.log2 - 52 : ℕ)) := by
  have htarget : Format.binary64.targetExponent (Float.Model.totalExponent m e) =
      max ((m.log2 : ℤ) + 1 + e - 53) (-1074) := rfl
  have hshift : (max ((m.log2 : ℤ) + 1 + e - 53) (-1074) - e).toNat = m.log2 - 52 := by omega
  simp only [shiftToTargetExponent, htarget, shiftToExponent, hshift]
  rfl

-- Rounding is two shifts. The second has something to do only where the first has rounded up to one
-- more digit.
theorem roundWithAccuracy_eq {e' : ℤ} (he : -1000 ≤ e)
    (h : shiftToTargetExponent .binary64 (nearest m (m.log2 - 52)) (e + (m.log2 - 52 : ℕ)) .exact =
      (em, e')) (hpos : 0 < em.mantissa) :
    roundWithAccuracy .binary64 s m e .exact = .finite s em.mantissa e' hpos := by
  have hnearest : (shifted m (m.log2 - 52)).roundedMantissa = nearest m (m.log2 - 52) := rfl
  simp only [roundWithAccuracy, shiftToTargetExponent_eq he, hnearest, h]
  exact dif_neg hpos.ne'

-- A significand that is long enough is rounded to 53 binary digits.
theorem isNormal_round (hm : 2 ^ 52 ≤ m) (he : -1000 ≤ e) (hmax : e + m.log2 ≤ 1000) :
    IsNormal (roundWithAccuracy .binary64 s m e .exact) s
      (carry (nearest m (m.log2 - 52)) (e + (m.log2 - 52 : ℕ))).1
      (carry (nearest m (m.log2 - 52)) (e + (m.log2 - 52 : ℕ))).2 := by
  obtain ⟨hlower, hupper⟩ := nearest_bounds hm
  have hlog : 52 ≤ m.log2 := (Nat.le_log2 (by omega)).mpr hm
  have hsecond := shiftToTargetExponent_eq (m := nearest m (m.log2 - 52))
    (e := e + (m.log2 - 52 : ℕ)) (by omega)
  by_cases hcarry : nearest m (m.log2 - 52) = 2 ^ 53
  · have hlog' : (nearest m (m.log2 - 52)).log2 = 53 := by rw [hcarry, Nat.log2_two_pow]
    have hhalf : shifted (nearest m (m.log2 - 52)) 1 = ⟨2 ^ 52, false, false⟩ := by
      rw [hcarry, ← shifted_mul_two_pow (2 ^ 52) 1, ← pow_add]
    rw [hlog', hhalf] at hsecond
    simp only [carry, if_pos hcarry]
    exact ⟨le_refl _, by omega, by omega, by omega, _,
      roundWithAccuracy_eq he hsecond (Nat.two_pow_pos 52)⟩
  · have hlog' : (nearest m (m.log2 - 52)).log2 = 52 := log2_eq_of_digits hlower (by omega)
    rw [hlog', Nat.sub_self, Int.natCast_zero, Int.add_zero] at hsecond
    simp only [carry, if_neg hcarry]
    exact ⟨hlower, by omega, by omega, by omega, _,
      roundWithAccuracy_eq he hsecond (Nat.lt_of_lt_of_le (Nat.two_pow_pos 52) hlower)⟩

-- The bits of a normal float hold its exponent with a bias, and its significand without the first
-- digit, which is a one.
theorem pack_finite (hlower : 2 ^ 52 ≤ m) (hupper : m < 2 ^ 53) (hpos : 0 < m)
    (hbias : (b : ℤ) = e + 1075) (hb : b < 2047) :
    pack .binary64 (.finite s m e hpos) =
      packComponents .binary64 s (BitVec.ofNat 11 b) (BitVec.ofNat 52 m) := by
  have hexponent : (e + Format.binary64.exponentBias +
      Format.binary64.mantissaBitsWithoutImplicit).toNat = b := by
    have hsum : e + Format.binary64.exponentBias +
      Format.binary64.mantissaBitsWithoutImplicit = e + 1023 + 52 := rfl
    omega
  have hdigits : 52 + 1 = Format.binary64.mantissaBits := rfl
  have hbits : ¬2 ^ Format.binary64.exponentBits ≤ b + 1 := by
    have hpow : 2 ^ Format.binary64.exponentBits = 2048 := rfl
    omega
  simp only [pack, log2_eq_of_digits hlower hupper, hexponent, if_neg hbits, if_pos hdigits]

theorem unpack_packComponents (hlower : 2 ^ 52 ≤ m) (hupper : m < 2 ^ 53) (hpos : 0 < m)
    (hbias : (b : ℤ) = e + 1075) (hb : b < 2047) (hb' : 0 < b) :
    unpack .binary64 (packComponents .binary64 s (BitVec.ofNat 11 b) (BitVec.ofNat 52 m)) =
      .finite s m e hpos := by
  have hexponent : (BitVec.ofNat 11 b).toNat = b := by
    rw [BitVec.toNat_ofNat, Nat.mod_eq_of_lt (by omega)]
  have hinfinite : BitVec.ofNat 11 b ≠ -1#11 := by
    intro heq
    have hvalue : b = 2047 := hexponent.symm.trans (congrArg BitVec.toNat heq)
    omega
  have hsmall : BitVec.ofNat 11 b ≠ 0#11 := by
    intro heq
    have hvalue : b = 0 := hexponent.symm.trans (congrArg BitVec.toNat heq)
    omega
  have hsignificand : (1#1 ++ BitVec.ofNat 52 m).toNat = m := by
    have hone : (1#1).toNat <<< 52 = 2 ^ 52 := rfl
    rw [BitVec.toNat_append, ← Nat.shiftLeft_add_eq_or_of_lt (BitVec.ofNat 52 m).isLt, hone,
      BitVec.toNat_ofNat]
    omega
  have hunbiased : (b : ℤ) - (Format.binary64.exponentBias +
      Format.binary64.mantissaBitsWithoutImplicit) = e := by
    have hsum : ((Format.binary64.exponentBias : ℤ) +
      Format.binary64.mantissaBitsWithoutImplicit) = 1075 := rfl
    omega
  simp only [unpack, unpackMantissa_packComponents, unpackExponent_packComponents,
    unpackSign_packComponents, Sign.ofBitVec_toBitVec, if_neg hinfinite, if_neg hsmall,
    hsignificand, hexponent, hunbiased]

-- A normal float is what its bits are read as.
theorem IsNormal.unpack_pack {u : UnpackedFloat} (h : IsNormal u s m e) :
    (Float.Model.pack u).unpack = u := by
  obtain ⟨hlower, hupper, hleast, hgreatest, hpos, rfl⟩ := h
  obtain ⟨b, hbias⟩ : ∃ b : ℕ, (b : ℤ) = e + 1075 := ⟨(e + 1075).toNat, by omega⟩
  have hunpack : (Float.Model.pack (.finite s m e hpos)).unpack =
      unpack .binary64 (pack .binary64 (.finite s m e hpos)) := rfl
  rw [hunpack, pack_finite hlower hupper hpos hbias (by omega)]
  exact unpack_packComponents hlower hupper hpos hbias (by omega) (by omega)

-- The significand and the exponent of the float nearest to a positive integer.
def parts (n : ℕ) : ℕ × ℤ :=
  carry (nearest (n * 2 ^ 53) (n.log2 + 1)) ((n.log2 : ℤ) - 52)

theorem parts_exponent (n : ℕ) : (parts n).2 = n.log2 - 52 ∨ (parts n).2 = n.log2 - 52 + 1 := by
  rw [parts, carry]
  split
  · exact .inr rfl
  · exact .inl rfl

-- An integer that is written with at least 53 digits is rounded to its parts.
theorem isNormal_scaled (hn : n ≠ 0) (hmax : n.log2 ≤ 900) {k : ℕ} (hk : k ≤ 53)
    (hdigits : 52 ≤ n.log2 + k) :
    IsNormal (roundWithAccuracy .binary64 .positive (n * 2 ^ k) (-k) .exact) .positive
      (parts n).1 (parts n).2 := by
  have hlog : (n * 2 ^ k).log2 = n.log2 + k := log2_mul_two_pow hn k
  have hlong : 2 ^ 52 ≤ n * 2 ^ k := by
    rw [← Nat.le_log2 (Nat.mul_ne_zero hn (Nat.two_pow_pos k).ne'), hlog]
    exact hdigits
  have hnormal : IsNormal _ Sign.positive _ _ :=
    isNormal_round hlong (e := -(k : ℤ)) (by omega) (by omega)
  have hscale : nearest (n * 2 ^ 53) (n.log2 + 1) =
      nearest (n * 2 ^ k) (n.log2 + k - 52) := by
    rw [← nearest_scale (n * 2 ^ k) (53 - k), mul_assoc, ← pow_add, Nat.add_sub_cancel' hk]
    congr 1
    omega
  have hexponent : -(k : ℤ) + (n.log2 + k - 52 : ℕ) = n.log2 - 52 := by omega
  rwa [hlog, ← hscale, hexponent] at hnormal

theorem IsNormal.mul_one {u : UnpackedFloat} (h : IsNormal u .positive m e) (hleast : -900 ≤ e)
    (hgreatest : e ≤ 900) :
    IsNormal (mul .binary64 u (.finite .positive (2 ^ 52) (-52) (Nat.two_pow_pos 52))) .positive
      m e := by
  obtain ⟨hlower, hupper, -, -, hpos, rfl⟩ := h
  have hlog : (m * 2 ^ 52).log2 = 104 := by
    rw [log2_mul_two_pow hpos.ne', log2_eq_of_digits hlower hupper]
  have hlong : 2 ^ 52 ≤ m * 2 ^ 52 := Nat.le_mul_of_pos_left _ hpos
  have hnormal : IsNormal _ Sign.positive _ _ :=
    isNormal_round hlong (e := e + -52) (by omega) (by omega)
  have hexact : carry m (e + -52 + (52 : ℕ)) = (m, e) := by
    rw [carry, if_neg hupper.ne]
    congr 1
    omega
  rw [hlog, nearest_mul_two_pow, hexact] at hnormal
  exact hnormal

-- A short integer is written with 53 digits before it is rounded.
theorem ofUInt64_eq (hn : n ≠ 0) (h : n < 2 ^ 53) :
    ofUInt64 .binary64 n.toUInt64 = roundWithAccuracy .binary64 .positive
      (n * 2 ^ (52 - n.log2)) (-(52 - n.log2 : ℕ)) .exact := by
  have hlog : n.log2 < 53 := (Nat.log2_lt hn).mpr h
  have htoNat : n.toUInt64.toNat = n := Nat.mod_eq_of_lt (by omega)
  have hgt : compare (n : ℤ) 0 = .gt := compare_gt_iff_gt.mpr (by omega)
  have htarget : Format.binary64.targetExponent (Float.Model.totalExponent n 0) =
      max ((n.log2 : ℤ) + 1 + 0 - 53) (-1074) := rfl
  have hshift : (-max ((n.log2 : ℤ) + 1 + 0 - 53) (-1074)).toNat = 52 - n.log2 := by omega
  simp only [ofUInt64, UnpackedFloat.ofNat, UnpackedFloat.ofInt, UnpackedFloat.normalize, htoNat,
    hgt, UnpackedFloat.round, decreaseExponent, htarget, Int.zero_sub, hshift, Int.toNat_natCast,
    Nat.shiftLeft_eq]

theorem ofScientific_zero_eq (hn : n ≠ 0) :
    ofScientific .binary64 n 0 =
      roundWithAccuracy .binary64 .positive (n * 2 ^ 53) (-(53 : ℕ)) .exact := by
  have hdigits : (n <<< Format.binary64.mantissaBits) * 10 ^ (0 : ℤ).toNat = n * 2 ^ 53 := by
    rw [Nat.shiftLeft_eq, Int.toNat_zero, pow_zero, mul_one]
    rfl
  have hlarge : ¬(0 : ℤ) > 2 ^ Format.binary64.exponentBits := by decide
  have hsmall : ¬(0 : ℤ) < -(2 ^ Format.binary64.exponentBits + n.log2) := by
    have hpow : (2 : ℤ) ^ Format.binary64.exponentBits = 2048 := rfl
    omega
  rw [UnpackedFloat.ofScientific, dif_neg hn, if_neg hlarge, if_neg hsmall, if_pos (le_refl 0)]
  simp only [mul, hdigits]
  rfl

theorem isNormal_ofNat (hn : n ≠ 0) (h : n < 2 ^ 64) :
    IsNormal (Float.ofNat n).toModel.unpack .positive (parts n).1 (parts n).2 := by
  have hlog : n.log2 < 64 := (Nat.log2_lt hn).mpr h
  by_cases hexact : n < 2 ^ 53
  · have hmodel : (Float.ofNat n).toModel.unpack =
      (Float.Model.pack (mul .binary64 (Float.Model.pack (ofUInt64 .binary64 n.toUInt64)).unpack
        (Float.ofBits 0x3ff0000000000000).toModel.unpack)).unpack := by
      rw [Float.ofNat, OfScientific.ofScientific, instOfScientificFloat]
      simp only [Float.ofScientific]
      rw [dif_pos ⟨hexact, by decide⟩]
      rfl
    have hone : (Float.ofBits 0x3ff0000000000000).toModel.unpack =
        .finite .positive (2 ^ 52) (-52) (Nat.two_pow_pos 52) := rfl
    have hshort : n.log2 < 53 := (Nat.log2_lt hn).mpr hexact
    have hnormal := isNormal_scaled hn (by omega) (k := 52 - n.log2) (by omega) (by omega)
    have hexponent := parts_exponent n
    have hproduct := hnormal.mul_one (by omega) (by omega)
    rw [hmodel, hone, ofUInt64_eq hn hexact, hnormal.unpack_pack, hproduct.unpack_pack]
    exact hproduct
  · have hmodel : (Float.ofNat n).toModel.unpack =
      (Float.Model.pack (ofScientific .binary64 n 0)).unpack := by
      rw [Float.ofNat, OfScientific.ofScientific, instOfScientificFloat]
      simp only [Float.ofScientific]
      rw [dif_neg (fun h => hexact h.1)]
      rfl
    have hnormal := isNormal_scaled hn (by omega) (k := 53) (le_refl _) (by omega)
    rw [hmodel, ofScientific_zero_eq hn, hnormal.unpack_pack]
    exact hnormal

end FlowExpr.Binary64
