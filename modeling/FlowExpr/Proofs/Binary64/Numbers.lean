import FlowExpr.Decimal.Numeral
import FlowExpr.Proofs.Binary64.Integers

namespace FlowExpr.Binary64

open Float.Model (UnpackedFloat Format)
open Float.Model.UnpackedFloat

variable {u v : UnpackedFloat} {s : Sign} {m : Nat} {e : Int} {x y : Float}

theorem exponentField_eq (x : Float) :
    exponentField x = (@unpackExponent .binary64 x.toModel.toBits.toBitVec).toNat := by
  rw [exponentField, unpackExponent, BitVec.toNat_cast, BitVec.extractLsb_toNat,
    Nat.shiftRight_eq_div_pow]
  rfl

theorem fractionField_eq (x : Float) :
    fractionField x = (@unpackMantissa .binary64 x.toModel.toBits.toBitVec).toNat := by
  rw [fractionField, unpackMantissa, BitVec.toNat_cast, BitVec.extractLsb_toNat,
    Nat.shiftRight_eq_div_pow, Nat.pow_zero, Nat.div_one]
  rfl

theorem unpack_eq_notANumber_iff {b : BitVec Format.binary64.numBits} :
    unpack .binary64 b = .notANumber ↔
      (unpackExponent b).toNat = 2047 ∧ (unpackMantissa b).toNat ≠ 0 := by
  have hones : (unpackExponent b).toNat = 2047 ↔ unpackExponent b = -1#11 :=
    BitVec.toNat_inj (y := -1#11)
  have hzeros : (unpackMantissa b).toNat = 0 ↔ unpackMantissa b = 0#52 :=
    BitVec.toNat_inj (y := 0#52)
  rw [hones, Ne, hzeros]
  simp only [unpack]
  split
  · split <;> simp_all
  · split
    · split <;> simp_all
    · simp_all

theorem isNaN_eq_false_iff : isNaN x = false ↔ x.toModel.unpack ≠ .notANumber := by
  rw [Float.Model.unpack, Ne, unpack_eq_notANumber_iff, ← exponentField_eq, ← fractionField_eq,
    isNaN, Bool.and_eq_false_iff, beq_eq_false_iff_ne, bne_eq_false_iff_eq]
  omega

-- The bits of a finite float that would have the exponent of NaN are those of an infinite one.
theorem pack_fields (h : u ≠ .notANumber) : (unpackExponent (pack .binary64 u)).toNat ≠ 2047 ∨
    (unpackMantissa (pack .binary64 u)).toNat = 0 := by
  fun_cases pack .binary64 u with
  | case1 => exact absurd rfl h
  | case2 s => simp [packedInfinity]
  | case3 s => simp [packedZero]
  | case4 s m e hm biasedExponent hlarge => simp [packedInfinity]
  | case5 s m e hm digits biasedExponent hsmall hnormal =>
      have hbits : 2 ^ Format.binary64.exponentBits = 2048 := rfl
      have hle := Nat.mod_le biasedExponent 2048
      rw [unpackExponent_packComponents, BitVec.toNat_ofNat, hbits]
      omega
  | case6 s m e hm digits biasedExponent hsmall hnormal => simp

theorem unpack_pack_ne (h : u ≠ .notANumber) : (Float.Model.pack u).unpack ≠ .notANumber := by
  intro hnan
  have hpack : unpack .binary64 (pack .binary64 u) = .notANumber := hnan
  obtain ⟨hexponent, hmantissa⟩ := unpack_eq_notANumber_iff.mp hpack
  exact (pack_fields h).elim (fun hne => hne hexponent) hmantissa

theorem roundWithAccuracy_ne (spec : Format) (s : Sign) (m : Nat) (e : Int) (a : Accuracy) :
    roundWithAccuracy spec s m e a ≠ .notANumber := by
  simp only [roundWithAccuracy]
  split <;> simp

theorem mul_finite_ne (hu : u ≠ .notANumber) (hm : 0 < m) :
    mul .binary64 u (.finite s m e hm) ≠ .notANumber := by
  cases u with
  | notANumber => exact absurd rfl hu
  | infinity | zero => simp [mul]
  | finite => exact roundWithAccuracy_ne _ _ _ _ _

theorem div_finite_ne (hu : u ≠ .notANumber) (hm : 0 < m) :
    div .binary64 u (.finite s m e hm) ≠ .notANumber := by
  cases u with
  | notANumber => exact absurd rfl hu
  | infinity | zero => simp [div]
  | finite => exact roundWithAccuracy_ne _ _ _ _ _

theorem normalize_ne (spec : Format) (n : Int) (e : Int) (s : Sign) :
    UnpackedFloat.normalize spec n e s ≠ .notANumber := by
  unfold UnpackedFloat.normalize
  split
  · exact roundWithAccuracy_ne _ _ _ _ _
  · simp
  · exact roundWithAccuracy_ne _ _ _ _ _

theorem ofScientific_ne (m : Nat) (e : Int) :
    UnpackedFloat.ofScientific .binary64 m e ≠ .notANumber := by
  unfold UnpackedFloat.ofScientific
  split
  · simp
  · split
    · simp
    · split
      · simp
      · split
        · exact mul_finite_ne (by simp) _
        · exact div_finite_ne (by simp) _

theorem exactPower_eq_finite {e : Nat} (h : e < Float.exactlyRepresentablePowersOfTen.size) :
    ∃ s m e' hm, Float.exactlyRepresentablePowersOfTen[e].toModel.unpack = .finite s m e' hm := by
  have hall : Float.exactlyRepresentablePowersOfTen.all (fun x =>
      match x.toModel.unpack with
      | .finite .. => true
      | _ => false) = true := by decide +kernel
  have hfinite := Array.all_eq_true.mp hall e h
  split at hfinite
  · exact ⟨_, _, _, _, ‹_›⟩
  · simp at hfinite

theorem isNaN_ofScientific (m : Nat) (negative : Bool) (e : Nat) :
    isNaN (Float.ofScientific m negative e) = false := by
  rw [isNaN_eq_false_iff, Float.ofScientific]
  dsimp only
  split
  · rename_i h
    obtain ⟨s, m', e', hm, hpower⟩ := exactPower_eq_finite (e := e)
      (by simp [Float.exactlyRepresentablePowersOfTen]; omega)
    have hnat : m.toUInt64.toFloat.toModel.unpack ≠ .notANumber :=
      unpack_pack_ne (normalize_ne _ _ _ _)
    split
    · have hdiv := div_finite_ne (s := s) (e := e') hnat hm
      rw [← hpower] at hdiv
      exact unpack_pack_ne hdiv
    · have hmul := mul_finite_ne (s := s) (e := e') hnat hm
      rw [← hpower] at hmul
      exact unpack_pack_ne hmul
  · exact unpack_pack_ne (ofScientific_ne _ _)

theorem isNaN_infinity : isNaN infinity = false := by
  decide +kernel

theorem isNaN_nan : isNaN nan = true := by
  decide +kernel

theorem isNaN_withSign (h : isNaN x = false) (negative : Bool) :
    isNaN (withSign negative x) = false := by
  rw [isNaN_eq_false_iff] at h
  cases negative with
  | false => exact isNaN_eq_false_iff.mpr h
  | true =>
      rw [isNaN_eq_false_iff]
      apply unpack_pack_ne
      cases hx : x.toModel.unpack with
      | notANumber => exact absurd hx h
      | infinity | zero | finite => simp [neg]

end FlowExpr.Binary64

namespace FlowExpr.Decimal

-- A decimal is read as a number, whatever its size.
theorem isNaN_nearestFloat (m : Nat) (power : Int) :
    Binary64.isNaN (nearestFloat m power) = false := by
  unfold nearestFloat
  dsimp only
  split
  · exact Binary64.isNaN_ofScientific 0 false 0
  · split
    · exact Binary64.isNaN_infinity
    · exact Binary64.isNaN_ofScientific m _ _

end FlowExpr.Decimal
