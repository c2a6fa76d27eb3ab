import FlowExpr.Operator.Arithmetic
import FlowExpr.Proofs.Digits
import Mathlib.Algebra.Order.Ring.Int
import Mathlib.Data.Rat.Cast.Order
import Mathlib.Tactic.FieldSimp

namespace FlowExpr.Operator

variable {op : Operator} {a b : ℤ} {m n w : Int64} {r r' : ℚ}

-- The mathematical result of an operator on integers. A remainder is smaller than the divisor, and
-- its sign is that of the dividend.
inductive IsResult : Operator → ℤ → ℤ → ℚ → Prop
  | sum (a b : ℤ) : IsResult add a b (a + b)
  | difference (a b : ℤ) : IsResult subtract a b (a - b)
  | product (a b : ℤ) : IsResult multiply a b (a * b)
  | quotient (a b : ℤ) (hb : b ≠ 0) : IsResult divide a b (a / b)
  | remainder (a b q r : ℤ) (hdivision : a = b * q + r)
      (hsmall : r.natAbs < b.natAbs) (hsign : 0 ≤ a * r) : IsResult modulo a b r

-- The one remainder that is not taken among integers: its quotient is no word.
def Overflows (op : Operator) (m n : Int64) : Prop :=
  op = modulo ∧ m = Int64.minValue ∧ n = -1

theorem tdiv_tmod_of_division {q s : ℤ} (hdivision : a = b * q + s) (hsmall : s.natAbs < b.natAbs)
    (hsign : 0 ≤ a * s) : a.tdiv b = q ∧ a.tmod b = s := by
  have hb : b ≠ 0 := by
    rintro rfl
    exact Nat.not_lt_zero _ hsmall
  rcases lt_trichotomy a 0 with ha | rfl | ha
  · have hs : s ≤ 0 := by
      by_contra hs
      exact (mul_neg_of_neg_of_pos ha (not_le.mp hs)).not_ge hsign
    rw [Int.tdiv_tmod_unique' ha.le hb]
    omega
  · have hproduct : (b * q).natAbs < b.natAbs := by omega
    have hq : q = 0 := by
      rw [Int.natAbs_mul] at hproduct
      by_contra hq
      exact hproduct.not_ge (Nat.le_mul_of_pos_right _ (Int.natAbs_pos.mpr hq))
    subst hq
    rw [Int.tdiv_tmod_unique (le_refl 0) hb]
    omega
  · have hs : 0 ≤ s := nonneg_of_mul_nonneg_right hsign ha
    rw [Int.tdiv_tmod_unique ha.le hb]
    omega

-- A quotient of words is a word again, apart from that of the least one and minus one.
theorem isSome_signedWord?_tdiv (hb : n.toInt ≠ 0) :
    (signedWord? (m.toInt.tdiv n.toInt)).isSome = true ↔ ¬(m = Int64.minValue ∧ n = -1) := by
  have hleast := m.le_toInt
  have hgreatest := m.toInt_lt
  have hwords : m = Int64.minValue ∧ n = -1 ↔ m.toInt = -2 ^ 63 ∧ n.toInt = -1 := by
    rw [← Int64.toInt_inj, ← Int64.toInt_inj, Int64.toInt_minValue]
    rfl
  have hword : (signedWord? (m.toInt.tdiv n.toInt)).isSome = true ↔
      -2 ^ 63 ≤ m.toInt.tdiv n.toInt ∧ m.toInt.tdiv n.toInt < 2 ^ 63 := by
    rw [signedWord?, Option.isSome_ite]
    rfl
  rw [hwords, hword]
  by_cases hneg : n.toInt = -1
  · rw [hneg, Int.tdiv_neg, Int.tdiv_one]
    omega
  by_cases hone : n.toInt = 1
  · rw [hone, Int.tdiv_one]
    omega
  · have hhalf : (m.toInt.tdiv n.toInt).natAbs ≤ m.toInt.natAbs / 2 := by
      rw [Int.natAbs_tdiv]
      exact Nat.div_le_div_left (by omega) (by decide)
    omega

-- The quotient of integers is an integer where nothing remains.
theorem intCast_eq_div_iff (hb : b ≠ 0) {q : ℤ} :
    (q : ℚ) = a / b ↔ a.tmod b = 0 ∧ q = a.tdiv b := by
  have hproduct : (q : ℚ) = a / b ↔ b * q = a := by
    rw [eq_div_iff (Int.cast_ne_zero.mpr hb), mul_comm]
    norm_cast
  rw [hproduct]
  constructor
  · rintro rfl
    exact ⟨Int.mul_tmod_right b q, (Int.mul_tdiv_cancel_left q hb).symm⟩
  · rintro ⟨hmod, rfl⟩
    exact Int.mul_tdiv_cancel_of_tmod_eq_zero hmod

-- What stays with integers is the mathematical result, wherever that is a word.
theorem onIntegers?_eq_some_iff (h : IsResult op m.toInt n.toInt r) :
    onIntegers? op m n = some w ↔ w.toInt = r ∧ ¬Overflows op m n := by
  generalize hm : m.toInt = a at h
  generalize hn : n.toInt = b at h
  cases h with
  | sum | difference | product =>
      simp only [onIntegers?, hm, hn, Text.signedWord?_eq_some_iff, Overflows, reduceCtorEq,
        false_and, not_false_eq_true, and_true]
      norm_cast
  | quotient _ _ hb =>
      simp only [onIntegers?, hm, hn, Option.ite_none_right_eq_some, Text.signedWord?_eq_some_iff,
        Overflows, reduceCtorEq, false_and, not_false_eq_true, and_true]
      rw [intCast_eq_div_iff hb]
      exact and_congr_left fun _ => and_iff_right hb
  | remainder _ _ q s hdivision hsmall hsign =>
      have hb : n.toInt ≠ 0 := by omega
      obtain ⟨-, hmod⟩ := tdiv_tmod_of_division hdivision hsmall hsign
      simp only [onIntegers?, Option.ite_none_right_eq_some, Text.signedWord?_eq_some_iff,
        Overflows, true_and, isSome_signedWord?_tdiv hb]
      rw [hm, hn, hmod, ← hn, and_comm, Int.cast_inj]
      exact and_congr_right fun _ => ⟨fun h => h.2, fun h => ⟨hb, h⟩⟩

-- Where an operator has a mathematical result.
def IsDefined (op : Operator) (b : ℤ) : Prop :=
  op = add ∨ op = subtract ∨ op = multiply ∨ (op = divide ∨ op = modulo) ∧ b ≠ 0

theorem isResult_tmod (a : ℤ) (hb : b ≠ 0) : IsResult modulo a b (a.tmod b : ℤ) := by
  refine .remainder a b (a.tdiv b) (a.tmod b) (Int.mul_tdiv_add_tmod a b).symm ?_ ?_
  · rw [Int.natAbs_tmod]
    exact Nat.mod_lt _ (Int.natAbs_pos.mpr hb)
  · rcases le_total 0 a with ha | ha
    · exact mul_nonneg ha (Int.tmod_nonneg b ha)
    · have hneg := Int.tmod_nonneg b (Int.neg_nonneg_of_nonpos ha)
      rw [Int.neg_tmod] at hneg
      exact mul_nonneg_of_nonpos_of_nonpos ha (by omega)

theorem existsUnique_isResult (h : IsDefined op b) (a : ℤ) : ∃! r, IsResult op a b r := by
  rcases h with rfl | rfl | rfl | ⟨rfl | rfl, hb⟩
  · exact ⟨_, .sum a b, fun _ hr => by cases hr; rfl⟩
  · exact ⟨_, .difference a b, fun _ hr => by cases hr; rfl⟩
  · exact ⟨_, .product a b, fun _ hr => by cases hr; rfl⟩
  · exact ⟨_, .quotient a b hb, fun _ hr => by cases hr; rfl⟩
  · refine ⟨_, isResult_tmod a hb, fun _ hr => ?_⟩
    cases hr with
    | remainder _ _ q s hdivision hsmall hsign =>
        rw [(tdiv_tmod_of_division hdivision hsmall hsign).2]

theorem arithmetic_int (h : IsDefined op n.toInt) :
    arithmetic op (.int m) (.int n) = .ok (match onIntegers? op m n with
      | some w => .int w
      | none => .float (onFloats op (Float.ofInt m.toInt) (Float.ofInt n.toInt))) := by
  have hzero : ((op == divide || op == modulo) && isZero (.int n)) = false := by
    rcases h with rfl | rfl | rfl | ⟨-, hn⟩
    · rfl
    · rfl
    · rfl
    · have hn : n ≠ 0 := fun h => hn (h ▸ rfl)
      rw [isZero, beq_false_of_ne hn, Bool.and_false]
  simp only [arithmetic, Value.isNumber, Bool.not_true, Bool.or_false, Bool.false_eq_true, if_false,
    hzero]
  cases onIntegers? op m n <;> rfl

-- Arithmetic on integers never fails. It gives the integer that is the mathematical result, where
-- that is a word, and a float anywhere else. Only one remainder becomes a float though it is a word.
theorem arithmetic_integers (m n : Int64) (h : IsDefined op n.toInt) :
    ∃ r, (∀ r', IsResult op m.toInt n.toInt r' ↔ r' = r) ∧
      (∀ w : Int64, w.toInt = r → ¬Overflows op m n →
        arithmetic op (.int m) (.int n) = .ok (.int w)) ∧
      ((∀ w : Int64, w.toInt ≠ r) ∨ Overflows op m n →
        ∃ x, arithmetic op (.int m) (.int n) = .ok (.float x)) := by
  obtain ⟨r, hresult, hunique⟩ := existsUnique_isResult h m.toInt
  refine ⟨r, fun r' => ⟨hunique r', fun hr => hr ▸ hresult⟩, ?_, ?_⟩
  · intro w hw hfits
    rw [arithmetic_int h, (onIntegers?_eq_some_iff hresult).mpr ⟨hw, hfits⟩]
  · intro hfloat
    rw [arithmetic_int h]
    cases hword : onIntegers? op m n with
    | none => exact ⟨_, rfl⟩
    | some w =>
        obtain ⟨hw, hfits⟩ := (onIntegers?_eq_some_iff hresult).mp hword
        exact (hfloat.elim (fun hnone => hnone w hw) hfits).elim

-- The remainder has the sign of the dividend.
theorem arithmetic_integers_remainder :
    IsDefined modulo (2 : Int64).toInt ∧
      arithmetic modulo (.int (-7)) (.int 2) = .ok (.int (-1)) := by
  have hdefined : IsDefined modulo (2 : Int64).toInt := by
    simp [IsDefined]
  obtain ⟨r, hresult, hword, -⟩ := arithmetic_integers (-7) 2 hdefined
  have hr : ((-1 : Int64).toInt : ℚ) = r := (hresult _).mp (isResult_tmod _ (by decide))
  exact ⟨hdefined, hword (-1) hr (by simp [Overflows])⟩

-- Minus one divides the least integer, and still the remainder is a float.
theorem not_arithmetic_integers :
    IsResult modulo Int64.minValue.toInt (-1 : Int64).toInt (0 : Int64).toInt ∧
      arithmetic modulo (.int Int64.minValue) (.int (-1)) ≠ .ok (.int 0) := by
  refine ⟨isResult_tmod _ (by decide), ?_⟩
  intro h
  have hfloat : ∃ x, arithmetic modulo (.int Int64.minValue) (.int (-1)) = .ok (.float x) :=
    ⟨_, rfl⟩
  obtain ⟨x, hx⟩ := hfloat
  rw [hx] at h
  simp at h

end FlowExpr.Operator
