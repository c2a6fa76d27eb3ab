import FlowExpr.Proofs.Binary64.Integers

namespace FlowExpr.Binary64

open Float.Model (UnpackedFloat)
open Float.Model.UnpackedFloat

variable {m n : ℕ} {a b e e' : ℤ} {s : Sign}

theorem parts_bounds (hn : n ≠ 0) :
    2 ^ 52 ≤ nearest (n * 2 ^ 53) (n.log2 + 1) ∧ nearest (n * 2 ^ 53) (n.log2 + 1) ≤ 2 ^ 53 := by
  have hlog : (n * 2 ^ 53).log2 - 52 = n.log2 + 1 := by
    rw [log2_mul_two_pow hn]
    omega
  rw [← hlog]
  exact nearest_bounds (by omega)

-- Exponents are compared first, and significands under equal exponents.
theorem carry_mono (hm : m ≤ 2 ^ 53) (hlower : 2 ^ 52 ≤ n) (hn : n ≤ 2 ^ 53)
    (h : e < e' ∨ e = e' ∧ m ≤ n) :
    (carry m e).2 < (carry n e').2 ∨
      (carry m e).2 = (carry n e').2 ∧ (carry m e).1 ≤ (carry n e').1 := by
  simp only [carry]
  split <;> split <;> dsimp only <;> omega

theorem log2_mono (hm : m ≠ 0) (h : m ≤ n) : m.log2 ≤ n.log2 := by
  rw [Nat.le_log2 (by omega)]
  exact (Nat.log2_self_le hm).trans h

theorem parts_mono (hm : m ≠ 0) (h : m ≤ n) :
    (parts m).2 < (parts n).2 ∨ (parts m).2 = (parts n).2 ∧ (parts m).1 ≤ (parts n).1 := by
  have hmbounds := parts_bounds hm
  have hnbounds := parts_bounds (n := n) (by omega)
  have hlog : m.log2 ≤ n.log2 := log2_mono hm h
  apply carry_mono hmbounds.2 hnbounds.1 hnbounds.2
  rcases hlog.lt_or_eq with hlt | heq
  · exact .inl (by omega)
  · rw [heq]
    exact .inr ⟨rfl, nearest_mono (Nat.mul_le_mul_right _ h) _⟩

-- An integer of at most 53 binary digits is held exactly.
theorem parts_of_lt (hm : m ≠ 0) (h : m < 2 ^ 53) :
    parts m = (m * 2 ^ (52 - m.log2), (m.log2 : ℤ) - 52) := by
  have hlog : m.log2 < 53 := (Nat.log2_lt hm).mpr h
  have hdigits : m * 2 ^ 53 = m * 2 ^ (52 - m.log2) * 2 ^ (m.log2 + 1) := by
    rw [mul_assoc, ← pow_add]
    congr 2
    omega
  have hshort : m * 2 ^ (52 - m.log2) < 2 ^ 53 := by
    rw [← Nat.log2_lt (Nat.mul_ne_zero hm (Nat.two_pow_pos _).ne'), log2_mul_two_pow hm]
    omega
  rw [parts, hdigits, nearest_mul_two_pow, carry, if_neg hshort.ne]

theorem parts_lt (hm : m ≠ 0) (h : m < n) (hexact : m < 2 ^ 53) :
    (parts m).2 < (parts n).2 ∨ (parts m).2 = (parts n).2 ∧ (parts m).1 < (parts n).1 := by
  have hlog : m.log2 ≤ n.log2 := log2_mono hm h.le
  have hn : n ≠ 0 := by omega
  rw [parts_of_lt hm hexact]
  rcases hlog.lt_or_eq with hlt | heq
  · have hexponent := parts_exponent n
    exact .inl (by dsimp only; omega)
  · have hshort : n < 2 ^ 53 := by
      rw [← Nat.log2_lt hn, ← heq]
      exact (Nat.log2_lt hm).mpr hexact
    rw [parts_of_lt hn hshort, heq]
    exact .inr ⟨rfl, (Nat.mul_lt_mul_right (Nat.two_pow_pos _)).mpr h⟩

-- Where the float nearest to an integer stands.
def integerPlace (a : ℤ) : Place :=
  toLex (a.sign, toLex (a.sign * (parts a.natAbs).2, a.sign * (parts a.natAbs).1))

theorem IsNormal.place? {x : Float} (h : IsNormal x.toModel.unpack s m e) :
    place? x = some (finitePlace s e m) := by
  obtain ⟨-, -, -, -, hpos, hunpack⟩ := h
  rw [Binary64.place?, hunpack, placeOf?]

theorem IsNormal.neg {x : Float} (h : IsNormal x.toModel.unpack s m e) :
    IsNormal x.neg.toModel.unpack (-s) m e := by
  obtain ⟨hlower, hupper, hleast, hgreatest, hpos, hunpack⟩ := h
  have hneg : IsNormal (.finite (-s) m e hpos) (-s) m e :=
    ⟨hlower, hupper, hleast, hgreatest, hpos, rfl⟩
  have hmodel : x.neg.toModel.unpack =
      (Float.Model.pack (UnpackedFloat.neg x.toModel.unpack)).unpack := rfl
  rw [hmodel, hunpack, UnpackedFloat.neg, hneg.unpack_pack]
  exact hneg

theorem place?_ofInt (h : a.natAbs < 2 ^ 64) : place? (Float.ofInt a) = some (integerPlace a) := by
  cases a with
  | ofNat n =>
      by_cases hn : n = 0
      · subst hn
        decide +kernel
      · have hsign : Int.sign n = 1 := Int.sign_eq_one_of_pos (by omega)
        have hplace := (isNormal_ofNat hn h).place?
        rw [integerPlace, Int.ofNat_eq_natCast, hsign]
        exact hplace
  | negSucc n => exact (isNormal_ofNat n.succ_ne_zero h).neg.place?

theorem sign_cases (h : a < b) : a.sign < b.sign ∨
    (0 < a ∧ a.sign = 1 ∧ b.sign = 1) ∨ (b < 0 ∧ a.sign = -1 ∧ b.sign = -1) := by
  rcases lt_trichotomy a 0 with ha | rfl | ha
  · rw [Int.sign_eq_neg_one_of_neg ha]
    rcases lt_trichotomy b 0 with hb | rfl | hb
    · exact .inr (.inr ⟨hb, rfl, Int.sign_eq_neg_one_of_neg hb⟩)
    · exact .inl (by decide)
    · rw [Int.sign_eq_one_of_pos hb]
      exact .inl (by decide)
  · rw [Int.sign_eq_one_of_pos h]
    exact .inl (by decide)
  · exact .inr (.inl ⟨ha, Int.sign_eq_one_of_pos ha, Int.sign_eq_one_of_pos (ha.trans h)⟩)

theorem integerPlace_le (h : a ≤ b) : integerPlace a ≤ integerPlace b := by
  rcases h.eq_or_lt with rfl | h
  · exact le_refl _
  rw [integerPlace, integerPlace, Prod.Lex.toLex_le_toLex]
  rcases sign_cases h with hsign | ⟨ha, hasign, hbsign⟩ | ⟨hb, hasign, hbsign⟩
  · exact .inl hsign
  · have hparts := parts_mono (m := a.natAbs) (n := b.natAbs) (by omega) (by omega)
    rw [hasign, hbsign, Prod.Lex.toLex_le_toLex]
    dsimp only
    omega
  · have hparts := parts_mono (m := b.natAbs) (n := a.natAbs) (by omega) (by omega)
    rw [hasign, hbsign, Prod.Lex.toLex_le_toLex]
    dsimp only
    omega

-- Two integers have one nearest float only where both have more than 53 binary digits.
theorem integerPlace_lt (h : a < b) (hexact : a.natAbs < 2 ^ 53 ∨ b.natAbs < 2 ^ 53) :
    integerPlace a < integerPlace b := by
  rw [integerPlace, integerPlace, Prod.Lex.toLex_lt_toLex]
  rcases sign_cases h with hsign | ⟨ha, hasign, hbsign⟩ | ⟨hb, hasign, hbsign⟩
  · exact .inl hsign
  · have hparts := parts_lt (m := a.natAbs) (n := b.natAbs) (by omega) (by omega) (by omega)
    rw [hasign, hbsign, Prod.Lex.toLex_lt_toLex]
    dsimp only
    omega
  · have hparts := parts_lt (m := b.natAbs) (n := a.natAbs) (by omega) (by omega) (by omega)
    rw [hasign, hbsign, Prod.Lex.toLex_lt_toLex]
    dsimp only
    omega

end FlowExpr.Binary64
