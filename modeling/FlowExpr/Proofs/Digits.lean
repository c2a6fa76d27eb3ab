import FlowExpr.Text.Whole

namespace FlowExpr.Text

theorem digitValue?_of_isDigit {c : Char} (h : c.isDigit = true) :
    digitValue? 10 c = some (c.toNat - '0'.toNat) := by
  have hbounds : 48 ≤ c.toNat ∧ c.toNat ≤ 57 := Char.isDigit_iff_toNat.mp h
  have hsmall : c.toNat - '0'.toNat < 10 := by
    have hzero : '0'.toNat = 48 := rfl
    omega
  simp only [digitValue?, h, if_true, hsmall]

theorem digitsValue_eq_ofDigitChars {digits : List Char} (h : ∀ c ∈ digits, c.isDigit = true) :
    digitsValue 10 digits = Nat.ofDigitChars 10 digits 0 := by
  suffices hfrom : ∀ value, digits.foldl
      (fun value c => value * 10 + (digitValue? 10 c).getD 0) value =
        Nat.ofDigitChars 10 digits value from hfrom 0
  induction digits with
  | nil =>
      intro value
      rfl
  | cons c rest ih =>
      intro value
      have hrest : ∀ d ∈ rest, d.isDigit = true := fun d hd => h d (List.mem_cons_of_mem c hd)
      rw [List.foldl_cons, digitValue?_of_isDigit (h c (by simp)), ih hrest,
        Nat.ofDigitChars_cons, Option.getD_some, Nat.mul_comm]

theorem isDigit_of_mem_toDigits {n : Nat} : ∀ c ∈ Nat.toDigits 10 n, c.isDigit = true :=
  fun _ hc => Nat.isDigit_of_mem_toDigits (by decide) (by decide) hc

-- The decimal digits of a number are read back as that number.
theorem digitsValue_toDigits (n : Nat) : digitsValue 10 (Nat.toDigits 10 n) = n := by
  rw [digitsValue_eq_ofDigitChars isDigit_of_mem_toDigits, Nat.ofDigitChars_ten_toDigits]

theorem isDigits_toDigits (n : Nat) : isDigits (Nat.toDigits 10 n) = true := by
  have hne : Nat.toDigits 10 n ≠ [] := Nat.toDigits_ne_nil
  simp only [isDigits, Bool.and_eq_true, Bool.not_eq_true', List.isEmpty_eq_false_iff,
    List.all_eq_true]
  exact ⟨hne, isDigit_of_mem_toDigits⟩

theorem readSigned?_of_isDigits {digits : List Char} (h : isDigits digits = true) :
    readSigned? digits = signedWord? (digitsValue 10 digits) := by
  unfold readSigned?
  split
  · simp [isDigits] at h
  · simp [isDigits] at h
  · rw [if_pos h]

theorem readUnsigned?_of_isDigits {digits : List Char} (h : isDigits digits = true) :
    readUnsigned? digits = unsignedWord? (digitsValue 10 digits) := by
  unfold readUnsigned?
  split
  · simp [isDigits] at h
  · rw [if_pos h]

theorem unsignedWord?_toNat (n : UInt64) : unsignedWord? n.toNat = some n := by
  have hupper : n.toNat < unsignedBound := UInt64.toNat_lt n
  rw [unsignedWord?, if_pos hupper, UInt64.ofNat_toNat]

-- The decimal digits of an index are read back as that index.
theorem readUnsigned?_toDigits (i : UInt64) :
    readUnsigned? (Nat.toDigits 10 i.toNat) = some i := by
  rw [readUnsigned?_of_isDigits (isDigits_toDigits i.toNat), digitsValue_toDigits,
    unsignedWord?_toNat]

theorem signedWord?_toInt (n : Int64) : signedWord? n.toInt = some n := by
  have hlower : -(signedBound : Int) ≤ n.toInt := Int64.le_toInt n
  have hupper : n.toInt < signedBound := Int64.toInt_lt n
  rw [signedWord?, if_pos ⟨hlower, hupper⟩, Int64.ofInt_toInt]

theorem signedWord?_eq_some_iff {m : Int} {n : Int64} :
    signedWord? m = some n ↔ n.toInt = m := by
  constructor
  · intro h
    rw [signedWord?, Option.ite_none_right_eq_some] at h
    obtain ⟨⟨hlower, hupper⟩, hword⟩ := h
    rw [← Option.some.inj hword]
    exact Int64.toInt_ofInt_of_le hlower hupper
  · rintro rfl
    exact signedWord?_toInt n

end FlowExpr.Text
