import FlowExpr.Builtin
import FlowExpr.Proofs.Blank
import FlowExpr.Proofs.Digits
import FlowExpr.Proofs.Radix
import Mathlib.Data.List.TakeWhile

namespace FlowExpr.Builtin

open Text (Writes IsNumeral isDigitOf signText)

variable {radix m : ℕ} {negative : Bool} {digits : List Char} {n r : Int64} {s : String}

theorem trimStart_signText_append (h : Writes radix m digits) (negative : Bool) :
    Text.trimStart (signText negative ++ digits) = signText negative ++ digits := by
  cases negative with
  | true => rfl
  | false =>
      cases digits with
      | nil => rfl
      | cons c rest => exact List.dropWhile_cons_of_neg (by simp [h.isBlank List.mem_cons_self])

-- Neither sign is a digit.
theorem splitSign_signText_append (hdigits : ∀ c ∈ digits, isDigitOf radix c = true)
    (negative : Bool) :
    Decimal.splitSign (signText negative ++ digits) = (signText negative, digits) := by
  cases negative with
  | true => rfl
  | false =>
      simp only [signText, Bool.false_eq_true, if_false, List.nil_append]
      unfold Decimal.splitSign
      split
      · have hminus := hdigits '-' List.mem_cons_self
        simp [isDigitOf, Text.digitValue?] at hminus
      · have hplus := hdigits '+' List.mem_cons_self
        simp [isDigitOf, Text.digitValue?] at hplus
      · rfl

-- The mark of base sixteen is no digit of it.
theorem chooseRadix_digits (hradix : radix ≠ 0)
    (hdigits : ∀ c ∈ digits, isDigitOf radix c = true) :
    chooseRadix radix digits = ((radix : ℤ), digits) := by
  have hasked : (radix : ℤ) ≠ 0 := Int.natCast_ne_zero.mpr hradix
  have hmark : radix = 16 → dropHexMark digits = none := by
    rintro rfl
    unfold dropHexMark
    split
    · exact absurd (hdigits 'x' (by simp)) (by decide)
    · exact absurd (hdigits 'X' (by simp)) (by decide)
    · rfl
  rw [chooseRadix, if_neg hasked]
  split
  · next hsixteen => rw [hmark (by omega)]
  · rfl

theorem parseIntText_digits (hleast : 2 ≤ radix) (hmost : radix ≤ 36) (hne : digits ≠ [])
    (hdigits : ∀ c ∈ digits, isDigitOf radix c = true) (negative : Bool) :
    parseIntText (signText negative ++ digits) radix = ofDigits negative radix digits := by
  have hchoice : chooseRadix radix digits = ((radix : ℤ), digits) :=
    chooseRadix_digits (by omega) hdigits
  have hrange : ¬((radix : ℤ) < 2 ∨ 36 < (radix : ℤ)) := by omega
  have htake : digits.takeWhile (isDigitOf radix) = digits :=
    List.takeWhile_eq_self_iff.mpr hdigits
  have hsign : (signText negative == ['-']) = negative := by
    cases negative <;> rfl
  simp only [parseIntText, splitSign_signText_append hdigits, hchoice, if_neg hrange,
    Int.toNat_natCast, htake, List.isEmpty_eq_false_iff.mpr hne, Bool.false_eq_true, if_false, hsign]

theorem ofDigits_of_writes (hradix : 2 ≤ radix) (h : Writes radix n.toInt.natAbs digits)
    (hn : n ≠ Int64.minValue) : ofDigits (decide (n.toInt < 0)) radix digits = .int n := by
  have hleast := n.le_toInt
  have hgreatest := n.toInt_lt
  have hn : n.toInt ≠ -2 ^ 63 := by
    rwa [← Int64.toInt_minValue, Ne, Int64.toInt_inj]
  obtain ⟨w, hw⟩ : ∃ w : Int64, w.toInt = n.toInt.natAbs :=
    ⟨Int64.ofInt n.toInt.natAbs, Int64.toInt_ofInt_of_le (by omega) (by omega)⟩
  have hsigned : (if decide (n.toInt < 0) = true then -w else w) = n := by
    by_cases hneg : n.toInt < 0
    · have hsame : -(n.toInt.natAbs : ℤ) = n.toInt := by omega
      rw [if_pos (decide_eq_true hneg), ← Int64.toInt_inj, Int64.toInt_neg, hw, hsame]
      exact n.toInt_bmod
    · rw [if_neg (by simpa using hneg), ← Int64.toInt_inj]
      omega
  rw [ofDigits, h.digitsValue hradix, Text.signedWord?_eq_some_iff.mpr hw, Option.map_some,
    Option.getD_some, hsigned]

-- The absolute value of the least integer is no word.
theorem ofDigits_minValue (hradix : 2 ≤ radix)
    (h : Writes radix Int64.minValue.toInt.natAbs digits) (negative : Bool) :
    ∃ x, ofDigits negative radix digits = .float x := by
  have hnone : signedWord? Int64.minValue.toInt.natAbs = none := by
    rw [signedWord?]
    exact if_neg (by decide)
  rw [ofDigits, h.digitsValue hradix, hnone]
  exact ⟨_, rfl⟩

theorem call_parseInt_of_isNumeral (hleast : 2 ≤ r.toInt) (hmost : r.toInt ≤ 36)
    (h : IsNumeral r.toInt.toNat n.toInt s) :
    ∃ digits, Writes r.toInt.toNat n.toInt.natAbs digits ∧
      parseInt.call [.string s, .int r] = ofDigits (decide (n.toInt < 0)) r.toInt.toNat digits := by
  obtain ⟨digits, hdigits, hs⟩ := h
  refine ⟨digits, hdigits, ?_⟩
  have hradix : ((r.toInt.toNat : ℕ) : ℤ) = r.toInt := by omega
  have hcall : parseInt.call [.string s, .int r] =
      parseIntText (Text.trimStart s.toList) r.toInt.toNat := by
    rw [hradix]
    rfl
  rw [hcall, hs, trimStart_signText_append hdigits]
  exact parseIntText_digits (by omega) (by omega) hdigits.ne_nil
    (fun _ => hdigits.isDigitOf (by omega)) _

theorem isBlank_of_mem_signText {c : Char} (h : c ∈ signText negative) :
    Text.isBlank c = false := by
  cases negative with
  | true => exact List.mem_singleton.mp h ▸ rfl
  | false => exact absurd h List.not_mem_nil

theorem toList_toString (n : ℤ) :
    (toString n).toList = signText (decide (n < 0)) ++ Nat.toDigits 10 n.natAbs := by
  cases n with
  | ofNat m => exact Nat.toList_repr
  | negSucc m =>
      have htext : toString (Int.negSucc m) = "-" ++ toString (m + 1) := rfl
      rw [htext, String.toList_append, decide_eq_true (Int.negSucc_lt_zero m)]
      exact congrArg ('-' :: ·) Nat.toList_repr

theorem readSigned?_toString (n : Int64) : Text.readSigned? (toString n.toInt).toList = some n := by
  rw [toList_toString]
  by_cases hneg : n.toInt < 0
  · rw [decide_eq_true hneg]
    have hsame : -(n.toInt.natAbs : ℤ) = n.toInt := by omega
    have hread : Text.readSigned? (signText true ++ Nat.toDigits 10 n.toInt.natAbs) =
        signedWord? (-(Text.digitsValue 10 (Nat.toDigits 10 n.toInt.natAbs) : ℤ)) :=
      if_pos (Text.isDigits_toDigits _)
    rw [hread, Text.digitsValue_toDigits, hsame, Text.signedWord?_toInt]
  · rw [decide_eq_false hneg]
    have hsame : (n.toInt.natAbs : ℤ) = n.toInt := by omega
    have hread : Text.readSigned? (signText false ++ Nat.toDigits 10 n.toInt.natAbs) =
        signedWord? (Text.digitsValue 10 (Nat.toDigits 10 n.toInt.natAbs) : ℤ) :=
      Text.readSigned?_of_isDigits (Text.isDigits_toDigits _)
    rw [hread, Text.digitsValue_toDigits, hsame, Text.signedWord?_toInt]

-- The text of an integer in a concatenation is read back as that integer.
theorem toNumber_text_int (n : Int64) : Value.toNumber (.string (Value.int n).text) = .int n := by
  have hnot : ∀ c ∈ (toString n.toInt).toList, Text.isBlank c = false := by
    rw [toList_toString]
    intro c hc
    rcases List.mem_append.mp hc with hsign | hdigit
    · exact isBlank_of_mem_signText hsign
    · exact Text.isBlank_of_isDigit (Text.isDigit_of_mem_toDigits c hdigit)
  have hempty : (toString n.toInt).toList.isEmpty = false := by
    rw [toList_toString, List.isEmpty_eq_false_iff]
    exact List.append_ne_nil_of_right_ne_nil _ Nat.toDigits_ne_nil
  have hnumber : Value.toNumber (.string (Value.int n).text) =
      Value.ofNumberText (Text.trim (toString n.toInt).toList) := rfl
  rw [hnumber, Text.trim_of_not_blank hnot, Value.ofNumberText, hempty, readSigned?_toString]
  rfl

-- An integer survives as a text in any base, except that the least integer is read back as a float
-- where the base is asked for.
theorem call_text_int (n : Int64) :
    (∀ r : Int64, 2 ≤ r.toInt → r.toInt ≤ 36 →
      (∃ s, IsNumeral r.toInt.toNat n.toInt s) ∧
      ∀ s, IsNumeral r.toInt.toNat n.toInt s →
        (n ≠ Int64.minValue → parseInt.call [.string s, .int r] = .int n) ∧
        (n = Int64.minValue → ∃ x, parseInt.call [.string s, .int r] = .float x)) ∧
    number.call [string.call [.int n]] = .int n := by
  constructor
  · intro r hleast hmost
    refine ⟨Text.exists_isNumeral (by omega) (by omega) n.toInt, ?_⟩
    intro s hs
    obtain ⟨digits, hdigits, hcall⟩ := call_parseInt_of_isNumeral hleast hmost hs
    rw [hcall]
    constructor
    · exact ofDigits_of_writes (by omega) hdigits
    · rintro rfl
      exact ofDigits_minValue (by omega) hdigits _
  · simp only [call, List.head?_cons, Option.map_some, Option.getD_some]
    exact toNumber_text_int n

-- Letters of both cases, in base sixteen.
theorem call_text_int_hex : parseInt.call [.string "-fF", .int 16] = .int (-255) := by
  have hnumeral : IsNumeral (16 : Int64).toInt.toNat (-255 : Int64).toInt "-fF" := by
    refine ⟨['f', 'F'], ?_, rfl⟩
    have hplaces : Text.places (16 : Int64).toInt.toNat (-255 : Int64).toInt.natAbs = [15, 15] := by
      decide
    rw [Writes, hplaces]
    exact .cons (.inl rfl) (.cons (.inr rfl) .nil)
  exact (((call_text_int (-255)).1 16 (by decide) (by decide)).2 "-fF" hnumeral).1 (by decide)

-- The least integer is not read back from its decimal digits.
theorem not_call_text_int :
    IsNumeral (10 : Int64).toInt.toNat Int64.minValue.toInt "-9223372036854775808" ∧
      parseInt.call [.string "-9223372036854775808", .int 10] ≠ .int Int64.minValue := by
  have hnumeral :
      IsNumeral (10 : Int64).toInt.toNat Int64.minValue.toInt "-9223372036854775808" := by
    refine ⟨"9223372036854775808".toList, ?_, rfl⟩
    have hplaces : Text.places (10 : Int64).toInt.toNat Int64.minValue.toInt.natAbs =
        [9, 2, 2, 3, 3, 7, 2, 0, 3, 6, 8, 5, 4, 7, 7, 5, 8, 0, 8] := by
      decide
    have hdigits : ∀ p ∈ [9, 2, 2, 3, 3, 7, 2, 0, 3, 6, 8, 5, 4, 7, 7, 5, 8, 0, 8].zip
        "9223372036854775808".toList, Text.smallDigits[p.1]? = some p.2 := by
      decide
    rw [Writes, hplaces, List.forall₂_iff_zip]
    exact ⟨rfl, fun h => .inl (hdigits _ h)⟩
  refine ⟨hnumeral, ?_⟩
  obtain ⟨digits, hdigits, hcall⟩ :=
    call_parseInt_of_isNumeral (r := 10) (by decide) (by decide) hnumeral
  obtain ⟨x, hx⟩ := ofDigits_minValue (by decide) hdigits (decide (Int64.minValue.toInt < 0))
  rw [hcall, hx]
  exact Value.noConfusion

end FlowExpr.Builtin
