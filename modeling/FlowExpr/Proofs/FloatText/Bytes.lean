import FlowExpr.Proofs.FloatText.Longest

namespace FlowExpr.Builtin.Bytes

open FlowExpr.Decimal

variable {bytes : List UInt8} {text : List Char} {c d : Char} {i : Nat}

def ofText (text : List Char) : List UInt8 :=
  text.flatMap String.utf8EncodeChar

def ofAscii (c : Char) : UInt8 :=
  UInt8.ofNat c.toNat

def standsAt (bytes : List UInt8) (i : Nat) (c : Char) : Bool :=
  bytes[i]? == some (ofAscii c)

def isDigit (b : UInt8) : Bool :=
  ofAscii '0' ≤ b && b ≤ ofAscii '9'

def signEnd (bytes : List UInt8) (i : Nat) : Nat :=
  if standsAt bytes i '+' || standsAt bytes i '-' then i + 1 else i

def digitsEnd (bytes : List UInt8) (i : Nat) : Nat :=
  i + ((bytes.drop i).takeWhile isDigit).length

-- The digits before and behind the point count together. A point without any is no mantissa.
def mantissaEnd? (bytes : List UInt8) (start : Nat) : Option Nat :=
  let whole := digitsEnd bytes start
  if standsAt bytes whole '.' then
    let fraction := digitsEnd bytes (whole + 1)
    if whole - start + (fraction - (whole + 1)) = 0 then none else some fraction
  else if whole - start = 0 then none
  else some whole

-- The scan goes back to the end of the mantissa if the exponent has no digits.
def exponentEnd (bytes : List UInt8) (mantissa : Nat) : Nat :=
  if standsAt bytes mantissa 'e' || standsAt bytes mantissa 'E' then
    let start := signEnd bytes (mantissa + 1)
    let exponent := digitsEnd bytes start
    if start < exponent then exponent else mantissa
  else mantissa

-- Where the number at the front of some bytes ends.
def floatEnd (bytes : List UInt8) : Nat :=
  ((mantissaEnd? bytes (signEnd bytes 0)).map (exponentEnd bytes)).getD 0

-- What is left of the bytes at a place is a text.
def IsAt (bytes : List UInt8) (i : Nat) (text : List Char) : Prop :=
  bytes.drop i = ofText text

theorem ofText_cons_of_ascii (h : c.toNat < 128) (text : List Char) :
    ofText (c :: text) = ofAscii c :: ofText text := by
  have hle : c.val.toNat ≤ 0x7f := Nat.le_of_lt_succ h
  rw [ofText, List.flatMap_cons, String.utf8EncodeChar, if_pos hle]
  rfl

-- A character beyond ASCII has no byte of ASCII in front.
theorem ofText_cons_of_not_ascii (h : ¬c.toNat < 128) (text : List Char) :
    ∃ b more, ofText (c :: text) = b :: more ∧ 128 ≤ b.toNat := by
  have hle : ¬c.val.toNat ≤ 0x7f := fun hle => h (Nat.lt_succ_of_le hle)
  rw [ofText, List.flatMap_cons, String.utf8EncodeChar, if_neg hle]
  split
  · exact ⟨_, _, rfl, by rw [UInt8.toNat_ofNat']; omega⟩
  · split
    · exact ⟨_, _, rfl, by rw [UInt8.toNat_ofNat']; omega⟩
    · exact ⟨_, _, rfl, by rw [UInt8.toNat_ofNat']; omega⟩

theorem toNat_ofAscii (h : c.toNat < 128) : (ofAscii c).toNat = c.toNat := by
  rw [ofAscii, UInt8.toNat_ofNat']
  omega

theorem ofAscii_inj (hc : c.toNat < 128) (hd : d.toNat < 128) : ofAscii c = ofAscii d ↔ c = d := by
  rw [← UInt8.toNat_inj, toNat_ofAscii hc, toNat_ofAscii hd, Char.toNat_inj]

theorem isDigit_iff_toNat {b : UInt8} : isDigit b = true ↔ 48 ≤ b.toNat ∧ b.toNat ≤ 57 := by
  rw [isDigit, Bool.and_eq_true, decide_eq_true_iff, decide_eq_true_iff, UInt8.le_iff_toNat_le,
    UInt8.le_iff_toNat_le]
  rfl

theorem charIsDigit_iff_toNat : c.isDigit = true ↔ 48 ≤ c.toNat ∧ c.toNat ≤ 57 := by
  rw [Char.isDigit, Bool.and_eq_true, decide_eq_true_iff, decide_eq_true_iff, ge_iff_le,
    UInt32.le_iff_toNat_le, UInt32.le_iff_toNat_le]
  rfl

theorem isDigit_ofAscii (h : c.toNat < 128) : isDigit (ofAscii c) = c.isDigit := by
  rw [Bool.eq_iff_iff, isDigit_iff_toNat, charIsDigit_iff_toNat, toNat_ofAscii h]

theorem splitDigits_ofText (text : List Char) :
    ((ofText text).takeWhile isDigit).length = (splitDigits text).1.length ∧
      (ofText text).dropWhile isDigit = ofText (splitDigits text).2 := by
  induction text with
  | nil => exact ⟨rfl, rfl⟩
  | cons c rest ih =>
      by_cases hc : c.toNat < 128
      · cases hdigit : c.isDigit with
        | true => simpa [ofText_cons_of_ascii hc, splitDigits, isDigit_ofAscii hc, hdigit] using ih
        | false => simp [ofText_cons_of_ascii hc, splitDigits, isDigit_ofAscii hc, hdigit]
      · obtain ⟨b, more, hbytes, hb⟩ := ofText_cons_of_not_ascii hc rest
        have hbyte : isDigit b = false := by
          rw [← Bool.not_eq_true, isDigit_iff_toNat]
          omega
        have hchar : c.isDigit = false := by
          rw [← Bool.not_eq_true, charIsDigit_iff_toNat]
          omega
        simp [hbytes, splitDigits, hbyte, hchar]

theorem IsAt.step (h : IsAt bytes i (c :: text)) (hc : c.toNat < 128) : IsAt bytes (i + 1) text := by
  rw [IsAt, ← List.drop_drop, h, ofText_cons_of_ascii hc, List.drop_one, List.tail_cons]

theorem IsAt.standsAt (h : IsAt bytes i text) (hc : c.toNat < 128) :
    standsAt bytes i c = (text.head? == some c) := by
  rw [Bytes.standsAt, ← List.head?_drop, h]
  cases text with
  | nil => rfl
  | cons d rest =>
      by_cases hd : d.toNat < 128
      · rw [ofText_cons_of_ascii hd, List.head?_cons, List.head?_cons, Bool.eq_iff_iff]
        simp [ofAscii_inj hd hc]
      · obtain ⟨b, more, hbytes, hb⟩ := ofText_cons_of_not_ascii hd rest
        rw [hbytes, List.head?_cons, List.head?_cons, Bool.eq_iff_iff]
        have hbyte : b ≠ ofAscii c := by
          rintro rfl
          rw [toNat_ofAscii hc] at hb
          omega
        have hchar : d ≠ c := by
          rintro rfl
          exact hd hc
        simp [hbyte, hchar]

theorem IsAt.digitsEnd (h : IsAt bytes i text) :
    digitsEnd bytes i = i + (splitDigits text).1.length ∧
      IsAt bytes (i + (splitDigits text).1.length) (splitDigits text).2 := by
  obtain ⟨hlength, hrest⟩ := splitDigits_ofText text
  rw [Bytes.digitsEnd, h, hlength]
  refine ⟨rfl, ?_⟩
  have hdrop : (((ofText text).takeWhile isDigit) ++ (ofText text).dropWhile isDigit).drop
      ((ofText text).takeWhile isDigit).length = (ofText text).dropWhile isDigit := List.drop_left
  rw [List.takeWhile_append_dropWhile, hlength, hrest] at hdrop
  rw [IsAt, ← List.drop_drop, h, hdrop]

theorem IsAt.signEnd (h : IsAt bytes i text) :
    signEnd bytes i = i + (splitSign text).1.length ∧
      IsAt bytes (i + (splitSign text).1.length) (splitSign text).2 := by
  rw [Bytes.signEnd, h.standsAt (c := '+') (by decide), h.standsAt (c := '-') (by decide)]
  fun_cases splitSign text with
  | case1 rest => exact ⟨rfl, h.step (by decide)⟩
  | case2 rest => exact ⟨rfl, h.step (by decide)⟩
  | case3 _ hminus hplus =>
      rw [if_neg]
      · exact ⟨rfl, h⟩
      · cases text with
        | nil => simp
        | cons c rest =>
            have hc : c ≠ '-' := fun hc => hminus rest (by rw [hc])
            have hc' : c ≠ '+' := fun hc => hplus rest (by rw [hc])
            simp [hc, hc']

-- After a mantissa the scan finds the exponent that is read there.
theorem IsAt.exponentEnd (h : IsAt bytes i text) :
    exponentEnd bytes i = i + (exponentText (splitExponent text).1).length := by
  have hmarks : (Bytes.standsAt bytes i 'e' || Bytes.standsAt bytes i 'E') =
      (text.head? == some 'e' || text.head? == some 'E') := by
    rw [h.standsAt (by decide), h.standsAt (by decide)]
  have hdigits {mark : Char} {rest : List Char} (hmark : (mark == 'e' || mark == 'E') = true)
      (h : IsAt bytes i (mark :: rest)) :
      Bytes.signEnd bytes (i + 1) = i + 1 + (splitSign rest).1.length ∧
        Bytes.digitsEnd bytes (i + 1 + (splitSign rest).1.length) =
          i + 1 + (splitSign rest).1.length + (splitDigits (splitSign rest).2).1.length := by
    have hascii : mark.toNat < 128 := by
      rcases (by simpa using hmark : mark = 'e' ∨ mark = 'E') with rfl | rfl <;> decide
    obtain ⟨hsign, hafter⟩ := (h.step hascii).signEnd
    exact ⟨hsign, hafter.digitsEnd.1⟩
  rw [Bytes.exponentEnd, hmarks]
  fun_cases splitExponent text with
  | case1 mark rest hmark sign after hsign digits last hlast hnone =>
      obtain ⟨hsignEnd, hdigitsEnd⟩ := hdigits hmark h
      have hzero : digits.length = 0 := List.length_eq_zero_iff.mpr (List.isEmpty_iff.mp hnone)
      simp only [hsign, hlast] at hsignEnd hdigitsEnd
      simp [hsignEnd, hdigitsEnd, hzero, exponentText]
  | case2 mark rest hmark sign after hsign digits last hlast hsome =>
      obtain ⟨hsignEnd, hdigitsEnd⟩ := hdigits hmark h
      have hpos : 0 < digits.length := List.length_pos_iff.mpr (by simpa using hsome)
      simp only [hsign, hlast] at hsignEnd hdigitsEnd
      have hmark' : mark = 'e' ∨ mark = 'E' := by simpa using hmark
      simp [hsignEnd, hdigitsEnd, hpos, hmark', exponentText]
      omega
  | case3 mark rest hmark =>
      have hmark' : ¬(mark = 'e' ∨ mark = 'E') := by simpa using hmark
      simp [hmark', exponentText]
  | case4 => simp [exponentText]

theorem IsAt.splitFraction (h : IsAt bytes i text) (whole : List Char) :
    IsAt bytes (i + (fractionText (splitFraction whole text).1).length)
      (splitFraction whole text).2 := by
  fun_cases Decimal.splitFraction whole text with
  | case1 rest fraction after hfraction hnone => exact h
  | case2 rest fraction after hfraction hsome =>
      obtain ⟨-, hafter⟩ := (h.step (by decide)).digitsEnd
      rw [hfraction] at hafter
      rwa [fractionText, List.length_cons, Nat.add_comm fraction.length, ← Nat.add_assoc]
  | case3 => exact h

-- A mantissa is found where one is read.
theorem IsAt.mantissaEnd? (h : IsAt bytes i text) :
    mantissaEnd? bytes i =
      let whole := (splitDigits text).1
      let fraction := (Decimal.splitFraction whole (splitDigits text).2).1
      if whole.isEmpty && fraction.isNone then none
      else some (i + whole.length + (fractionText fraction).length) := by
  obtain ⟨hwhole, hrest⟩ := h.digitsEnd
  have hpoint := hrest.standsAt (c := '.') (by decide)
  rw [Bytes.mantissaEnd?, hwhole, hpoint]
  dsimp only
  generalize (splitDigits text).1 = whole at *
  generalize (splitDigits text).2 = rest at *
  fun_cases Decimal.splitFraction whole rest with
  | case1 rest fraction after hfraction hnone =>
      have hfractionEnd := (hrest.step (by decide)).digitsEnd.1
      have hboth : whole = [] ∧ fraction = [] := by simpa using hnone
      rw [hfractionEnd, hfraction]
      simp [hboth.1, hboth.2]
  | case2 rest fraction after hfraction hsome =>
      have hfractionEnd := (hrest.step (by decide)).digitsEnd.1
      have hpos : ¬(whole.length = 0 ∧ fraction.length = 0) := by simpa using hsome
      have hcount : ¬(i + whole.length - i + (i + whole.length + 1 + fraction.length -
          (i + whole.length + 1)) = 0) := by omega
      rw [hfractionEnd, hfraction]
      simp only [List.head?_cons, beq_self_eq_true, if_true, if_neg hcount, Option.isNone_some,
        Bool.and_false, Bool.false_eq_true, if_false, fractionText, List.length_cons,
        Option.some_inj]
      omega
  | case3 _ hdot =>
      have hpoint' : (rest.head? == some '.') = false := by
        cases rest with
        | nil => rfl
        | cons c after => simpa using fun hc : c = '.' => hdot after (by rw [hc])
      simp [hpoint', fractionText]

-- Over the bytes of a text the scan stops right behind the number at its front.
theorem floatEnd_ofText (text : List Char) : floatEnd (ofText text) = (floatPrefix text).length := by
  have hstart : IsAt (ofText text) 0 text := rfl
  obtain ⟨hsign, hrest⟩ := hstart.signEnd
  rw [floatEnd, hsign, hrest.mantissaEnd?, floatPrefix]
  simp only [Numeral.split]
  by_cases hnone : ((splitDigits (splitSign text).2).1.isEmpty && (Decimal.splitFraction
      (splitDigits (splitSign text).2).1 (splitDigits (splitSign text).2).2).1.isNone) = true
  · rw [if_pos hnone, if_pos hnone]
    rfl
  · have hexponent := ((hrest.digitsEnd.2).splitFraction
      (splitDigits (splitSign text).2).1).exponentEnd
    rw [if_neg hnone, if_neg hnone, Option.map_some, Option.getD_some, hexponent]
    simp [Numeral.written, Nat.add_assoc]

theorem ascii_of_isDigits {digits : List Char} (h : ∀ c ∈ digits, c.isDigit = true) :
    ∀ c ∈ digits, c.toNat < 128 := by
  intro c hc
  have hdigit := charIsDigit_iff_toNat.mp (h c hc)
  omega

theorem ascii_of_isSign (h : IsSign text) : ∀ c ∈ text, c.toNat < 128 := by
  cases h <;> simp

theorem ascii_of_isFloatText (h : IsFloatText text) : ∀ c ∈ text, c.toNat < 128 := by
  obtain @⟨sign, mantissa, exponent, hsign, hmantissa, hexponent⟩ := h
  simp only [List.forall_mem_append]
  refine ⟨ascii_of_isSign hsign, ?_, ?_⟩
  · cases hmantissa with
    | whole hdigits => exact ascii_of_isDigits (isDigit_of_isDigits hdigits)
    | point hdigits hfraction =>
        rw [List.forall_mem_append, List.forall_mem_cons]
        exact ⟨ascii_of_isDigits (isDigit_of_isDigits hdigits), by decide,
          ascii_of_isDigits hfraction⟩
    | fraction hdigits =>
        rw [List.forall_mem_cons]
        exact ⟨by decide, ascii_of_isDigits (isDigit_of_isDigits hdigits)⟩
  · cases hexponent with
    | none => simp
    | some hmark hsign hdigits =>
        rw [List.forall_mem_cons, List.forall_mem_append]
        refine ⟨?_, ascii_of_isSign hsign, ascii_of_isDigits (isDigit_of_isDigits hdigits)⟩
        rcases hmark with rfl | rfl <;> decide

theorem length_ofText (h : ∀ c ∈ text, c.toNat < 128) : (ofText text).length = text.length := by
  induction text with
  | nil => rfl
  | cons c rest ih =>
      rw [List.forall_mem_cons] at h
      rw [ofText_cons_of_ascii h.1, List.length_cons, List.length_cons, ih h.2]

theorem ofText_toList (s : String) : ofText s.toList = s.toByteArray.data.toList := by
  rw [← String.utf8Encode_toList]
  exact (List.toList_data_toByteArray).symm

-- The number that the scan finds is cut off between two characters.
theorem exists_append_of_floatEnd (s : String) :
    ∃ rest, s = String.ofList (floatPrefix s.toList) ++ rest ∧
      floatEnd s.toByteArray.data.toList =
        (String.ofList (floatPrefix s.toList)).utf8ByteSize := by
  obtain ⟨rest, hrest⟩ := floatPrefix_isPrefix s.toList
  refine ⟨String.ofList rest, ?_, ?_⟩
  · rw [← String.ofList_append, hrest, String.ofList_toList]
  · have hascii : ∀ c ∈ floatPrefix s.toList, c.toNat < 128 := by
      by_cases hnil : floatPrefix s.toList = []
      · simp [hnil]
      · exact ascii_of_isFloatText (isFloatText_floatPrefix hnil)
    have hsize := congrArg List.length (ofText_toList (String.ofList (floatPrefix s.toList)))
    rw [String.toList_ofList, length_ofText hascii] at hsize
    rw [← ofText_toList, floatEnd_ofText, hsize]
    rfl

end FlowExpr.Builtin.Bytes
