import FlowExpr.Text.Blank
import FlowExpr.Text.Digits
import Mathlib.Data.List.Forall2
import Mathlib.Data.Nat.Digits.Defs

namespace FlowExpr.Text

variable {radix d n : ℕ} {c : Char} {ds : List ℕ} {digits : List Char}

def smallDigits : List Char :=
  "0123456789abcdefghijklmnopqrstuvwxyz".toList

def capitalDigits : List Char :=
  "0123456789ABCDEFGHIJKLMNOPQRSTUVWXYZ".toList

-- A digit above nine is a letter, in either case.
def IsDigitFor (d : ℕ) (c : Char) : Prop :=
  smallDigits[d]? = some c ∨ capitalDigits[d]? = some c

-- The places of a number in a base, the most significant first.
def places (radix n : ℕ) : List ℕ :=
  if n = 0 then [0] else (Nat.digits radix n).reverse

def Writes (radix n : ℕ) (digits : List Char) : Prop :=
  List.Forall₂ IsDigitFor (places radix n) digits

theorem digitValue?_of_lt (h : digitValue? 36 c = some d) (hd : d < radix) :
    digitValue? radix c = some d := by
  grind [digitValue?]

theorem digitValue?_of_isDigitFor (h : IsDigitFor d c) (hd : d < radix) :
    digitValue? radix c = some d := by
  have hlength : d < 36 := by
    rcases h with h | h <;> exact (List.getElem?_eq_some_iff.mp h).1
  have htables : ∀ d < 36, (smallDigits[d]?.bind (digitValue? 36) = some d) ∧
      (capitalDigits[d]?.bind (digitValue? 36) = some d) := by
    decide
  obtain ⟨hsmall, hcapital⟩ := htables d hlength
  rcases h with h | h
  · rw [h] at hsmall
    exact digitValue?_of_lt hsmall hd
  · rw [h] at hcapital
    exact digitValue?_of_lt hcapital hd

theorem isBlank_of_isDigitFor (h : IsDigitFor d c) : isBlank c = false := by
  have htables : (smallDigits ++ capitalDigits).any isBlank = false := by
    decide
  rw [Bool.eq_false_iff]
  apply List.any_eq_false.mp htables
  rw [List.mem_append]
  exact h.imp List.mem_of_getElem? List.mem_of_getElem?

-- A run of digits is read place by place.
theorem digitsValue_of_forall₂ (h : List.Forall₂ IsDigitFor ds digits)
    (hds : ∀ d ∈ ds, d < radix) : digitsValue radix digits = Nat.ofDigits radix ds.reverse := by
  suffices hfrom : ∀ value, digits.foldl
      (fun value c => value * radix + (digitValue? radix c).getD 0) value =
        ds.foldl (fun value d => d + radix * value) value by
    rw [digitsValue, hfrom, Nat.ofDigits_eq_foldr, List.foldr_reverse]
    rfl
  induction h with
  | nil => exact fun value => rfl
  | cons hdigit _ ih =>
      intro value
      rw [List.forall_mem_cons] at hds
      rw [List.foldl_cons, List.foldl_cons, digitValue?_of_isDigitFor hdigit hds.1, ih hds.2,
        Option.getD_some, Nat.add_comm, Nat.mul_comm]

theorem places_lt (hradix : 2 ≤ radix) : ∀ d ∈ places radix n, d < radix := by
  intro d hd
  rw [places] at hd
  split at hd
  · rw [List.mem_singleton] at hd
    omega
  · exact Nat.digits_lt_base hradix (List.mem_reverse.mp hd)

theorem exists_writes (hleast : 2 ≤ radix) (hmost : radix ≤ 36) (n : ℕ) :
    ∃ digits, Writes radix n digits := by
  refine ⟨(places radix n).map fun d => smallDigits.getD d '0', ?_⟩
  rw [Writes, List.forall₂_map_right_iff, List.forall₂_same]
  intro d hd
  have hd : d < smallDigits.length := (places_lt hleast d hd).trans_le hmost
  rw [List.getD_eq_getElem?_getD, List.getElem?_eq_getElem hd, Option.getD_some]
  exact .inl (List.getElem?_eq_getElem hd)

theorem Writes.digitsValue (h : Writes radix n digits) (hradix : 2 ≤ radix) :
    digitsValue radix digits = n := by
  rw [digitsValue_of_forall₂ h (places_lt hradix), places]
  split
  · next hn => rw [hn]; rfl
  · rw [List.reverse_reverse, Nat.ofDigits_digits]

theorem Writes.ne_nil (h : Writes radix n digits) : digits ≠ [] := by
  rintro rfl
  have hplaces : places radix n = [] := List.forall₂_nil_right_iff.mp h
  rw [places] at hplaces
  split at hplaces
  · exact List.cons_ne_nil _ _ hplaces
  · next hn => exact Nat.digits_ne_nil_iff_ne_zero.mpr hn (List.reverse_eq_nil_iff.mp hplaces)

theorem exists_isDigitFor (h : List.Forall₂ IsDigitFor ds digits) (hc : c ∈ digits) :
    ∃ d ∈ ds, IsDigitFor d c := by
  induction h with
  | nil => exact absurd hc List.not_mem_nil
  | cons hdigit _ ih =>
      rcases List.mem_cons.mp hc with rfl | hc
      · exact ⟨_, List.mem_cons_self, hdigit⟩
      · obtain ⟨d, hd, hdigit⟩ := ih hc
        exact ⟨d, List.mem_cons_of_mem _ hd, hdigit⟩

theorem Writes.isDigitOf (h : Writes radix n digits) (hradix : 2 ≤ radix) (hc : c ∈ digits) :
    isDigitOf radix c = true := by
  obtain ⟨d, hd, hdigit⟩ := exists_isDigitFor h hc
  rw [Text.isDigitOf, digitValue?_of_isDigitFor hdigit (places_lt hradix d hd)]
  rfl

theorem Writes.isBlank (h : Writes radix n digits) (hc : c ∈ digits) : isBlank c = false := by
  obtain ⟨d, _, hdigit⟩ := exists_isDigitFor h hc
  exact isBlank_of_isDigitFor hdigit

def signText (negative : Bool) : List Char :=
  if negative then ['-'] else []

-- The digits of an integer in a base, behind a minus sign if it is negative.
def IsNumeral (radix : ℕ) (n : ℤ) (s : String) : Prop :=
  ∃ digits, Writes radix n.natAbs digits ∧ s.toList = signText (decide (n < 0)) ++ digits

theorem exists_isNumeral (hleast : 2 ≤ radix) (hmost : radix ≤ 36) (n : ℤ) :
    ∃ s, IsNumeral radix n s := by
  obtain ⟨digits, hdigits⟩ := exists_writes hleast hmost n.natAbs
  exact ⟨String.ofList (signText (decide (n < 0)) ++ digits), digits, hdigits,
    String.toList_ofList⟩

end FlowExpr.Text
