import FlowExpr.Json
import FlowExpr.Decimal.Numeral
import FlowExpr.Text.Whole

namespace FlowExpr.Json.Number

-- Takes digits into a significand while it stays a 64-bit word, and counts those taken.
def absorb (significand : Nat) : List Char → Nat × Nat
  | [] => (significand, 0)
  | digit :: rest =>
    let next := significand * 10 + (digit.toNat - '0'.toNat)
    if next < unsignedBound then
      let (final, taken) := absorb next rest
      (final, taken + 1)
    else (significand, 0)

-- The powers of ten that a float can hold.
def topPower : Nat :=
  308

-- Divides by a power of ten, one largest power at a time.
def divideByPower (x : Float) (power : Nat) : Float :=
  if power ≤ topPower then x / Float.ofScientific 1 false power
  else if x == 0 then x
  else divideByPower (x / Float.ofScientific 1 false topPower) (power - topPower)
termination_by power
decreasing_by
  simp only [topPower] at *
  omega

-- The float for a significand and a power of ten: the significand is rounded first, and the product
-- or quotient is rounded again. There is none if the product overflows.
def ofSignificand? (negative : Bool) (significand : Nat) (power : Int) : Option Number :=
  let x := Float.ofNat significand
  let scaled :=
    if power < 0 then divideByPower x power.natAbs
    else if power ≤ topPower then x * Float.ofScientific 1 false power.natAbs
    else if significand = 0 then x
    else Binary64.infinity
  real? (Binary64.withSign negative scaled)

-- An integer within the signed or the unsigned words is one; any other is a float, and so is `-0`.
def ofInteger? (negative : Bool) (n : Nat) : Option Number :=
  if negative then
    if n = 0 ∨ signedBound < n then real? (-(Float.ofNat n))
    else some (signed (Int64.ofInt (-(n : Int))))
  else if n < signedBound then some (signed (Int64.ofInt n))
  else unsigned? n

-- Digits before the point that the significand has no room for raise the power of ten, digits after
-- it that do fit lower the power, and the others are dropped.
def ofNumeral? (negative : Bool) (n : Decimal.Numeral) : Option Number :=
  let (whole, taken) := absorb 0 n.whole
  let excess := n.whole.length - taken
  match n.fraction, n.exponent with
  | none, none =>
    if excess = 0 then ofInteger? negative whole else ofSignificand? negative whole excess
  | fraction, _ =>
    let (significand, places) := absorb whole (fraction.getD [])
    ofSignificand? negative significand ((excess : Int) - places + n.exponentValue)

-- A number needs a digit on each side of its point, and zero stands alone before it.
def isStrict (n : Decimal.Numeral) : Bool :=
  (n.whole == ['0'] || n.whole.head?.any (· != '0')) && n.fraction != some []

-- A number at the front of a text, and what follows it.
def readNumber (text : List Char) : Option (Number × List Char) :=
  let (negative, digits) := match text with
    | '-' :: rest => (true, rest)
    | rest => (false, rest)
  match Decimal.Numeral.split digits with
  | some (n, rest) =>
    if isStrict n then (ofNumeral? negative n).map (·, rest) else none
  | none => none

theorem readNumber_length {text rest : List Char} {number : Number}
    (h : readNumber text = some (number, rest)) : rest.length < text.length := by
  unfold readNumber at h
  dsimp only at h
  split at h
  · rename_i hsplit
    have hlength := Decimal.Numeral.split_length hsplit
    split at h
    · simp only [Option.map_eq_some_iff, Prod.mk.injEq] at h
      obtain ⟨_, _, _, rfl⟩ := h
      split at hlength
      · exact Nat.lt_succ_of_lt hlength
      · exact hlength
    · simp at h
  · simp at h

end FlowExpr.Json.Number
