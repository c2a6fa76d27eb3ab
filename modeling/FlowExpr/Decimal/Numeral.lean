import FlowExpr.Text.Digits
import FlowExpr.Binary64

namespace FlowExpr.Decimal

-- A written number without a sign: digits, a fraction after a point, an exponent after its mark.
structure Numeral where
  whole : List Char
  fraction : Option (List Char)
  exponent : Option (List Char × List Char)
deriving DecidableEq, Repr

def splitDigits (text : List Char) : List Char × List Char :=
  (text.takeWhile Char.isDigit, text.dropWhile Char.isDigit)

-- A sign at the front, if there is one, and the text after it.
def splitSign : List Char → List Char × List Char
  | '-' :: rest => (['-'], rest)
  | '+' :: rest => (['+'], rest)
  | rest => ([], rest)

-- A point may stand without digits on one of its sides, not on both.
def splitFraction (whole : List Char) : List Char → Option (List Char) × List Char
  | '.' :: rest =>
    let (fraction, after) := splitDigits rest
    if whole.isEmpty && fraction.isEmpty then (none, '.' :: rest) else (some fraction, after)
  | rest => (none, rest)

-- The exponent is its mark with a sign that may follow, and then digits; without digits it is no
-- part of the number.
def splitExponent : List Char → Option (List Char × List Char) × List Char
  | mark :: rest =>
    if mark == 'e' || mark == 'E' then
      let (sign, after) := splitSign rest
      let (digits, after) := splitDigits after
      if digits.isEmpty then (none, mark :: rest) else (some (mark :: sign, digits), after)
    else (none, mark :: rest)
  | [] => (none, [])

def fractionText : Option (List Char) → List Char
  | some digits => '.' :: digits
  | none => []

def exponentText : Option (List Char × List Char) → List Char
  | some (mark, digits) => mark ++ digits
  | none => []

theorem splitDigits_append (text : List Char) :
    (splitDigits text).1 ++ (splitDigits text).2 = text :=
  List.takeWhile_append_dropWhile

theorem splitSign_append (text : List Char) : (splitSign text).1 ++ (splitSign text).2 = text := by
  unfold splitSign
  split <;> rfl

theorem splitFraction_append (whole text : List Char) :
    fractionText (splitFraction whole text).1 ++ (splitFraction whole text).2 = text := by
  unfold splitFraction
  split
  · dsimp only
    split
    · rfl
    · exact congrArg ('.' :: ·) (splitDigits_append _)
  · rfl

theorem splitExponent_append (text : List Char) :
    exponentText (splitExponent text).1 ++ (splitExponent text).2 = text := by
  unfold splitExponent
  split
  · split
    · dsimp only
      split
      · rfl
      · simp only [exponentText, List.cons_append, List.append_assoc, splitDigits_append,
          splitSign_append]
    · rfl
  · rfl

namespace Numeral

-- The longest numeral at the front of a text, and what follows it.
def split (text : List Char) : Option (Numeral × List Char) :=
  let (whole, rest) := splitDigits text
  let (fraction, rest) := splitFraction whole rest
  if whole.isEmpty && fraction.isNone then none
  else
    let (exponent, rest) := splitExponent rest
    some (⟨whole, fraction, exponent⟩, rest)

def written (n : Numeral) : List Char :=
  n.whole ++ (fractionText n.fraction ++ exponentText n.exponent)

-- A numeral is written at the front of its text, and is not empty.
theorem written_append {text rest : List Char} {n : Numeral} (h : split text = some (n, rest)) :
    n.written ++ rest = text ∧ n.written ≠ [] := by
  unfold split at h
  dsimp only at h
  split at h
  · simp at h
  · rename_i hsome
    obtain ⟨rfl, rfl⟩ := Prod.mk.inj (Option.some.inj h)
    refine ⟨?_, fun hnil => hsome ?_⟩
    · simp only [written, List.append_assoc, splitExponent_append, splitFraction_append,
        splitDigits_append]
    · simp only [written, List.append_eq_nil_iff] at hnil
      cases hfraction : (splitFraction (splitDigits text).1 (splitDigits text).2).1 with
      | none => simp [hnil.1]
      | some digits => simp [hfraction, fractionText] at hnil

theorem split_length {text rest : List Char} {n : Numeral} (h : split text = some (n, rest)) :
    rest.length < text.length := by
  have hwritten := written_append h
  have hlength := congrArg List.length hwritten.1
  have hpos := List.length_pos_iff.2 hwritten.2
  simp only [List.length_append] at hlength
  omega

-- The digits of a numeral as one integer, and the power of ten that it is multiplied by.
def mantissa (n : Numeral) : Nat :=
  Text.digitsValue 10 (n.whole ++ n.fraction.getD [])

def exponentValue (n : Numeral) : Int :=
  match n.exponent with
  | some (mark, digits) =>
    if mark.contains '-' then -(Text.digitsValue 10 digits : Int) else Text.digitsValue 10 digits
  | none => 0

def power (n : Numeral) : Int :=
  n.exponentValue - (n.fraction.getD []).length

end Numeral

-- The float nearest to `mantissa * 10 ^ power`. A product of `10 ^ 310` or more is infinite and one
-- below `10 ^ -330` is zero, whatever its digits.
def nearestFloat (mantissa : Nat) (power : Int) : Float :=
  let point : Int := (Nat.toDigits 10 mantissa).length + power
  if mantissa = 0 ∨ point < -330 then 0
  else if 310 < point then Binary64.infinity
  else Float.ofScientific mantissa (power < 0) power.natAbs

def Numeral.toFloat (n : Numeral) : Float :=
  nearestFloat n.mantissa n.power

-- A float in words, in letters of either case.
def wordValue? (text : List Char) : Option Float :=
  match String.ofList (text.map Char.toLower) with
  | "inf" => some Binary64.infinity
  | "infinity" => some Binary64.infinity
  | "nan" => some Binary64.nan
  | _ => none

-- A whole text that is a number or one of the words, after at most one sign.
def readFloat? (text : List Char) : Option Float :=
  let (sign, rest) := splitSign text
  let value? := match Numeral.split rest with
    | some (n, []) => some n.toFloat
    | _ => wordValue? rest
  value?.map (Binary64.withSign (sign == ['-']))

end FlowExpr.Decimal
