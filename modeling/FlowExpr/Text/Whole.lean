import FlowExpr.Text.Digits

namespace FlowExpr

-- What a word of 64 bits reaches up to, with a sign and without one.
def signedBound : Nat :=
  0x8000000000000000

def unsignedBound : Nat :=
  0x10000000000000000

-- The signed 64-bit word that holds an integer, if one does.
def signedWord? (n : Int) : Option Int64 :=
  if -(signedBound : Int) ≤ n ∧ n < signedBound then some (Int64.ofInt n) else none

def unsignedWord? (n : Nat) : Option UInt64 :=
  if n < unsignedBound then some (UInt64.ofNat n) else none

namespace Text

-- Decimal digits after at most one sign, in the range of a signed word.
def readSigned? (text : List Char) : Option Int64 :=
  match text with
  | '-' :: digits => if isDigits digits then signedWord? (-(digitsValue 10 digits : Int)) else none
  | '+' :: digits => if isDigits digits then signedWord? (digitsValue 10 digits) else none
  | digits => if isDigits digits then signedWord? (digitsValue 10 digits) else none

-- Decimal digits after at most one plus sign, in the range of an unsigned word.
def readUnsigned? (text : List Char) : Option UInt64 :=
  match text with
  | '+' :: digits => if isDigits digits then unsignedWord? (digitsValue 10 digits) else none
  | digits => if isDigits digits then unsignedWord? (digitsValue 10 digits) else none

end Text

end FlowExpr
