namespace FlowExpr.Text

-- The value of a digit, letters of either case standing for ten and up.
def digitValue? (radix : Nat) (c : Char) : Option Nat :=
  let value :=
    if c.isDigit then c.toNat - '0'.toNat
    else if c.isLower then c.toNat - 'a'.toNat + 10
    else if c.isUpper then c.toNat - 'A'.toNat + 10
    else radix
  if value < radix then some value else none

def isDigitOf (radix : Nat) (c : Char) : Bool :=
  (digitValue? radix c).isSome

-- The value of a run of digits, the most significant first.
def digitsValue (radix : Nat) (digits : List Char) : Nat :=
  digits.foldl (fun value c => value * radix + (digitValue? radix c).getD 0) 0

def isDigits (text : List Char) : Bool :=
  !text.isEmpty && text.all Char.isDigit

end FlowExpr.Text
