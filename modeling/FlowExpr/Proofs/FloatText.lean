import FlowExpr.Builtin

namespace FlowExpr.Decimal

open FlowExpr.Text (isDigits)

inductive IsSign : List Char → Prop where
  | none : IsSign []
  | minus : IsSign ['-']
  | plus : IsSign ['+']

-- Digits, which may go on behind a point, or a point with digits behind it.
inductive IsMantissa : List Char → Prop where
  | whole {digits : List Char} (hdigits : isDigits digits = true) : IsMantissa digits
  | point {digits fraction : List Char} (hdigits : isDigits digits = true)
      (hfraction : ∀ c ∈ fraction, c.isDigit = true) : IsMantissa (digits ++ '.' :: fraction)
  | fraction {digits : List Char} (hdigits : isDigits digits = true) : IsMantissa ('.' :: digits)

inductive IsExponent : List Char → Prop where
  | none : IsExponent []
  | some {mark : Char} {sign digits : List Char} (hmark : mark = 'e' ∨ mark = 'E')
      (hsign : IsSign sign) (hdigits : isDigits digits = true) :
      IsExponent (mark :: (sign ++ digits))

-- The text of a float: a mantissa, with a sign in front of it and an exponent behind it if they are
-- there.
inductive IsFloatText : List Char → Prop where
  | mk {sign mantissa exponent : List Char} (hsign : IsSign sign) (hmantissa : IsMantissa mantissa)
      (hexponent : IsExponent exponent) : IsFloatText (sign ++ (mantissa ++ exponent))

-- The word for an infinite float, with a sign if it has one.
inductive IsInfinityText : List Char → Prop where
  | mk {sign : List Char} (hsign : IsSign sign) : IsInfinityText (sign ++ "Infinity".toList)

end FlowExpr.Decimal
