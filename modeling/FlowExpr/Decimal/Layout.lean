import FlowExpr.Decimal.Shortest

namespace FlowExpr.Decimal

-- How a float is written: where positional notation ends, whether an integral value keeps a
-- fractional zero, and which way an exact tie between two shortest decimals goes.
structure Layout where
  positional : Int → Bool
  pointZero : Bool
  tie : Tie

def digitText (digits : List Nat) : String :=
  String.ofList (digits.map fun d => Char.ofNat ('0'.toNat + d))

def zeros (n : Nat) : String :=
  String.ofList (List.replicate n '0')

-- A point stands inside the digits, after zeros that follow them, or before zeros ahead of them.
def Expansion.positional (d : Expansion) (pointZero : Bool) : String :=
  let length : Int := d.digits.length
  if length ≤ d.point then
    digitText d.digits ++ zeros (d.point - length).toNat ++ (if pointZero then ".0" else "")
  else if 0 < d.point then
    digitText (d.digits.take d.point.toNat) ++ "." ++ digitText (d.digits.drop d.point.toNat)
  else
    "0." ++ zeros (-d.point).toNat ++ digitText d.digits

-- One digit before the point, and an exponent with its sign.
def Expansion.scientific (d : Expansion) : String :=
  let fraction := d.digits.drop 1
  let exponent := d.point - 1
  digitText (d.digits.take 1) ++ (if fraction.isEmpty then "" else "." ++ digitText fraction) ++
    (if exponent < 0 then "e-" else "e+") ++ toString exponent.natAbs

namespace Layout

-- Values in expressions are always written out, and an integral float as an integer.
def plain : Layout :=
  ⟨fun _ => true, false, .up⟩

-- In JSON an exponent is written outside the range from -5 to 15, and an integral float keeps a
-- zero after the point.
def json : Layout :=
  ⟨fun exponent => -5 ≤ exponent && exponent ≤ 15, true, .even⟩

-- The text of a finite float.
def write (layout : Layout) (x : Float) : String :=
  let sign := if Binary64.isNegative x then "-" else ""
  if Binary64.significand x = 0 then sign ++ (if layout.pointZero then "0.0" else "0")
  else
    let digits := shortest layout.tie x
    sign ++ (if layout.positional (digits.point - 1) then digits.positional layout.pointZero
      else digits.scientific)

end Layout

end FlowExpr.Decimal
