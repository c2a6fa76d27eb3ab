import FlowExpr.Power

namespace FlowExpr.Binary64

-- The bits of a float: sign, eleven bits of exponent, fifty-two bits of fraction.
def isNegative (x : Float) : Bool :=
  twoPow 63 ≤ x.toBits.toNat

def exponentField (x : Float) : Nat :=
  x.toBits.toNat / twoPow 52 % twoPow 11

def fractionField (x : Float) : Nat :=
  x.toBits.toNat % twoPow 52

def isFinite (x : Float) : Bool :=
  exponentField x != 2047

def isNaN (x : Float) : Bool :=
  exponentField x == 2047 && fractionField x != 0

def isInfinite (x : Float) : Bool :=
  exponentField x == 2047 && fractionField x == 0

def nan : Float :=
  Float.ofBits 0x7ff8000000000000

def infinity : Float :=
  Float.ofBits 0x7ff0000000000000

-- A finite float has the absolute value `significand x * 2 ^ exponent x`.
def significand (x : Float) : Nat :=
  if exponentField x = 0 then fractionField x else twoPow 52 + fractionField x

def exponent (x : Float) : Int :=
  if exponentField x = 0 then -1074 else (exponentField x : Int) - 1075

-- `2 ^ e` times a natural number, where the product is an integer or is cut to one.
def scale (m : Nat) (e : Int) : Nat :=
  if 0 ≤ e then m * twoPow e.toNat else m / twoPow (-e).toNat

-- The float `m * 2 ^ e` with the given sign, for a product that a float can hold.
def ofParts (negative : Bool) (m : Nat) (e : Int) : Float :=
  let sign := if negative then twoPow 63 else 0
  if m = 0 then Float.ofBits (UInt64.ofNat sign)
  else
    let up := min (52 - (Nat.log2 m : Int)) (e + 1074)
    let m := scale m up
    let e := e - up
    let body := if m < twoPow 52 then m else (e + 1075).toNat * twoPow 52 + (m - twoPow 52)
    Float.ofBits (UInt64.ofNat (sign + body))

def withSign (negative : Bool) (x : Float) : Float :=
  if negative then -x else x

-- Whether a float is finite and has no fractional part.
def isIntegral (x : Float) : Bool :=
  isFinite x && (0 ≤ exponent x || significand x % twoPow (-exponent x).toNat == 0)

-- The integer part of the absolute value.
def magnitude (x : Float) : Nat :=
  scale (significand x) (exponent x)

-- A finite float without its fractional part.
def truncate (x : Float) : Int :=
  if isNegative x then -(magnitude x : Int) else magnitude x

-- The remainder of the truncated quotient. It has the sign of the dividend and is exact.
def remainder (x y : Float) : Float :=
  if !isFinite x || isNaN y || y == 0 then nan
  else if !isFinite y then x
  else
    let e := min (exponent x) (exponent y)
    let dividend := scale (significand x) (exponent x - e)
    let divisor := scale (significand y) (exponent y - e)
    ofParts (isNegative x) (dividend % divisor) e

-- The nearest integer to a float that is not negative, a half going up.
def round (x : Float) : Float :=
  if !isFinite x || 0 ≤ exponent x then x
  else
    let unit := twoPow (-exponent x).toNat
    Float.ofNat ((2 * significand x + unit) / (2 * unit))

end FlowExpr.Binary64
