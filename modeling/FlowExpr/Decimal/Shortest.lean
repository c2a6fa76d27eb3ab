import FlowExpr.Binary64

namespace FlowExpr.Decimal

-- A decimal `0.d₁d₂… * 10 ^ point`: digits, the most significant first, and where the point stands.
structure Expansion where
  digits : List Nat
  point : Int
deriving DecidableEq, Repr

-- Which of two decimals a number exactly between them is written as.
inductive Tie where
  | up
  | even
deriving DecidableEq, Repr

def digitCount (n : Nat) : Nat :=
  (Nat.toDigits 10 n).length

def digitsOf (n : Nat) : List Nat :=
  (Nat.toDigits 10 n).map fun c => c.toNat - '0'.toNat

-- A positive quotient `num / den` and the open or closed interval of quotients that round to the
-- same float: `below` and `above` are the distances to its two ends over the same denominator.
structure Neighbourhood where
  num : Nat
  den : Nat
  below : Nat
  above : Nat
  closed : Bool

-- The interval of reals that round to a positive finite float. It is twice as wide above as below
-- where the exponent changes, and holds its ends when the significand is even.
def neighbourhood (x : Float) : Neighbourhood :=
  let m := Binary64.significand x
  let e := Binary64.exponent x - 2
  let below := if m = twoPow 52 ∧ -1074 < Binary64.exponent x then 1 else 2
  let up := twoPow e.toNat
  { num := 4 * m * up
    den := twoPow (-e).toNat
    below := below * up
    above := 2 * up
    closed := m % 2 == 0 }

namespace Neighbourhood

-- Whether the decimal `n / den'` rounds to the float, given both over one denominator.
def holds (v : Neighbourhood) (num den : Nat) : Bool :=
  let scaled := num * v.den
  let low := (v.num - v.below) * den
  let high := (v.num + v.above) * den
  if v.closed then low ≤ scaled && scaled ≤ high else low < scaled && scaled < high

-- The number of digits before the point of the quotient; zero or less when it is below one tenth
-- of its unit.
def pointOf (v : Neighbourhood) : Int :=
  if v.den ≤ v.num then digitCount (v.num / v.den)
  else
    let d := digitCount (v.den / v.num)
    if v.den ≤ v.num * tenPow (d - 1) then 2 - (d : Int) else 1 - (d : Int)

-- The decimal of `count` digits that rounds to the float and is nearest to it. On the grid of
-- that many digits only the two neighbours of the quotient can do so if any can.
def onGrid (tie : Tie) (v : Neighbourhood) (count : Nat) : Option Nat :=
  let shift := (count : Int) - v.pointOf
  let num := v.num * tenPow shift.toNat
  let den := v.den * tenPow (-shift).toNat
  let low := num / den
  let fits (n : Nat) := v.holds (n * tenPow (-shift).toNat) (tenPow shift.toNat)
  let twice := 2 * (num % den)
  let upper := den < twice || twice == den && (tie == .up || low % 2 == 1)
  if fits low && fits (low + 1) then some (if upper then low + 1 else low)
  else if fits low then some low
  else if fits (low + 1) then some (low + 1)
  else none

end Neighbourhood

def dropTrailingZeros (digits : List Nat) : List Nat :=
  (digits.reverse.dropWhile (· == 0)).reverse

-- The fewest digits that read back as the same positive finite float, and the nearest such digits.
def shortest (tie : Tie) (x : Float) : Expansion :=
  let v := neighbourhood x
  match (List.range 17).findSome? fun i => (v.onGrid tie (i + 1)).map fun n => (i + 1, n) with
  | some (count, n) =>
    -- the upper neighbour of nine, ninety-nine, … has one digit more
    { digits := dropTrailingZeros (digitsOf n)
      point := v.pointOf + digitCount n - count }
  | none => ⟨[], 0⟩

end FlowExpr.Decimal
