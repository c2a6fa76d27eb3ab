import FlowExpr.Binary64

namespace FlowExpr.Decimal

-- The decimal `± mantissa / 10 ^ scale`. The mantissa stays below `2 ^ 96` and the scale within 28.
structure Scaled where
  negative : Bool
  mantissa : Nat
  scale : Nat
deriving DecidableEq, Repr

namespace Scaled

def mantissaBound : Nat :=
  twoPow 96

def maxScale : Nat :=
  28

def ofInt (n : Int) : Scaled :=
  ⟨n < 0, n.natAbs, 0⟩

-- Trades `2 ^ -k` for `5 ^ k / 10 ^ k`, one step at a time, and gives up a low bit where the
-- mantissa would outgrow its bound.
def clearHalves : Nat → Nat → Int → Nat × Int
  | 0, m, power => (m, power)
  | k + 1, m, power =>
    if m % 2 = 1 ∧ 5 * m < mantissaBound then clearHalves k (5 * m) power
    else clearHalves k (m / 2) (power + 1)

-- Trades `2 ^ k` for a larger mantissa while that has room, then for powers of ten.
def clearDoubles : Nat → Nat → Int → Option (Nat × Int)
  | 0, m, power => some (m, power)
  | k + 1, m, power =>
    if m < twoPow 95 then clearDoubles k (2 * m) (power - 1)
    else if (k : Int) + 1 < 2 * power then none
    else clearDoubles k (m / 5) power

-- Multiplies out a positive power of ten.
def clearTens : Nat → Nat → Option Nat
  | 0, m => some m
  | k + 1, m => if 10 * m < mantissaBound then clearTens k (10 * m) else none

def dropDigit (m : Nat) : Nat :=
  if 5 ≤ m % 10 then m / 10 + 1 else m / 10

-- Drops the digits beyond the largest scale. A mantissa that vanishes leaves plain zero.
def dropExcess : Nat → Nat → Nat → Nat × Nat
  | 0, m, scale => (m, scale)
  | k + 1, m, scale => if m / 10 = 0 then (0, 0) else dropExcess k (dropDigit m) (scale - 1)

-- Rounds to the digits that a significand of 53 bits can tell apart.
def dropNoise : Nat → Nat → Nat × Nat
  | 0, m => (m, 0)
  | scale + 1, m => if twoPow 52 ≤ m then dropNoise scale (dropDigit m) else (m, scale + 1)

def dropZeros : Nat → Nat → Nat × Nat
  | 0, m => (m, 0)
  | scale + 1, m => if m % 10 = 0 then dropZeros scale (m / 10) else (m, scale + 1)

-- The decimal that stands for a float, if it has one.
def ofFloat? (x : Float) : Option Scaled :=
  let negative := Binary64.isNegative x
  if !Binary64.isFinite x then none
  else if Binary64.significand x = 0 then some ⟨negative, 0, 0⟩
  else do
    let e := Binary64.exponent x
    let (m, power) ← if e ≤ 0 then some (clearHalves (-e).toNat (Binary64.significand x) e)
      else clearDoubles e.toNat (Binary64.significand x) e
    let m ← clearTens power.toNat m
    let scale := (-power).toNat
    let (m, scale) := dropExcess (scale - maxScale) m scale
    let (m, scale) := dropNoise scale m
    let (m, scale) := dropZeros scale m
    some ⟨negative, m, scale⟩

def isZero (d : Scaled) : Bool :=
  d.mantissa == 0

def neg (d : Scaled) : Scaled :=
  { d with negative := !d.negative }

-- The integer over `10 ^ scale` that a decimal is at some scale not below its own.
def unitsAt (d : Scaled) (scale : Nat) : Int :=
  let units : Int := d.mantissa * tenPow (scale - d.scale)
  if d.negative then -units else units

-- The nearest integer to `m / 10 ^ k`, a half going to the even neighbour.
def halfEven (m k : Nat) : Nat :=
  let unit := tenPow k
  let twice := 2 * (m % unit)
  if unit < twice ∨ twice = unit ∧ m / unit % 2 = 1 then m / unit + 1 else m / unit

-- Lowers the scale of an exact result by as few digits as bring it within both bounds.
def fit? (negative : Bool) (m scale : Nat) : Option Scaled :=
  (List.range (scale + 1)).findSome? fun dropped =>
    let rounded := halfEven m dropped
    if scale - dropped ≤ maxScale ∧ rounded < mantissaBound then
      some ⟨negative, rounded, scale - dropped⟩
    else none

def add? (a b : Scaled) : Option Scaled :=
  if a.isZero then some b
  else if b.isZero then some a
  else
    let scale := max a.scale b.scale
    let units := a.unitsAt scale + b.unitsAt scale
    fit? (units < 0) units.natAbs scale

def sub? (a b : Scaled) : Option Scaled :=
  add? a b.neg

def mul? (a b : Scaled) : Option Scaled :=
  if a.isZero || b.isZero then some ⟨false, 0, 0⟩
  else fit? (a.negative != b.negative) (a.mantissa * b.mantissa) (a.scale + b.scale)

-- The largest number of further digits, up to a limit, that a quotient has room for.
def roomUpTo (q : Nat) : Nat → Nat
  | 0 => 0
  | p + 1 => if q * tenPow (p + 1) < mantissaBound then p + 1 else roomUpTo q p

-- At most nine digits are added at a time, and none beyond the largest scale.
def room (q : Nat) (scale : Int) : Nat :=
  roomUpTo q (min 9 (28 - scale).toNat)

theorem roomUpTo_le (q limit : Nat) : roomUpTo q limit ≤ limit := by
  induction limit with
  | zero => simp [roomUpTo]
  | succ p ih =>
    rw [roomUpTo]
    split
    · exact Nat.le_refl _
    · exact Nat.le_succ_of_le ih

-- The end of a division that met a remainder on its way. A quotient that has outgrown the bound
-- gives up its last digit: a half goes up if anything remains below it, and to the even neighbour
-- otherwise.
def settle? (q : Nat) (scale : Int) (remains : Bool) : Option (Nat × Int × Bool) :=
  if q < mantissaBound then some (q, scale, true)
  else if scale ≤ 0 then none
  else if 5 < q % 10 ∨ q % 10 = 5 ∧ (remains ∨ q / 10 % 2 = 1) then
    some (q / 10 + 1, scale - 1, true)
  else some (q / 10, scale - 1, true)

-- Long division: a quotient so far, what remains over the divisor, the scale, and whether a
-- remainder was ever met. It ends at a remainder of zero, when no further digit fits and the
-- quotient is rounded half to even, or when the digits that were added outgrow the bound.
def divideFrom (divisor q rem : Nat) (scale : Int) (inexact : Bool) : Option (Nat × Int × Bool) :=
  if rem = 0 then
    if 0 ≤ scale then some (q, scale, inexact)
    else
      let p := min 9 (-scale).toNat
      if q * tenPow p < mantissaBound then divideFrom divisor (q * tenPow p) 0 (scale + p) inexact
      else none
  else
    let p := room q scale
    if p < 9 ∧ scale + p < 0 then none
    else if p = 0 then
      settle? (if divisor < 2 * rem ∨ 2 * rem = divisor ∧ q % 2 = 1 then q + 1 else q) scale true
    else
      let next := rem * tenPow p
      let longer := q * tenPow p + next / divisor
      if longer < mantissaBound then divideFrom divisor longer (next % divisor) (scale + p) true
      else settle? longer (scale + p) (next % divisor != 0)
termination_by (28 - scale).toNat
decreasing_by
  · omega
  · have hroom : room q scale ≤ min 9 (28 - scale).toNat := roomUpTo_le _ _
    omega

def stripOnce (digits : Nat) (q scale : Nat) : Nat × Nat :=
  if q % twoPow digits = 0 ∧ digits ≤ scale ∧ q % tenPow digits = 0 then
    (q / tenPow digits, scale - digits)
  else (q, scale)

-- Strips eight zeros at a time for as long as the low 32 bits are clear.
def stripEights (q scale : Nat) : Nat × Nat :=
  if q % twoPow 32 = 0 ∧ 8 ≤ scale ∧ q % tenPow 8 = 0 then stripEights (q / tenPow 8) (scale - 8)
  else (q, scale)
termination_by scale

-- Strips the zeros that an inexact division may leave behind the quotient.
def stripZeros (q scale : Nat) : Nat × Nat :=
  let (q, scale) := stripEights q scale
  let (q, scale) := stripOnce 4 q scale
  let (q, scale) := stripOnce 2 q scale
  stripOnce 1 q scale

def div? (a b : Scaled) : Option Scaled :=
  if b.isZero then none
  else if a.isZero then some ⟨false, 0, 0⟩
  else do
    let (q, scale, inexact) ← divideFrom b.mantissa (a.mantissa / b.mantissa)
      (a.mantissa % b.mantissa) ((a.scale : Int) - b.scale) false
    let (q, scale) := if inexact then stripZeros q scale.toNat else (q, scale.toNat)
    some ⟨a.negative != b.negative, q, scale⟩

def rem? (a b : Scaled) : Option Scaled :=
  if b.isZero then none
  else
    let scale := max a.scale b.scale
    let units := (a.unitsAt scale).natAbs % (b.unitsAt scale).natAbs
    some ⟨a.negative, units, scale⟩

-- The integer that a decimal is, if it is one.
def toInt? (d : Scaled) : Option Int :=
  if d.mantissa % tenPow d.scale = 0 then
    let n : Int := d.mantissa / tenPow d.scale
    some (if d.negative then -n else n)
  else none

-- A float for a decimal: the integer part and the fractional part are converted apart, and their
-- sum is rounded to as many places as the scale has.
def toFloat (d : Scaled) : Float :=
  let unit := tenPow d.scale
  let whole := Float.ofNat (d.mantissa / unit)
  let fraction := Float.ofNat (d.mantissa % unit) / Float.ofNat unit
  Binary64.withSign d.negative <|
    if d.scale = 0 || fraction == 0 then whole
    else Binary64.round ((whole + fraction) * Float.ofNat unit) / Float.ofNat unit

end Scaled

end FlowExpr.Decimal
