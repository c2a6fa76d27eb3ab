import FlowExpr.Value
import FlowExpr.Evaluation.Fault

namespace FlowExpr.Operator

-- The order of two floats; NaN has none.
def compareFloats (x y : Float) : Option Ordering :=
  if x < y then some .lt else if y < x then some .gt else if x == y then some .eq else none

def compareTexts (s t : String) : Ordering :=
  if s < t then .lt else if t < s then .gt else .eq

-- Numbers are ordered by size, texts by code points, and `false` comes before `true`. The two sides
-- must be of one runtime type.
def order (left right : Value) : Except EvalFault (Option Ordering) :=
  if left.typeName ≠ right.typeName then .error (.incomparable left.typeName right.typeName)
  else
    match left, right with
    | .int m, .int n => .ok (some (compare m.toInt n.toInt))
    | .string s, .string t => .ok (some (compareTexts s t))
    | .bool p, .bool q => .ok (some (compare p.toNat q.toNat))
    | a, b =>
      match a.asFloat?, b.asFloat? with
      | some x, some y => .ok (compareFloats x y)
      | _, _ => .error (.unordered left.typeName)

-- A comparison holds of an order; without an order no comparison holds.
def comparison (holds : Ordering → Bool) (left right : Value) : Except EvalFault Value :=
  (order left right).map fun found => .bool (found.any holds)

end FlowExpr.Operator
