import FlowExpr.Value
import FlowExpr.Text.Whole
import FlowExpr.Decimal.Scaled
import FlowExpr.Evaluation.Fault

namespace FlowExpr.Operator

-- The exact result on integers, where it is an integer that fits a word. A remainder is taken only
-- where the quotient fits one too.
def onIntegers? (op : Operator) (a b : Int64) : Option Int64 :=
  let m := a.toInt
  let n := b.toInt
  match op with
  | add => signedWord? (m + n)
  | subtract => signedWord? (m - n)
  | multiply => signedWord? (m * n)
  | divide => if n ≠ 0 ∧ m.tmod n = 0 then signedWord? (m.tdiv n) else none
  | modulo => if n ≠ 0 ∧ (signedWord? (m.tdiv n)).isSome then signedWord? (m.tmod n) else none
  | _ => none

def onFloats (op : Operator) (x y : Float) : Float :=
  match op with
  | add => x + y
  | subtract => x - y
  | multiply => x * y
  | divide => x / y
  | modulo => Binary64.remainder x y
  | _ => Binary64.nan

def onDecimals? (op : Operator) (a b : Decimal.Scaled) : Option Decimal.Scaled :=
  match op with
  | add => a.add? b
  | subtract => a.sub? b
  | multiply => a.mul? b
  | divide => a.div? b
  | modulo => a.rem? b
  | _ => none

-- A decimal that is an integer and fits a word becomes one, and any other a float.
def ofDecimal (d : Decimal.Scaled) : Value :=
  match d.toInt?.bind signedWord? with
  | some n => .int n
  | none => .float d.toFloat

-- An integer with a float is computed in decimals, so that `0.1 * 10` is exactly `1`. What has no
-- decimal is computed in floats.
def onMixed (op : Operator) (a b : Option Decimal.Scaled) (x y : Float) : Value :=
  match a, b with
  | some a, some b =>
    match onDecimals? op a b with
    | some d => ofDecimal d
    | none => .float (onFloats op x y)
  | _, _ => .float (onFloats op x y)

def isZero : Value → Bool
  | .int n => n == 0
  | .float x => x == 0
  | _ => false

-- Arithmetic stays with integers while that is exact, and goes over to floats otherwise.
def arithmetic (op : Operator) (left right : Value) : Except EvalFault Value :=
  if !left.isNumber || !right.isNumber then .error (.nonNumeric op)
  else if (op == divide || op == modulo) && isZero right then .error .divisionByZero
  else
    match left, right with
    | .int a, .int b =>
      match onIntegers? op a b with
      | some n => .ok (.int n)
      | none => .ok (.float (onFloats op (Float.ofInt a.toInt) (Float.ofInt b.toInt)))
    | .int a, .float y =>
      .ok (onMixed op (some (Decimal.Scaled.ofInt a.toInt)) (Decimal.Scaled.ofFloat? y)
        (Float.ofInt a.toInt) y)
    | .float x, .int b =>
      .ok (onMixed op (Decimal.Scaled.ofFloat? x) (some (Decimal.Scaled.ofInt b.toInt))
        x (Float.ofInt b.toInt))
    | .float x, .float y => .ok (.float (onFloats op x y))
    | _, _ => .error (.nonNumeric op)

end FlowExpr.Operator
