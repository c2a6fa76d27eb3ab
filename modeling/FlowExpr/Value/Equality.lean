import FlowExpr.Value.Number

namespace FlowExpr.Value

-- Two integers are compared exactly; with a float on either side both are compared as floats.
def numbersEqual (a b : Value) : Bool :=
  match a, b with
  | int m, int n => m == n
  | _, _ =>
    match a.asFloat?, b.asFloat? with
    | some x, some y => x == y
    | _, _ => false

mutual
-- The same runtime type and the same value. Objects are compared without regard to the order of
-- their fields.
def strictEquals : Value → Value → Bool
  | undefined, undefined => true
  | null, null => true
  | bool a, bool b => a == b
  | int m, b => numbersEqual (int m) b
  | float x, b => numbersEqual (float x) b
  | string s, string t => s == t
  | array xs, array ys => itemsEqual xs ys
  | object xs, object ys => xs.length == ys.length && fieldsEqual xs ys
  | _, _ => false

def itemsEqual : List Value → List Value → Bool
  | [], [] => true
  | x :: xs, y :: ys => strictEquals x y && itemsEqual xs ys
  | _, _ => false

-- Whether every field on the left has an equal one on the right.
def fieldsEqual : List (String × Value) → List (String × Value) → Bool
  | [], _ => true
  | (name, x) :: rest, ys =>
    (match Fields.get? name ys with
      | some y => strictEquals x y
      | none => false) && fieldsEqual rest ys
end

-- A boolean as the number that it counts as.
def unboxBool : Value → Value
  | bool b => int (if b then 1 else 0)
  | v => v

-- Equality of a value that is no boolean and not nullish with another such value: a string and a
-- number are compared as numbers, all else strictly.
def looseEqualsPlain (a b : Value) : Bool :=
  match a, b with
  | string s, b =>
    if b.isNumber then numbersEqual (string s).toNumber b else strictEquals (string s) b
  | a, string t =>
    if a.isNumber then numbersEqual a (string t).toNumber else strictEquals a (string t)
  | a, b => strictEquals a b

-- `null` and `undefined` equal each other and nothing else, and booleans count as zero and one.
def looseEquals (a b : Value) : Bool :=
  if a.isNullish || b.isNullish then a.isNullish && b.isNullish
  else looseEqualsPlain a.unboxBool b.unboxBool

end FlowExpr.Value
