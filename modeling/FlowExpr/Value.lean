import FlowExpr.Fields
import FlowExpr.Binary64

namespace FlowExpr

-- What an expression evaluates to. Integers and floats are one runtime type and are still told
-- apart; the fields of an object keep the order in which they were first written.
inductive Value where
  | undefined
  | null
  | bool (b : Bool)
  | int (n : Int64)
  | float (x : Float)
  | string (s : String)
  | array (items : List Value)
  | object (fields : List (String × Value))
deriving Inhabited

-- Named values, in the order in which the names were first bound.
abbrev Scope := List (String × Value)

namespace Value

-- The runtime types, as messages name them.
def typeName : Value → String
  | undefined => "undefined"
  | null => "null"
  | bool _ => "boolean"
  | int _ => "number"
  | float _ => "number"
  | string _ => "string"
  | array _ => "array"
  | object _ => "object"

-- Zero, NaN, the empty string, `false`, `null` and `undefined` are falsy; an array or an object is
-- truthy even when empty.
def isTruthy : Value → Bool
  | undefined => false
  | null => false
  | bool b => b
  | int n => n != 0
  | float x => x != 0 && !Binary64.isNaN x
  | string s => s != ""
  | array _ => true
  | object _ => true

def isNullish : Value → Bool
  | undefined => true
  | null => true
  | _ => false

def isNumber : Value → Bool
  | int _ => true
  | float _ => true
  | _ => false

def asFloat? : Value → Option Float
  | int n => some (Float.ofInt n.toInt)
  | float x => some x
  | _ => none

def nan : Value :=
  float Binary64.nan

end Value

end FlowExpr
