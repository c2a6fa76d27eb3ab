import FlowExpr.Value.Json
import FlowExpr.Json.Printer

namespace FlowExpr.Value

def floatText (x : Float) : String :=
  if Binary64.isNaN x then "NaN"
  else if Binary64.isInfinite x then (if Binary64.isNegative x then "-Infinity" else "Infinity")
  else Decimal.Layout.plain.write x

-- The text of a value in a concatenation: scalars as they are written in an expression, arrays and
-- objects as JSON.
def text : Value → String
  | undefined => "undefined"
  | null => "null"
  | bool true => "true"
  | bool false => "false"
  | int n => toString n.toInt
  | float x => floatText x
  | string s => s
  | array items => (toJson (array items)).compact
  | object fields => (toJson (object fields)).compact

end FlowExpr.Value
