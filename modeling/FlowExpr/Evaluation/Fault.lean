import FlowExpr.Operator

namespace FlowExpr

-- Why a well-formed expression has no value.
inductive EvalFault where
  | unknownOperator (op : Operator)
  | nonNumeric (op : Operator)
  | divisionByZero
  | incomparable (left right : String)
  | unordered (type : String)
  | objectSpread
  | arraySpread
  | functionNotAllowed (name : String)
  | operationFailed (text : String)
  | keylessEntry
deriving DecidableEq, Repr

namespace EvalFault

def message : EvalFault → String
  | unknownOperator op => s!"unknown operator '{op.symbol}'"
  | nonNumeric op => s!"cannot perform {op.symbol} on non-numeric values"
  | divisionByZero => "division/modulo by zero"
  | incomparable left right =>
    s!"cannot compare values of different types ({left} and {right})"
  | unordered type => s!"cannot compare {type} values"
  | objectSpread => "invalid spread operator usage: can only spread objects"
  | arraySpread => "invalid spread operator usage: can only spread arrays or objects"
  | functionNotAllowed name => s!"function '{name}' is not allowed"
  | operationFailed text => s!"failed to evaluate operation: {text}"
  | keylessEntry => "malformed expression node: object property without a key"

end EvalFault

end FlowExpr
