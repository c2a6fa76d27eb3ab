import FlowExpr.Limits
import FlowExpr.Token

namespace FlowExpr

-- Why a run of tokens is no expression.
inductive SyntaxFault where
  | emptyExpression
  | unexpected (kind : Token.Kind) (raw : String)
  | mismatchedParentheses
  | invalidExpression
  | invalidNumber (raw : String)
  | unsupportedOperator (raw : String)
  | invalidKey
  | missingKey
  | missingValue (key : String)
  | emptyElement (group : String)
  | missingSpreadValue
  | spreadInCall (name : String)
  | mismatchedCall (name : String)
  | tooDeep
deriving DecidableEq, Repr

namespace SyntaxFault

def message : SyntaxFault → String
  | emptyExpression => "empty expression"
  | unexpected kind raw => s!"Unexpected {kind.description} '{raw}'"
  | mismatchedParentheses => "mismatched parentheses"
  | invalidExpression => "invalid expression"
  | invalidNumber raw => s!"invalid number '{raw}'"
  | unsupportedOperator raw => s!"unsupported operator '{raw}'"
  | invalidKey => "invalid object literal: invalid key"
  | missingKey => "invalid object literal: missing key"
  | missingValue key => s!"invalid object literal: missing value for key '{key}'"
  | emptyElement group => s!"invalid {group} literal: empty element"
  | missingSpreadValue => "invalid spread operator usage: missing value after '...'"
  | spreadInCall name => s!"invalid spread operator usage: cannot spread arguments of '{name}'"
  | mismatchedCall name => s!"mismatched parentheses in call to '{name}'"
  | tooDeep => s!"expression nested too deeply (maximum depth is {maxNesting})"

end SyntaxFault

end FlowExpr
