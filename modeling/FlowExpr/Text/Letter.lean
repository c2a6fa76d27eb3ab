import FlowExpr.Text.Alphabetic
import FlowExpr.Text.Numeric

namespace FlowExpr.Text

def isAlphanumeric (c : Char) : Bool :=
  isAlphabetic c || isNumeric c

-- The characters of a name: letters, numbers, the low line and the dollar sign.
def isNameChar (c : Char) : Bool :=
  c == '_' || c == '$' || isAlphanumeric c

-- A name starts with no number.
def isNameStart (c : Char) : Bool :=
  c == '_' || c == '$' || isAlphabetic c

end FlowExpr.Text
