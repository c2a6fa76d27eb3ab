import FlowExpr.Value
import FlowExpr.Text.Blank
import FlowExpr.Text.Whole
import FlowExpr.Decimal.Numeral

namespace FlowExpr.Value

-- The characters of a number that is written in digits. The words for infinity and NaN have others.
def isNumberChar (c : Char) : Bool :=
  c.isDigit || ['+', '-', '.', 'e', 'E'].contains c

-- The number that a text without blanks at its ends is, or NaN. The empty text is zero.
def ofNumberText (text : List Char) : Value :=
  if text.isEmpty then int 0
  else
    match Text.readSigned? text with
    | some n => int n
    | none =>
      match Decimal.readFloat? text with
      | some x => if text.all isNumberChar then float x else nan
      | none => nan

-- The number for a value: an array stands for its only item, and an empty one for zero.
def toNumber : Value → Value
  | undefined => nan
  | null => int 0
  | bool b => int (if b then 1 else 0)
  | int n => int n
  | float x => float x
  | string s => ofNumberText (Text.trim s.toList)
  | array [] => int 0
  | array [item] => toNumber item
  | array (_ :: _ :: _) => nan
  | object _ => nan

end FlowExpr.Value
