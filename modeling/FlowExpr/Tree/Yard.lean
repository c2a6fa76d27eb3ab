import FlowExpr.Tree
import FlowExpr.Tree.Fault

namespace FlowExpr

-- A tree with its height.
structure Parsed where
  tree : Tree
  height : Nat

namespace Parsed

def leaf (tree : Tree) : Parsed :=
  ⟨tree, 1⟩

-- A node over parts of which the tallest is so high. Without a limit any height is accepted.
def branch (limit : Option Nat) (tree : Tree) (tallest : Nat) : Except SyntaxFault Parsed :=
  if limit.any (· < tallest + 1) then .error .tooDeep else .ok ⟨tree, tallest + 1⟩

end Parsed

-- What waits for its right operand, or for its closing parenthesis.
inductive Held where
  | operator (op : Operator)
  | parenthesis
deriving DecidableEq, Repr

-- The state of reading a run of operands and operators: the parsed operands and the held operators,
-- the latest first, and whether an operator must come next.
structure Yard where
  output : List Parsed
  held : List Held
  expectsOperator : Bool

namespace Yard

def empty : Yard :=
  ⟨[], [], false⟩

def unexpected (t : Token) : SyntaxFault :=
  .unexpected t.kind t.raw

-- Joins the two latest operands.
def reduce (limit : Option Nat) (op : Operator) : List Parsed → Except SyntaxFault (List Parsed)
  | right :: left :: rest =>
    (Parsed.branch limit (.operation op left.tree right.tree) (max left.height right.height)).map
      (· :: rest)
  | _ => .error .invalidExpression

-- Joins operands for as long as the latest operator binds at least as tightly as a precedence, so
-- that equal precedence groups to the left.
def reduceTo (limit : Option Nat) (precedence : Nat) :
    List Held → List Parsed → Except SyntaxFault (List Held × List Parsed)
  | .operator top :: held, output =>
    if precedence ≤ top.precedence then
      match reduce limit top output with
      | .ok output => reduceTo limit precedence held output
      | .error fault => .error fault
    else .ok (.operator top :: held, output)
  | held, output => .ok (held, output)

-- Joins operands back to the latest parenthesis and drops that.
def reduceToParenthesis (limit : Option Nat) :
    List Held → List Parsed → Except SyntaxFault (List Held × List Parsed)
  | .operator top :: held, output =>
    match reduce limit top output with
    | .ok output => reduceToParenthesis limit held output
    | .error fault => .error fault
  | .parenthesis :: held, output => .ok (held, output)
  | [], _ => .error .mismatchedParentheses

def reduceAll (limit : Option Nat) : List Held → List Parsed → Except SyntaxFault (List Parsed)
  | .operator top :: held, output =>
    match reduce limit top output with
    | .ok output => reduceAll limit held output
    | .error fault => .error fault
  | .parenthesis :: _, _ => .error .mismatchedParentheses
  | [], output => .ok output

def pushOperand (y : Yard) (operand : Parsed) : Yard :=
  ⟨operand :: y.output, y.held, true⟩

def pushOperator (limit : Option Nat) (y : Yard) (t : Token) : Except SyntaxFault Yard :=
  if !y.expectsOperator then .error (unexpected t)
  else
    match Operator.ofSymbol? t.raw with
    | none => .error (.unsupportedOperator t.raw)
    | some op =>
      (reduceTo limit op.precedence y.held y.output).map fun (held, output) =>
        ⟨output, .operator op :: held, false⟩

def openParenthesis (y : Yard) (t : Token) : Except SyntaxFault Yard :=
  if y.expectsOperator then .error (unexpected t)
  else .ok ⟨y.output, .parenthesis :: y.held, false⟩

def closeParenthesis (limit : Option Nat) (y : Yard) (t : Token) : Except SyntaxFault Yard :=
  if !y.expectsOperator then .error (unexpected t)
  else
    (reduceToParenthesis limit y.held y.output).map fun (held, output) => ⟨output, held, true⟩

def pushPunctuation (limit : Option Nat) (y : Yard) (t : Token) : Except SyntaxFault Yard :=
  if t.raw = "(" then y.openParenthesis t
  else if t.raw = ")" then y.closeParenthesis limit t
  else .error (unexpected t)

-- Joins all that is held. One operand must be left.
def finish (limit : Option Nat) (y : Yard) : Except SyntaxFault Parsed :=
  match reduceAll limit y.held y.output with
  | .ok [operand] => .ok operand
  | .ok _ => .error .invalidExpression
  | .error fault => .error fault

end Yard

end FlowExpr
