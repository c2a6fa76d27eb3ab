namespace FlowExpr

-- The binary operators, the only operators of the language.
inductive Operator where
  | or
  | and
  | equal
  | strictEqual
  | notEqual
  | strictNotEqual
  | less
  | lessEqual
  | greater
  | greaterEqual
  | add
  | subtract
  | multiply
  | divide
  | modulo
  | coalesce
deriving DecidableEq, Repr

namespace Operator

def symbol : Operator → String
  | or => "||"
  | and => "&&"
  | equal => "=="
  | strictEqual => "==="
  | notEqual => "!="
  | strictNotEqual => "!=="
  | less => "<"
  | lessEqual => "<="
  | greater => ">"
  | greaterEqual => ">="
  | add => "+"
  | subtract => "-"
  | multiply => "*"
  | divide => "/"
  | modulo => "%"
  | coalesce => "??"

-- How tightly an operator binds. The coalescing operator binds tightest of all.
def precedence : Operator → Nat
  | or => 1
  | and => 2
  | equal => 3
  | strictEqual => 3
  | notEqual => 3
  | strictNotEqual => 3
  | less => 4
  | lessEqual => 4
  | greater => 4
  | greaterEqual => 4
  | add => 5
  | subtract => 5
  | multiply => 6
  | divide => 6
  | modulo => 6
  | coalesce => 7

-- All operators, in an order in which no symbol stands behind a shorter one that begins it.
def all : List Operator :=
  [strictEqual, strictNotEqual, equal, notEqual, lessEqual, greaterEqual, and, or, coalesce, less,
   greater, add, subtract, multiply, divide, modulo]

def ofSymbol? (symbol : String) : Option Operator :=
  all.find? fun op => op.symbol == symbol

theorem ofSymbol?_symbol (op : Operator) : ofSymbol? op.symbol = some op := by
  cases op <;> decide

end Operator

end FlowExpr
