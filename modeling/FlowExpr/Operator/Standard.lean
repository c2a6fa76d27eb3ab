import FlowExpr.Operator.Arithmetic
import FlowExpr.Operator.Order
import FlowExpr.Value.Equality
import FlowExpr.Value.Text

namespace FlowExpr.Operator

-- Joins texts when either side is one, and adds numbers otherwise.
def plus (left right : Value) : Except EvalFault Value :=
  match left, right with
  | .string s, right => .ok (.string (s ++ right.text))
  | left, .string t => .ok (.string (left.text ++ t))
  | left, right => arithmetic add left right

-- Both operands are values already, so the logical operators only choose between them.
def apply (op : Operator) (left right : Value) : Except EvalFault Value :=
  match op with
  | or => .ok (if left.isTruthy then left else right)
  | and => .ok (if left.isTruthy then right else left)
  | equal => .ok (.bool (left.looseEquals right))
  | strictEqual => .ok (.bool (left.strictEquals right))
  | notEqual => .ok (.bool (!left.looseEquals right))
  | strictNotEqual => .ok (.bool (!left.strictEquals right))
  | less => comparison Ordering.isLT left right
  | lessEqual => comparison Ordering.isLE left right
  | greater => comparison Ordering.isGT left right
  | greaterEqual => comparison Ordering.isGE left right
  | add => plus left right
  | subtract => arithmetic subtract left right
  | multiply => arithmetic multiply left right
  | divide => arithmetic divide left right
  | modulo => arithmetic modulo left right
  | coalesce => .ok (if left.isNullish then right else left)

end FlowExpr.Operator
