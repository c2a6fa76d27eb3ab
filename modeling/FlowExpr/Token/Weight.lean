import FlowExpr.Token

namespace FlowExpr.Token

mutual
-- The number of tokens in a token, at every depth and itself included.
def weight : Token → Nat
  | text _ _ _ => 1
  | group _ _ children => runWeight children + 1

def runWeight : List Token → Nat
  | [] => 0
  | t :: rest => t.weight + runWeight rest
end

theorem weight_pos (t : Token) : 0 < t.weight := by
  cases t <;> simp [weight]

theorem runWeight_children_lt (t : Token) : runWeight t.children < t.weight := by
  cases t <;> simp [weight, children, runWeight]

theorem runWeight_tail_le (run : List Token) : runWeight run.tail ≤ runWeight run := by
  cases run <;> simp [runWeight]

end FlowExpr.Token
