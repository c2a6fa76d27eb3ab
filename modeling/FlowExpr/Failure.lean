import FlowExpr.Budget
import FlowExpr.Environment.Fault
import FlowExpr.Evaluation.Fault
import FlowExpr.Guard
import FlowExpr.Token.Fault
import FlowExpr.Tree.Fault

namespace FlowExpr

-- Why an evaluation failed, by the stage that found it.
inductive Cause where
  | guard (fault : GuardFault)
  | lexical (e : Token.LexError)
  | grammar (fault : SyntaxFault)
  | reference (fault : ReferenceFault)
  | evaluation (fault : EvalFault)
  | timeout (t : Timeout)
deriving DecidableEq, Repr

-- What went wrong, roughly. The kind of a failure is that of its cause.
inductive Cause.Kind where
  | security
  | lexical
  | grammar
  | reference
  | evaluation
  | timeout
deriving DecidableEq, Repr

namespace Cause

def kind : Cause → Kind
  | guard _ => .security
  | lexical _ => .lexical
  | grammar _ => .grammar
  | reference _ => .reference
  | evaluation _ => .evaluation
  | timeout _ => .timeout

def message : Cause → String
  | guard fault => fault.message
  | lexical e => e.message
  | grammar fault => fault.message
  | reference fault => fault.message
  | evaluation fault => fault.message
  | timeout t => t.message

-- Whether a failure of this cause is reported together with the expression.
def namesExpression : Cause → Bool
  | grammar _ => true
  | reference _ => true
  | evaluation _ => true
  | _ => false

end Cause

-- A failure is a cause, or another failure together with the expression that it is reported with.
inductive Failure where
  | bare (cause : Cause)
  | reported (expression : String) (source : Failure)
deriving DecidableEq, Repr

namespace Failure

-- The innermost failure.
def cause : Failure → Cause
  | bare c => c
  | reported _ source => source.cause

def kind (f : Failure) : Cause.Kind :=
  f.cause.kind

def message : Failure → String
  | bare c => c.message
  | reported expression source =>
    s!"failed to evaluate expression: {expression}. Got error: {source.message}"

-- Adds the expression to a failure that has none and is reported with one.
def within (expression : String) : Failure → Failure
  | bare c => if c.namesExpression then reported expression (bare c) else bare c
  | f => f

end Failure

end FlowExpr
