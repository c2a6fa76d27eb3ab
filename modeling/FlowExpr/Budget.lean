import FlowExpr.Fields

namespace FlowExpr

-- The step that an expression belongs to.
structure Step where
  name : String
  kind : Option String
deriving DecidableEq, Repr

-- Time budgets in milliseconds: for single steps, for kinds of step, and for all others.
structure Timeouts where
  standard : Nat
  steps : List (String × Nat)
  kinds : List (String × Nat)
deriving DecidableEq, Repr

namespace Timeouts

def standardMilliseconds : Nat :=
  1000

def default : Timeouts :=
  ⟨standardMilliseconds, [], []⟩

-- The budget of a step. Its own comes first, then that of its kind.
def budget (t : Timeouts) : Option Step → Nat
  | none => t.standard
  | some step =>
    match Fields.get? step.name t.steps, step.kind with
    | some milliseconds, _ => milliseconds
    | none, some kind => (Fields.get? kind t.kinds).getD t.standard
    | none, none => t.standard

end Timeouts

-- An evaluation that ran past its budget. The two times are in microseconds.
structure Timeout where
  expression : String
  elapsed : Nat
  limit : Nat
deriving DecidableEq, Repr

def Timeout.message (t : Timeout) : String :=
  s!"expression evaluation timed out after {t.elapsed / 1000}ms (limit {t.limit / 1000}ms): " ++
    t.expression

-- A budget that an evaluation works under, in milliseconds, and the time that has gone when it is
-- looked at, in microseconds. Without a budget there is no limit.
structure Deadline where
  expression : String
  elapsed : Nat
  budget : Option Nat
deriving DecidableEq, Repr

namespace Deadline

-- No clock is read: no time has gone when an evaluation looks at its budget. This is meant for no
-- budget, and for a budget of zero, which is used up at any time. Every other budget is one that an
-- evaluation ends within, which nothing here decides.
def start (expression : String) (budget : Option Nat) : Deadline :=
  ⟨expression, 0, budget⟩

def check (d : Deadline) : Except Timeout Unit :=
  match d.budget with
  | none => .ok ()
  | some milliseconds =>
    if milliseconds * 1000 ≤ d.elapsed then
      .error ⟨d.expression, d.elapsed, milliseconds * 1000⟩
    else .ok ()

end Deadline

end FlowExpr
