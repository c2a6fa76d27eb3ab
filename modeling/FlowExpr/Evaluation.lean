import FlowExpr.Builtin
import FlowExpr.Environment
import FlowExpr.Failure
import FlowExpr.Operator.Standard
import FlowExpr.Token.Check
import FlowExpr.Tree.Parser

namespace FlowExpr

-- Why an operator failed: a cause that is passed on, or a text that is reported as a failed
-- operation.
inductive OperatorFault where
  | cause (c : Cause)
  | text (s : String)
deriving DecidableEq, Repr

-- What the operators do. An operator without an entry is unknown.
abbrev OperatorTable := Operator → Option (Value → Value → Except OperatorFault Value)

namespace OperatorTable

def standard : OperatorTable :=
  fun op => some fun left right =>
    (op.apply left right).mapError fun fault => .cause (.evaluation fault)

end OperatorTable

namespace Tree

def operatorCause : OperatorFault → Cause
  | .cause c => c
  | .text s => .evaluation (.operationFailed s)

-- The fields that a value merges into an object. An array has its indices for names.
def mergedFields : Value → Except Cause (List (String × Value))
  | .object fields => .ok fields
  | .array items => .ok (items.zipIdx.map fun (item, i) => (toString i, item))
  | _ => .error (.evaluation .objectSpread)

-- The items that a value puts into an array. The names of an object are dropped.
def mergedItems : Value → Except Cause (List Value)
  | .array items => .ok items
  | .object fields => .ok (fields.map Prod.snd)
  | _ => .error (.evaluation .arraySpread)

variable (operators : OperatorTable) (env : Environment) (locals : Scope)

mutual
-- The value of a tree. Operands, entries, items and arguments are evaluated from left to right,
-- after the operator or the function has been found.
def evaluate : Tree → Except Cause Value
  | literal v => .ok v
  | reference path =>
    match env.resolve locals path with
    | .ok v => .ok v
    | .error fault => .error (.reference fault)
  | operation op left right =>
    match operators op with
    | none => .error (.evaluation (.unknownOperator op))
    | some apply =>
      match evaluate left with
      | .error c => .error c
      | .ok l =>
        match evaluate right with
        | .error c => .error c
        | .ok r =>
          match apply l r with
          | .ok v => .ok v
          | .error fault => .error (operatorCause fault)
  | object entries =>
    match evaluateEntries entries with
    | .error c => .error c
    | .ok fields => .ok (.object (Fields.ofList fields))
  | array items =>
    match evaluateItems items with
    | .error c => .error c
    | .ok values => .ok (.array values)
  | call name args =>
    match Builtin.ofName? name with
    | none => .error (.evaluation (.functionNotAllowed name))
    | some f =>
      match evaluateArgs args with
      | .error c => .error c
      | .ok values => .ok (f.call values)

-- The fields that one entry contributes.
def evaluateEntry : Entry → Except Cause (List (String × Value))
  | .keyed key value =>
    match evaluate value with
    | .error c => .error c
    | .ok v => .ok [(key, v)]
  | .spread value =>
    match evaluate value with
    | .error c => .error c
    | .ok v => mergedFields v
  | .keyless value =>
    match evaluate value with
    | .error c => .error c
    | .ok _ => .error (.evaluation .keylessEntry)

-- All fields that entries contribute, in order. A name may occur more than once.
def evaluateEntries : List Entry → Except Cause (List (String × Value))
  | [] => .ok []
  | entry :: rest =>
    match evaluateEntry entry with
    | .error c => .error c
    | .ok fields => (evaluateEntries rest).map (fields ++ ·)

def evaluateItem : Item → Except Cause (List Value)
  | .single value =>
    match evaluate value with
    | .error c => .error c
    | .ok v => .ok [v]
  | .spread value =>
    match evaluate value with
    | .error c => .error c
    | .ok v => mergedItems v

def evaluateItems : List Item → Except Cause (List Value)
  | [] => .ok []
  | item :: rest =>
    match evaluateItem item with
    | .error c => .error c
    | .ok values => (evaluateItems rest).map (values ++ ·)

def evaluateArgs : List Tree → Except Cause (List Value)
  | [] => .ok []
  | arg :: rest =>
    match evaluate arg with
    | .error c => .error c
    | .ok v => (evaluateArgs rest).map (v :: ·)
end

end Tree

-- What expressions are evaluated with. Without timeouts no evaluation runs out of time. With them
-- one under a budget of zero does, and others are taken to end in time.
structure Evaluator where
  environment : Environment
  operators : OperatorTable
  timeouts : Option Timeouts
  maxLength : Nat

namespace Evaluator

def ofEnvironment (env : Environment) : Evaluator :=
  ⟨env, .standard, some .default, defaultMaxLength⟩

-- Reads and evaluates an expression that has passed the guard. A budget of zero shows when the
-- tokens are about to be parsed. As there is no clock, it is not looked at again after that.
def run (e : Evaluator) (expression : String) (locals : Scope) (deadline : Deadline) :
    Except Cause Value :=
  match Token.read expression with
  | .error fault => .error (.lexical fault)
  | .ok tokens =>
    match deadline.check with
    | .error t => .error (.timeout t)
    | .ok () =>
      match Tree.parse tokens with
      | .error fault => .error (.grammar fault)
      | .ok tree => tree.evaluate e.operators e.environment locals

-- The value of an expression. The variables hide the results of steps, and the step chooses the
-- time budget.
def evaluate (e : Evaluator) (expression : String) (locals : Scope) (step : Option Step) :
    Except Failure Value :=
  match Guard.check expression e.maxLength with
  | .error fault => .error (.bare (.guard fault))
  | .ok () =>
    match e.run expression locals (.start expression (e.timeouts.map (·.budget step))) with
    | .error c => .error ((Failure.bare c).within expression)
    | .ok v => .ok v

end Evaluator

end FlowExpr
