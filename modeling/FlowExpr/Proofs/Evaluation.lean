import FlowExpr.Evaluation

namespace FlowExpr.Tree

variable {operators : OperatorTable} {env : Environment} {locals : Scope}

-- Evaluation as a chain of steps, where the first error is the outcome.
theorem evaluate_operation {op : Operator} {apply : Value → Value → Except OperatorFault Value}
    (hop : operators op = some apply) (left right : Tree) :
    (operation op left right).evaluate operators env locals =
      (left.evaluate operators env locals).bind fun l =>
        (right.evaluate operators env locals).bind fun r => (apply l r).mapError operatorCause := by
  simp only [evaluate, hop]
  cases left.evaluate operators env locals with
  | error c => rfl
  | ok l =>
      cases right.evaluate operators env locals with
      | error c => rfl
      | ok r =>
          dsimp only [Except.bind]
          cases apply l r <;> rfl

theorem evaluate_object (entries : List Entry) :
    (object entries).evaluate operators env locals =
      (evaluateEntries operators env locals entries).map
        fun fields => .object (Fields.ofList fields) := by
  rw [evaluate]
  cases evaluateEntries operators env locals entries <;> rfl

theorem evaluate_array (items : List Item) :
    (array items).evaluate operators env locals =
      (evaluateItems operators env locals items).map .array := by
  rw [evaluate]
  cases evaluateItems operators env locals items <;> rfl

theorem evaluate_call {name : String} {f : Builtin} (hf : Builtin.ofName? name = some f)
    (args : List Tree) :
    (call name args).evaluate operators env locals =
      (evaluateArgs operators env locals args).map f.call := by
  simp only [evaluate, hf]
  cases evaluateArgs operators env locals args <;> rfl

theorem evaluateEntry_keyed (key : String) (value : Tree) :
    evaluateEntry operators env locals (.keyed key value) =
      (value.evaluate operators env locals).map fun v => [(key, v)] := by
  rw [evaluateEntry]
  cases value.evaluate operators env locals <;> rfl

theorem evaluateEntry_spread (value : Tree) :
    evaluateEntry operators env locals (.spread value) =
      (value.evaluate operators env locals).bind mergedFields := by
  rw [evaluateEntry]
  cases value.evaluate operators env locals <;> rfl

theorem evaluateEntry_keyless (value : Tree) :
    evaluateEntry operators env locals (.keyless value) =
      (value.evaluate operators env locals).bind
        fun _ => .error (.evaluation .keylessEntry) := by
  rw [evaluateEntry]
  cases value.evaluate operators env locals <;> rfl

theorem evaluateEntries_cons (entry : Entry) (rest : List Entry) :
    evaluateEntries operators env locals (entry :: rest) =
      (evaluateEntry operators env locals entry).bind fun fields =>
        (evaluateEntries operators env locals rest).map (fields ++ ·) := by
  rw [evaluateEntries]
  cases evaluateEntry operators env locals entry <;> rfl

theorem evaluateItem_single (value : Tree) :
    evaluateItem operators env locals (.single value) =
      (value.evaluate operators env locals).map fun v => [v] := by
  rw [evaluateItem]
  cases value.evaluate operators env locals <;> rfl

theorem evaluateItem_spread (value : Tree) :
    evaluateItem operators env locals (.spread value) =
      (value.evaluate operators env locals).bind mergedItems := by
  rw [evaluateItem]
  cases value.evaluate operators env locals <;> rfl

theorem evaluateItems_cons (item : Item) (rest : List Item) :
    evaluateItems operators env locals (item :: rest) =
      (evaluateItem operators env locals item).bind fun values =>
        (evaluateItems operators env locals rest).map (values ++ ·) := by
  rw [evaluateItems]
  cases evaluateItem operators env locals item <;> rfl

theorem evaluateArgs_cons (arg : Tree) (rest : List Tree) :
    evaluateArgs operators env locals (arg :: rest) =
      (arg.evaluate operators env locals).bind fun v =>
        (evaluateArgs operators env locals rest).map (v :: ·) := by
  rw [evaluateArgs]
  cases arg.evaluate operators env locals <;> rfl

end FlowExpr.Tree
