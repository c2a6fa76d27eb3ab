import FlowExpr.Proofs.Dependency
import FlowExpr.Proofs.Evaluation
import FlowExpr.Outcome

namespace FlowExpr

-- A fault without the names that it suggests, which are the only part of it that tells what other
-- names are bound.
def ReferenceFault.withoutNames : ReferenceFault → ReferenceFault
  | .unknown root _ => .unknown root []
  | fault => fault

def Cause.withoutNames : Cause → Cause
  | .reference fault => .reference fault.withoutNames
  | c => c

def Failure.withoutNames : Failure → Failure
  | .bare c => .bare c.withoutNames
  | .reported expression source => .reported expression source.withoutNames

namespace Environment

variable {locals : Scope} {env other : Environment}

-- The two environments bind the same values to all names that an evaluation can see in the steps:
-- those that are neither the name of the context nor that of a variable.
def AgreesUnshadowed (env other : Environment) (locals : Scope) : Prop :=
  ∀ name, name ≠ contextName → Fields.get? name locals = none →
    Fields.get? name env.steps = Fields.get? name other.steps

theorem lookup?_eq_of_agreesUnshadowed (hcontext : env.context = other.context)
    (h : env.AgreesUnshadowed other locals) (name : String) :
    env.lookup? locals name = other.lookup? locals name := by
  rw [lookup?, lookup?, hcontext]
  cases hlocal : Fields.get? name locals with
  | some v => rfl
  | none =>
      by_cases hname : name = contextName
      · rw [if_pos hname, if_pos hname]
      · rw [if_neg hname, if_neg hname]
        exact h name hname hlocal

theorem resolveKeys_withoutNames_eq {resolve resolve' : List Char → Except ReferenceFault Value}
    (hkeys : ∀ text, (resolve text).mapError ReferenceFault.withoutNames =
      (resolve' text).mapError ReferenceFault.withoutNames) (path : String) (segments : Path) :
    (resolveKeys resolve path segments).mapError ReferenceFault.withoutNames =
      (resolveKeys resolve' path segments).mapError ReferenceFault.withoutNames := by
  induction segments with
  | nil => rfl
  | cons segment rest ih =>
      cases segment with
      | property name | index i => exact Outcome.map_mapError_eq _ ih
      | computed key =>
          simp only [resolveKeys]
          obtain ⟨v, hv, hv'⟩ | ⟨c, d, hc, hd, hcd⟩ :=
            Outcome.mapError_eq_iff.mp (hkeys (keyPath key.toList))
          · simp only [hv, hv']
            cases keySegment? v with
            | none => rfl
            | some segment => exact Outcome.map_mapError_eq _ ih
          · simp only [hc, hd]
            exact congrArg Except.error hcd

-- Every name that a path looks up, also those in its computed keys, goes through the same lookup.
theorem resolveWithin_withoutNames_eq (hcontext : env.context = other.context)
    (h : env.AgreesUnshadowed other locals) (levels : Nat) (text : List Char) :
    (env.resolveWithin locals levels text).mapError ReferenceFault.withoutNames =
      (other.resolveWithin locals levels text).mapError ReferenceFault.withoutNames := by
  induction levels generalizing text with
  | zero => rfl
  | succ levels ih =>
      simp only [resolveWithin, ← lookup?_eq_of_agreesUnshadowed hcontext h]
      by_cases hempty : (rootText (Text.trim text)).isEmpty = true
      · simp only [if_pos hempty]
      simp only [if_neg hempty]
      cases env.lookup? locals (String.ofList (rootText (Text.trim text))) with
      | none => rfl
      | some root =>
          dsimp only
          split
          · rfl
          cases Path.read (String.ofList (Text.trim text)) with
          | error e => rfl
          | ok segments =>
              dsimp only
              have hkeys := resolveKeys_withoutNames_eq ih (String.ofList (Text.trim text))
                segments.tail
              obtain ⟨found, hfound, hfound'⟩ | ⟨c, d, hc, hd, hcd⟩ :=
                Outcome.mapError_eq_iff.mp hkeys
              · rw [hfound, hfound']
              · rw [hc, hd]
                exact congrArg Except.error hcd

theorem resolve_withoutNames_eq (hcontext : env.context = other.context)
    (h : env.AgreesUnshadowed other locals) (path : String) :
    (env.resolve locals path).mapError ReferenceFault.withoutNames =
      (other.resolve locals path).mapError ReferenceFault.withoutNames :=
  resolveWithin_withoutNames_eq hcontext h (maxNesting + 1) path.toList

end Environment

namespace Tree

variable {operators : OperatorTable} {locals : Scope} {env other : Environment}

mutual
-- No part of a tree reads the steps other than by the lookup of a name.
theorem evaluate_withoutNames_eq (hcontext : env.context = other.context)
    (h : env.AgreesUnshadowed other locals) (tree : Tree) :
    (tree.evaluate operators env locals).mapError Cause.withoutNames =
      (tree.evaluate operators other locals).mapError Cause.withoutNames := by
  match tree with
  | .literal _ => rfl
  | .reference path =>
      rw [evaluate, evaluate]
      obtain ⟨v, hv, hv'⟩ | ⟨c, d, hc, hd, hcd⟩ := Outcome.mapError_eq_iff.mp
        (Environment.resolve_withoutNames_eq hcontext h path)
      · rw [hv, hv']
      · rw [hc, hd]
        exact congrArg (fun fault => Except.error (Cause.reference fault)) hcd
  | .operation op left right =>
      cases hop : operators op with
      | none => simp only [evaluate, hop]
      | some apply =>
          rw [evaluate_operation hop, evaluate_operation hop]
          apply Outcome.bind_mapError_eq (evaluate_withoutNames_eq hcontext h left)
          intro l
          exact Outcome.bind_mapError_eq (evaluate_withoutNames_eq hcontext h right) fun _ => rfl
  | .object entries =>
      rw [evaluate_object, evaluate_object]
      exact Outcome.map_mapError_eq _ (evaluateEntries_withoutNames_eq hcontext h entries)
  | .array items =>
      rw [evaluate_array, evaluate_array]
      exact Outcome.map_mapError_eq _ (evaluateItems_withoutNames_eq hcontext h items)
  | .call name args =>
      cases hf : Builtin.ofName? name with
      | none => simp only [evaluate, hf]
      | some f =>
          rw [evaluate_call hf, evaluate_call hf]
          exact Outcome.map_mapError_eq _ (evaluateArgs_withoutNames_eq hcontext h args)

theorem evaluateEntry_withoutNames_eq (hcontext : env.context = other.context)
    (h : env.AgreesUnshadowed other locals) (entry : Entry) :
    (evaluateEntry operators env locals entry).mapError Cause.withoutNames =
      (evaluateEntry operators other locals entry).mapError Cause.withoutNames := by
  match entry with
  | .keyed key value =>
      rw [evaluateEntry_keyed, evaluateEntry_keyed]
      exact Outcome.map_mapError_eq _ (evaluate_withoutNames_eq hcontext h value)
  | .spread value =>
      rw [evaluateEntry_spread, evaluateEntry_spread]
      exact Outcome.bind_mapError_eq (evaluate_withoutNames_eq hcontext h value) fun _ => rfl
  | .keyless value =>
      rw [evaluateEntry_keyless, evaluateEntry_keyless]
      exact Outcome.bind_mapError_eq (evaluate_withoutNames_eq hcontext h value) fun _ => rfl

theorem evaluateEntries_withoutNames_eq (hcontext : env.context = other.context)
    (h : env.AgreesUnshadowed other locals) (entries : List Entry) :
    (evaluateEntries operators env locals entries).mapError Cause.withoutNames =
      (evaluateEntries operators other locals entries).mapError Cause.withoutNames := by
  match entries with
  | [] => rfl
  | entry :: rest =>
      rw [evaluateEntries_cons, evaluateEntries_cons]
      apply Outcome.bind_mapError_eq (evaluateEntry_withoutNames_eq hcontext h entry)
      intro fields
      exact Outcome.map_mapError_eq _ (evaluateEntries_withoutNames_eq hcontext h rest)

theorem evaluateItem_withoutNames_eq (hcontext : env.context = other.context)
    (h : env.AgreesUnshadowed other locals) (item : Item) :
    (evaluateItem operators env locals item).mapError Cause.withoutNames =
      (evaluateItem operators other locals item).mapError Cause.withoutNames := by
  match item with
  | .single value =>
      rw [evaluateItem_single, evaluateItem_single]
      exact Outcome.map_mapError_eq _ (evaluate_withoutNames_eq hcontext h value)
  | .spread value =>
      rw [evaluateItem_spread, evaluateItem_spread]
      exact Outcome.bind_mapError_eq (evaluate_withoutNames_eq hcontext h value) fun _ => rfl

theorem evaluateItems_withoutNames_eq (hcontext : env.context = other.context)
    (h : env.AgreesUnshadowed other locals) (items : List Item) :
    (evaluateItems operators env locals items).mapError Cause.withoutNames =
      (evaluateItems operators other locals items).mapError Cause.withoutNames := by
  match items with
  | [] => rfl
  | item :: rest =>
      rw [evaluateItems_cons, evaluateItems_cons]
      apply Outcome.bind_mapError_eq (evaluateItem_withoutNames_eq hcontext h item)
      intro values
      exact Outcome.map_mapError_eq _ (evaluateItems_withoutNames_eq hcontext h rest)

theorem evaluateArgs_withoutNames_eq (hcontext : env.context = other.context)
    (h : env.AgreesUnshadowed other locals) (args : List Tree) :
    (evaluateArgs operators env locals args).mapError Cause.withoutNames =
      (evaluateArgs operators other locals args).mapError Cause.withoutNames := by
  match args with
  | [] => rfl
  | arg :: rest =>
      rw [evaluateArgs_cons, evaluateArgs_cons]
      apply Outcome.bind_mapError_eq (evaluate_withoutNames_eq hcontext h arg)
      intro v
      exact Outcome.map_mapError_eq _ (evaluateArgs_withoutNames_eq hcontext h rest)
end

end Tree

namespace Evaluator

variable {locals first second : Scope}

theorem run_withoutNames_eq (e : Evaluator)
    (h : (e.withSteps first).environment.AgreesUnshadowed (e.withSteps second).environment locals)
    (expression : String) (deadline : Deadline) :
    ((e.withSteps first).run expression locals deadline).mapError Cause.withoutNames =
      ((e.withSteps second).run expression locals deadline).mapError Cause.withoutNames := by
  have hcontext : (e.withSteps first).environment.context =
      (e.withSteps second).environment.context := rfl
  rw [run, run]
  cases Token.read expression with
  | error fault => rfl
  | ok tokens =>
      dsimp only
      cases deadline.check with
      | error t => rfl
      | ok _ =>
          dsimp only
          cases Tree.parse tokens with
          | error fault => rfl
          | ok tree => exact Tree.evaluate_withoutNames_eq hcontext h tree

theorem withoutNames_within (expression : String) (c : Cause) :
    ((Failure.bare c).within expression).withoutNames =
      (Failure.bare c.withoutNames).within expression := by
  cases c <;> rfl

-- What the steps with the name of a variable or of the context have for results makes no
-- difference to an evaluation, neither to its value nor to the error that it ends with. Only the
-- names that an error suggests may differ. This is meant for evaluations without a budget: what a
-- clock adds to others is not looked at.
theorem evaluate_withSteps_eq (e : Evaluator)
    (h : ∀ name, name ≠ Environment.contextName → Fields.get? name locals = none →
      Fields.get? name first = Fields.get? name second) (expression : String)
    (step : Option Step) :
    ((e.withSteps first).evaluate expression locals step).mapError Failure.withoutNames =
      ((e.withSteps second).evaluate expression locals step).mapError Failure.withoutNames := by
  have hlength : (e.withSteps first).maxLength = (e.withSteps second).maxLength := rfl
  have htimeouts : (e.withSteps first).timeouts = (e.withSteps second).timeouts := rfl
  rw [evaluate, evaluate, hlength, htimeouts]
  cases Guard.check expression (e.withSteps second).maxLength with
  | error fault => rfl
  | ok _ =>
      dsimp only
      obtain ⟨v, hv, hv'⟩ | ⟨c, d, hc, hd, hcd⟩ := Outcome.mapError_eq_iff.mp
        (run_withoutNames_eq e h expression
          (.start expression ((e.withSteps second).timeouts.map (·.budget step))))
      · rw [hv, hv']
      · rw [hc, hd]
        simp only [Outcome.mapError_error, withoutNames_within, hcd]

-- The index in `a[b]` is that of the variable, whatever the step of its name has for a result.
theorem evaluate_shadowedIndex :
    let e : Evaluator := ⟨⟨[], .object [("x", .int 1)]⟩, .standard, none, defaultMaxLength⟩
    let locals : Scope := [("b", .int 1)]
    let first : Scope := [("a", .array [.string "x", .string "y"]), ("b", .int 0)]
    let second : Scope :=
      [("context", .null), ("b", .string "length"), ("a", .array [.string "x", .string "y"])]
    ((e.withSteps first).evaluate "$\x7ba[b]\x7d + $\x7bcontext.x\x7d" locals none).mapError
        Failure.withoutNames =
      ((e.withSteps second).evaluate "$\x7ba[b]\x7d + $\x7bcontext.x\x7d" locals none).mapError
        Failure.withoutNames := by
  intro e locals first second
  apply evaluate_withSteps_eq
  intro name hcontext hlocal
  have hvariable : "b" ≠ name := by
    rintro rfl
    simp [locals, Fields.get?] at hlocal
  have hcontext' : "context" ≠ name := hcontext.symm
  by_cases hletters : "a" = name
  · rw [← hletters]
    rfl
  · simp [first, second, Fields.get?, hvariable, hcontext', hletters]

end Evaluator

end FlowExpr
