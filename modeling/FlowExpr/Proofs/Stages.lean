import FlowExpr.Proofs.Evaluation
import FlowExpr.Proofs.Grammar.Theorems
import FlowExpr.Proofs.Reading

namespace FlowExpr

open Outcome (Avoids avoids_ok avoids_error)

-- The causes that lie before the evaluation of a tree.
def Cause.isEarlier : Cause → Bool
  | .reference _ => false
  | .evaluation _ => false
  | _ => true

namespace Tree

variable {env : Environment} {locals : Scope}

theorem mergedFields_avoids_isEarlier (v : Value) : Avoids Cause.isEarlier (mergedFields v) := by
  cases v <;> first | exact avoids_ok _ | exact avoids_error rfl

theorem mergedItems_avoids_isEarlier (v : Value) : Avoids Cause.isEarlier (mergedItems v) := by
  cases v <;> first | exact avoids_ok _ | exact avoids_error rfl

-- What an operator fails with is a fault of the evaluation.
theorem standard_avoids_isEarlier (op : Operator) (l r : Value) : Avoids Cause.isEarlier
    (((op.apply l r).mapError fun fault => .cause (.evaluation fault)).mapError operatorCause) := by
  cases op.apply l r with
  | ok v => exact avoids_ok v
  | error fault => exact avoids_error rfl

mutual
-- The evaluation of a tree fails because of a reference in it or because of an operation, a spread,
-- a key or a function in it.
theorem evaluate_avoids_isEarlier (tree : Tree) :
    Avoids Cause.isEarlier (tree.evaluate .standard env locals) := by
  match tree with
  | .literal v => exact avoids_ok v
  | .reference path =>
      rw [evaluate]
      cases env.resolve locals path with
      | ok v => exact avoids_ok v
      | error fault => exact avoids_error rfl
  | .operation op left right =>
      rw [evaluate_operation rfl]
      refine (evaluate_avoids_isEarlier left).bind fun l _ => ?_
      refine (evaluate_avoids_isEarlier right).bind fun r _ => ?_
      exact standard_avoids_isEarlier op l r
  | .object entries =>
      rw [evaluate_object]
      exact (evaluateEntries_avoids_isEarlier entries).map _
  | .array items =>
      rw [evaluate_array]
      exact (evaluateItems_avoids_isEarlier items).map _
  | .call name args =>
      cases hf : Builtin.ofName? name with
      | none =>
          simp only [evaluate, hf]
          exact avoids_error rfl
      | some f =>
          rw [evaluate_call hf]
          exact (evaluateArgs_avoids_isEarlier args).map _

theorem evaluateEntry_avoids_isEarlier (entry : Entry) :
    Avoids Cause.isEarlier (evaluateEntry .standard env locals entry) := by
  match entry with
  | .keyed key value =>
      rw [evaluateEntry_keyed]
      exact (evaluate_avoids_isEarlier value).map _
  | .spread value =>
      rw [evaluateEntry_spread]
      exact (evaluate_avoids_isEarlier value).bind fun v _ => mergedFields_avoids_isEarlier v
  | .keyless value =>
      rw [evaluateEntry_keyless]
      exact (evaluate_avoids_isEarlier value).bind fun _ _ => avoids_error rfl

theorem evaluateEntries_avoids_isEarlier (entries : List Entry) :
    Avoids Cause.isEarlier (evaluateEntries .standard env locals entries) := by
  match entries with
  | [] => exact avoids_ok []
  | entry :: rest =>
      rw [evaluateEntries_cons]
      refine (evaluateEntry_avoids_isEarlier entry).bind fun fields _ => ?_
      exact (evaluateEntries_avoids_isEarlier rest).map _

theorem evaluateItem_avoids_isEarlier (item : Item) :
    Avoids Cause.isEarlier (evaluateItem .standard env locals item) := by
  match item with
  | .single value =>
      rw [evaluateItem_single]
      exact (evaluate_avoids_isEarlier value).map _
  | .spread value =>
      rw [evaluateItem_spread]
      exact (evaluate_avoids_isEarlier value).bind fun v _ => mergedItems_avoids_isEarlier v

theorem evaluateItems_avoids_isEarlier (items : List Item) :
    Avoids Cause.isEarlier (evaluateItems .standard env locals items) := by
  match items with
  | [] => exact avoids_ok []
  | item :: rest =>
      rw [evaluateItems_cons]
      refine (evaluateItem_avoids_isEarlier item).bind fun values _ => ?_
      exact (evaluateItems_avoids_isEarlier rest).map _

theorem evaluateArgs_avoids_isEarlier (args : List Tree) :
    Avoids Cause.isEarlier (evaluateArgs .standard env locals args) := by
  match args with
  | [] => exact avoids_ok []
  | arg :: rest =>
      rw [evaluateArgs_cons]
      refine (evaluate_avoids_isEarlier arg).bind fun v _ => ?_
      exact (evaluateArgs_avoids_isEarlier rest).map _
end

end Tree

-- No time passes here, so that a budget of zero is the only one that is used up.
theorem Deadline.check_start (expression : String) (budget : Option Nat) :
    (Deadline.start expression budget).check =
      if budget = some 0 then .error ⟨expression, 0, 0⟩ else .ok () := by
  match budget with
  | none => rfl
  | some 0 => rfl
  | some (milliseconds + 1) => simp [check, start]

namespace Failure

-- What a failure is reported with does not change what kind it is of.
theorem kind_within (expression : String) (f : Failure) : (f.within expression).kind = f.kind := by
  cases f with
  | bare c =>
      rw [within]
      split <;> rfl
  | reported _ _ => rfl

-- A failure is reported once at most.
theorem within_within (expression label : String) (f : Failure) :
    (f.within expression).within label = f.within expression := by
  cases f with
  | bare c =>
      by_cases hnames : c.namesExpression = true
      · rw [within, if_pos hnames]
        rfl
      · rw [within, if_neg hnames, within, if_neg hnames]
  | reported _ _ => rfl

end Failure

namespace Evaluator

-- The failures of an evaluation with the cause of each: a stage is reached if the stages before it
-- succeed. The failures of the last three name the expression. They are those of an evaluation
-- without a budget, under a budget of zero, or in time.
inductive FailsWith (e : Evaluator) (expression : String) (locals : Scope) (step : Option Step) :
    Cause → Failure → Prop where
  | guard {fault : GuardFault} (hguard : Guard.check expression e.maxLength = .error fault) :
      FailsWith e expression locals step (.guard fault) (.bare (.guard fault))
  | lexical {fault : Token.LexError} (hguard : Guard.check expression e.maxLength = .ok ())
      (hread : Token.read expression = .error fault) :
      FailsWith e expression locals step (.lexical fault) (.bare (.lexical fault))
  | timeout {tokens : List Token} (hguard : Guard.check expression e.maxLength = .ok ())
      (hread : Token.read expression = .ok tokens)
      (hbudget : e.timeouts.map (·.budget step) = some 0) :
      FailsWith e expression locals step (.timeout ⟨expression, 0, 0⟩)
        (.bare (.timeout ⟨expression, 0, 0⟩))
  | grammar {tokens : List Token} {fault : SyntaxFault}
      (hguard : Guard.check expression e.maxLength = .ok ())
      (hread : Token.read expression = .ok tokens)
      (hbudget : e.timeouts.map (·.budget step) ≠ some 0)
      (hparse : Tree.parse tokens = .error fault) :
      FailsWith e expression locals step (.grammar fault)
        (.reported expression (.bare (.grammar fault)))
  | reference {tokens : List Token} {tree : Tree} {fault : ReferenceFault}
      (hguard : Guard.check expression e.maxLength = .ok ())
      (hread : Token.read expression = .ok tokens)
      (hbudget : e.timeouts.map (·.budget step) ≠ some 0) (hparse : Tree.parse tokens = .ok tree)
      (hvalue : tree.evaluate .standard e.environment locals = .error (.reference fault)) :
      FailsWith e expression locals step (.reference fault)
        (.reported expression (.bare (.reference fault)))
  | evaluation {tokens : List Token} {tree : Tree} {fault : EvalFault}
      (hguard : Guard.check expression e.maxLength = .ok ())
      (hread : Token.read expression = .ok tokens)
      (hbudget : e.timeouts.map (·.budget step) ≠ some 0) (hparse : Tree.parse tokens = .ok tree)
      (hvalue : tree.evaluate .standard e.environment locals = .error (.evaluation fault)) :
      FailsWith e expression locals step (.evaluation fault)
        (.reported expression (.bare (.evaluation fault)))

variable {e : Evaluator} {expression : String} {locals : Scope} {step : Option Step} {c : Cause}
  {f : Failure}

theorem FailsWith.evaluate_eq (h : e.FailsWith expression locals step c f)
    (hstandard : e.operators = .standard) :
    e.evaluate expression locals step = .error f := by
  cases h with
  | guard hguard => rw [evaluate, hguard]
  | lexical hguard hread =>
      simp only [evaluate, hguard, run, hread]
      rfl
  | timeout hguard hread hbudget =>
      simp only [evaluate, hguard, run, hread, Deadline.check_start, if_pos hbudget]
      rfl
  | grammar hguard hread hbudget hparse =>
      simp only [evaluate, hguard, run, hread, Deadline.check_start, if_neg hbudget, hparse]
      rfl
  | reference hguard hread hbudget hparse hvalue | evaluation hguard hread hbudget hparse hvalue =>
      simp only [evaluate, hguard, run, hread, Deadline.check_start, if_neg hbudget, hparse,
        hstandard, hvalue]
      rfl

theorem FailsWith.eq_within (h : e.FailsWith expression locals step c f) :
    f = (Failure.bare c).within expression := by
  cases h <;> rfl

theorem failsWith_of_run (hstandard : e.operators = .standard)
    (hguard : Guard.check expression e.maxLength = .ok ())
    (h : e.run expression locals (.start expression (e.timeouts.map (·.budget step))) = .error c) :
    e.FailsWith expression locals step c ((Failure.bare c).within expression) := by
  rw [run] at h
  cases hread : Token.read expression with
  | error fault =>
      rw [hread] at h
      cases h
      exact .lexical hguard hread
  | ok tokens =>
      simp only [hread, Deadline.check_start] at h
      by_cases hbudget : e.timeouts.map (·.budget step) = some 0
      · rw [if_pos hbudget] at h
        cases h
        exact .timeout hguard hread hbudget
      rw [if_neg hbudget] at h
      cases hparse : Tree.parse tokens with
      | error fault =>
          simp only [hparse] at h
          cases h
          exact .grammar hguard hread hbudget hparse
      | ok tree =>
          simp only [hparse, hstandard] at h
          -- The evaluation of the tree leaves only the last two stages.
          have hlate := Tree.evaluate_avoids_isEarlier tree c h
          cases c with
          | reference fault => exact .reference hguard hread hbudget hparse h
          | evaluation fault => exact .evaluation hguard hread hbudget hparse h
          | _ => simp [Cause.isEarlier] at hlate

theorem exists_failsWith (hstandard : e.operators = .standard)
    (h : e.evaluate expression locals step = .error f) :
    ∃ c, e.FailsWith expression locals step c f := by
  rw [evaluate] at h
  cases hguard : Guard.check expression e.maxLength with
  | error fault =>
      rw [hguard] at h
      cases h
      exact ⟨.guard fault, .guard hguard⟩
  | ok _ =>
      simp only [hguard] at h
      cases hrun : e.run expression locals
          (.start expression (e.timeouts.map (·.budget step))) with
      | error c =>
          rw [hrun] at h
          cases h
          exact ⟨c, failsWith_of_run hstandard hguard hrun⟩
      | ok v => simp [hrun] at h

-- An evaluation fails at the first of its stages that does. The failure is of the kind of the error
-- of that stage, and to report it once more changes nothing.
theorem evaluate_failsWith (hstandard : e.operators = .standard) (expression : String)
    (locals : Scope) (step : Option Step) :
    (∀ f, e.evaluate expression locals step = .error f ↔
      ∃ c, e.FailsWith expression locals step c f) ∧
    ∀ c f, e.FailsWith expression locals step c f →
      f.kind = c.kind ∧ ∀ label, f.within label = f := by
  constructor
  · intro f
    constructor
    · exact exists_failsWith hstandard
    · rintro ⟨c, hfails⟩
      exact hfails.evaluate_eq hstandard
  · intro c f hfails
    rw [hfails.eq_within]
    exact ⟨Failure.kind_within expression (.bare c),
      fun label => Failure.within_within expression label (.bare c)⟩

private theorem read_unbound : Token.read "$\x7ba\x7d" =
    .ok [.group .reference "a" [.plain .identifier "a"]] := by
  have hname : Token.nextWith (Token.lexWithin 254) ⟨['a'], 2⟩ =
      ⟨.ok (some (.plain .identifier "a")), ⟨[], 3⟩⟩ := rfl
  have hinner : Token.lexWithin 255 ⟨['a'], 2⟩ = .ok [.plain .identifier "a"] := by
    rw [Token.lexWithin, Token.readAll_some hname, Token.readAll_end]
    rfl
  have hstep : Token.nextWith (Token.lexWithin 255) (Text.Cursor.start "$\x7ba\x7d".toList) =
      ⟨((Token.lexWithin 255 ⟨['a'], 2⟩).map (.group .reference "a")).map some, ⟨[], 4⟩⟩ := rfl
  have hlex : Token.lex "$\x7ba\x7d" =
      .ok [.group .reference "a" [.plain .identifier "a"]] := by
    rw [hinner] at hstep
    rw [Token.lex, maxNesting, Token.lexWithin, Token.readAll_some hstep, Token.readAll_end]
    rfl
  exact Token.read_eq_ok_iff.mpr ⟨by decide, hlex, rfl⟩

-- A name that nothing is bound to is an error of the evaluation, not of the texts before it.
theorem evaluate_failsWith_unbound :
    let e : Evaluator := .ofEnvironment ⟨[], .null⟩
    let f : Failure :=
      .reported "$\x7ba\x7d" (.bare (.reference (.unknown "a" ["context"])))
    e.evaluate "$\x7ba\x7d" [] none = .error f ∧ f.kind = .reference ∧
      ∀ label, f.within label = f := by
  intro e f
  have hparse : Tree.parse [.group .reference "a" [.plain .identifier "a"]] =
      .ok (.reference "a") := Tree.parse_eq_ok_iff.mpr ⟨.leaf rfl, by decide⟩
  have hfails : e.FailsWith "$\x7ba\x7d" [] none (.reference (.unknown "a" ["context"])) f :=
    .reference rfl read_unbound (by decide) hparse rfl
  obtain ⟨herror, hkind⟩ := evaluate_failsWith (e := e) rfl "$\x7ba\x7d" [] none
  exact ⟨(herror f).mpr ⟨_, hfails⟩, hkind _ f hfails⟩

end Evaluator

end FlowExpr
