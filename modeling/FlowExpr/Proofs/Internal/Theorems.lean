import FlowExpr.Proofs.Evaluation
import FlowExpr.Proofs.Internal.Lexing
import FlowExpr.Proofs.Internal.Parsing
import Mathlib.Data.List.Zip

namespace FlowExpr

open Outcome (Avoids avoids_ok avoids_error)

namespace Operator

theorem avoids_arithmetic (op : Operator) (left right : Value) :
    Avoids EvalFault.isInternal (arithmetic op left right) := by
  unfold arithmetic
  split
  · exact avoids_error rfl
  split
  · exact avoids_error rfl
  split
  · split
    · exact avoids_ok _
    · exact avoids_ok _
  · exact avoids_ok _
  · exact avoids_ok _
  · exact avoids_ok _
  · exact avoids_error rfl

theorem avoids_order (left right : Value) :
    Avoids EvalFault.isInternal (order left right) := by
  unfold order
  split
  · exact avoids_error rfl
  split
  · exact avoids_ok _
  · exact avoids_ok _
  · exact avoids_ok _
  · split
    · exact avoids_ok _
    · exact avoids_error rfl

theorem avoids_plus (left right : Value) : Avoids EvalFault.isInternal (plus left right) := by
  unfold plus
  split
  · exact avoids_ok _
  · exact avoids_ok _
  · exact avoids_arithmetic _ _ _

theorem avoids_apply (op : Operator) (left right : Value) :
    Avoids EvalFault.isInternal (op.apply left right) := by
  have hcomparison (holds : Ordering → Bool) :
      Avoids EvalFault.isInternal (comparison holds left right) :=
    (avoids_order left right).map _
  cases op with
  | less | lessEqual | greater | greaterEqual => exact hcomparison _
  | add => exact avoids_plus left right
  | subtract | multiply | divide | modulo => exact avoids_arithmetic _ left right
  | _ => exact avoids_ok _

end Operator

namespace Element

theorem value_item (e : Element) (v : Tree) : (e.item v).value = v := by
  cases e <;> rfl

-- An object has no element without a key that is not spread.
theorem ne_single_of_split {tokens : List Token} {elements : List Element} {e : Element}
    (h : split .object tokens = .ok elements) (he : e ∈ elements) (run : List Token) :
    e ≠ .single run := by
  obtain ⟨segment, _, hof⟩ := exists_of_ofSegments h he
  rintro rfl
  rcases ofSegment_cases hof with ⟨_, _, _, _, _, he⟩ | ⟨_, _, _, _, _, _, _, he⟩ |
    ⟨hgroup, _, _⟩
  · simp at he
  · simp at he
  · exact hgroup rfl

end Element

namespace Tree

-- The evaluation of the tree ends in no internal fault, whatever the references in it have for
-- values.
def EvaluatesSafely (tree : Tree) : Prop :=
  ∀ env locals, Avoids Cause.isInternal (tree.evaluate .standard env locals)

theorem evaluatesSafely_literal (v : Value) : EvaluatesSafely (.literal v) :=
  fun _ _ => avoids_ok v

theorem evaluatesSafely_reference (path : String) : EvaluatesSafely (.reference path) := by
  intro env locals
  rw [evaluate]
  split
  · exact avoids_ok _
  · exact avoids_error rfl

theorem evaluatesSafely_operation (op : Operator) {left right : Tree}
    (hleft : EvaluatesSafely left) (hright : EvaluatesSafely right) :
    EvaluatesSafely (.operation op left right) := by
  intro env locals
  rw [evaluate_operation rfl]
  refine (hleft env locals).bind fun l _ => (hright env locals).bind fun r _ => ?_
  have happly := Operator.avoids_apply op l r
  cases hvalue : op.apply l r with
  | ok v => exact avoids_ok v
  | error fault => exact avoids_error (happly fault hvalue)

theorem avoids_mergedFields (v : Value) : Avoids Cause.isInternal (mergedFields v) := by
  unfold mergedFields
  split
  · exact avoids_ok _
  · exact avoids_ok _
  · exact avoids_error rfl

theorem avoids_mergedItems (v : Value) : Avoids Cause.isInternal (mergedItems v) := by
  unfold mergedItems
  split
  · exact avoids_ok _
  · exact avoids_ok _
  · exact avoids_error rfl

-- What an element contributes to an object, unless it has no key.
theorem avoids_evaluateEntry {e : Element} {value : Tree} (hkey : ∀ run, e ≠ .single run)
    (hvalue : EvaluatesSafely value) (env : Environment) (locals : Scope) :
    Avoids Cause.isInternal (evaluateEntry .standard env locals (e.entry value)) := by
  cases e with
  | keyed key run =>
      rw [Element.entry, evaluateEntry_keyed]
      exact (hvalue env locals).map _
  | spread run =>
      rw [Element.entry, evaluateEntry_spread]
      exact (hvalue env locals).bind fun v _ => avoids_mergedFields v
  | single run => exact absurd rfl (hkey run)

theorem avoids_evaluateItem {item : Item} (hvalue : EvaluatesSafely item.value)
    (env : Environment) (locals : Scope) :
    Avoids Cause.isInternal (evaluateItem .standard env locals item) := by
  cases item with
  | single value =>
      rw [evaluateItem_single]
      exact (hvalue env locals).map _
  | spread value =>
      rw [evaluateItem_spread]
      exact (hvalue env locals).bind fun v _ => avoids_mergedItems v

theorem avoids_evaluateEntries {env : Environment} {locals : Scope} {entries : List Entry}
    (h : ∀ entry ∈ entries, Avoids Cause.isInternal (evaluateEntry .standard env locals entry)) :
    Avoids Cause.isInternal (evaluateEntries .standard env locals entries) := by
  induction entries with
  | nil => exact avoids_ok _
  | cons entry rest ih =>
      have hrest := ih fun other hother => h other (List.mem_cons_of_mem entry hother)
      rw [evaluateEntries_cons]
      exact (h entry (by simp)).bind fun fields _ => hrest.map _

theorem avoids_evaluateItems {items : List Item} (h : ∀ item ∈ items, EvaluatesSafely item.value)
    (env : Environment) (locals : Scope) :
    Avoids Cause.isInternal (evaluateItems .standard env locals items) := by
  induction items with
  | nil => exact avoids_ok _
  | cons item rest ih =>
      have hrest := ih fun other hother => h other (List.mem_cons_of_mem item hother)
      rw [evaluateItems_cons]
      exact (avoids_evaluateItem (h item (by simp)) env locals).bind fun values _ => hrest.map _

theorem avoids_evaluateArgs {args : List Tree} (h : ∀ arg ∈ args, EvaluatesSafely arg)
    (env : Environment) (locals : Scope) :
    Avoids Cause.isInternal (evaluateArgs .standard env locals args) := by
  induction args with
  | nil => exact avoids_ok _
  | cons arg rest ih =>
      have hrest := ih fun other hother => h other (List.mem_cons_of_mem arg hother)
      rw [evaluateArgs_cons]
      exact (h arg (by simp) env locals).bind fun v _ => hrest.map _

theorem evaluatesSafely_addParts (parts : List Token) {first : Tree}
    (hfirst : EvaluatesSafely first) : EvaluatesSafely (addParts first parts) := by
  induction parts generalizing first with
  | nil => exact hfirst
  | cons part rest ih =>
      have hpart : EvaluatesSafely (partTree part) := by
        unfold partTree
        split
        · exact evaluatesSafely_reference _
        · exact evaluatesSafely_literal _
      exact ih (evaluatesSafely_operation .add hfirst hpart)

theorem evaluatesSafely_templateTree (parts : List Token) :
    EvaluatesSafely (templateTree parts) := by
  unfold templateTree
  split
  · exact evaluatesSafely_literal _
  · split
    · exact evaluatesSafely_addParts _ (evaluatesSafely_literal _)
    · exact evaluatesSafely_addParts _ (evaluatesSafely_literal _)

theorem evaluatesSafely_of_leafTree {t : Token} {tree : Tree} (h : leafTree? t = some tree) :
    EvaluatesSafely tree := by
  unfold leafTree? at h
  split at h
  · obtain ⟨v, -, rfl⟩ := Option.map_eq_some_iff.mp h
    exact evaluatesSafely_literal v
  all_goals cases h
  · exact evaluatesSafely_literal _
  · exact evaluatesSafely_literal _
  · exact evaluatesSafely_reference _
  · exact evaluatesSafely_templateTree _

theorem exists_of_mem_zipWith {α β γ : Type} {f : α → β → γ} {xs : List α} {ys : List β} {z : γ}
    (h : z ∈ List.zipWith f xs ys) : ∃ x y, (x, y) ∈ xs.zip ys ∧ f x y = z := by
  rw [← List.map_uncurry_zip_eq_zipWith] at h
  obtain ⟨⟨x, y⟩, hmem, rfl⟩ := List.mem_map.mp h
  exact ⟨x, y, hmem, rfl⟩

theorem evaluatesSafely_object {tokens : List Token} {elements : List Element}
    {values : List Tree} (hsplit : Element.split .object tokens = .ok elements)
    (hvalues : ∀ e v, (e, v) ∈ elements.zip values → EvaluatesSafely v) :
    EvaluatesSafely (.object (List.zipWith Element.entry elements values)) := by
  intro env locals
  rw [evaluate_object]
  refine (avoids_evaluateEntries ?_).map _
  intro entry hentry
  obtain ⟨e, v, hmem, rfl⟩ := exists_of_mem_zipWith hentry
  have hkey := Element.ne_single_of_split hsplit (List.of_mem_zip hmem).1
  exact avoids_evaluateEntry hkey (hvalues e v hmem) env locals

theorem evaluatesSafely_array {elements : List Element} {values : List Tree}
    (hvalues : ∀ e v, (e, v) ∈ elements.zip values → EvaluatesSafely v) :
    EvaluatesSafely (.array (List.zipWith Element.item elements values)) := by
  intro env locals
  rw [evaluate_array]
  refine (avoids_evaluateItems ?_ env locals).map _
  intro item hitem
  obtain ⟨e, v, hmem, rfl⟩ := exists_of_mem_zipWith hitem
  rw [Element.value_item]
  exact hvalues e v hmem

theorem evaluatesSafely_call (name : String) {args : List Tree}
    (hargs : ∀ arg ∈ args, EvaluatesSafely arg) : EvaluatesSafely (.call name args) := by
  intro env locals
  cases hf : Builtin.ofName? name with
  | none =>
      simp only [evaluate, hf]
      exact avoids_error rfl
  | some f =>
      rw [evaluate_call hf]
      exact (avoids_evaluateArgs hargs env locals).map _

-- The tree of any run evaluates without an internal fault.
theorem Reads.evaluatesSafely {run : List Token} {tree : Tree} (h : Reads run tree) :
    EvaluatesSafely tree := by
  induction h with
  | leaf h => exact evaluatesSafely_of_leafTree h
  | object _ hsplit _ _ ih => exact evaluatesSafely_object hsplit ih
  | array _ _ _ _ ih => exact evaluatesSafely_array ih
  | call _ _ _ _ _ _ hlength _ ih =>
      apply evaluatesSafely_call
      intro v hv
      obtain ⟨e, hmem⟩ := exists_mem_zip hlength.symm hv
      have hswap := List.mem_map_of_mem (f := Prod.swap) hmem
      rw [List.zip_swap] at hswap
      exact ih e v hswap
  | enclosed _ _ _ ih => exact ih
  | operation _ _ _ _ _ ihleft ihright => exact evaluatesSafely_operation _ ihleft ihright

-- No text leads the parser to an internal fault, and no tree that the parser returns leads the
-- evaluation to one.
theorem avoids_isInternal :
    (∀ text tokens, Token.read text = .ok tokens →
      Avoids SyntaxFault.isInternal (parse tokens)) ∧
    ∀ tokens tree, parse tokens = .ok tree → ∀ env locals,
      Avoids Cause.isInternal (tree.evaluate .standard env locals) := by
  constructor
  · intro text tokens hread
    exact (isSafe_of_isRegularRun (Token.isRegularRun_of_read hread) 0).map Parsed.tree
  · intro tokens tree hparse
    exact (parse_eq_ok_iff.mp hparse).1.evaluatesSafely

section Failing

open Token

private theorem read_lonePlus : Token.read "+" = .ok [.plain .operator "+"] := by
  have hchars : "+".toList = ['+'] := by decide
  have hplus : nextWith (lexWithin 255) ⟨['+'], 0⟩ =
      ⟨.ok (some (.plain .operator "+")), ⟨[], 1⟩⟩ := rfl
  have hlex : lex "+" = .ok [.plain .operator "+"] := by
    rw [lex, hchars, maxNesting, lexWithin, Text.Cursor.start, readAll_some hplus, readAll_end]
    rfl
  exact read_eq_ok_iff.mpr ⟨by rw [hchars]; rfl, hlex, rfl⟩

private theorem parse_lonePlus :
    parse [.plain .operator "+"] = .error (.unexpected .operator "+") := by
  have hoperand : parseOperand (some maxNesting) 0 (.plain .operator "+") =
      .error (.unexpected .operator "+") := by
    rw [parseOperand]
    rfl
  rw [parse, parseWithin, parseRun, if_neg (by decide)]
  simp only [hoperand]
  rfl

private def spreadOne : Token :=
  .group .array "[...1]" [.plain .punctuation "...", .plain .number "1"]

private theorem parse_spreadOne :
    parse [spreadOne] = .ok (.array [.spread (.literal (.int 1))]) := by
  have hone : Reads [.plain .number "1"] (.literal (.int 1)) := .leaf rfl
  have hsplit : Element.split .array spreadOne.children =
      .ok [.spread [.plain .number "1"]] := rfl
  have hvalues : ∀ e v,
      (e, v) ∈ [Element.spread [.plain .number "1"]].zip [.literal (.int 1)] →
        Reads e.run v := by
    intro e v hmem
    obtain ⟨rfl, rfl⟩ := Prod.mk.inj (List.mem_singleton.mp hmem)
    exact hone
  exact parse_eq_ok_iff.mpr ⟨.array rfl hsplit rfl hvalues, by decide⟩

-- The parser rejects an operator without operands, and the evaluation rejects an array that spreads
-- a number. Neither fault is internal.
theorem not_isInternal_lonePlus :
    parse [.plain .operator "+"] = .error (.unexpected .operator "+") ∧
      (SyntaxFault.unexpected .operator "+").isInternal = false ∧
      (Tree.array [.spread (.literal (.int 1))]).evaluate .standard ⟨[], .null⟩ [] =
        .error (.evaluation .arraySpread) ∧
      (Cause.evaluation .arraySpread).isInternal = false := by
  have hparse := avoids_isInternal.1 "+" [.plain .operator "+"] read_lonePlus
  have hevaluate := avoids_isInternal.2 [spreadOne] _ parse_spreadOne ⟨[], .null⟩ []
  have hspread : (Tree.array [.spread (.literal (.int 1))]).evaluate .standard ⟨[], .null⟩ [] =
      .error (.evaluation .arraySpread) := rfl
  exact ⟨parse_lonePlus, hparse _ parse_lonePlus, hspread, hevaluate _ hspread⟩

end Failing

end Tree

end FlowExpr
