import FlowExpr.Proofs.Grammar.Faults
import FlowExpr.Proofs.Yard

namespace FlowExpr

def SyntaxFault.isInvalid : SyntaxFault → Bool
  | invalidExpression => true
  | _ => false

namespace Yard

open Outcome (Avoids avoids_ok avoids_error)
open FlowExpr.Tree (reduceTo_operator reduceToParenthesis_operator reduceAll_operator)

variable {limit : Option Nat} {op : Operator} {precedence : Nat} {held held' : List Held}
  {output output' : List Parsed} {y next : Yard} {t : Token}

theorem isInvalid_of_isLocal (fault : SyntaxFault) (h : fault.isLocal = true) :
    fault.isInvalid = false := by
  cases fault <;> first | rfl | simp [SyntaxFault.isLocal] at h

theorem avoids_isInvalid_iff {α : Type} {x : Except SyntaxFault α} :
    Avoids SyntaxFault.isInvalid x ↔ x ≠ .error .invalidExpression := by
  constructor
  · rintro h rfl
    exact absurd (h _ rfl) (by decide)
  · rintro h fault rfl
    cases fault <;> first | rfl | exact absurd rfl h

-- A reduction makes one operand of two, and is invalid only where there are no two.
theorem length_of_reduce (h : reduce limit op output = .ok output') :
    output.length = output'.length + 1 := by
  unfold reduce at h
  split at h
  · obtain ⟨p, _, rfl⟩ := Outcome.map_eq_ok_iff.mp h
    simp
  · simp at h

theorem reduce_eq_invalidExpression_iff :
    reduce limit op output = .error .invalidExpression ↔ output.length < 2 := by
  cases output with
  | nil => simp [reduce]
  | cons right rest =>
      cases rest with
      | nil => simp [reduce]
      | cons left rest =>
          apply iff_of_false
          · rw [← ne_eq, ← avoids_isInvalid_iff]
            exact (Tree.avoids_branch isInvalid_of_isLocal _ _).map _
          · simp

theorem avoids_reduce (h : 2 ≤ output.length) :
    Avoids SyntaxFault.isInvalid (reduce limit op output) := by
  rw [avoids_isInvalid_iff, ne_eq, reduce_eq_invalidExpression_iff]
  omega

-- As many operators leave the held ones as operands are lost in the output. If there is an operand
-- more than operators, there are two left to join for each of these.
theorem length_of_reduceTo (h : reduceTo limit precedence held output = .ok (held', output')) :
    output.length + held'.countP Held.isOperator =
      output'.length + held.countP Held.isOperator := by
  induction held generalizing output with
  | nil =>
      obtain ⟨rfl, rfl⟩ := Prod.mk.inj (Except.ok.inj h)
      rfl
  | cons top held ih =>
      cases top with
      | parenthesis =>
          obtain ⟨rfl, rfl⟩ := Prod.mk.inj (Except.ok.inj h)
          rfl
      | operator op =>
          by_cases htop : precedence ≤ op.precedence
          · rw [reduceTo_operator limit held output htop] at h
            obtain ⟨joined, hjoined, hrest⟩ := Outcome.bind_eq_ok_iff.mp h
            have hlength := length_of_reduce hjoined
            have hmore := ih hrest
            rw [List.countP_cons_of_pos rfl]
            omega
          · rw [reduceTo, if_neg htop] at h
            obtain ⟨rfl, rfl⟩ := Prod.mk.inj (Except.ok.inj h)
            rfl

theorem avoids_reduceTo (h : held.countP Held.isOperator < output.length) :
    Avoids SyntaxFault.isInvalid (reduceTo limit precedence held output) := by
  induction held generalizing output with
  | nil => exact avoids_ok _
  | cons top held ih =>
      cases top with
      | parenthesis => exact avoids_ok _
      | operator op =>
          by_cases htop : precedence ≤ op.precedence
          · rw [List.countP_cons_of_pos rfl] at h
            rw [reduceTo_operator limit held output htop]
            refine (avoids_reduce (by omega)).bind fun joined hjoined => ih ?_
            have hlength := length_of_reduce hjoined
            omega
          · rw [reduceTo, if_neg htop]
            exact avoids_ok _

theorem length_of_reduceToParenthesis
    (h : reduceToParenthesis limit held output = .ok (held', output')) :
    output.length + held'.countP Held.isOperator =
      output'.length + held.countP Held.isOperator := by
  induction held generalizing output with
  | nil => simp [reduceToParenthesis] at h
  | cons top held ih =>
      cases top with
      | parenthesis =>
          obtain ⟨rfl, rfl⟩ := Prod.mk.inj (Except.ok.inj h)
          rfl
      | operator op =>
          rw [reduceToParenthesis_operator] at h
          obtain ⟨joined, hjoined, hrest⟩ := Outcome.bind_eq_ok_iff.mp h
          have hlength := length_of_reduce hjoined
          have hmore := ih hrest
          rw [List.countP_cons_of_pos rfl]
          omega

theorem avoids_reduceToParenthesis (h : held.countP Held.isOperator < output.length) :
    Avoids SyntaxFault.isInvalid (reduceToParenthesis limit held output) := by
  induction held generalizing output with
  | nil => exact avoids_error rfl
  | cons top held ih =>
      cases top with
      | parenthesis => exact avoids_ok _
      | operator op =>
          rw [List.countP_cons_of_pos rfl] at h
          rw [reduceToParenthesis_operator]
          refine (avoids_reduce (by omega)).bind fun joined hjoined => ih ?_
          have hlength := length_of_reduce hjoined
          omega

theorem length_of_reduceAll (h : reduceAll limit held output = .ok output') :
    output.length = output'.length + held.countP Held.isOperator := by
  induction held generalizing output with
  | nil =>
      obtain rfl := Except.ok.inj h
      rfl
  | cons top held ih =>
      cases top with
      | parenthesis => simp [reduceAll] at h
      | operator op =>
          rw [reduceAll_operator] at h
          obtain ⟨joined, hjoined, hrest⟩ := Outcome.bind_eq_ok_iff.mp h
          have hlength := length_of_reduce hjoined
          have hmore := ih hrest
          rw [List.countP_cons_of_pos rfl]
          omega

theorem avoids_reduceAll (h : held.countP Held.isOperator < output.length) :
    Avoids SyntaxFault.isInvalid (reduceAll limit held output) := by
  induction held generalizing output with
  | nil => exact avoids_ok _
  | cons top held ih =>
      cases top with
      | parenthesis => exact avoids_error rfl
      | operator op =>
          rw [List.countP_cons_of_pos rfl] at h
          rw [reduceAll_operator]
          refine (avoids_reduce (by omega)).bind fun joined hjoined => ih ?_
          have hlength := length_of_reduce hjoined
          omega

theorem isBalanced_empty : IsBalanced .empty :=
  rfl

theorem IsBalanced.countP_lt (h : y.IsBalanced) (hexpects : y.expectsOperator = true) :
    y.held.countP Held.isOperator < y.output.length := by
  rw [IsBalanced, if_pos hexpects] at h
  omega

-- One turn keeps the balance, and where it holds no reduction of a turn is invalid.
theorem IsBalanced.pushOperand (h : y.IsBalanced) (hexpects : y.expectsOperator = false)
    (operand : Parsed) : (y.pushOperand operand).IsBalanced := by
  simp only [IsBalanced, hexpects, Yard.pushOperand, List.length_cons, Bool.false_eq_true, if_false,
    if_true] at h ⊢
  omega

theorem IsBalanced.pushOperator (h : y.IsBalanced) (hpush : y.pushOperator limit t = .ok next) :
    next.IsBalanced := by
  unfold Yard.pushOperator at hpush
  split at hpush
  · simp at hpush
  rename_i hexpects
  split at hpush
  · simp at hpush
  obtain ⟨⟨held, output⟩, hreduce, rfl⟩ := Outcome.map_eq_ok_iff.mp hpush
  have hlength := length_of_reduceTo hreduce
  rw [IsBalanced, if_pos (by simpa using hexpects)] at h
  simp only [IsBalanced]
  rw [List.countP_cons_of_pos rfl, if_neg Bool.false_ne_true]
  omega

theorem IsBalanced.avoids_pushOperator (h : y.IsBalanced) :
    Avoids SyntaxFault.isInvalid (y.pushOperator limit t) := by
  unfold Yard.pushOperator
  split
  · exact avoids_error rfl
  rename_i hexpects
  split
  · exact avoids_error rfl
  · exact (avoids_reduceTo (h.countP_lt (by simpa using hexpects))).map _

theorem IsBalanced.pushPunctuation (h : y.IsBalanced)
    (hpush : y.pushPunctuation limit t = .ok next) : next.IsBalanced := by
  unfold Yard.pushPunctuation openParenthesis closeParenthesis at hpush
  split at hpush
  · split at hpush
    · simp at hpush
    rename_i hexpects
    rw [← Except.ok.inj hpush]
    rw [IsBalanced, if_neg hexpects] at h
    simpa [IsBalanced, Held.isOperator] using h
  split at hpush
  · split at hpush
    · simp at hpush
    rename_i hexpects
    obtain ⟨⟨held, output⟩, hreduce, rfl⟩ := Outcome.map_eq_ok_iff.mp hpush
    have hlength := length_of_reduceToParenthesis hreduce
    rw [IsBalanced, if_pos (by simpa using hexpects)] at h
    simp only [IsBalanced, if_true]
    omega
  · simp at hpush

theorem IsBalanced.avoids_pushPunctuation (h : y.IsBalanced) :
    Avoids SyntaxFault.isInvalid (y.pushPunctuation limit t) := by
  unfold Yard.pushPunctuation openParenthesis closeParenthesis
  split
  · split
    · exact avoids_error rfl
    · exact avoids_ok _
  split
  · split
    · exact avoids_error rfl
    rename_i hexpects
    exact (avoids_reduceToParenthesis (h.countP_lt (by simpa using hexpects))).map _
  · exact avoids_error rfl

-- At most one operand is left when all that is held is joined.
theorem IsBalanced.length_le_one (h : y.IsBalanced)
    (hreduce : reduceAll limit y.held y.output = .ok output) : output.length ≤ 1 := by
  have hlength := length_of_reduceAll hreduce
  rw [IsBalanced] at h
  split at h <;> omega

-- Behind an operand one is left exactly.
theorem IsBalanced.avoids_finish (h : y.IsBalanced) (hexpects : y.expectsOperator = true) :
    Avoids SyntaxFault.isInvalid (y.finish limit) := by
  have hall : Avoids SyntaxFault.isInvalid (reduceAll limit y.held y.output) :=
    avoids_reduceAll (h.countP_lt hexpects)
  unfold finish
  split
  · exact avoids_ok _
  · rename_i output hne hreduce
    have hlength := length_of_reduceAll hreduce
    rw [IsBalanced, if_pos hexpects] at h
    obtain ⟨operand, rfl⟩ := List.length_eq_one_iff.mp (show output.length = 1 by omega)
    exact absurd rfl (hne operand)
  · rename_i fault hfault
    exact avoids_error (hall fault hfault)

end Yard

end FlowExpr
