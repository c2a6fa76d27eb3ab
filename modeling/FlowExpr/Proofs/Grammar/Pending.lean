import FlowExpr.Proofs.Grammar.Lemmas
import FlowExpr.Proofs.Grammar.Steps
import FlowExpr.Outcome

namespace FlowExpr.Tree

variable {limit : Option Nat} {consumed before last : List Token} {held : List Held}
  {output : List Parsed} {t : Token} {op : Operator}

-- What the two stacks stand for where an operand must come next: the consumed tokens are divided at
-- the held operators and parentheses, and an operator is held with its left operand. From the
-- bottom up, up to a parenthesis, the held operators bind tighter and tighter.
inductive Pending : List Token → List Held → List Parsed → Prop where
  | empty : Pending [] [] []
  | parenthesis {consumed : List Token} {held : List Held} {output : List Parsed} {t : Token}
      (h : Pending consumed held output) (ho : IsOpening t) :
      Pending (consumed ++ [t]) (.parenthesis :: held) output
  | operator {consumed left : List Token} {held : List Held} {output : List Parsed} {t : Token}
      {op : Operator} {l : Tree} (h : Pending consumed held output) (hleft : Reads left l)
      (ht : operator? t = some op)
      (hloosest : ∀ p ∈ outerOperators 0 left, op.precedence ≤ p.precedence)
      (htighter : ∀ waiting, held.head? = some (.operator waiting) →
        waiting.precedence < op.precedence) :
      Pending (consumed ++ left ++ [t]) (.operator op :: held) (.ofTree l :: output)

-- What they stand for behind an operand: the last of the consumed tokens are what the latest
-- output stands for.
def EndsWith (limit : Option Nat) (consumed : List Token) (held : List Held) (output : List Parsed)
    (last : List Token) : Prop :=
  ∃ before tree rest, consumed = before ++ last ∧ output = .ofTree tree :: rest ∧
    Pending before held rest ∧ Reads last tree ∧ Fits limit tree.height ∧ BindsTighter held last

-- Joining the latest two operands gives one that is divided at the operator between them.
theorem EndsWith.reduce {joined : List Parsed}
    (h : EndsWith limit consumed (.operator op :: held) output last)
    (hreduce : Yard.reduce limit op output = .ok joined) :
    ∃ longer, EndsWith limit consumed held joined longer ∧
      ∀ p ∈ outerOperators 0 longer, op.precedence ≤ p.precedence := by
  obtain ⟨before, tree, rest, rfl, rfl, hpending, hlast, _, hbinds⟩ := h
  cases hpending with
  | @operator consumed left _ output t _ l hpending hleft ht hloosest htighter =>
      have hafter := hbinds op rfl
      have hleast := le_of_mem_outerOperators ht hleft.balanced hloosest hafter
      have hbranch : Fits limit (Tree.operation op l tree).height ∧
          joined = .ofTree (.operation op l tree) :: output := by
        simp only [Yard.reduce, Parsed.ofTree] at hreduce
        obtain ⟨p, hp, hjoined⟩ := Outcome.map_eq_ok_iff.mp hreduce
        obtain ⟨hfits, rfl⟩ := branch_eq_ok_iff.mp hp
        exact ⟨hfits, hjoined.symm⟩
      refine ⟨left ++ t :: last, ⟨consumed, .operation op l tree, output, by simp, hbranch.2,
        hpending, .operation ht hleft hlast hloosest hafter, hbranch.1, ?_⟩, hleast⟩
      intro waiting hwaiting p hp
      exact Nat.lt_of_lt_of_le (htighter waiting hwaiting) (hleast p hp)

theorem EndsWith.reduceTo {precedence : Nat} {held' : List Held} {output' : List Parsed}
    (h : EndsWith limit consumed held output last)
    (hleast : ∀ p ∈ outerOperators 0 last, precedence ≤ p.precedence)
    (hreduce : Yard.reduceTo limit precedence held output = .ok (held', output')) :
    ∃ longer, EndsWith limit consumed held' output' longer ∧
      (∀ p ∈ outerOperators 0 longer, precedence ≤ p.precedence) ∧
      ∀ waiting, held'.head? = some (.operator waiting) → waiting.precedence < precedence := by
  fun_induction Yard.reduceTo limit precedence held output generalizing last with
  | case1 top held output htop joined hjoined ih =>
      obtain ⟨longer, hlonger, hmore⟩ := h.reduce hjoined
      exact ih hlonger (fun p hp => Nat.le_trans htop (hmore p hp)) hreduce
  | case2 => simp at hreduce
  | case3 top held output htop =>
      simp only [Except.ok.injEq, Prod.mk.injEq] at hreduce
      obtain ⟨rfl, rfl⟩ := hreduce
      refine ⟨last, h, hleast, fun waiting hwaiting => ?_⟩
      rw [List.head?_cons, Option.some.injEq, Held.operator.injEq] at hwaiting
      subst hwaiting
      omega
  | case4 held output hheld =>
      simp only [Except.ok.injEq, Prod.mk.injEq] at hreduce
      obtain ⟨rfl, rfl⟩ := hreduce
      refine ⟨last, h, hleast, fun waiting hwaiting => ?_⟩
      cases held with
      | nil => simp at hwaiting
      | cons top held =>
          rw [List.head?_cons, Option.some.injEq] at hwaiting
          exact False.elim (hheld waiting held (by rw [hwaiting]))

theorem EndsWith.reduceToParenthesis {held' : List Held} {output' : List Parsed}
    (h : EndsWith limit consumed held output last) (hc : IsClosing t)
    (hreduce : Yard.reduceToParenthesis limit held output = .ok (held', output')) :
    ∃ longer, EndsWith limit (consumed ++ [t]) held' output' longer ∧
      outerOperators 0 longer = [] := by
  fun_induction Yard.reduceToParenthesis limit held output generalizing last with
  | case1 top held output joined hjoined ih =>
      obtain ⟨longer, hlonger, _⟩ := h.reduce hjoined
      exact ih hlonger hreduce
  | case2 => simp at hreduce
  | case3 held output =>
      simp only [Except.ok.injEq, Prod.mk.injEq] at hreduce
      obtain ⟨rfl, rfl⟩ := hreduce
      obtain ⟨before, tree, rest, rfl, rfl, hpending, hlast, hfits, _⟩ := h
      cases hpending with
      | @parenthesis consumed _ _ opening hpending ho =>
          have houter := outerOperators_enclosed ho hlast.balanced hc
          refine ⟨opening :: last ++ [t], ⟨consumed, tree, rest, by simp, rfl, hpending,
            .enclosed ho hlast hc, hfits, ?_⟩, houter⟩
          intro waiting _ p hp
          rw [houter] at hp
          simp at hp
  | case4 => simp at hreduce

theorem EndsWith.reduceAll {output' : List Parsed} (h : EndsWith limit consumed held output last)
    (hreduce : Yard.reduceAll limit held output = .ok output') :
    ∃ tree, output' = [.ofTree tree] ∧ Reads consumed tree ∧ Fits limit tree.height := by
  fun_induction Yard.reduceAll limit held output generalizing last with
  | case1 top held output joined hjoined ih =>
      obtain ⟨longer, hlonger, _⟩ := h.reduce hjoined
      exact ih hlonger hreduce
  | case2 => simp at hreduce
  | case3 => simp at hreduce
  | case4 output =>
      simp only [Except.ok.injEq] at hreduce
      subst hreduce
      obtain ⟨before, tree, rest, rfl, rfl, hpending, hlast, hfits, _⟩ := h
      cases hpending
      exact ⟨tree, rfl, hlast, hfits⟩

-- There is one operand too few for what is held where an operand must come next.
theorem Pending.length_output_le (h : Pending consumed held output) :
    output.length ≤ held.length := by
  induction h with
  | empty => simp
  | parenthesis _ _ ih =>
      rw [List.length_cons]
      omega
  | operator _ _ _ _ _ ih =>
      rw [List.length_cons, List.length_cons]
      omega

theorem length_of_reduceAll {output' : List Parsed}
    (h : Yard.reduceAll limit held output = .ok output') :
    output.length = output'.length + held.length := by
  fun_induction Yard.reduceAll limit held output with
  | case1 top held output joined hjoined ih =>
      have hjoin : output.length = joined.length + 1 := by
        unfold Yard.reduce at hjoined
        split at hjoined
        · obtain ⟨p, _, rfl⟩ := Outcome.map_eq_ok_iff.mp hjoined
          simp
        · simp at hjoined
      rw [hjoin, ih h, List.length_cons]
      omega
  | case2 => simp at h
  | case3 => simp at h
  | case4 output =>
      simp only [Except.ok.injEq] at h
      simp [h]

end FlowExpr.Tree
