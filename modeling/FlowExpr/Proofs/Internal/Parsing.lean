import FlowExpr.Proofs.Grammar.Balance
import FlowExpr.Proofs.Grammar.Faults
import FlowExpr.Proofs.Internal

namespace FlowExpr

-- The parentheses that are open where the yard stands.
def Yard.opened (y : Yard) : Nat :=
  y.held.count .parenthesis

namespace Tree

open Outcome (Avoids avoids_ok avoids_error)
open Token (Throughout IsRegular IsRegularRun)

variable {limit : Option Nat} {depth : Nat} {t : Token}

theorem isInternal_of_isLocal (fault : SyntaxFault) (h : fault.isLocal = true) :
    fault.isInternal = false := by
  cases fault <;> first | rfl | simp [SyntaxFault.isLocal] at h

section Yard

variable {held held' : List Held} {output output' : List Parsed} {y next : Yard}
  {rest : List Token}

theorem avoids_reduce (op : Operator) (output : List Parsed) :
    Avoids SyntaxFault.isInternal (Yard.reduce limit op output) := by
  unfold Yard.reduce
  split
  · exact (avoids_branch isInternal_of_isLocal _ _).map _
  · exact avoids_error rfl

theorem avoids_reduceTo (precedence : Nat) (held : List Held) (output : List Parsed) :
    Avoids SyntaxFault.isInternal (Yard.reduceTo limit precedence held output) := by
  induction held generalizing output with
  | nil => exact avoids_ok _
  | cons top held ih =>
      cases top with
      | parenthesis => exact avoids_ok _
      | operator op =>
          by_cases htop : precedence ≤ op.precedence
          · rw [reduceTo_operator limit held output htop]
            exact (avoids_reduce op output).bind fun joined _ => ih joined
          · rw [Yard.reduceTo, if_neg htop]
            exact avoids_ok _

-- Joining operands closes no parenthesis.
theorem count_reduceTo {precedence : Nat}
    (h : Yard.reduceTo limit precedence held output = .ok (held', output')) :
    held'.count .parenthesis = held.count .parenthesis := by
  induction held generalizing output with
  | nil =>
      obtain ⟨rfl, -⟩ := Prod.mk.inj (Except.ok.inj h)
      rfl
  | cons top held ih =>
      cases top with
      | parenthesis =>
          obtain ⟨rfl, -⟩ := Prod.mk.inj (Except.ok.inj h)
          rfl
      | operator op =>
          by_cases htop : precedence ≤ op.precedence
          · rw [reduceTo_operator limit held output htop] at h
            obtain ⟨joined, _, hrest⟩ := Outcome.bind_eq_ok_iff.mp h
            simpa using ih hrest
          · rw [Yard.reduceTo, if_neg htop] at h
            obtain ⟨rfl, -⟩ := Prod.mk.inj (Except.ok.inj h)
            rfl

theorem avoids_reduceToParenthesis (hopened : 0 < held.count .parenthesis)
    (output : List Parsed) :
    Avoids SyntaxFault.isInternal (Yard.reduceToParenthesis limit held output) := by
  induction held generalizing output with
  | nil => simp at hopened
  | cons top held ih =>
      cases top with
      | parenthesis => exact avoids_ok _
      | operator op =>
          rw [reduceToParenthesis_operator]
          exact (avoids_reduce op output).bind fun joined _ => ih (by simpa using hopened) joined

theorem count_reduceToParenthesis
    (h : Yard.reduceToParenthesis limit held output = .ok (held', output')) :
    held'.count .parenthesis + 1 = held.count .parenthesis := by
  induction held generalizing output with
  | nil => simp [Yard.reduceToParenthesis] at h
  | cons top held ih =>
      cases top with
      | parenthesis =>
          obtain ⟨rfl, -⟩ := Prod.mk.inj (Except.ok.inj h)
          simp
      | operator op =>
          rw [reduceToParenthesis_operator] at h
          obtain ⟨joined, _, hrest⟩ := Outcome.bind_eq_ok_iff.mp h
          simpa using ih hrest

theorem avoids_reduceAll (hopened : held.count .parenthesis = 0) (output : List Parsed) :
    Avoids SyntaxFault.isInternal (Yard.reduceAll limit held output) := by
  induction held generalizing output with
  | nil => exact avoids_ok _
  | cons top held ih =>
      cases top with
      | parenthesis => simp at hopened
      | operator op =>
          rw [reduceAll_operator]
          exact (avoids_reduce op output).bind fun joined _ => ih (by simpa using hopened) joined

theorem avoids_finish (hopened : y.opened = 0) :
    Avoids SyntaxFault.isInternal (y.finish limit) := by
  have hall : Avoids SyntaxFault.isInternal (Yard.reduceAll limit y.held y.output) :=
    avoids_reduceAll hopened y.output
  unfold Yard.finish
  split
  · exact avoids_ok _
  · exact avoids_error rfl
  · rename_i fault hfault
    exact avoids_error (hall fault hfault)

-- One turn of the loop: an operator of the language is known, and the yard keeps the parentheses
-- that are open.
theorem avoids_pushOperator {op : Operator} (ht : Operator.ofSymbol? t.raw = some op) :
    Avoids SyntaxFault.isInternal (y.pushOperator limit t) := by
  unfold Yard.pushOperator
  split
  · exact avoids_error rfl
  · rw [ht]
    exact (avoids_reduceTo _ _ _).map _

theorem opened_of_pushOperator (h : y.pushOperator limit t = .ok next) :
    next.opened = y.opened := by
  unfold Yard.pushOperator at h
  split at h
  · simp at h
  split at h
  · simp at h
  · obtain ⟨⟨held, output⟩, hreduce, rfl⟩ := Outcome.map_eq_ok_iff.mp h
    simpa [Yard.opened] using count_reduceTo hreduce

-- A parenthesis is closed only where one is open.
theorem avoids_pushPunctuation (hkind : t.kind = .punctuation)
    (hopen : openAfter y.opened (t :: rest) = some 0) :
    Avoids SyntaxFault.isInternal (y.pushPunctuation limit t) := by
  unfold Yard.pushPunctuation
  split
  · unfold Yard.openParenthesis
    split
    · exact avoids_error rfl
    · exact avoids_ok _
  split
  · rename_i hclosing
    have hc : IsClosing t := isPunctuation_iff.mpr ⟨hkind, hclosing⟩
    have hopened : 0 < y.opened := by
      by_contra hzero
      rw [Nat.eq_zero_of_not_pos hzero, openAfter_zero_closing hc] at hopen
      simp at hopen
    unfold Yard.closeParenthesis
    split
    · exact avoids_error rfl
    · exact (avoids_reduceToParenthesis hopened _).map _
  · exact avoids_error rfl

theorem openAfter_of_pushPunctuation (hkind : t.kind = .punctuation)
    (h : y.pushPunctuation limit t = .ok next)
    (hopen : openAfter y.opened (t :: rest) = some 0) :
    openAfter next.opened rest = some 0 := by
  unfold Yard.pushPunctuation at h
  split at h
  · rename_i hopening
    have ho : IsOpening t := isPunctuation_iff.mpr ⟨hkind, hopening⟩
    rw [openAfter_opening ho] at hopen
    unfold Yard.openParenthesis at h
    split at h
    · simp at h
    · rw [← Except.ok.inj h]
      simpa [Yard.opened] using hopen
  split at h
  · rename_i hclosing
    have hc : IsClosing t := isPunctuation_iff.mpr ⟨hkind, hclosing⟩
    unfold Yard.closeParenthesis at h
    split at h
    · simp at h
    · obtain ⟨⟨held, output⟩, hreduce, rfl⟩ := Outcome.map_eq_ok_iff.mp h
      have hcount := count_reduceToParenthesis hreduce
      rw [Yard.opened, ← hcount, openAfter_closing hc] at hopen
      exact hopen
  · simp at h

end Yard

-- The elements of a group of regular tokens are regular runs.
theorem isRegularRun_of_split {group : Group} {tokens : List Token} {elements : List Element}
    {e : Element} (hsplit : Element.split group tokens = .ok elements)
    (hbalanced : IsBalanced tokens) (htokens : ∀ t ∈ tokens, Throughout IsRegular t)
    (he : e ∈ elements) : IsRegularRun e.run := by
  obtain ⟨hne, hrun⟩ := Element.isBalanced_of_split hbalanced hsplit he
  exact ⟨hne, hrun, fun t ht => htokens t (Element.mem_of_split hsplit he ht)⟩

-- In every place the run leads to no internal fault.
def IsSafe (limit : Option Nat) (run : List Token) : Prop :=
  ∀ depth, Avoids SyntaxFault.isInternal (parseRun limit depth run)

theorem avoids_parseOperand (ht : Throughout IsRegular t)
    (h : ∀ run, Token.runWeight run < t.weight → IsRegularRun run → IsSafe limit run) :
    Avoids SyntaxFault.isInternal (parseOperand limit depth t) := by
  have hruns {group : Group} (elements : List Element)
      (hsplit : Element.split group t.children = .ok elements) (e : Element) (he : e ∈ elements) :
      Avoids SyntaxFault.isInternal (parseRun limit (depth + 1) e.run) :=
    h e.run (runWeight_lt_of_split hsplit he (Token.runWeight_children_lt t))
      (isRegularRun_of_split hsplit ht.here.balanced ht.parts he) _
  have hnumber (hkind : t.kind = .number) :
      Avoids SyntaxFault.isInternal (numberValue t.raw) := by
    obtain ⟨v, hv⟩ := ht.here.number hkind
    rw [hv]
    exact avoids_ok _
  exact avoids_parseOperand_of isInternal_of_isLocal hnumber (fun _ => hruns) fun _ => hruns

-- Where a parenthesis is open, the parenthesis that closes it is found.
theorem exists_splitCall {depth more : Nat} {tokens : List Token}
    (h : openAfter (depth + 1 + more) tokens = some 0) :
    ∃ inner after, splitCall depth tokens = some (inner, after) := by
  induction tokens generalizing depth with
  | nil =>
      simp only [openAfter, Option.some.injEq] at h
      omega
  | cons t rest ih =>
      rw [splitCall.eq_def]
      rcases parenthesis_cases t with ho | hc | hp
      · rw [openAfter_opening ho, Nat.add_right_comm] at h
        obtain ⟨inner, after, hsplit⟩ := ih h
        simp [ho.opens, hsplit]
      · cases depth with
        | zero => simp [hc.not_opening, hc.closes]
        | succ depth =>
            rw [Nat.add_right_comm, openAfter_closing hc] at h
            obtain ⟨inner, after, hsplit⟩ := ih h
            simp [hc.not_opening, hc.closes, hsplit]
      · rw [openAfter_plain hp] at h
        obtain ⟨inner, after, hsplit⟩ := ih h
        simp [hp.1, hp.2, hsplit]

theorem exists_of_openAfter {more : Nat} {tokens : List Token}
    (h : openAfter (more + 1) tokens = some 0) : ∃ inner closing after,
      tokens = inner ++ closing :: after ∧ IsBalanced inner ∧ IsClosing closing ∧
        openAfter more after = some 0 := by
  have hdepth : openAfter (0 + 1 + more) tokens = some 0 := by
    rwa [Nat.zero_add, Nat.add_comm]
  obtain ⟨inner, after, hs⟩ := exists_splitCall hdepth
  obtain ⟨closing, hc, rfl, hinner⟩ := exists_of_splitCall hs
  have hopen : openAfter (more + 1) inner = some (more + 1) := by
    simpa using openAfter_add hinner (more + 1)
  rw [openAfter_append, hopen] at h
  exact ⟨inner, closing, after, rfl, hinner, hc, openAfter_closing hc more after ▸ h⟩

-- A call leads to no internal fault, and neither does what follows it.
theorem avoids_parseInfix_call {rest : List Token} {y : Yard} (hkind : t.kind = .identifier)
    (hexpects : y.expectsOperator = false)
    (hcall : rest.head?.any (·.isPunctuation "(") = true)
    (hopen : openAfter y.opened rest = some 0) (hrest : ∀ t ∈ rest, Throughout IsRegular t)
    (h : ∀ run, Token.runWeight run < Token.runWeight rest → IsRegularRun run → IsSafe limit run)
    (hafter : ∀ after : List Token, after.length < rest.length → after ⊆ rest →
      Token.runWeight after ≤ Token.runWeight rest → ∀ next : Yard,
        openAfter next.opened after = some 0 →
          Avoids SyntaxFault.isInternal (parseInfix limit depth next after)) :
    Avoids SyntaxFault.isInternal (parseInfix limit depth y (t :: rest)) := by
  cases rest with
  | nil => simp at hcall
  | cons opening more =>
      have ho : IsOpening opening := by simpa [IsOpening] using hcall
      rw [openAfter_opening ho] at hopen
      obtain ⟨inner, closing, after, rfl, hinner, hc, hnext⟩ := exists_of_openAfter hopen
      have hlighter := splitCall_weight (splitCall_append hinner hc after)
      have hinside : ∀ t ∈ inner, Throughout IsRegular t := fun t ht => hrest t (by simp [ht])
      have hruns {elements : List Element} (hsplit : Element.split .call inner = .ok elements) :
          Avoids SyntaxFault.isInternal (parseRuns limit 0 (plainRuns elements)) := by
        apply avoids_parseRuns
        intro run hrun
        obtain ⟨e, he, rfl⟩ := exists_of_mem_plainRuns hrun
        have hweight : Token.runWeight inner <
            Token.runWeight (opening :: (inner ++ closing :: after)) := by
          simp only [Token.runWeight]
          omega
        exact h e.run (runWeight_lt_of_split hsplit he hweight)
          (isRegularRun_of_split hsplit hinner hinside he) 0
      have hgoesOn (node : Parsed) : Avoids SyntaxFault.isInternal
          (parseInfix limit depth (y.pushOperand node) after) := by
        apply hafter after
        · simp only [List.length_cons, List.length_append]
          omega
        · exact fun t ht => by simp [ht]
        · simp only [Token.runWeight]
          omega
        · exact hnext
      rw [parseInfix_call hkind ho hinner hc hexpects]
      exact (avoids_split isInternal_of_isLocal _ _).bind fun elements hsplit =>
        (hruns hsplit).bind fun values _ =>
          (avoids_callOf isInternal_of_isLocal _ _ _).bind fun node _ => hgoesOn node

-- Every turn of the loop keeps as many parentheses open as the rest of the run closes.
theorem avoids_parseInfix {tokens : List Token} {y : Yard}
    (h : ∀ run, Token.runWeight run < Token.runWeight tokens → IsRegularRun run →
      IsSafe limit run)
    (htokens : ∀ t ∈ tokens, Throughout IsRegular t) (hopen : openAfter y.opened tokens = some 0) :
    Avoids SyntaxFault.isInternal (parseInfix limit depth y tokens) := by
  induction hn : tokens.length using Nat.strongRecOn generalizing tokens y with
  | ind n ih =>
  cases tokens with
  | nil =>
      rw [parseInfix_nil]
      exact avoids_finish (Option.some.inj hopen)
  | cons t rest =>
      have hweight : Token.runWeight (t :: rest) = t.weight + Token.runWeight rest := by
        rw [Token.runWeight]
      have hpos := t.weight_pos
      have ht := htokens t (by simp)
      have hrestTokens : ∀ t ∈ rest, Throughout IsRegular t :=
        fun other hother => htokens other (List.mem_cons_of_mem t hother)
      have hafter : ∀ after : List Token, after.length ≤ rest.length → after ⊆ rest →
          Token.runWeight after ≤ Token.runWeight rest → ∀ next : Yard,
            openAfter next.opened after = some 0 →
              Avoids SyntaxFault.isInternal (parseInfix limit depth next after) := by
        intro after hlength hsubset hlighter next hnext
        rw [List.length_cons] at hn
        exact ih after.length (by omega) (fun run hrun => h run (by omega))
          (fun t ht => hrestTokens t (hsubset ht)) hnext rfl
      have hrest := hafter rest (Nat.le_refl _) (List.Subset.refl _) (Nat.le_refl _)
      by_cases hoperator : t.kind = .operator
      · obtain ⟨op, hop⟩ := ht.here.operator hoperator
        rw [openAfter_plain (isPlain_of_kind (by simp [hoperator]))] at hopen
        rw [parseInfix_operator hoperator]
        refine (avoids_pushOperator hop).bind fun next hnext => hrest next ?_
        rwa [opened_of_pushOperator hnext]
      by_cases hpunctuation : t.kind = .punctuation
      · rw [parseInfix_punctuation hpunctuation]
        exact (avoids_pushPunctuation hpunctuation hopen).bind fun next hnext =>
          hrest next (openAfter_of_pushPunctuation hpunctuation hnext hopen)
      rw [openAfter_plain (isPlain_of_kind hpunctuation)] at hopen
      by_cases hexpects : y.expectsOperator = true
      · rw [parseInfix_expecting hoperator hpunctuation hexpects]
        exact avoids_error rfl
      rw [Bool.not_eq_true] at hexpects
      by_cases hcall : t.kind = .identifier ∧ rest.head?.any (·.isPunctuation "(") = true
      · exact avoids_parseInfix_call hcall.1 hexpects hcall.2 hopen hrestTokens
          (fun run hrun => h run (by omega)) fun after hlength =>
            hafter after (Nat.le_of_lt hlength)
      · have hoperand : Avoids SyntaxFault.isInternal (parseOperand limit depth t) :=
          avoids_parseOperand ht fun run hrun => h run (by omega)
        rw [parseInfix_operand hoperator hpunctuation hexpects hcall]
        exact hoperand.bind fun operand _ => hrest (y.pushOperand operand) hopen

-- A regular run leads to no internal fault, wherever it stands.
theorem isSafe_of_isRegularRun {run : List Token} (h : IsRegularRun run) : IsSafe limit run := by
  induction hn : Token.runWeight run using Nat.strongRecOn generalizing run with
  | ind n ih =>
  intro depth
  have hinner : ∀ inner, Token.runWeight inner < Token.runWeight run → IsRegularRun inner →
      IsSafe limit inner := by
    intro inner hlighter hregular
    exact ih (Token.runWeight inner) (by omega) hregular rfl
  rw [parseRun.eq_def]
  split
  · exact avoids_error rfl
  · cases run with
    | nil => exact absurd rfl h.ne_nil
    | cons t rest =>
        cases rest with
        | nil =>
            apply avoids_parseOperand (h.tokens t (by simp))
            intro inner hlighter
            exact hinner inner (by simpa only [Token.runWeight, Nat.add_zero] using hlighter)
        | cons next more => exact avoids_parseInfix hinner h.tokens h.balanced

end Tree

end FlowExpr
