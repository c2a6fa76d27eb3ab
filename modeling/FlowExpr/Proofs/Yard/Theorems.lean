import FlowExpr.Proofs.Yard.Lemmas

namespace FlowExpr.Tree

open Outcome (Avoids avoids_ok avoids_error)

variable {limit : Option Nat} {depth : Nat} {t : Token} {run rest after : List Token}
  {y next : Yard}

theorem parseInfix_startsCall (hkind : t.kind = .identifier) (hexpects : y.expectsOperator = false)
    (hcall : rest.head?.any (·.isPunctuation "(") = true) :
    parseInfix limit depth y (t :: rest) = (takeCall limit t.raw rest).bind fun taken =>
      parseInfix limit depth (y.pushOperand taken.1) taken.2 := by
  cases hs : splitCall 0 rest.tail with
  | none =>
      rw [parseInfix_openCall hkind hexpects hcall hs, takeCall, hs]
      rfl
  | some pair =>
      obtain ⟨inner, after⟩ := pair
      rw [takeCall, hs]
      cases rest with
      | nil => simp at hcall
      | cons opening more =>
          obtain ⟨closing, hc, rfl, hinner⟩ := exists_of_splitCall hs
          rw [parseInfix_call hkind (by simpa [IsOpening] using hcall) hinner hc hexpects]
          dsimp only
          cases Element.split .call inner with
          | error fault => rfl
          | ok elements =>
              simp only [Except.bind]
              cases parseRuns limit 0 (plainRuns elements) with
              | error fault => rfl
              | ok values =>
                  simp only
                  cases callOf limit t.raw elements values <;> rfl

theorem turn_operand (hoperator : t.kind ≠ .operator) (hpunctuation : t.kind ≠ .punctuation) :
    turn limit depth y t rest =
      if y.expectsOperator then .error (Yard.unexpected t)
      else (takeOperand limit depth t rest).map fun (operand, after) =>
        (y.pushOperand operand, after) := by
  rw [turn]
  split <;> trivial

-- The loop takes one turn after the other.
theorem parseInfix_cons : parseInfix limit depth y (t :: rest) =
    (turn limit depth y t rest).bind fun state => parseInfix limit depth state.1 state.2 := by
  by_cases hoperator : t.kind = .operator
  · rw [parseInfix_operator hoperator, turn, hoperator]
    cases y.pushOperator limit t <;> rfl
  by_cases hpunctuation : t.kind = .punctuation
  · rw [parseInfix_punctuation hpunctuation, turn, hpunctuation]
    cases y.pushPunctuation limit t <;> rfl
  rw [turn_operand hoperator hpunctuation]
  by_cases hexpects : y.expectsOperator = true
  · rw [parseInfix_expecting hoperator hpunctuation hexpects, if_pos hexpects]
    rfl
  rw [if_neg hexpects, takeOperand]
  rw [Bool.not_eq_true] at hexpects
  by_cases hcall : t.kind = .identifier ∧ rest.head?.any (·.isPunctuation "(") = true
  · rw [parseInfix_startsCall hcall.1 hexpects hcall.2, if_pos hcall]
    cases takeCall limit t.raw rest <;> rfl
  · rw [parseInfix_operand hoperator hpunctuation hexpects hcall, if_neg hcall]
    cases parseOperand limit depth t <;> rfl

theorem suffix_of_takeCall {name : String} {operand : Parsed}
    (h : takeCall limit name rest = .ok (operand, after)) : after <:+ rest := by
  unfold takeCall at h
  split at h
  · simp at h
  · rename_i inner behind hs
    obtain ⟨elements, _, h⟩ := Outcome.bind_eq_ok_iff.mp h
    obtain ⟨values, _, h⟩ := Outcome.bind_eq_ok_iff.mp h
    obtain ⟨node, _, heq⟩ := Outcome.map_eq_ok_iff.mp h
    obtain ⟨rfl, rfl⟩ := Prod.mk.inj heq
    obtain ⟨closing, _, htail, _⟩ := exists_of_splitCall hs
    have hbehind : behind <:+ rest.tail := by
      rw [htail]
      exact (List.suffix_cons closing behind).trans (List.suffix_append inner _)
    exact hbehind.trans (List.tail_suffix rest)

theorem suffix_of_takeOperand {operand : Parsed}
    (h : takeOperand limit depth t rest = .ok (operand, after)) : after <:+ rest := by
  unfold takeOperand at h
  split at h
  · exact suffix_of_takeCall h
  · obtain ⟨_, _, heq⟩ := Outcome.map_eq_ok_iff.mp h
    obtain ⟨rfl, rfl⟩ := Prod.mk.inj heq
    exact List.suffix_refl _

-- What one turn does: it handles an operator or a punctuation mark, or takes an operand, which may
-- be a call, where no operator must come next.
theorem turn_cases (h : turn limit depth y t rest = .ok (next, after)) :
    (t.kind = .operator ∧ y.pushOperator limit t = .ok next ∧ after = rest) ∨
    (t.kind = .punctuation ∧ y.pushPunctuation limit t = .ok next ∧ after = rest) ∨
    (y.expectsOperator = false ∧ ∃ operand, next = y.pushOperand operand ∧ after <:+ rest) := by
  unfold turn at h
  split at h
  · rename_i hkind
    obtain ⟨_, hpush, heq⟩ := Outcome.map_eq_ok_iff.mp h
    obtain ⟨rfl, rfl⟩ := Prod.mk.inj heq
    exact .inl ⟨hkind, hpush, rfl⟩
  · rename_i hkind
    obtain ⟨_, hpush, heq⟩ := Outcome.map_eq_ok_iff.mp h
    obtain ⟨rfl, rfl⟩ := Prod.mk.inj heq
    exact .inr (.inl ⟨hkind, hpush, rfl⟩)
  · split at h
    · simp at h
    rename_i hexpects
    obtain ⟨⟨operand, _⟩, htake, heq⟩ := Outcome.map_eq_ok_iff.mp h
    obtain ⟨rfl, rfl⟩ := Prod.mk.inj heq
    exact .inr (.inr ⟨by simpa using hexpects, operand, rfl, suffix_of_takeOperand htake⟩)

-- Where an operand must come next, a parenthesis was opened last, or an operator was read last, or
-- nothing was read.
def EndsOpen (consumed : List Token) (y : Yard) : Prop :=
  y.expectsOperator = false →
    consumed = [] ∨ y.held.head? = some .parenthesis ∨ ∃ t ∈ consumed.getLast?, t.kind = .operator

theorem expectsOperator_of_pushPunctuation (h : y.pushPunctuation limit t = .ok next) :
    next.expectsOperator = false → next.held.head? = some .parenthesis := by
  unfold Yard.pushPunctuation Yard.openParenthesis Yard.closeParenthesis at h
  split at h
  · split at h
    · simp at h
    rw [← Except.ok.inj h]
    exact fun _ => rfl
  split at h
  · split at h
    · simp at h
    obtain ⟨_, _, rfl⟩ := Outcome.map_eq_ok_iff.mp h
    simp
  · simp at h

-- One turn leaves the output with as many operands more as the loop counts on, and moves on.
theorem isBalanced_turn (h : y.IsBalanced) (hturn : turn limit depth y t rest = .ok (next, after)) :
    next.IsBalanced := by
  rcases turn_cases hturn with ⟨_, hpush, _⟩ | ⟨_, hpush, _⟩ | ⟨hexpects, operand, rfl, _⟩
  · exact h.pushOperator hpush
  · exact h.pushPunctuation hpush
  · exact h.pushOperand hexpects operand

theorem endsOpen_turn (hturn : turn limit depth y t rest = .ok (next, after))
    (consumed : List Token) :
    ∃ taken, t :: rest = taken ++ after ∧ taken ≠ [] ∧ EndsOpen (consumed ++ taken) next := by
  rcases turn_cases hturn with ⟨hkind, _, rfl⟩ | ⟨_, hpush, rfl⟩ | ⟨_, operand, rfl, hafter⟩
  · exact ⟨[t], rfl, by simp, fun _ => .inr (.inr ⟨t, by simp, hkind⟩)⟩
  · have hopen := expectsOperator_of_pushPunctuation hpush
    exact ⟨[t], rfl, by simp, fun hnext => .inr (.inl (hopen hnext))⟩
  · obtain ⟨taken, rfl⟩ := hafter
    exact ⟨t :: taken, rfl, by simp, nofun⟩

theorem Reaches.isBalanced (h : Reaches limit depth run y rest) : y.IsBalanced := by
  induction h with
  | start => exact Yard.isBalanced_empty
  | step _ hturn ih => exact isBalanced_turn ih hturn

theorem Reaches.exists_endsOpen (h : Reaches limit depth run y rest) :
    ∃ consumed, run = consumed ++ rest ∧ EndsOpen consumed y := by
  induction h with
  | start => exact ⟨[], rfl, fun _ => .inl rfl⟩
  | step _ hturn ih =>
      obtain ⟨consumed, rfl, _⟩ := ih
      obtain ⟨taken, htaken, _, hends⟩ := endsOpen_turn hturn consumed
      exact ⟨consumed ++ taken, by rw [htaken, List.append_assoc], hends⟩

-- Every state is one of the same loop.
theorem Reaches.parseInfix_eq (h : Reaches limit depth run y rest) :
    parseInfix limit depth .empty run = parseInfix limit depth y rest := by
  induction h with
  | start => rfl
  | step _ hturn ih =>
      rw [ih, parseInfix_cons, hturn]
      rfl

-- A loop that fails does so in one of its turns or at its end.
theorem Reaches.exists_of_parseInfix {fault : SyntaxFault} (h : Reaches limit depth run y rest)
    (hfault : parseInfix limit depth y rest = .error fault) :
    (∃ y t rest, Reaches limit depth run y (t :: rest) ∧
      turn limit depth y t rest = .error fault) ∨
    ∃ y, Reaches limit depth run y [] ∧ y.finish limit = .error fault := by
  induction hn : rest.length using Nat.strongRecOn generalizing y rest with
  | ind n ih =>
  cases rest with
  | nil =>
      rw [parseInfix_nil] at hfault
      exact .inr ⟨y, h, hfault⟩
  | cons t rest =>
      rw [parseInfix_cons] at hfault
      cases hturn : turn limit depth y t rest with
      | error other =>
          rw [hturn] at hfault
          obtain rfl := Except.error.inj hfault
          exact .inl ⟨y, t, rest, h, hturn⟩
      | ok state =>
          obtain ⟨next, after⟩ := state
          rw [hturn] at hfault
          obtain ⟨taken, htaken, hne, _⟩ := endsOpen_turn hturn []
          have hshorter : after.length < n := by
            have hlength := congrArg List.length htaken
            have hpos := List.length_pos_iff.mpr hne
            rw [List.length_append] at hlength
            omega
          exact ih after.length hshorter (h.step hturn) hfault rfl

theorem avoids_numberValue (raw : String) : Avoids SyntaxFault.isInvalid (numberValue raw) := by
  have hfloat : Avoids SyntaxFault.isInvalid (floatValue raw) := by
    unfold floatValue
    split
    · exact avoids_ok _
    · exact avoids_error rfl
  unfold numberValue
  split
  · exact hfloat
  split
  · exact avoids_ok _
  · exact hfloat

-- An operand is invalid only if a run in it is.
theorem avoids_takeOperand
    (h : ∀ inside inner, IsInner depth t rest inside inner →
      Avoids SyntaxFault.isInvalid (parseRun limit inside inner)) :
    Avoids SyntaxFault.isInvalid (takeOperand limit depth t rest) := by
  have hlocal := Yard.isInvalid_of_isLocal
  unfold takeOperand
  split
  · rename_i hcall
    unfold takeCall
    split
    · exact avoids_error rfl
    · rename_i hs
      refine (avoids_split hlocal _ _).bind fun elements hsplit => ?_
      refine (avoids_parseRuns fun run hrun => ?_).bind fun values _ =>
        (avoids_callOf hlocal _ _ _).map _
      exact h _ _ (.call hcall.1 hcall.2 hs hsplit hrun)
  · refine (avoids_parseOperand_of hlocal (fun _ => avoids_numberValue t.raw) ?_ ?_).map _
    · exact fun hkind elements hsplit e he => h _ _ (.object hkind hsplit he)
    · exact fun hkind elements hsplit e he => h _ _ (.array hkind hsplit he)

theorem avoids_turn (hbalanced : y.IsBalanced)
    (h : y.expectsOperator = false → ∀ inside inner, IsInner depth t rest inside inner →
      Avoids SyntaxFault.isInvalid (parseRun limit inside inner)) :
    Avoids SyntaxFault.isInvalid (turn limit depth y t rest) := by
  unfold turn
  split
  · exact hbalanced.avoids_pushOperator.map _
  · exact hbalanced.avoids_pushPunctuation.map _
  · split
    · exact avoids_error rfl
    · rename_i hexpects
      exact (avoids_takeOperand (h (by simpa using hexpects))).map _

-- At the end of a run that ends neither behind an operand nor with an operator, a parenthesis is
-- open.
theorem avoids_finish_of_endsOpen (hbalanced : y.IsBalanced) (hends : EndsOpen run y)
    (hne : run ≠ []) (hlast : ∀ t ∈ run.getLast?, t.kind ≠ .operator) :
    Avoids SyntaxFault.isInvalid (y.finish limit) := by
  cases hexpects : y.expectsOperator with
  | true => exact hbalanced.avoids_finish hexpects
  | false =>
      rcases hends hexpects with hnil | hopen | ⟨t, ht, hkind⟩
      · exact absurd hnil hne
      · obtain ⟨held, hheld⟩ := List.head?_eq_some_iff.mp hopen
        rw [Yard.finish, hheld, Yard.reduceAll]
        exact avoids_error rfl
      · exact absurd hkind (hlast t ht)

-- A run that ends with no operator is invalid only through a run in it.
theorem avoids_parseRun (hlast : ∀ t ∈ run.getLast?, t.kind ≠ .operator)
    (h : ∀ inside inner, GoesInto limit depth run inside inner →
      Avoids SyntaxFault.isInvalid (parseRun limit inside inner)) :
    Avoids SyntaxFault.isInvalid (parseRun limit depth run) := by
  rw [parseRun.eq_def]
  split
  · exact avoids_error rfl
  split
  · exact avoids_error rfl
  · rename_i t
    have htake : Avoids SyntaxFault.isInvalid (takeOperand limit depth t []) :=
      avoids_takeOperand fun inside inner hinner => h _ _ ⟨_, t, [], .start, rfl, hinner⟩
    rw [takeOperand, if_neg (by simp)] at htake
    intro fault hfault
    exact htake fault (by rw [hfault]; rfl)
  · rename_i hne _
    intro fault hfault
    rcases Reaches.start.exists_of_parseInfix hfault with ⟨y, t, rest, hy, hturn⟩ | ⟨y, hy, hfinish⟩
    · exact avoids_turn hy.isBalanced
        (fun hexpects inside inner hinner => h _ _ ⟨y, t, rest, hy, hexpects, hinner⟩) _ hturn
    · obtain ⟨consumed, hrun, hends⟩ := hy.exists_endsOpen
      rw [List.append_nil] at hrun
      subst hrun
      exact avoids_finish_of_endsOpen hy.isBalanced hends hne hlast _ hfinish

-- In every state of the loop the output has an operand for each held operator, and one more where
-- an operator must come next. So no turn runs out of operands, no more than one operand is left at
-- the end, and a run is invalid only if it ends with an operator or through a run in it.
theorem parseInfix_isBalanced (limit : Option Nat) (depth : Nat) (run : List Token) :
    (∀ y rest, Reaches limit depth run y rest →
      parseInfix limit depth .empty run = parseInfix limit depth y rest ∧
      y.output.length = y.held.countP Held.isOperator + (if y.expectsOperator then 1 else 0) ∧
      (∀ t, y.pushOperator limit t ≠ .error .invalidExpression) ∧
      (∀ t, y.pushPunctuation limit t ≠ .error .invalidExpression) ∧
      ∀ output, Yard.reduceAll limit y.held y.output = .ok output → output.length ≤ 1) ∧
    (parse run = .error .invalidExpression →
      (∃ t ∈ run.getLast?, t.kind = .operator) ∨
      ∃ inside inner, GoesInto (some maxNesting) 0 run inside inner ∧
        parseRun (some maxNesting) inside inner = .error .invalidExpression) := by
  constructor
  · intro y rest h
    have hbalanced := h.isBalanced
    exact ⟨h.parseInfix_eq, hbalanced,
      fun t => Yard.avoids_isInvalid_iff.mp hbalanced.avoids_pushOperator,
      fun t => Yard.avoids_isInvalid_iff.mp hbalanced.avoids_pushPunctuation,
      fun output => hbalanced.length_le_one⟩
  · intro hparse
    by_contra hnone
    rw [not_or] at hnone
    obtain ⟨hlast, hinner⟩ := hnone
    have hrun : Avoids SyntaxFault.isInvalid (parseRun (some maxNesting) 0 run) := by
      apply avoids_parseRun
      · exact fun t ht hkind => hlast ⟨t, ht, hkind⟩
      · exact fun inside inner hinto =>
          Yard.avoids_isInvalid_iff.mpr fun hfault => hinner ⟨inside, inner, hinto, hfault⟩
    exact Yard.avoids_isInvalid_iff.mp (hrun.map Parsed.tree) hparse

-- A number with an operator behind it, and the state in which the loop leaves it.
def trailingPlus : List Token :=
  [.plain .number "1", .plain .operator "+"]

def behindPlus : Yard :=
  ⟨[.leaf (.literal (.int 1))], [.operator .add], false⟩

theorem reaches_behindPlus : Reaches limit depth trailingPlus behindPlus [] := by
  have hone : turn limit depth .empty (.plain .number "1") [.plain .operator "+"] =
      .ok (⟨[.leaf (.literal (.int 1))], [], true⟩, [.plain .operator "+"]) := by
    have hoperand : parseOperand limit depth (.plain .number "1") =
        .ok (.leaf (.literal (.int 1))) := by
      rw [parseOperand]
      rfl
    rw [turn_operand (by decide) (by decide), takeOperand, if_neg (by decide), hoperand]
    rfl
  exact (Reaches.start.step hone).step rfl

theorem parse_trailingPlus : parse trailingPlus = .error .invalidExpression := by
  have hloop : parseInfix (some maxNesting) 0 .empty trailingPlus = .error .invalidExpression := by
    rw [reaches_behindPlus.parseInfix_eq, parseInfix_nil]
    rfl
  rw [parse, parseWithin, parseRun.eq_def, if_neg (by decide)]
  exact congrArg (Except.map Parsed.tree) hloop

-- The operator waits for an operand that does not come.
theorem parseInfix_isBalanced_trailingPlus :
    Reaches (some maxNesting) 0 trailingPlus behindPlus [] ∧
      behindPlus.output.length = behindPlus.held.countP Held.isOperator ∧
      parse trailingPlus = .error .invalidExpression ∧
      ((∃ t ∈ trailingPlus.getLast?, t.kind = .operator) ∨
        ∃ inside inner, GoesInto (some maxNesting) 0 trailingPlus inside inner ∧
          parseRun (some maxNesting) inside inner = .error .invalidExpression) := by
  obtain ⟨hloop, hinvalid⟩ := parseInfix_isBalanced (some maxNesting) 0 trailingPlus
  obtain ⟨_, hbalanced, _⟩ := hloop behindPlus [] reaches_behindPlus
  exact ⟨reaches_behindPlus, hbalanced, parse_trailingPlus, hinvalid parse_trailingPlus⟩

end FlowExpr.Tree
