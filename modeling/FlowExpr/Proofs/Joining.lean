import FlowExpr.Proofs.Grammar.Theorems
import FlowExpr.Proofs.Rereading.Levels

namespace FlowExpr

namespace Token

open Text (Cursor)

variable {inside inside' : Cursor → Except LexError (List Token)} {most : Nat}
  {run rest left right tokens : List Token} {text other : List Char}

-- Where the check gets over an operator it goes on with what follows, which is no operator.
theorem checkRun_operator {opened : Nat} {t : Token} (ht : t.kind = .operator)
    (hrest : ∀ next ∈ rest.head?, next.kind ≠ .operator) :
    checkRun opened (t :: rest) = checkRun opened rest := by
  rw [checkRun.eq_def]
  simp only [ht]
  cases hnext : rest.head? with
  | none => rfl
  | some next =>
      dsimp only
      rw [if_neg (hrest next hnext)]

theorem head?_of_checkRun {opened : Nat} {t : Token} (ht : t.kind = .operator)
    (h : checkRun opened (t :: rest) = .ok ()) : ∀ next ∈ rest.head?, next.kind ≠ .operator := by
  intro next hnext hkind
  rw [checkRun.eq_def] at h
  simp only [ht] at h
  rw [Option.mem_def.mp hnext] at h
  simp [hkind] at h

-- The check of a run ends with its parentheses closed, so that of a longer one goes on with those
-- that were open before it.
theorem checkRun_append {opened : Nat} (h : checkRun opened run = .ok ()) (further : Nat)
    (hrest : ∀ next ∈ rest.head?, next.kind ≠ .operator) :
    checkRun (opened + further) (run ++ rest) = checkRun further rest := by
  induction run generalizing opened with
  | nil =>
      rw [checkRun] at h
      split at h
      · rename_i hopened
        rw [hopened, Nat.zero_add, List.nil_append]
      · simp at h
  | cons t run ih =>
      by_cases hoperator : t.kind = .operator
      · have hnext := head?_of_checkRun hoperator h
        rw [checkRun_operator hoperator hnext] at h
        rw [List.cons_append, checkRun_operator hoperator ?_, ih h]
        cases run with
        | nil => exact hrest
        | cons next later => exact hnext
      rw [List.cons_append, checkRun.eq_def]
      rw [checkRun.eq_def] at h
      dsimp only at h ⊢
      cases hkind : t.kind <;> simp only [hkind] at h ⊢
      case operator => exact absurd hkind hoperator
      case identifier =>
        split at h
        · simp at h
        · rename_i hdollar
          rw [if_neg hdollar, ih h]
      case punctuation =>
        by_cases hopening : t.raw = "("
        · rw [if_pos hopening] at h ⊢
          rw [← ih h, Nat.add_right_comm]
        rw [if_neg hopening] at h ⊢
        by_cases hclosing : t.raw = ")"
        · rw [if_pos hclosing] at h ⊢
          cases opened with
          | zero => simp at h
          | succ opened =>
            rw [Nat.add_right_comm]
            exact ih h
        rw [if_neg hclosing] at h ⊢
        split at h
        · simp at h
        rename_i hbrace
        rw [if_neg hbrace]
        split at h
        · simp at h
        rename_i hbracket
        rw [if_neg hbracket, ih h]
      all_goals
        split at h
        · exact ih h
        · simp at h

theorem checkRun_enclosed {opened : Nat} (h : checkRun 0 run = .ok ()) (rest : List Token) :
    checkRun opened (enclosedIf true run ++ rest) = checkRun opened rest := by
  have hclosing : ∀ next ∈ (closing :: rest).head?,
      next.kind ≠ .operator := by
    simp [closing, plain, Token.kind]
  have hinner := checkRun_append h (opened + 1) hclosing
  calc
    checkRun opened (enclosedIf true run ++ rest) =
        checkRun (opened + 1) (run ++ closing :: rest) := by
      simp [enclosedIf, opening, closing, checkRun, plain, Token.kind, Token.raw]
    _ = checkRun (opened + 1) (closing :: rest) := by
      rw [← hinner, Nat.zero_add]
    _ = checkRun opened rest := by
      simp [closing, checkRun, plain, Token.kind, Token.raw]

theorem readAll_plain {kind : Kind} {run rest : List Char} (h : IsPlainRun kind run rest)
    (place : Nat) : readAll inside ⟨run ++ rest, place⟩ =
      (readAll inside ⟨rest, place + run.length⟩).map (.plain kind (String.ofList run) :: ·) :=
  readAll_some h.nextWith_eq

-- A text in parentheses has its own tokens between them, whatever stands behind it.
theorem readAll_parenthesis (hinside : Rereads most inside inside') {offset : Nat}
    (h : readAll inside ⟨text, offset⟩ = .ok tokens) (htokens : runNesting tokens ≤ most)
    (other : List Char) (place : Nat) :
    readAll inside' ⟨'(' :: (text ++ ')' :: other), place⟩ =
      (readAll inside' ⟨other, place + 1 + text.length + 1⟩).map (enclosedIf true tokens ++ ·) := by
  have hopening : IsPlainRun .punctuation ['('] (text ++ ')' :: other) := .sign (by decide)
  have hclosing : IsPlainRun .punctuation [')'] other := .sign (by decide)
  have hseam : IsSeam (')' :: other) := by
    have hmark : extendsToken ')' = false := by decide +kernel
    simpa [IsSeam] using hmark
  have hnone : Text.isBlankText [] = true := rfl
  have hinner := readAll_again hinside hnone (List.append_nil text).symm h htokens hseam (place + 1)
  have hstart : readAll inside' ⟨'(' :: (text ++ ')' :: other), place⟩ =
      (readAll inside' ⟨text ++ ')' :: other, place + 1⟩).map (opening :: ·) :=
    readAll_plain hopening place
  have hend : readAll inside' ⟨')' :: other, place + 1 + text.length⟩ =
      (readAll inside' ⟨other, place + 1 + text.length + 1⟩).map (closing :: ·) :=
    readAll_plain hclosing (place + 1 + text.length)
  rw [hstart, hinner, hend]
  cases readAll inside' ⟨other, place + 1 + text.length + 1⟩ <;>
    simp [Except.map, enclosedIf, opening, closing]

-- An operator is read alone if nothing that follows it makes it longer.
theorem isPlainRun_operator (op : Operator) {rest : List Char} (hrest : IsSeam rest) :
    IsPlainRun .operator op.symbol.toList rest := by
  have halone : operatorAt? (op.symbol.toList ++ []) = some op := by cases op <;> decide
  exact .operator op (operatorAt?_of_standsFor (.inl hrest) halone)

-- Two runs in parentheses with an operator between them.
def joined (op : Operator) (left right : List Token) : List Token :=
  enclosedIf true left ++ .ofOperator op :: enclosedIf true right

theorem lex_joined {first second : String} (op : Operator) (hfirst : lex first = .ok left)
    (hsecond : lex second = .ok right) :
    lex ("(" ++ first ++ ")" ++ op.symbol ++ "(" ++ second ++ ")") =
      .ok (joined op left right) := by
  have hparenthesis : IsSeam ('(' :: (second.toList ++ [')'])) := by
    have hmark : extendsToken '(' = false := by decide +kernel
    simpa [IsSeam] using hmark
  have htext : ("(" ++ first ++ ")" ++ op.symbol ++ "(" ++ second ++ ")").toList =
      '(' :: (first.toList ++ ')' :: (op.symbol.toList ++ '(' :: (second.toList ++ [')']))) := by
    simp
  have hleft := readAll_parenthesis (rereads_lexWithin 255) hfirst
    (runNesting_le_of_lexWithin hfirst) (op.symbol.toList ++ '(' :: (second.toList ++ [')'])) 0
  have hright := readAll_parenthesis (rereads_lexWithin 255) hsecond
    (runNesting_le_of_lexWithin hsecond) []
  rw [lex, htext]
  apply hleft.trans
  rw [readAll_plain (isPlainRun_operator op hparenthesis), hright, readAll_end]
  simp [Except.map, joined, ofOperator]

theorem read_joined {first second : String} (op : Operator) (hfirst : read first = .ok left)
    (hsecond : read second = .ok right) :
    read ("(" ++ first ++ ")" ++ op.symbol ++ "(" ++ second ++ ")") =
      .ok (joined op left right) := by
  obtain ⟨-, hlexfirst, hcheckfirst⟩ := read_eq_ok_iff.mp hfirst
  obtain ⟨-, hlexsecond, hchecksecond⟩ := read_eq_ok_iff.mp hsecond
  refine read_eq_ok_iff.mpr ⟨?_, lex_joined op hlexfirst hlexsecond, ?_⟩
  · have hparenthesis : Text.isBlank '(' = false := rfl
    simp [Text.isBlankText, hparenthesis]
  · have hnext : ∀ next ∈ (enclosedIf true right).head?, next.kind ≠ .operator := by
      simp [enclosedIf, opening, plain, Token.kind]
    have hright : checkRun 0 (enclosedIf true right ++ []) = checkRun 0 [] :=
      checkRun_enclosed hchecksecond []
    rw [List.append_nil] at hright
    rw [joined, checkRun_enclosed hcheckfirst, checkRun_operator rfl hnext, hright]
    rfl

end Token

namespace Tree

open Token (enclosedIf joined)

variable {left right : List Token} {l r : Tree}

theorem Reads.enclosedIf_true {run : List Token} {tree : Tree} (h : Reads run tree) :
    Reads (enclosedIf true run) tree ∧ outerOperators 0 (enclosedIf true run) = [] :=
  ⟨.enclosed rfl h rfl, outerOperators_enclosed rfl h.balanced rfl⟩

-- Two expressions in parentheses with an operator between them are the operands of the operator,
-- whatever operators and brackets they have themselves.
theorem parse_joined {first second : String} (op : Operator) (hfirst : Token.read first = .ok left)
    (hsecond : Token.read second = .ok right) (hl : parse left = .ok l) (hr : parse right = .ok r)
    (hlheight : l.height < maxNesting) (hrheight : r.height < maxNesting) :
    ∃ tokens, Token.read ("(" ++ first ++ ")" ++ op.symbol ++ "(" ++ second ++ ")") = .ok tokens ∧
      parse tokens = .ok (.operation op l r) := by
  obtain ⟨hleft, hleftouter⟩ := (parse_eq_ok_iff.mp hl).1.enclosedIf_true
  obtain ⟨hright, hrightouter⟩ := (parse_eq_ok_iff.mp hr).1.enclosedIf_true
  have hoperator : operator? (.ofOperator op) = some op :=
    Operator.ofSymbol?_symbol op
  have hreads : Reads (joined op left right) (.operation op l r) :=
    .operation hoperator hleft hright (by simp [hleftouter]) (by simp [hrightouter])
  have hheight : (Tree.operation op l r).height ≤ maxNesting := by
    rw [height]
    omega
  exact ⟨joined op left right, Token.read_joined op hfirst hsecond,
    parse_eq_ok_iff.mpr ⟨hreads, hheight⟩⟩

theorem read_sum : Token.read "1 + 2" =
    .ok [.plain .number "1", .plain .operator "+", .plain .number "2"] := by
  have hone : Token.nextWith (Token.lexWithin 255) (Text.Cursor.start "1 + 2".toList) =
      ⟨.ok (some (.plain .number "1")), ⟨[' ', '+', ' ', '2'], 1⟩⟩ := rfl
  have hplus : Token.nextWith (Token.lexWithin 255) ⟨[' ', '+', ' ', '2'], 1⟩ =
      ⟨.ok (some (.plain .operator "+")), ⟨[' ', '2'], 3⟩⟩ := rfl
  have htwo : Token.nextWith (Token.lexWithin 255) ⟨[' ', '2'], 3⟩ =
      ⟨.ok (some (.plain .number "2")), ⟨[], 5⟩⟩ := rfl
  have hlex : Token.lex "1 + 2" =
      .ok [.plain .number "1", .plain .operator "+", .plain .number "2"] := by
    rw [Token.lex, maxNesting, Token.lexWithin, Token.readAll_some hone, Token.readAll_some hplus,
      Token.readAll_some htwo, Token.readAll_end]
    rfl
  exact Token.read_eq_ok_iff.mpr ⟨by decide, hlex, rfl⟩

theorem read_three : Token.read "3" = .ok [.plain .number "3"] := by
  have hthree : Token.nextWith (Token.lexWithin 255) (Text.Cursor.start "3".toList) =
      ⟨.ok (some (.plain .number "3")), ⟨[], 1⟩⟩ := rfl
  have hlex : Token.lex "3" = .ok [.plain .number "3"] := by
    rw [Token.lex, maxNesting, Token.lexWithin, Token.readAll_some hthree, Token.readAll_end]
    rfl
  exact Token.read_eq_ok_iff.mpr ⟨by decide, hlex, rfl⟩

-- Without the parentheses the product would bind tighter than the sum.
theorem parse_joined_sum :
    let sum : Tree := .operation .add (.literal (.int 1)) (.literal (.int 2))
    ∃ tokens, Token.read ("(" ++ "1 + 2" ++ ")" ++ "*" ++ "(" ++ "3" ++ ")") = .ok tokens ∧
      parse tokens = .ok (.operation .multiply sum (.literal (.int 3))) := by
  intro sum
  have hone : Reads [.plain .number "1"] (.literal (.int 1)) := .leaf rfl
  have htwo : Reads [.plain .number "2"] (.literal (.int 2)) := .leaf rfl
  have hplus : operator? (.plain .operator "+") = some .add := rfl
  have hsum : Reads [.plain .number "1", .plain .operator "+", .plain .number "2"] sum :=
    .operation hplus hone htwo (by decide) (by decide)
  have hthree : Reads [.plain .number "3"] (.literal (.int 3)) := .leaf rfl
  exact parse_joined .multiply read_sum read_three (parse_eq_ok_iff.mpr ⟨hsum, by decide⟩)
    (parse_eq_ok_iff.mpr ⟨hthree, by decide⟩) (by decide) (by decide)

end Tree

end FlowExpr
