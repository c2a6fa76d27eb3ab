import FlowExpr.Decimal.Numeral
import FlowExpr.Text.Whole
import FlowExpr.Token.Weight
import FlowExpr.Tree.Element
import FlowExpr.Tree.Yard

namespace FlowExpr.Tree

def floatValue (raw : String) : Except SyntaxFault Value :=
  match Decimal.readFloat? raw.toList with
  | some x => .ok (.float x)
  | none => .error (.invalidNumber raw)

-- A number without a point is an integer if it fits a word, and any other is a float.
def numberValue (raw : String) : Except SyntaxFault Value :=
  if raw.toList.contains '.' then floatValue raw
  else
    match Text.readSigned? raw.toList with
    | some n => .ok (.int n)
    | none => floatValue raw

-- The keywords have values of their own, and any other word stands for itself.
def wordValue (name : String) : Value :=
  match name with
  | "true" => .bool true
  | "false" => .bool false
  | "null" => .null
  | "undefined" => .undefined
  | name => .string name

def partTree (part : Token) : Tree :=
  if part.kind = .reference then .reference part.raw else .literal (.string part.value)

-- Joins the parts of a template to what stands before them.
def joinParts (limit : Option Nat) (before : Parsed) : List Token → Except SyntaxFault Parsed
  | [] => .ok before
  | part :: rest =>
    match Parsed.branch limit (.operation .add before.tree (partTree part)) before.height with
    | .ok joined => joinParts limit joined rest
    | .error fault => .error fault

-- A template is a sum that starts with a text, the empty one if need be, so that every part of it
-- is joined as a text.
def ofTemplate (limit : Option Nat) (parts : List Token) : Except SyntaxFault Parsed :=
  match parts with
  | [] => .ok (.leaf (.literal (.string "")))
  | first :: rest =>
    if first.kind = .string then joinParts limit (.leaf (.literal (.string first.value))) rest
    else joinParts limit (.leaf (.literal (.string ""))) parts

-- The tokens up to the parenthesis that closes a call, once its own has been read, and those after.
def splitCall (depth : Nat) : List Token → Option (List Token × List Token)
  | [] => none
  | t :: rest =>
    if t.isPunctuation "(" then
      (splitCall (depth + 1) rest).map fun (inner, after) => (t :: inner, after)
    else if t.isPunctuation ")" then
      match depth with
      | 0 => some ([], rest)
      | depth + 1 => (splitCall depth rest).map fun (inner, after) => (t :: inner, after)
    else (splitCall depth rest).map fun (inner, after) => (t :: inner, after)

def entryOf : Element → Parsed → Entry
  | .keyed key _, value => .keyed key value.tree
  | .spread _, value => .spread value.tree
  | .single _, value => .keyless value.tree

def itemOf : Element → Parsed → Item
  | .spread _, value => .spread value.tree
  | _, value => .single value.tree

def tallest (values : List Parsed) : Nat :=
  (values.map Parsed.height).foldr max 0

def objectOf (limit : Option Nat) (elements : List Element) (values : List Parsed) :
    Except SyntaxFault Parsed :=
  Parsed.branch limit (.object (List.zipWith entryOf elements values)) (tallest values)

def arrayOf (limit : Option Nat) (elements : List Element) (values : List Parsed) :
    Except SyntaxFault Parsed :=
  Parsed.branch limit (.array (List.zipWith itemOf elements values)) (tallest values)

-- The arguments of a call are not spread.
def callOf (limit : Option Nat) (name : String) (elements : List Element) (values : List Parsed) :
    Except SyntaxFault Parsed :=
  if elements.any Element.isSpread then .error (.spreadInCall name)
  else Parsed.branch limit (.call name (values.map Parsed.tree)) (tallest values)

def plainRuns (elements : List Element) : List (List Token) :=
  (elements.takeWhile fun e => !e.isSpread).map Element.run

theorem splitCall_weight {depth : Nat} {tokens inner after : List Token}
    (h : splitCall depth tokens = some (inner, after)) :
    Token.runWeight inner + Token.runWeight after < Token.runWeight tokens := by
  fun_induction splitCall depth tokens generalizing inner with
  | case1 => simp at h
  | case3 t rest =>
    simp only [Option.some.injEq, Prod.mk.injEq] at h
    have hpos := t.weight_pos
    simp only [← h.1, ← h.2, Token.runWeight]
    omega
  | case2 | case4 | case5 =>
    rename_i ih
    simp only [Option.map_eq_some_iff, Prod.mk.injEq, Prod.exists] at h
    obtain ⟨_, _, hrest, rfl, rfl⟩ := h
    have hlt := ih hrest
    simp only [Token.runWeight]
    omega

theorem plainRuns_weight_le (elements : List Element) :
    Element.runsWeight (plainRuns elements) ≤ Element.runsWeight (elements.map Element.run) := by
  unfold plainRuns
  induction elements with
  | nil => simp
  | cons e rest ih =>
    rw [List.takeWhile_cons]
    split
    · simp only [List.map_cons, Element.runsWeight]
      omega
    · simp [Element.runsWeight]

mutual
-- An expression inside so many containers. A call starts the count anew for its arguments.
def parseRun (limit : Option Nat) (depth : Nat) (tokens : List Token) :
    Except SyntaxFault Parsed :=
  if limit.any (· < depth) then .error .tooDeep
  else
    match tokens with
    | [] => .error .emptyExpression
    | [t] => parseOperand limit depth t
    | tokens => parseInfix limit depth .empty tokens
termination_by (Token.runWeight tokens, 2, 0)
decreasing_by
  · simp only [Token.runWeight, Nat.add_zero]
    exact Prod.Lex.right _ (Prod.Lex.left _ _ (by omega))
  · exact Prod.Lex.right _ (Prod.Lex.left _ _ (by omega))

-- An operand of one token.
def parseOperand (limit : Option Nat) (depth : Nat) (t : Token) : Except SyntaxFault Parsed :=
  match t.kind with
  | .number => (numberValue t.raw).map fun v => .leaf (.literal v)
  | .string => .ok (.leaf (.literal (.string t.value)))
  | .identifier => .ok (.leaf (.literal (wordValue t.raw)))
  | .reference => .ok (.leaf (.reference t.raw))
  | .object =>
    match _h : Element.split .object t.children with
    | .error fault => .error fault
    | .ok elements =>
      match parseRuns limit (depth + 1) (elements.map Element.run) with
      | .error fault => .error fault
      | .ok values => objectOf limit elements values
  | .array =>
    match _h : Element.split .array t.children with
    | .error fault => .error fault
    | .ok elements =>
      match parseRuns limit (depth + 1) (elements.map Element.run) with
      | .error fault => .error fault
      | .ok values => arrayOf limit elements values
  | .template => ofTemplate limit t.children
  | .operator => .error (Yard.unexpected t)
  | .punctuation => .error (Yard.unexpected t)
termination_by (t.weight, 0, 0)
decreasing_by
  all_goals
    exact Prod.Lex.left _ _
      (Nat.lt_of_le_of_lt (Element.split_weight_le _h) t.runWeight_children_lt)

-- The rest of a run of operands and operators. A word with a parenthesis after it calls a function.
def parseInfix (limit : Option Nat) (depth : Nat) (y : Yard) (tokens : List Token) :
    Except SyntaxFault Parsed :=
  match tokens with
  | [] => y.finish limit
  | t :: rest =>
    match t.kind with
    | .operator =>
      match y.pushOperator limit t with
      | .error fault => .error fault
      | .ok y => parseInfix limit depth y rest
    | .punctuation =>
      match y.pushPunctuation limit t with
      | .error fault => .error fault
      | .ok y => parseInfix limit depth y rest
    | kind =>
      if y.expectsOperator then .error (Yard.unexpected t)
      else if kind = .identifier ∧ rest.head?.any (·.isPunctuation "(") then
        match _hs : splitCall 0 rest.tail with
        | none => .error (.mismatchedCall t.raw)
        | some (inner, after) =>
          match _he : Element.split .call inner with
          | .error fault => .error fault
          | .ok elements =>
            match parseRuns limit 0 (plainRuns elements) with
            | .error fault => .error fault
            | .ok values =>
              match callOf limit t.raw elements values with
              | .error fault => .error fault
              | .ok node => parseInfix limit depth (y.pushOperand node) after
      else
        match parseOperand limit depth t with
        | .error fault => .error fault
        | .ok operand => parseInfix limit depth (y.pushOperand operand) rest
termination_by (Token.runWeight tokens, 1, 0)
decreasing_by
  all_goals have hpos := t.weight_pos
  · exact Prod.Lex.left _ _ (by simp only [Token.runWeight]; omega)
  · exact Prod.Lex.left _ _ (by simp only [Token.runWeight]; omega)
  · refine Prod.Lex.left _ _ ?_
    have hcall := splitCall_weight _hs
    have helements := Element.split_weight_le _he
    have hplain := plainRuns_weight_le elements
    have htail := Token.runWeight_tail_le rest
    simp only [Token.runWeight]
    omega
  · refine Prod.Lex.left _ _ ?_
    have hcall := splitCall_weight _hs
    have htail := Token.runWeight_tail_le rest
    simp only [Token.runWeight]
    omega
  · simp only [Token.runWeight]
    by_cases hrest : Token.runWeight rest = 0
    · rw [hrest, Nat.add_zero]
      exact Prod.Lex.right _ (Prod.Lex.left _ _ (by omega))
    · exact Prod.Lex.left _ _ (by omega)
  · exact Prod.Lex.left _ _ (by simp only [Token.runWeight]; omega)

-- The expressions that several runs are, from left to right.
def parseRuns (limit : Option Nat) (depth : Nat) (runs : List (List Token)) :
    Except SyntaxFault (List Parsed) :=
  match runs with
  | [] => .ok []
  | run :: rest =>
    match parseRun limit depth run with
    | .error fault => .error fault
    | .ok value =>
      match parseRuns limit depth rest with
      | .error fault => .error fault
      | .ok values => .ok (value :: values)
termination_by (Element.runsWeight runs, 3, runs.length)
decreasing_by
  · simp only [Element.runsWeight]
    by_cases hrest : Element.runsWeight rest = 0
    · rw [hrest, Nat.add_zero]
      exact Prod.Lex.right _ (Prod.Lex.left _ _ (by omega))
    · exact Prod.Lex.left _ _ (by omega)
  · simp only [Element.runsWeight]
    by_cases hrun : Token.runWeight run = 0
    · rw [hrun, Nat.zero_add]
      exact Prod.Lex.right _ (Prod.Lex.right _ (by simp))
    · exact Prod.Lex.left _ _ (by omega)
end

-- The tree of a run of tokens whose nesting and height stay within a limit.
def parseWithin (limit : Option Nat) (tokens : List Token) : Except SyntaxFault Tree :=
  (parseRun limit 0 tokens).map Parsed.tree

def parse (tokens : List Token) : Except SyntaxFault Tree :=
  parseWithin (some maxNesting) tokens

end FlowExpr.Tree
