import FlowExpr.Tree.Parser

namespace FlowExpr

def Held.isOperator : Held → Bool
  | .operator _ => true
  | .parenthesis => false

-- Each held operator has its left operand in the output. Where an operator must come next, there is
-- one operand more.
def Yard.IsBalanced (y : Yard) : Prop :=
  y.output.length = y.held.countP Held.isOperator + if y.expectsOperator then 1 else 0

namespace Tree

-- A call, with the tokens behind it.
def takeCall (limit : Option Nat) (name : String) (rest : List Token) :
    Except SyntaxFault (Parsed × List Token) :=
  match splitCall 0 rest.tail with
  | none => .error (.mismatchedCall name)
  | some (inner, after) =>
    (Element.split .call inner).bind fun elements =>
      (parseRuns limit 0 (plainRuns elements)).bind fun values =>
        (callOf limit name elements values).map (·, after)

-- The operand that a token starts, with the tokens behind it.
def takeOperand (limit : Option Nat) (depth : Nat) (t : Token) (rest : List Token) :
    Except SyntaxFault (Parsed × List Token) :=
  if t.kind = .identifier ∧ rest.head?.any (·.isPunctuation "(") = true then
    takeCall limit t.raw rest
  else (parseOperand limit depth t).map (·, rest)

-- One turn of the loop over operands and operators: the next state, with the tokens still to be
-- read.
def turn (limit : Option Nat) (depth : Nat) (y : Yard) (t : Token) (rest : List Token) :
    Except SyntaxFault (Yard × List Token) :=
  match t.kind with
  | .operator => (y.pushOperator limit t).map (·, rest)
  | .punctuation => (y.pushPunctuation limit t).map (·, rest)
  | _ =>
    if y.expectsOperator then .error (Yard.unexpected t)
    else
      (takeOperand limit depth t rest).map fun (operand, after) => (y.pushOperand operand, after)

-- The states that the loop over a run comes to, with the tokens still to be read.
inductive Reaches (limit : Option Nat) (depth : Nat) (run : List Token) :
    Yard → List Token → Prop where
  | start : Reaches limit depth run .empty run
  | step {y next : Yard} {t : Token} {rest after : List Token}
      (h : Reaches limit depth run y (t :: rest))
      (hturn : turn limit depth y t rest = .ok (next, after)) : Reaches limit depth run next after

-- The runs in the operand that a token starts, with the depth at which they are parsed.
inductive IsInner (depth : Nat) (t : Token) (rest : List Token) : Nat → List Token → Prop where
  | object {elements : List Element} {e : Element} (hkind : t.kind = .object)
      (hsplit : Element.split .object t.children = .ok elements) (he : e ∈ elements) :
      IsInner depth t rest (depth + 1) e.run
  | array {elements : List Element} {e : Element} (hkind : t.kind = .array)
      (hsplit : Element.split .array t.children = .ok elements) (he : e ∈ elements) :
      IsInner depth t rest (depth + 1) e.run
  | call {inner after run : List Token} {elements : List Element} (hkind : t.kind = .identifier)
      (hcall : rest.head?.any (·.isPunctuation "(") = true)
      (hs : splitCall 0 rest.tail = some (inner, after))
      (hsplit : Element.split .call inner = .ok elements) (hrun : run ∈ plainRuns elements) :
      IsInner depth t rest 0 run

-- An operand that the loop over a run comes to has a run in it that is parsed at some depth.
def GoesInto (limit : Option Nat) (depth : Nat) (run : List Token) (inside : Nat)
    (inner : List Token) : Prop :=
  ∃ y t rest, Reaches limit depth run y (t :: rest) ∧ y.expectsOperator = false ∧
    IsInner depth t rest inside inner

end Tree

end FlowExpr
