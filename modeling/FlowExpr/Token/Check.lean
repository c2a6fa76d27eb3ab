import FlowExpr.Token.Lexer

namespace FlowExpr.Token

mutual
-- Checks the content of a container on its own.
def checkContent : Token → Except Fault Unit
  | .text _ _ _ => .ok ()
  | .group kind _ children => if kind.isContainer then checkRun 0 children else .ok ()

-- Checks a run in which so many parentheses are open: no two operators in a row, no dollar sign
-- outside a reference, and no bracket without its partner.
def checkRun (opened : Nat) : List Token → Except Fault Unit
  | [] => if opened = 0 then .ok () else .error .openParenthesis
  | t :: rest =>
    match t.kind with
    | .operator =>
      match rest.head? with
      | some next =>
        if next.kind = .operator then .error (.operatorSequence t.raw next.raw)
        else checkRun opened rest
      | none => checkRun opened rest
    | .identifier =>
      if t.raw.toList.head? = some '$' then .error (.bareReference t.raw) else checkRun opened rest
    | .punctuation =>
      if t.raw = "(" then checkRun (opened + 1) rest
      else if t.raw = ")" then
        match opened with
        | 0 => .error .strayParenthesis
        | opened + 1 => checkRun opened rest
      else if t.raw = "\x7d" then .error .strayBrace
      else if t.raw = "]" then .error .strayBracket
      else checkRun opened rest
    | _ =>
      match checkContent t with
      | .ok () => checkRun opened rest
      | .error fault => .error fault
end

-- Whether the tokens are in a shape that a parser should see.
def check (tokens : List Token) : Except LexError Unit :=
  match checkRun 0 tokens with
  | .ok () => .ok ()
  | .error fault => .error ⟨fault, none⟩

-- The tokens of an expression: all of them, or the first fault.
def read (text : String) : Except LexError (List Token) :=
  if Text.isBlankText text.toList then .error ⟨.emptyExpression, none⟩
  else do
    let tokens ← lex text
    check tokens
    return tokens

end FlowExpr.Token
