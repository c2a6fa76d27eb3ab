import FlowExpr.Evaluation

namespace FlowExpr

-- What a lexer produces: the tokens of a whole text, a token that is read by itself, and all tokens
-- in these.
inductive Token.IsProduced : Token → Prop where
  | lex {text : String} {tokens : List Token} {t : Token} (h : lex text = .ok tokens)
      (ht : t ∈ tokens) : IsProduced t
  | next {c after : Text.Cursor} {t : Token} (h : next c = ⟨.ok (some t), after⟩) : IsProduced t
  | inside {whole part : Token} (h : IsProduced whole) (hpart : part ∈ whole.children) :
      IsProduced part

namespace Template

-- A template as it is written: characters, characters behind a backslash, and references with what
-- stands between their braces.
inductive Piece where
  | char (c : Char)
  | escape (c : Char)
  | reference (inner : List Char)

-- The pieces of what stands between two backticks. A reference goes up to the brace that closes it.
inductive IsDivided : List Char → List Piece → Prop where
  | nil : IsDivided [] []
  | char {c : Char} {text : List Char} {pieces : List Piece} (hend : c ≠ '\x60') (hescape : c ≠ '\\')
      (hopens : Token.opensReference (c :: text) = false) (htext : IsDivided text pieces) :
      IsDivided (c :: text) (.char c :: pieces)
  | escape {c : Char} {text : List Char} {pieces : List Piece} (htext : IsDivided text pieces) :
      IsDivided ('\\' :: c :: text) (.escape c :: pieces)
  | reference {text inner rest : List Char} {pieces : List Piece}
      (h : Token.extent Token.referenceDelimiters 0 none 0 text = .closed inner rest)
      (hrest : IsDivided rest pieces) : IsDivided ('$' :: '{' :: text) (.reference inner :: pieces)

section Value

variable (env : Environment) (locals : Scope)

-- What a piece stands for. The value of a reference is written as in any concatenation.
def Piece.text : Piece → Except ReferenceFault String
  | char c => .ok (String.singleton c)
  | escape c => .ok (String.singleton (Token.unescape c))
  | reference inner => (env.resolve locals (String.ofList (Text.trim inner))).map Value.text

-- What a part stands for, once a template has been read.
def partText (part : Token) : Except ReferenceFault String :=
  if part.kind = .reference then (env.resolve locals part.raw).map Value.text
  else .ok part.value

end Value

-- The texts one behind the other, or why the first of them that is missing is so.
def concat {α : Type} (text : α → Except ReferenceFault String) (parts : List α) :
    Except ReferenceFault String :=
  (parts.mapM text).map String.join

-- A text is a value, and a reference that leads nowhere is why an evaluation fails.
def outcome (text : Except ReferenceFault String) : Except Cause Value :=
  (text.map Value.string).mapError Cause.reference

end Template

end FlowExpr
