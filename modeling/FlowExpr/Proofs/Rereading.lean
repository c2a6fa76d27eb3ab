import FlowExpr.Proofs.Enclosing
import FlowExpr.Proofs.Printing

namespace FlowExpr.Token

open Text (Cursor)

-- The characters that can make the token before them longer, or another one. A brace is one of them
-- because of the dollar sign that it makes the start of a reference.
def extendsToken (c : Char) : Bool :=
  isIdentifierChar c || isOperatorChar c || c == '{'

-- A text that leaves every token before it as it is.
def IsSeam (text : List Char) : Prop :=
  ∀ c ∈ text.head?, extendsToken c = false

-- Behind a token a text can stand in the place of another one: it makes no token longer, or it
-- starts with the same characters that can.
def StandsFor (text other : List Char) : Prop :=
  IsSeam text ∨ text.takeWhile extendsToken = other.takeWhile extendsToken

-- What one reader of inner texts reads in a text with blanks around it, the other reads in the text
-- itself, wherever that stands, as long as fewer brackets than so many stand in one another.
def Rereads (most : Nat) (inside inside' : Cursor → Except LexError (List Token)) : Prop :=
  ∀ (before text behind : List Char) {offset : Nat} {tokens : List Token},
    Text.isBlankText before = true → Text.isBlankText behind = true →
      inside ⟨before ++ (text ++ behind), offset⟩ = .ok tokens → runNesting tokens < most →
        ∀ place, inside' ⟨text, place⟩ = .ok tokens

-- The text is read as the token, whatever stands for the text that followed the token.
def IsReadAgain (inside : Cursor → Except LexError (List Token)) (t : Token)
    (text rest : List Char) : Prop :=
  ∀ other place, StandsFor other rest →
    nextWith inside ⟨text ++ other, place⟩ = ⟨.ok (some t), ⟨other, place + text.length⟩⟩

-- The texts of tokens in a row, each of them with what stands behind it.
def spelledOut (run : List (Token × String)) : String :=
  String.join (run.map fun part => part.1.spelling ++ part.2)

end FlowExpr.Token
