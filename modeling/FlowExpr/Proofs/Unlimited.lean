import FlowExpr.Token.Lexer

namespace FlowExpr.Token

open Text (Cursor)

-- The tokens of a text without a limit on their nesting. The content of a bracket is shorter than
-- the text, so the condition holds wherever it is tested.
def lexUnlimited (c : Cursor) : Except LexError (List Token) :=
  readAll (fun body => if body.rest.length < c.rest.length then lexUnlimited body else .ok []) c
termination_by c.rest.length

-- The token is an object, an array or a reference.
def addsLevel (t : Token) : Bool :=
  t.kind.isContainer && t.kind != .template

-- A way down from a token of the run through the tokens in it.
inductive IsWayDown : List Token → List Token → Prop where
  | nil {run : List Token} : IsWayDown run []
  | cons {run way : List Token} {t : Token} (ht : t ∈ run) (hway : IsWayDown t.children way) :
      IsWayDown run (t :: way)

def Step.Raises {α : Type} (p : LexError → Prop) (s : Step α) : Prop :=
  Outcome.Raises p s.result

def IsTooDeep (e : LexError) : Prop :=
  ∃ position, e = ⟨.nestedTooDeeply, some position⟩

end FlowExpr.Token
