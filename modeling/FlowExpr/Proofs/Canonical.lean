import FlowExpr.Environment
import FlowExpr.Token.Check

namespace FlowExpr

namespace Path

-- What a segment without a plain name has in its brackets: a quoted name, or the digits of an
-- index.
inductive IsKey : Segment → List Char → Prop where
  | quoted (name : String) :
      IsKey (.property name) ('"' :: (name.toList.flatMap escapeKeyChar ++ ['"']))
  | index (i : UInt64) : IsKey (.index i) (Nat.toDigits 10 i.toNat)

-- What a segment has in its brackets, if it is written in brackets.
def keyText : Segment → List Char
  | .property name => (quoteKey name).toList
  | .index i => Nat.toDigits 10 i.toNat
  | .computed key => key.toList

-- A computed key that starts with a bracket. Its canonical text has two brackets in a row.
def opensBracket : Segment → Bool
  | .computed key => key.toList.head? == some '['
  | _ => false

-- The canonical text of the segments behind the first one.
def restText (segments : Path) : List Char :=
  segments.flatMap fun segment => (segmentText false segment).toList

end Path

namespace Token

-- A run of identifier characters that is read as one name where a token starts: no digit and no
-- dollar sign starts it, and neither do two dots.
def IsWord (run : List Char) : Prop :=
  (∀ c ∈ run, isIdentifierChar c = true) ∧ ∀ c more, run = c :: more →
    c.isDigit = false ∧ c ≠ '$' ∧ (c = '.' → ∃ next rest, more = next :: rest ∧ next ≠ '.')

-- Wherever the text stands, it is read, and its tokens pass the check.
def IsAccepted (levels : Nat) (text : List Char) : Prop :=
  ∀ offset, ∃ tokens, lexWithin levels ⟨text, offset⟩ = .ok tokens ∧ checkRun 0 tokens = .ok ()

end Token

-- What the value of a name has where the segments lead.
def Environment.follow (env : Environment) (locals : Scope) (name : String) (segments : Path)
    (path : String) : Except ReferenceFault Value :=
  match env.lookup? locals name with
  | none => .error (.unknown name (env.availableNames locals))
  | some root => (Path.get root segments path).mapError .access

end FlowExpr
