import FlowExpr.Token.Check

namespace FlowExpr

-- The same place in a text that stands so much further on.
def Text.Cursor.shift (c : Cursor) (n : Nat) : Cursor :=
  ⟨c.rest, c.offset + n⟩

namespace Token

mutual
-- How many objects, arrays and references stand in one another at most. A template adds none.
def nesting : Token → Nat
  | .text _ _ _ => 0
  | .group kind _ children => runNesting children + if kind = .template then 0 else 1

def runNesting : List Token → Nat
  | [] => 0
  | t :: rest => max t.nesting (runNesting rest)
end

-- A reference without a backtick in its path.
def isPlainSpan (t : Token) : Bool :=
  !t.raw.toList.contains '\x60'

mutual
-- Every reference in a template is one without a backtick, in whatever the template stands.
def hasPlainSpans : Token → Bool
  | .text _ _ _ => true
  | .group kind _ children =>
    (kind != .template || children.all fun t => t.kind != .reference || t.isPlainSpan) &&
      runHasPlainSpans children

def runHasPlainSpans : List Token → Bool
  | [] => true
  | t :: rest => t.hasPlainSpans && runHasPlainSpans rest
end

end Token

end FlowExpr
