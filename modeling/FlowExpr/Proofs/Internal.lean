import FlowExpr.Evaluation
import FlowExpr.Proofs.Grammar.Parenthesis

namespace FlowExpr

-- The faults that no text leads to. They are in the way of what only other callers can pass on: a
-- run without tokens, tokens in a shape that no text has, an operator table with gaps.
def SyntaxFault.isInternal : SyntaxFault → Bool
  | .emptyExpression => true
  | .mismatchedParentheses => true
  | .mismatchedCall _ => true
  | .unsupportedOperator _ => true
  | .invalidNumber _ => true
  | _ => false

def EvalFault.isInternal : EvalFault → Bool
  | .unknownOperator _ => true
  | .operationFailed _ => true
  | .keylessEntry => true
  | _ => false

def Cause.isInternal : Cause → Bool
  | .grammar fault => fault.isInternal
  | .evaluation fault => fault.isInternal
  | _ => false

namespace Token

-- The token has a property, and so has every token in it.
inductive Throughout (p : Token → Prop) : Token → Prop where
  | intro {t : Token} (ht : p t) (hparts : ∀ part ∈ t.children, Throughout p part) :
      Throughout p t

-- An operator has a symbol of the language, a number can be read, and only a bracket holds tokens.
structure IsLexed (t : Token) : Prop where
  operator : t.kind = .operator → ∃ op, Operator.ofSymbol? t.raw = some op
  number : t.kind = .number → ∃ v, Tree.numberValue t.raw = .ok v
  container : t.children ≠ [] → t.kind.isContainer = true

-- A token that a parser can rely on: the parentheses in it have their partners, too.
structure IsRegular (t : Token) : Prop extends IsLexed t where
  balanced : Tree.IsBalanced t.children

-- A run that a parser can rely on.
structure IsRegularRun (run : List Token) : Prop where
  ne_nil : run ≠ []
  balanced : Tree.IsBalanced run
  tokens : ∀ t ∈ run, Throughout IsRegular t

theorem Throughout.here {p : Token → Prop} {t : Token} (h : Throughout p t) : p t := by
  cases h with
  | intro ht _ => exact ht

theorem Throughout.parts {p : Token → Prop} {t : Token} (h : Throughout p t) :
    ∀ part ∈ t.children, Throughout p part := by
  cases h with
  | intro _ hparts => exact hparts

end Token

end FlowExpr
