namespace FlowExpr

-- The deepest nesting that is accepted: of brackets in a text, of levels in a tree, of references
-- in one another and of computed keys in a path.
def maxNesting : Nat :=
  256

-- The longest expression that is evaluated unless another limit is set, in characters.
def defaultMaxLength : Nat :=
  10000

end FlowExpr
