import FlowExpr.Proofs.Printing.Segments

namespace FlowExpr

-- A bracket without its content: an array, an object with one key, or a call of a function.
inductive Bracket where
  | array (raw : String)
  | object (raw : String) (key colon : Token) (name : String)
      (hkey : Element.keyOf key = .ok name) (hcolon : colon.isPunctuation ":" = true)
  | call (function opening closing : Token) (hfunction : function.kind = .identifier)
      (ho : Tree.IsOpening opening) (hc : Tree.IsClosing closing)

namespace Bracket

-- The tokens of the bracket around a run that is its only element.
def enclose : Bracket → List Token → List Token
  | array raw, run => [.group .array raw run]
  | object raw key colon _ _ _, run => [.group .object raw (key :: colon :: run)]
  | call function opening closing _ _ _, run => function :: opening :: (run ++ [closing])

-- Brackets in one another, the outermost first.
def encloseAll (brackets : List Bracket) (run : List Token) : List Token :=
  brackets.foldr enclose run

def isContainer : Bracket → Bool
  | call .. => false
  | _ => true

-- The number of containers that the parser counts around the content of a bracket that stands in
-- so many. The arguments of a call are counted as if they stood in none.
def innerDepth (depth : Nat) (b : Bracket) : Nat :=
  if b.isContainer then depth + 1 else 0

def depthInside (depth : Nat) (brackets : List Bracket) : Nat :=
  brackets.foldl innerDepth depth

-- The node of a bracket over the tree of its content.
def node : Bracket → Tree → Tree
  | array _, value => .array [.single value]
  | object _ _ _ name _ _, value => .object [.keyed name value]
  | call function _ _ _ _ _, value => .call function.raw [value]

end Bracket

-- A run that is one element of a group as it stands: no mark of the group starts it, and no comma
-- divides it.
structure Token.IsElement (run : List Token) : Prop where
  starts : ∃ t rest, run = t :: rest ∧ t.kind ≠ .punctuation
  balanced : Tree.IsBalanced run
  undivided : Element.IsUndivided run

end FlowExpr
