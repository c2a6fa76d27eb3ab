import FlowExpr.Proofs.Grammar.Parenthesis

namespace FlowExpr

namespace Element

-- What an element with a value contributes to an object, and to an array.
def entry : Element → Tree → Entry
  | keyed key _, value => .keyed key value
  | spread _, value => .spread value
  | single _, value => .keyless value

def item : Element → Tree → Item
  | spread _, value => .spread value
  | _, value => .single value

end Element

namespace Tree

-- A template is the sum of its parts, from left to right, and starts with a text.
def addParts (first : Tree) (parts : List Token) : Tree :=
  parts.foldl (fun before part => .operation .add before (partTree part)) first

def templateTree : List Token → Tree
  | [] => .literal (.string "")
  | first :: rest =>
    if first.kind = .string then addParts (.literal (.string first.value)) rest
    else addParts (.literal (.string "")) (first :: rest)

-- The tree of a token that has one without the trees of other tokens.
def leafTree? (t : Token) : Option Tree :=
  match t.kind with
  | .number => (numberValue t.raw).toOption.map .literal
  | .string => some (.literal (.string t.value))
  | .identifier => some (.literal (wordValue t.raw))
  | .reference => some (.reference t.raw)
  | .template => some (templateTree t.children)
  | _ => none

-- The tree that a run of tokens stands for. A run with an operator outside all parentheses is
-- divided at the last of those that bind loosest, and parentheses around a run leave no trace.
inductive Reads : List Token → Tree → Prop where
  | leaf {t : Token} {tree : Tree} (h : leafTree? t = some tree) : Reads [t] tree
  | object {t : Token} {elements : List Element} {values : List Tree} (hkind : t.kind = .object)
      (hsplit : Element.split .object t.children = .ok elements)
      (hlength : elements.length = values.length)
      (hvalues : ∀ e v, (e, v) ∈ elements.zip values → Reads e.run v) :
      Reads [t] (.object (List.zipWith Element.entry elements values))
  | array {t : Token} {elements : List Element} {values : List Tree} (hkind : t.kind = .array)
      (hsplit : Element.split .array t.children = .ok elements)
      (hlength : elements.length = values.length)
      (hvalues : ∀ e v, (e, v) ∈ elements.zip values → Reads e.run v) :
      Reads [t] (.array (List.zipWith Element.item elements values))
  | call {name opening closing : Token} {inner : List Token} {elements : List Element}
      {values : List Tree} (hkind : name.kind = .identifier) (ho : IsOpening opening)
      (hinner : IsBalanced inner) (hc : IsClosing closing)
      (hsplit : Element.split .call inner = .ok elements)
      (hspread : ∀ e ∈ elements, e.isSpread = false) (hlength : elements.length = values.length)
      (hvalues : ∀ e v, (e, v) ∈ elements.zip values → Reads e.run v) :
      Reads (name :: (opening :: inner ++ [closing])) (.call name.raw values)
  | enclosed {opening closing : Token} {run : List Token} {tree : Tree} (ho : IsOpening opening)
      (hrun : Reads run tree) (hc : IsClosing closing) : Reads (opening :: run ++ [closing]) tree
  | operation {t : Token} {op : Operator} {left right : List Token} {l r : Tree}
      (ht : operator? t = some op) (hleft : Reads left l) (hright : Reads right r)
      (hloosest : ∀ p ∈ outerOperators 0 left, op.precedence ≤ p.precedence)
      (hlast : ∀ p ∈ outerOperators 0 right, op.precedence < p.precedence) :
      Reads (left ++ t :: right) (.operation op l r)

mutual
-- The shape of an expression: operands with an operator between any two neighbours.
inductive IsRun : List Token → Prop where
  | operand {run : List Token} (h : IsOperand run) : IsRun run
  | snoc {t : Token} {op : Operator} {run last : List Token} (hrun : IsRun run)
      (ht : operator? t = some op) (hlast : IsOperand last) : IsRun (run ++ t :: last)

-- An operand is a token that has a value on its own, a call of a function whose arguments have
-- values, or an expression in parentheses.
inductive IsOperand : List Token → Prop where
  | value {t : Token} {tree : Tree} (hoperator : t.kind ≠ .operator)
      (hpunctuation : t.kind ≠ .punctuation) (htree : Reads [t] tree) : IsOperand [t]
  | call {name opening closing : Token} {inner : List Token} {elements : List Element}
      (hkind : name.kind = .identifier) (ho : IsOpening opening) (hinner : IsBalanced inner)
      (hc : IsClosing closing) (hsplit : Element.split .call inner = .ok elements)
      (hspread : ∀ e ∈ elements, e.isSpread = false) (hvalues : ∀ e ∈ elements, IsRun e.run) :
      IsOperand (name :: (opening :: inner ++ [closing]))
  | enclosed {opening closing : Token} {run : List Token} (ho : IsOpening opening)
      (hrun : IsRun run) (hc : IsClosing closing) : IsOperand (opening :: run ++ [closing])
end

end Tree

end FlowExpr
