import FlowExpr.Operator
import FlowExpr.Value

namespace FlowExpr

mutual
-- An expression without its notation.
inductive Tree where
  | literal (v : Value)
  | reference (path : String)
  | operation (op : Operator) (left right : Tree)
  | object (entries : List Entry)
  | array (items : List Item)
  | call (name : String) (args : List Tree)

-- An entry of an object: a value under a key, or a value whose own entries are merged in. A value
-- without a key stands for neither, and no text reads as one.
inductive Entry where
  | keyed (key : String) (value : Tree)
  | spread (value : Tree)
  | keyless (value : Tree)

-- An item of an array: a value, or a value whose own items stand in its place.
inductive Item where
  | single (value : Tree)
  | spread (value : Tree)
end

namespace Entry

def value : Entry → Tree
  | keyed _ value => value
  | spread value => value
  | keyless value => value

end Entry

namespace Item

def value : Item → Tree
  | single value => value
  | spread value => value

end Item

namespace Tree

mutual
-- The number of levels: a leaf is one, and every other node is one more than its tallest part.
def height : Tree → Nat
  | literal _ => 1
  | reference _ => 1
  | operation _ left right => max left.height right.height + 1
  | object entries => entriesHeight entries + 1
  | array items => itemsHeight items + 1
  | call _ args => argsHeight args + 1

def entriesHeight : List Entry → Nat
  | [] => 0
  | entry :: rest => max (entryHeight entry) (entriesHeight rest)

def entryHeight : Entry → Nat
  | .keyed _ value => value.height
  | .spread value => value.height
  | .keyless value => value.height

def itemsHeight : List Item → Nat
  | [] => 0
  | item :: rest => max (itemHeight item) (itemsHeight rest)

def itemHeight : Item → Nat
  | .single value => value.height
  | .spread value => value.height

def argsHeight : List Tree → Nat
  | [] => 0
  | arg :: rest => max arg.height (argsHeight rest)
end

end Tree

end FlowExpr
