import FlowExpr.Text.Letter

namespace FlowExpr

-- A step of a path: a property by its name, an item by its index, or a key that is itself the text
-- of a path and is looked up first.
inductive Segment where
  | property (name : String)
  | index (i : UInt64)
  | computed (path : String)
deriving DecidableEq, Repr

abbrev Path := List Segment

namespace Segment

def text : Segment → String
  | property name => name
  | index i => toString i.toNat
  | computed path => path

end Segment

namespace Path

-- A name that needs no quotes in a path.
def isPlainName : List Char → Bool
  | [] => false
  | c :: rest => Text.isNameStart c && rest.all Text.isNameChar

def escapeKeyChar (c : Char) : List Char :=
  if c = '\\' ∨ c = '"' then ['\\', c] else [c]

def quoteKey (name : String) : String :=
  "\"" ++ String.ofList (name.toList.flatMap escapeKeyChar) ++ "\""

-- A plain name stands behind a dot, unless it comes first; anything else stands in brackets.
def segmentText (first : Bool) : Segment → String
  | .property name =>
    if isPlainName name.toList then (if first then name else "." ++ name)
    else "[" ++ quoteKey name ++ "]"
  | .index i => "[" ++ toString i.toNat ++ "]"
  | .computed path => "[" ++ path ++ "]"

-- The canonical text of a path.
def format : Path → String
  | [] => ""
  | segment :: rest => segmentText true segment ++ String.join (rest.map (segmentText false))

end Path

end FlowExpr
