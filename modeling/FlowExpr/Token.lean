namespace FlowExpr

-- The kinds of token. The last four hold further tokens.
inductive Token.Kind where
  | number
  | string
  | identifier
  | operator
  | punctuation
  | reference
  | object
  | array
  | template
deriving DecidableEq, Repr

-- A token with the text it was read from. A token of text has a value: for a string its content,
-- otherwise that text. A group holds the tokens of its content; the raw text of a reference is its
-- path without the blanks around it.
inductive Token where
  | text (kind : Token.Kind) (raw value : String)
  | group (kind : Token.Kind) (raw : String) (children : List Token)

namespace Token

namespace Kind

def isContainer : Kind → Bool
  | reference => true
  | object => true
  | array => true
  | template => true
  | _ => false

def description : Kind → String
  | number => "number"
  | string => "string"
  | identifier => "identifier"
  | operator => "operator"
  | punctuation => "punctuation"
  | reference => "reference"
  | object => "object literal"
  | array => "array literal"
  | template => "template literal"

end Kind

def kind : Token → Kind
  | text kind _ _ => kind
  | group kind _ _ => kind

def raw : Token → String
  | text _ raw _ => raw
  | group _ raw _ => raw

-- The value of a token of text. A group has none.
def value : Token → String
  | text _ _ value => value
  | group _ _ _ => ""

def children : Token → List Token
  | text _ _ _ => []
  | group _ _ children => children

def plain (kind : Kind) (text : String) : Token :=
  .text kind text text

def isPunctuation (t : Token) (symbol : String) : Bool :=
  t.kind == .punctuation && t.raw == symbol

end Token

end FlowExpr
