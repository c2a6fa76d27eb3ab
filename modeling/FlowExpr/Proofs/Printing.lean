import FlowExpr.Path
import FlowExpr.Tree.Parser

namespace FlowExpr

namespace Token

def opening : Token :=
  .plain .punctuation "("

def closing : Token :=
  .plain .punctuation ")"

def comma : Token :=
  .plain .punctuation ","

def colon : Token :=
  .plain .punctuation ":"

def dots : Token :=
  .plain .punctuation "..."

def ofText (content : String) : Token :=
  .text .string (Path.quoteKey content) content

def ofOperator (op : Operator) : Token :=
  .plain .operator op.symbol

-- A token as it stands in a text.
def spelling : Token → String
  | .group .reference raw _ => "$\x7b" ++ raw ++ "\x7d"
  | t => t.raw

def objectOf (children : List Token) : Token :=
  .group .object ("\x7b" ++ String.join (children.map spelling) ++ "\x7d") children

def arrayOf (children : List Token) : Token :=
  .group .array ("[" ++ String.join (children.map spelling) ++ "]") children

def enclosedIf (needed : Bool) (run : List Token) : List Token :=
  if needed then opening :: run ++ [closing] else run

def commaSeparated (runs : List (List Token)) : List Token :=
  [comma].intercalate runs

end Token

namespace Value

-- The values that a literal is written for: no literal has a sign, and arrays and objects are
-- written by their parts.
def isWritable : Value → Bool
  | undefined => true
  | null => true
  | bool _ => true
  | int n => 0 ≤ n.toInt
  | string _ => true
  | _ => false

def print : Value → Token
  | null => .plain .identifier "null"
  | bool true => .plain .identifier "true"
  | bool false => .plain .identifier "false"
  | int n => .plain .number (toString n.toInt)
  | string s => .ofText s
  | _ => .plain .identifier "undefined"

end Value

namespace Tree

mutual
-- The trees that have a notation.
def isWritable : Tree → Bool
  | literal v => v.isWritable
  | reference _ => true
  | operation _ left right => left.isWritable && right.isWritable
  | object entries => areWritableEntries entries
  | array items => areWritableItems items
  | call _ args => areWritable args

def areWritableEntries : List Entry → Bool
  | [] => true
  | entry :: rest => isWritableEntry entry && areWritableEntries rest

def isWritableEntry : Entry → Bool
  | .keyed _ value => value.isWritable
  | .spread value => value.isWritable
  | .keyless _ => false

def areWritableItems : List Item → Bool
  | [] => true
  | item :: rest => isWritableItem item && areWritableItems rest

def isWritableItem : Item → Bool
  | .single value => value.isWritable
  | .spread value => value.isWritable

def areWritable : List Tree → Bool
  | [] => true
  | arg :: rest => arg.isWritable && areWritable rest
end

def rootPrecedence? : Tree → Option Nat
  | operation op _ _ => some op.precedence
  | _ => none

-- The operands that an operator would tear apart. Operators of one precedence group to the left,
-- so a right operand of the same precedence is torn apart as well.
def isTornOnLeft (op : Operator) (left : Tree) : Bool :=
  left.rootPrecedence?.any (· < op.precedence)

def isTornOnRight (op : Operator) (right : Tree) : Bool :=
  right.rootPrecedence?.any (· ≤ op.precedence)

mutual
-- The notation of a tree, with parentheses around an operand only where they are needed.
def print : Tree → List Token
  | literal v => [v.print]
  | reference path => [.group .reference path []]
  | operation op left right =>
    Token.enclosedIf (isTornOnLeft op left) left.print ++
      .ofOperator op :: Token.enclosedIf (isTornOnRight op right) right.print
  | object entries => [.objectOf (Token.commaSeparated (printEntries entries))]
  | array items => [.arrayOf (Token.commaSeparated (printItems items))]
  | call name args =>
    .plain .identifier name :: (.opening :: Token.commaSeparated (printArgs args) ++ [.closing])

def printEntries : List Entry → List (List Token)
  | [] => []
  | entry :: rest => printEntry entry :: printEntries rest

def printEntry : Entry → List Token
  | .keyed key value => .ofText key :: .colon :: value.print
  | .spread value => .dots :: value.print
  | .keyless value => value.print

def printItems : List Item → List (List Token)
  | [] => []
  | item :: rest => printItem item :: printItems rest

def printItem : Item → List Token
  | .single value => value.print
  | .spread value => .dots :: value.print

def printArgs : List Tree → List (List Token)
  | [] => []
  | arg :: rest => arg.print :: printArgs rest
end

end Tree

-- What a printed part is split into again.
def Entry.element : Entry → Element
  | keyed key value => .keyed key value.print
  | spread value => .spread value.print
  | keyless value => .single value.print

def Item.element : Item → Element
  | single value => .single value.print
  | spread value => .spread value.print

end FlowExpr
