import FlowExpr.Limits

namespace FlowExpr.Token

-- What is wrong with the tokens of a text.
inductive Fault where
  | emptyExpression
  | nestedTooDeeply
  | invalidCharacter (c : Char)
  | invalidOperator (c : Char)
  | openString
  | openReference
  | emptyReference
  | openTemplate
  | openObject
  | openArray
  | operatorSequence (first second : String)
  | bareReference (raw : String)
  | strayParenthesis
  | strayBrace
  | strayBracket
  | openParenthesis
deriving DecidableEq, Repr

namespace Fault

def message : Fault → String
  | emptyExpression => "Empty expression"
  | nestedTooDeeply => s!"Expression nested too deeply (maximum depth is {maxNesting})"
  | invalidCharacter c => s!"Invalid character '{c}'"
  | invalidOperator c => s!"Invalid operator '{c}'"
  | openString => "Unterminated string: missing closing quote"
  | openReference => "Unterminated reference: missing closing '\x7d'"
  | emptyReference => "Empty reference '$\x7b\x7d'"
  | openTemplate => "Unterminated template literal: missing closing '`'"
  | openObject => "Unterminated object literal: missing closing '\x7d'"
  | openArray => "Unterminated array literal: missing closing ']'"
  | operatorSequence first second => s!"Invalid operator sequence '{first} {second}'"
  | bareReference raw =>
    s!"Invalid reference '{raw}': references must be written as $\x7b...\x7d"
  | strayParenthesis => "Unbalanced parentheses: unexpected ')'"
  | strayBrace => "Unbalanced braces: unexpected '\x7d'"
  | strayBracket => "Unbalanced brackets: unexpected ']'"
  | openParenthesis => "Unbalanced parentheses: missing ')'"

end Fault

-- A fault and, where it has a place, the number of characters before it.
structure LexError where
  fault : Fault
  position : Option Nat
deriving DecidableEq, Repr

namespace LexError

def message (e : LexError) : String :=
  match e.position with
  | some position => s!"{e.fault.message} at position {position}"
  | none => e.fault.message

end LexError

end FlowExpr.Token
