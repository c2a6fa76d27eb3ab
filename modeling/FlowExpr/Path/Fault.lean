import FlowExpr.Limits

namespace FlowExpr

-- What is wrong with the text of a path.
inductive PathFault where
  | empty
  | missingName
  | strayBracket
  | unexpected (c : Char)
  | doubleBracket
  | afterQuotedKey
  | openBracket
  | emptyBrackets
  | indexTooLarge (digits : String)
  | openQuote
  | nestedTooDeeply
  | missingRoot
deriving DecidableEq, Repr

namespace PathFault

def message : PathFault → String
  | empty => "empty path"
  | missingName => "expected a property name"
  | strayBracket => "unexpected ']'"
  | unexpected c => s!"unexpected character '{c}'"
  | doubleBracket => "unexpected '[['"
  | afterQuotedKey => "expected ']' after quoted key"
  | openBracket => "unterminated '['"
  | emptyBrackets => "empty brackets"
  | indexTooLarge digits => s!"index '{digits}' is too large"
  | openQuote => "unterminated quote"
  | nestedTooDeeply => s!"computed keys nested too deeply (maximum depth is {maxNesting})"
  | missingRoot => "missing root name"

end PathFault

-- A fault in the text of a path, with the number of characters before it.
structure PathError where
  path : String
  position : Nat
  fault : PathFault
deriving DecidableEq, Repr

def PathError.message (e : PathError) : String :=
  s!"invalid path '{e.path}' at position {e.position}: {e.fault.message}"

-- Why a step of a path cannot be taken.
inductive AccessFailure where
  | nullish
  | missing
  | notIndexable
  | unresolved
deriving DecidableEq, Repr

-- A step that cannot be taken, and the runtime type of the value it was to be taken from.
structure AccessError where
  path : String
  segment : String
  target : String
  failure : AccessFailure
deriving DecidableEq, Repr

namespace AccessError

def description (e : AccessError) : String :=
  match e.failure with
  | .nullish => s!"cannot access property '{e.segment}' of {e.target}"
  | .notIndexable => s!"cannot access property '{e.segment}' of {e.target}"
  | .missing => s!"property '{e.segment}' does not exist on {e.target}"
  | .unresolved => s!"computed segment '[{e.segment}]' was not resolved"

def message (e : AccessError) : String :=
  s!"{e.description} in path '{e.path}'"

end AccessError

end FlowExpr
