import FlowExpr.Limits
import FlowExpr.Text.Blank

namespace FlowExpr

-- Why the text of an expression is not looked at any further.
inductive GuardFault where
  | empty
  | tooLong (length limit : Nat)
  | forbiddenPattern (pattern : String)
  | emptySlot
  | openReference
deriving DecidableEq, Repr

def GuardFault.message : GuardFault → String
  | empty => "expression must be a non-empty string"
  | tooLong length limit =>
    s!"expression exceeds maximum length of {limit} characters (got {length})"
  | forbiddenPattern pattern => s!"expression contains forbidden pattern '{pattern}'"
  | emptySlot => "empty template expression '$\x7b\x7d'"
  | openReference => "malformed template literal: unclosed $\x7b"

namespace Guard

-- The patterns that may stand nowhere in an expression, not even inside a longer word.
def forbiddenPatterns : List String :=
  ["eval", "Function", "constructor", "__proto__", "prototype"]

def contains (text pattern : List Char) : Bool :=
  match text with
  | [] => pattern.isEmpty
  | c :: rest => pattern.isPrefixOf (c :: rest) || contains rest pattern

def startsEmptySlot : List Char → Bool
  | '$' :: '{' :: rest => (Text.trimStart rest).head? == some '}'
  | _ => false

-- Whether a text has a reference with nothing but blanks in it.
def hasEmptySlot : List Char → Bool
  | [] => false
  | c :: rest => startsEmptySlot (c :: rest) || hasEmptySlot rest

-- Whether every reference has its closing brace. `opened` tells for each open brace, the latest
-- first, whether it opened a reference; braces in quotes do not count, and a closing brace too many
-- is passed over.
def isBalanced (opened : List Bool) (quote : Option Char) : List Char → Bool
  | [] => !opened.contains true
  | c :: rest =>
    match quote with
    | some q =>
      if c = '\\' then
        match rest with
        | [] => !opened.contains true
        | _ :: rest => isBalanced opened quote rest
      else isBalanced opened (if c = q then none else quote) rest
    | none =>
      if c = '"' ∨ c = '\'' then isBalanced opened (some c) rest
      else if c = '$' then
        match rest with
        | '{' :: rest => isBalanced (true :: opened) none rest
        | rest => isBalanced opened none rest
      else if c = '{' then isBalanced (false :: opened) none rest
      else if c = '}' then isBalanced opened.tail none rest
      else isBalanced opened none rest

-- Checks the text of an expression before it is read; the first fault counts.
def check (expression : String) (maxLength : Nat) : Except GuardFault Unit :=
  let text := expression.toList
  if Text.isBlankText text then .error .empty
  else if maxLength < text.length then .error (.tooLong text.length maxLength)
  else
    match forbiddenPatterns.find? fun pattern => contains text pattern.toList with
    | some pattern => .error (.forbiddenPattern pattern)
    | none =>
      if hasEmptySlot text then .error .emptySlot
      else if !isBalanced [] none text then .error .openReference
      else .ok ()

end Guard

end FlowExpr
