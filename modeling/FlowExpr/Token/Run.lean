import FlowExpr.Text.Letter
import FlowExpr.Decimal.Numeral
import FlowExpr.Operator

namespace FlowExpr.Token

-- A dot joins the names of a path, so it may stand anywhere in an identifier.
def isIdentifierChar (c : Char) : Bool :=
  c == '.' || Text.isNameChar c

def opensReference : List Char → Bool
  | '$' :: '{' :: _ => true
  | _ => false

-- The longest run of identifier characters at the front of a text. A reference ends it.
def identifierRun : List Char → List Char × List Char
  | [] => ([], [])
  | c :: rest =>
    if isIdentifierChar c && !opensReference (c :: rest) then
      let (run, after) := identifierRun rest
      (c :: run, after)
    else ([], c :: rest)

-- Digits, with a point and further digits if both follow.
def numberRun (text : List Char) : List Char × List Char :=
  let (whole, rest) := Decimal.splitDigits text
  match rest with
  | '.' :: more =>
    let (fraction, after) := Decimal.splitDigits more
    if fraction.isEmpty then (whole, rest) else (whole ++ '.' :: fraction, after)
  | _ => (whole, rest)

def isOperatorChar (c : Char) : Bool :=
  "=!<>&|?+-*/%".toList.contains c

-- The longest operator symbol at the front of a text.
def operatorAt? (text : List Char) : Option Operator :=
  Operator.all.find? fun op => op.symbol.toList.isPrefixOf text

def unescape (c : Char) : Char :=
  match c with
  | 'n' => '\n'
  | 't' => '\t'
  | 'r' => '\r'
  | '0' => '\x00'
  | c => c

-- The content of a string whose opening quote has been read, the text it was written as up to its
-- closing quote, and what follows.
def stringBody (quote : Char) : List Char → Option (List Char × List Char × List Char)
  | [] => none
  | c :: rest =>
    if c = quote then some ([], [c], rest)
    else if c = '\\' then
      match rest with
      | [] => none
      | e :: rest =>
        (stringBody quote rest).map fun (content, written, after) =>
          (unescape e :: content, c :: e :: written, after)
    else
      (stringBody quote rest).map fun (content, written, after) =>
        (c :: content, c :: written, after)

theorem eq_of_stringBody {quote : Char} {text content written rest : List Char}
    (h : stringBody quote text = some (content, written, rest)) : text = written ++ rest := by
  fun_induction stringBody quote text generalizing content written with
  | case1 => simp at h
  | case2 =>
    simp only [Option.some.injEq, Prod.mk.injEq] at h
    simp [← h.2.1, h.2.2]
  | case3 => simp at h
  | case4 | case5 =>
    rename_i ih
    simp only [Option.map_eq_some_iff, Prod.mk.injEq, Prod.exists] at h
    obtain ⟨_, _, _, hbody, _, rfl, rfl⟩ := h
    rw [ih hbody]
    rfl

theorem eq_of_identifierRun (text : List Char) :
    (identifierRun text).1 ++ (identifierRun text).2 = text := by
  induction text with
  | nil => rfl
  | cons c rest ih =>
    rw [identifierRun]
    split
    · exact congrArg (c :: ·) ih
    · rfl

theorem eq_of_numberRun (text : List Char) : (numberRun text).1 ++ (numberRun text).2 = text := by
  unfold numberRun
  dsimp only
  split
  · rename_i more hrest
    split
    · exact Decimal.splitDigits_append text
    · rw [List.append_assoc, List.cons_append, Decimal.splitDigits_append more, ← hrest]
      exact Decimal.splitDigits_append text
  · exact Decimal.splitDigits_append text

theorem length_numberRun_pos {x : Char} (rest : List Char) (h : x.isDigit) :
    0 < (numberRun (x :: rest)).1.length := by
  have hwhole : 0 < (Decimal.splitDigits (x :: rest)).1.length := by
    simp [Decimal.splitDigits, h]
  unfold numberRun
  dsimp only
  split
  · split
    · exact hwhole
    · simp only [List.length_append]
      omega
  · exact hwhole

end FlowExpr.Token
