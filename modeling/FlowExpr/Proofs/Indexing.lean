import FlowExpr.Outcome
import FlowExpr.Token.Lexer

namespace FlowExpr.Token.Indexed

-- Why a reader stops: a fault of the text, or a slice that the text does not have.
inductive Halt where
  | fault (e : LexError)
  | outOfRange (start stop : Nat)
deriving DecidableEq, Repr

-- What was read, or why nothing was, and the position that reading ended at.
structure Reading (α : Type) where
  result : Except Halt α
  position : Nat

def halted {α : Type} (fault : Fault) (position : Nat) : Except Halt α :=
  .error (.fault ⟨fault, some position⟩)

def Reading.map {α β : Type} (f : α → β) (r : Reading α) : Reading β :=
  ⟨r.result.map f, r.position⟩

-- Reading never goes back, and goes on where it returns something.
def Reading.Advances {α : Type} (i : Nat) (r : Reading α) : Prop :=
  i ≤ r.position ∧ ∀ a, r.result = .ok a → i < r.position

theorem Reading.Advances.of_lt {α : Type} {i : Nat} {r : Reading α} (h : i < r.position) :
    r.Advances i :=
  ⟨Nat.le_of_lt h, fun _ _ => h⟩

theorem Reading.Advances.halted {α : Type} (i : Nat) (halt : Halt) :
    Advances i (⟨.error halt, i⟩ : Reading α) :=
  ⟨Nat.le_refl i, fun _ h => by cases h⟩

variable (input : List Char) (base : Nat)

def slice (start stop : Nat) : Except Halt (List Char) :=
  if start ≤ stop ∧ stop ≤ input.length then .ok ((input.take stop).drop start)
  else .error (.outOfRange start stop)

theorem lt_length_of_getElem? {input : List Char} {i : Nat} {x : Char} (h : input[i]? = some x) :
    i < input.length :=
  (List.getElem?_eq_some_iff.mp h).1

-- The first position from `i` on whose character is not to be passed, or that of the end.
def scanWhile (passed : Nat → Char → Bool) (i : Nat) : Nat :=
  match _h : input[i]? with
  | some x => if passed i x then scanWhile passed (i + 1) else i
  | none => i
termination_by input.length - i
decreasing_by
  have := lt_length_of_getElem? _h
  omega

theorem le_scanWhile (passed : Nat → Char → Bool) (i : Nat) : i ≤ scanWhile input passed i := by
  fun_induction scanWhile input passed i with
  | case1 => omega
  | case2 | case3 => exact Nat.le_refl _

theorem scanWhile_of_passed {input : List Char} {passed : Nat → Char → Bool} {i : Nat} {x : Char}
    (h : input[i]? = some x) (hx : passed i x = true) :
    scanWhile input passed i = scanWhile input passed (i + 1) := by
  rw [scanWhile]
  split
  · rename_i y hy
    obtain rfl := Option.some.inj (h.symm.trans hy)
    rw [if_pos hx]
  · simp_all

def identifierEnd (i : Nat) : Nat :=
  scanWhile input (fun i x => isIdentifierChar x && !(x == '$' && input[i + 1]? == some '{')) i

def numberEnd (i : Nat) : Nat :=
  let whole := scanWhile input (fun _ => Char.isDigit) i
  if input[whole]? == some '.' && input[whole + 1]?.any Char.isDigit then
    scanWhile input (fun _ => Char.isDigit) (whole + 1)
  else whole

def operatorAt? (i : Nat) : Option Operator :=
  Operator.all.find? fun op => op.symbol.toList.zipIdx.all fun p => input[i + p.2]? == some p.1

-- The content of a string from `i` on, if its closing quote is there.
def stringEnd (quote : Char) (i : Nat) : Option (List Char) × Nat :=
  match _h : input[i]? with
  | none => (none, i)
  | some x =>
    if x = quote then (some [], i + 1)
    else if x = '\\' then
      match input[i + 1]? with
      | none => (none, i + 1)
      | some e =>
        let (content, stop) := stringEnd quote (i + 2)
        (content.map (unescape e :: ·), stop)
    else
      let (content, stop) := stringEnd quote (i + 1)
      (content.map (x :: ·), stop)
termination_by input.length - i
decreasing_by
  all_goals
    have := lt_length_of_getElem? _h
    omega

-- Moves past a quoted run whose opening quote has been passed. A backslash is passed with the
-- position behind it, which need not be one of the text.
def skipQuoted (quote : Char) (i : Nat) : Bool × Nat :=
  match _h : input[i]? with
  | none => (false, i)
  | some x =>
    if x = '\\' then skipQuoted quote (i + 2)
    else if x = quote then (true, i + 1)
    else skipQuoted quote (i + 1)
termination_by input.length - i
decreasing_by
  all_goals
    have := lt_length_of_getElem? _h
    omega

theorem le_stringEnd (quote : Char) (i : Nat) : i ≤ (stringEnd input quote i).2 := by
  fun_induction stringEnd input quote i with
  | case1 => exact Nat.le_refl _
  | case2 | case3 => omega
  | case4 => simp_all; omega
  | case5 => simp_all; omega

theorem le_skipQuoted (quote : Char) (i : Nat) : i ≤ (skipQuoted input quote i).2 := by
  fun_induction skipQuoted input quote i with
  | case1 => exact Nat.le_refl _
  | case2 => omega
  | case3 => omega
  | case4 => omega

-- How a bracketed run ends: with the bracket at the position that was reached, or not at all.
inductive End where
  | closed
  | openQuote (position : Nat)
  | unclosed
deriving DecidableEq, Repr

def bracketEnd (d : Delimiters) (depth i : Nat) : End × Nat :=
  match _h : input[i]? with
  | none => (.unclosed, i)
  | some x =>
    if x ∈ d.quotes then
      match _hskip : skipQuoted input x (i + 1) with
      | (true, next) => bracketEnd d depth next
      | (false, next) => (.openQuote i, next)
    else if x = d.opening then bracketEnd d (depth + 1) (i + 1)
    else if x = d.closing then
      match depth with
      | 0 => (.closed, i)
      | depth + 1 => bracketEnd d depth (i + 1)
    else bracketEnd d depth (i + 1)
termination_by input.length - i
decreasing_by
  · have := lt_length_of_getElem? _h
    have hle := le_skipQuoted input x (i + 1)
    rw [_hskip] at hle
    omega
  all_goals
    have := lt_length_of_getElem? _h
    omega

theorem le_bracketEnd (d : Delimiters) (depth i : Nat) : i ≤ (bracketEnd input d depth i).2 := by
  fun_induction bracketEnd input d depth i with
  | case1 | case5 => exact Nat.le_refl _
  | case2 _ i x _ _ next hskip ih =>
    have hle := le_skipQuoted input x (i + 1)
    rw [hskip] at hle
    omega
  | case3 _ i x _ _ next hskip =>
    have hle := le_skipQuoted input x (i + 1)
    rw [hskip] at hle
    omega
  | case4 | case6 | case7 => omega

variable (inside : List Char → Nat → Except Halt (List Token))

def readString (quote : Char) (i : Nat) : Reading Token :=
  match stringEnd input quote (i + 1) with
  | (some content, stop) =>
    ⟨(slice input i stop).map fun raw => .text .string (String.ofList raw) (String.ofList content),
      stop⟩
  | (none, stop) => ⟨halted .openString (base + i), stop⟩

def readReference (i : Nat) : Reading Token :=
  let start := i + 2
  match bracketEnd input referenceDelimiters 0 start with
  | (.closed, stop) =>
    let result := do
      let inner ← slice input start stop
      let path := Text.trim inner
      if path.isEmpty then halted .emptyReference (base + start)
      else
        let children ← inside inner (base + start)
        .ok (.group .reference (String.ofList path) children)
    ⟨result, stop + 1⟩
  | (.openQuote position, stop) => ⟨halted .openString (base + position), stop⟩
  | (.unclosed, stop) => ⟨halted .openReference (base + i), stop⟩

def readContainer (kind : Kind) (d : Delimiters) (fault : Fault) (i : Nat) : Reading Token :=
  let start := i + 1
  match bracketEnd input d 0 start with
  | (.closed, stop) =>
    let result := do
      let inner ← slice input start stop
      let children ← inside inner (base + start)
      let raw ← slice input i (stop + 1)
      .ok (.group kind (String.ofList raw) children)
    ⟨result, stop + 1⟩
  | (.openQuote position, stop) => ⟨halted .openString (base + position), stop⟩
  | (.unclosed, stop) => ⟨halted fault (base + i), stop⟩

theorem lt_readReference (i : Nat) : i < (readReference input base inside i).position := by
  have hle := le_bracketEnd input referenceDelimiters 0 (i + 2)
  unfold readReference
  dsimp only
  split <;> simp only [*] at hle ⊢ <;> omega

-- What stands up to the closing backtick of a template whose opening backtick is at `start`.
def templateBody (start i : Nat) : Reading (List Char × List Token) :=
  match _h : input[i]? with
  | none => ⟨halted .openTemplate (base + start), i⟩
  | some x =>
    if x = '\x60' then ⟨.ok ([], []), i + 1⟩
    else if x = '\\' then
      match input[i + 1]? with
      | none => ⟨halted .openTemplate (base + start), i + 1⟩
      | some e => (templateBody start (i + 2)).map (addToSpan (unescape e))
    else if x = '$' ∧ input[i + 1]? = some '{' then
      match _hread : readReference input base inside i with
      | ⟨.ok t, next⟩ => (templateBody start next).map (addReference t)
      | ⟨.error halt, next⟩ => ⟨.error halt, next⟩
    else (templateBody start (i + 1)).map (addToSpan x)
termination_by input.length - i
decreasing_by
  · have := lt_length_of_getElem? _h
    omega
  · have := lt_length_of_getElem? _h
    have hlt := lt_readReference input base inside i
    simp only [_hread] at hlt
    omega
  · have := lt_length_of_getElem? _h
    omega

def readTemplate (i : Nat) : Reading Token :=
  match templateBody input base inside i (i + 1) with
  | ⟨.ok (span, parts), stop⟩ =>
    ⟨(slice input i stop).map fun raw =>
      .group .template (String.ofList raw) (spanTokens span ++ parts), stop⟩
  | ⟨.error halt, stop⟩ => ⟨.error halt, stop⟩

-- The token that starts with a character other than a blank.
def readToken (i : Nat) (x : Char) : Reading Token :=
  if x = '$' ∧ input[i + 1]? = some '{' then readReference input base inside i
  else if x = '"' ∨ x = '\'' then readString input base x i
  else if x = '\x60' then readTemplate input base inside i
  else if x = '{' then readContainer input base inside .object objectDelimiters .openObject i
  else if x = '[' then readContainer input base inside .array arrayDelimiters .openArray i
  else if x = '.' ∧ input[i + 1]? = some '.' ∧ input[i + 2]? = some '.' then
    ⟨.ok (.plain .punctuation "..."), i + 3⟩
  else if x ∈ punctuationChars then ⟨.ok (.plain .punctuation (String.singleton x)), i + 1⟩
  else if x.isDigit then
    let stop := numberEnd input i
    ⟨(slice input i stop).map fun run => .plain .number (String.ofList run), stop⟩
  else if isOperatorChar x then
    match operatorAt? input i with
    | some op => ⟨.ok (.plain .operator op.symbol), i + op.symbol.length⟩
    | none => ⟨halted (.invalidOperator x) (base + i), i⟩
  else if isIdentifierChar x then
    let stop := identifierEnd input i
    ⟨(slice input i stop).map fun run => .plain .identifier (String.ofList run), stop⟩
  else ⟨halted (.invalidCharacter x) (base + i), i⟩

-- One call: the next token after any blanks, or none at the end of the text.
def nextWith (i : Nat) : Reading (Option Token) :=
  let start := scanWhile input (fun _ => Text.isBlank) i
  match input[start]? with
  | none => ⟨.ok none, start⟩
  | some x => (readToken input base inside start x).map some

section Progress

theorem lt_readString (quote : Char) (i : Nat) : i < (readString input base quote i).position := by
  have hle := le_stringEnd input quote (i + 1)
  unfold readString
  split <;> simp only [*] at hle ⊢ <;> omega

theorem lt_readContainer (kind : Kind) (d : Delimiters) (fault : Fault) (i : Nat) :
    i < (readContainer input base inside kind d fault i).position := by
  have hle := le_bracketEnd input d 0 (i + 1)
  unfold readContainer
  dsimp only
  split <;> simp only [*] at hle ⊢ <;> omega

theorem le_templateBody (start i : Nat) :
    i ≤ (templateBody input base inside start i).position := by
  fun_induction templateBody input base inside start i with
  | case1 => exact Nat.le_refl _
  | case2 | case3 => simp
  | case4 => simp only [Reading.map]; omega
  | case5 i x _ _ _ _ t next hread ih =>
    have hlt := lt_readReference input base inside i
    simp only [hread] at hlt
    simp only [Reading.map]
    omega
  | case6 i x _ _ _ _ halt next hread =>
    have hlt := lt_readReference input base inside i
    simp only [hread] at hlt
    exact Nat.le_of_lt hlt
  | case7 => simp only [Reading.map]; omega

theorem lt_readTemplate (i : Nat) : i < (readTemplate input base inside i).position := by
  have hle := le_templateBody input base inside i (i + 1)
  unfold readTemplate
  split <;> simp only [*] at hle ⊢ <;> omega

theorem lt_numberEnd {i : Nat} {x : Char} (h : input[i]? = some x) (hx : x.isDigit = true) :
    i < numberEnd input i := by
  have hwhole : i < scanWhile input (fun _ => Char.isDigit) i := by
    rw [scanWhile_of_passed h hx]
    exact le_scanWhile input _ (i + 1)
  unfold numberEnd
  dsimp only
  split
  · exact Nat.lt_of_lt_of_le (Nat.lt_succ_of_lt hwhole) (le_scanWhile input _ _)
  · exact hwhole

theorem lt_identifierEnd {i : Nat} {x : Char} (h : input[i]? = some x)
    (hx : isIdentifierChar x = true) (hopens : ¬(x = '$' ∧ input[i + 1]? = some '{')) :
    i < identifierEnd input i := by
  have hpassed : (isIdentifierChar x && !(x == '$' && input[i + 1]? == some '{')) = true := by
    simpa [hx, Decidable.imp_iff_not_or] using hopens
  rw [identifierEnd, scanWhile_of_passed h hpassed]
  exact le_scanWhile input _ (i + 1)

theorem advances_readToken {i : Nat} {x : Char} (h : input[i]? = some x) :
    (readToken input base inside i x).Advances i := by
  fun_cases readToken input base inside i x with
  | case1 => exact .of_lt (lt_readReference input base inside i)
  | case2 => exact .of_lt (lt_readString input base x i)
  | case3 => exact .of_lt (lt_readTemplate input base inside i)
  | case4 => exact .of_lt (lt_readContainer input base inside _ _ _ i)
  | case5 => exact .of_lt (lt_readContainer input base inside _ _ _ i)
  | case6 => exact .of_lt (Nat.lt_add_of_pos_right (by decide))
  | case7 => exact .of_lt (Nat.lt_succ_self i)
  | case8 _ _ _ _ _ _ _ hdigit => exact .of_lt (lt_numberEnd input h hdigit)
  | case9 _ _ _ _ _ _ _ _ _ op =>
    have hpos : 0 < op.symbol.length := by cases op <;> decide
    exact .of_lt (Nat.lt_add_of_pos_right hpos)
  | case10 => exact .halted i _
  | case11 hopens _ _ _ _ _ _ _ _ hname => exact .of_lt (lt_identifierEnd input h hname hopens)
  | case12 => exact .halted i _

theorem le_nextWith (i : Nat) : i ≤ (nextWith input base inside i).position := by
  have hstart := le_scanWhile input (fun _ => Text.isBlank) i
  unfold nextWith
  dsimp only
  split
  · exact hstart
  · rename_i h
    exact Nat.le_trans hstart (advances_readToken input base inside h).1

-- A token is read off some characters of the text.
theorem lt_nextWith {i : Nat} {t : Token}
    (h : (nextWith input base inside i).result = .ok (some t)) :
    i < input.length ∧ i < (nextWith input base inside i).position := by
  have hstart := le_scanWhile input (fun _ => Text.isBlank) i
  unfold nextWith at h ⊢
  dsimp only at h ⊢
  split at h
  · simp at h
  · rename_i x hx
    have hlength := lt_length_of_getElem? hx
    obtain ⟨token, hresult, -⟩ := Outcome.map_eq_ok_iff.mp h
    have hlt := (advances_readToken input base inside hx).2 token hresult
    simp only [Reading.map]
    omega

end Progress

-- All tokens up to the end of the text, or the first halt.
def readAll (i : Nat) : Except Halt (List Token) :=
  match _h : nextWith input base inside i with
  | ⟨.ok (some t), next⟩ => (readAll next).map (t :: ·)
  | ⟨.ok none, _⟩ => .ok []
  | ⟨.error halt, _⟩ => .error halt
termination_by input.length - i
decreasing_by
  have hlt := lt_nextWith input base inside (congrArg Reading.result _h)
  simp only [_h] at hlt
  omega

-- The tokens of the content of a bracket, in a lexer with which so many brackets may still be
-- nested.
def content : Nat → List Char → Nat → Except Halt (List Token)
  | 0, _, base => halted .nestedTooDeeply base
  | levels + 1, inner, base => readAll inner base (content levels) 0

-- The position of a lexer that stood at `start`, after so many calls.
def positionAfter (levels start : Nat) : Nat → Nat
  | 0 => start
  | calls + 1 => (nextWith input base (content levels) (positionAfter levels start calls)).position

-- What one more call returns.
def resultAfter (levels start calls : Nat) : Except Halt (Option Token) :=
  (nextWith input base (content levels) (positionAfter input base levels start calls)).result

end FlowExpr.Token.Indexed
