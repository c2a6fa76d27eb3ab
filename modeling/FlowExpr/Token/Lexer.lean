import FlowExpr.Token.Enclosed

namespace FlowExpr.Token

open Text (Cursor)

variable (inside : Cursor → Except LexError (List Token))

def punctuationChars : List Char :=
  ['(', ')', ':', ',', '}', ']']

-- The token that starts with a character other than a blank.
def readToken (c : Cursor) (x : Char) (rest : List Char) : Step Token :=
  if opensReference (x :: rest) then readReference inside c
  else if x = '"' ∨ x = '\'' then readString x c
  else if x = '\x60' then readTemplate inside c
  else if x = '{' then readContainer inside .object objectDelimiters .openObject c
  else if x = '[' then readContainer inside .array arrayDelimiters .openArray c
  else if "...".toList.isPrefixOf (x :: rest) then
    ⟨.ok (.plain .punctuation "..."), c.advance 3⟩
  else if x ∈ punctuationChars then
    ⟨.ok (.plain .punctuation (String.singleton x)), c.advance 1⟩
  else if x.isDigit then
    let (run, after) := numberRun (x :: rest)
    ⟨.ok (.plain .number (String.ofList run)), c.past run after⟩
  else if isOperatorChar x then
    match operatorAt? (x :: rest) with
    | some op => ⟨.ok (.plain .operator op.symbol), c.advance op.symbol.length⟩
    | none => fail (.invalidOperator x) c.offset c
  else if isIdentifierChar x then
    let (run, after) := identifierRun (x :: rest)
    ⟨.ok (.plain .identifier (String.ofList run)), c.past run after⟩
  else fail (.invalidCharacter x) c.offset c

-- The next token after any blanks, or none at the end of the text.
def nextWith (c : Cursor) : Step (Option Token) :=
  let start := c.skipWhile Text.isBlank
  match start.rest with
  | [] => ⟨.ok none, start⟩
  | x :: rest => (readToken inside start x rest).map some

theorem readToken_length {c after : Cursor} {x : Char} {rest : List Char} {t : Token}
    (hc : c.rest = x :: rest) (h : readToken inside c x rest = ⟨.ok t, after⟩) :
    after.rest.length < c.rest.length := by
  unfold readToken at h
  split at h
  · exact readReference_length inside h
  rename_i href
  split at h
  · exact readString_length (by simp [hc]) h
  split at h
  · exact readTemplate_length inside h
  split at h
  · exact readContainer_length inside h
  split at h
  · exact readContainer_length inside h
  split at h
  · simp only [Step.mk.injEq] at h
    simp only [← h.2, Cursor.advance, hc, List.length_drop, List.length_cons]
    omega
  split at h
  · simp only [Step.mk.injEq] at h
    simp only [← h.2, Cursor.advance, hc, List.length_drop, List.length_cons]
    omega
  split at h
  · rename_i hdigit
    have hrun := congrArg List.length (eq_of_numberRun (x :: rest))
    have hpos := length_numberRun_pos rest hdigit
    simp only [Step.mk.injEq] at h
    simp only [List.length_append] at hrun
    simp only [← h.2, Cursor.past, hc]
    omega
  split at h
  · split at h
    · rename_i op _
      have hpos : 0 < op.symbol.length := by cases op <;> decide
      simp only [Step.mk.injEq] at h
      simp only [← h.2, Cursor.advance, hc, List.length_drop, List.length_cons]
      omega
    · simp [fail] at h
  split at h
  · rename_i hname
    have hrun := congrArg List.length (eq_of_identifierRun (x :: rest))
    have hpos : 0 < (identifierRun (x :: rest)).1.length := by
      rw [identifierRun, if_pos (by simp [hname, href])]
      simp
    simp only [Step.mk.injEq] at h
    simp only [List.length_append] at hrun
    simp only [← h.2, Cursor.past, hc]
    omega
  · simp [fail] at h

-- A step that returns a token leaves less to read.
theorem nextWith_length {c after : Cursor} {t : Token}
    (h : nextWith inside c = ⟨.ok (some t), after⟩) : after.rest.length < c.rest.length := by
  have hskip := Cursor.length_skipWhile_le c Text.isBlank
  unfold nextWith at h
  dsimp only at h
  split at h
  · simp at h
  · rename_i hc
    obtain ⟨_, hread, _⟩ := Step.exists_of_map_ok h
    have hlt := readToken_length inside hc hread
    omega

-- All tokens up to the end of the text, or the first fault.
def readAll (c : Cursor) : Except LexError (List Token) :=
  match _h : nextWith inside c with
  | ⟨.ok (some t), after⟩ => (readAll after).map (t :: ·)
  | ⟨.ok none, _⟩ => .ok []
  | ⟨.error e, _⟩ => .error e
termination_by c.rest.length
decreasing_by exact nextWith_length inside _h

-- The tokens of a text in which brackets and references are nested at most so deeply. Beyond that
-- depth the content of a bracket is not read.
def lexWithin : Nat → Cursor → Except LexError (List Token)
  | 0 => readAll fun body => .error ⟨.nestedTooDeeply, some body.offset⟩
  | levels + 1 => readAll (lexWithin levels)

-- One step of reading a text that stands in no bracket.
def next (c : Cursor) : Step (Option Token) :=
  nextWith (lexWithin (maxNesting - 1)) c

def lex (text : String) : Except LexError (List Token) :=
  lexWithin maxNesting (Cursor.start text.toList)

end FlowExpr.Token
