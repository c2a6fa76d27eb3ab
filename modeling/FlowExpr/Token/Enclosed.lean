import FlowExpr.Text.Blank
import FlowExpr.Token
import FlowExpr.Token.Extent
import FlowExpr.Token.Run
import FlowExpr.Token.Step

namespace FlowExpr.Token

open Text (Cursor)

def readString (quote : Char) (c : Cursor) : Step Token :=
  match stringBody quote (c.rest.drop 1) with
  | some (content, written, rest) =>
    let raw := quote :: written
    ⟨.ok (.text .string (String.ofList raw) (String.ofList content)), c.past raw rest⟩
  | none => fail .openString c.offset c.atEnd

def referenceDelimiters : Delimiters :=
  ⟨'{', '}', ['"', '\'']⟩

def objectDelimiters : Delimiters :=
  ⟨'{', '}', ['"', '\'', '\x60']⟩

def arrayDelimiters : Delimiters :=
  ⟨'[', ']', ['"', '\'', '\x60']⟩

variable (inside : Cursor → Except LexError (List Token))

-- A reference, from its dollar sign to the brace that closes it.
def readReference (c : Cursor) : Step Token :=
  let body := c.advance 2
  match extent referenceDelimiters 0 none body.offset body.rest with
  | .closed inner rest =>
    let after := body.past (inner ++ ['}']) rest
    let path := Text.trim inner
    if path.isEmpty then fail .emptyReference body.offset after
    else ⟨(inside ⟨inner, body.offset⟩).map (.group .reference (String.ofList path)), after⟩
  | .openQuote position => fail .openString position c.atEnd
  | .unclosed => fail .openReference c.offset c.atEnd

-- An object or an array, from its opening bracket to the one that closes it.
def readContainer (kind : Kind) (d : Delimiters) (fault : Fault) (c : Cursor) : Step Token :=
  let body := c.advance 1
  match extent d 0 none body.offset body.rest with
  | .closed inner rest =>
    let raw := String.ofList (d.opening :: inner ++ [d.closing])
    ⟨(inside ⟨inner, body.offset⟩).map (.group kind raw), body.past (inner ++ [d.closing]) rest⟩
  | .openQuote position => fail .openString position c.atEnd
  | .unclosed => fail fault c.offset c.atEnd

private theorem length_rest_lt {d : Delimiters} {c : Cursor} {n : Nat} {inner rest : List Char}
    (h : extent d 0 none (c.advance n).offset (c.advance n).rest = .closed inner rest) :
    rest.length < c.rest.length := by
  have hbody := congrArg List.length (eq_of_extent_closed h)
  simp only [Cursor.advance, List.length_drop, List.length_append, List.length_cons] at hbody
  omega

theorem readReference_length {c after : Cursor} {t : Token}
    (h : readReference inside c = ⟨.ok t, after⟩) : after.rest.length < c.rest.length := by
  unfold readReference at h
  dsimp only at h
  split at h
  · rename_i hextent
    split at h
    · simp [fail] at h
    · simp only [Step.mk.injEq] at h
      rw [← h.2]
      exact length_rest_lt hextent
  · simp [fail] at h
  · simp [fail] at h

theorem readContainer_length {kind : Kind} {d : Delimiters} {fault : Fault} {c after : Cursor}
    {t : Token} (h : readContainer inside kind d fault c = ⟨.ok t, after⟩) :
    after.rest.length < c.rest.length := by
  unfold readContainer at h
  dsimp only at h
  split at h
  · rename_i hextent
    simp only [Step.mk.injEq] at h
    rw [← h.2]
    exact length_rest_lt hextent
  · simp [fail] at h
  · simp [fail] at h

theorem readString_length {quote : Char} {c after : Cursor} {t : Token} (hc : c.rest ≠ [])
    (h : readString quote c = ⟨.ok t, after⟩) : after.rest.length < c.rest.length := by
  unfold readString at h
  split at h
  · rename_i hbody
    have hlength := congrArg List.length (eq_of_stringBody hbody)
    have hpos := List.length_pos_iff.2 hc
    simp only [List.length_drop, List.length_append] at hlength
    simp only [Step.mk.injEq] at h
    rw [← h.2]
    simp only [Cursor.past]
    omega
  · simp [fail] at h

-- A span of text in a template is a string token that stands for itself. An empty one is no token.
def spanTokens (span : List Char) : List Token :=
  if span.isEmpty then [] else [.plain .string (String.ofList span)]

def addToSpan (x : Char) (body : List Char × List Token) : List Char × List Token :=
  (x :: body.1, body.2)

def addReference (t : Token) (body : List Char × List Token) : List Char × List Token :=
  ([], t :: (spanTokens body.1 ++ body.2))

-- What stands up to the closing backtick: the text before the first reference, and the tokens from
-- that reference on. `start` is the position of the opening backtick.
def templateBody (start : Nat) (c : Cursor) : Step (List Char × List Token) :=
  match _hc : c.rest with
  | [] => fail .openTemplate start c
  | x :: rest =>
    if x = '\x60' then ⟨.ok ([], []), c.advance 1⟩
    else if x = '\\' then
      match rest with
      | [] => fail .openTemplate start c.atEnd
      | e :: _ => (templateBody start (c.advance 2)).map (addToSpan (unescape e))
    else if opensReference (x :: rest) then
      match _hr : readReference inside c with
      | ⟨.ok t, next⟩ => (templateBody start next).map (addReference t)
      | ⟨.error e, next⟩ => ⟨.error e, next⟩
    else (templateBody start (c.advance 1)).map (addToSpan x)
termination_by c.rest.length
decreasing_by
  · simp only [Cursor.advance, _hc, List.length_drop, List.length_cons]
    omega
  · exact readReference_length inside _hr
  · simp [Cursor.advance, _hc]

theorem templateBody_length {start : Nat} {c after : Cursor} {body : List Char × List Token}
    (h : templateBody inside start c = ⟨.ok body, after⟩) :
    after.rest.length < c.rest.length := by
  fun_induction templateBody inside start c generalizing body after with
  | case1 => simp [fail] at h
  | case2 c rest hc =>
    simp only [Step.mk.injEq] at h
    simp [← h.2, Cursor.advance, hc]
  | case3 => simp [fail] at h
  | case4 =>
    rename_i hc ih
    obtain ⟨_, hnext, _⟩ := Step.exists_of_map_ok h
    have hlt := ih hnext
    simp only [Cursor.advance, hc, List.length_drop, List.length_cons] at hlt ⊢
    omega
  | case5 c _ _ hc _ _ _ t next hr ih =>
    obtain ⟨_, hnext, _⟩ := Step.exists_of_map_ok h
    exact Nat.lt_trans (ih hnext) (readReference_length inside hr)
  | case6 => simp at h
  | case7 c x rest hc _ _ _ ih =>
    obtain ⟨_, hnext, _⟩ := Step.exists_of_map_ok h
    have hlt := ih hnext
    simp only [Cursor.advance, hc, List.length_drop, List.length_cons] at hlt ⊢
    omega

-- A template, from one backtick to the other.
def readTemplate (c : Cursor) : Step Token :=
  match templateBody inside c.offset (c.advance 1) with
  | ⟨.ok (span, parts), after⟩ =>
    ⟨.ok (.group .template (String.ofList (c.upTo after)) (spanTokens span ++ parts)), after⟩
  | ⟨.error e, after⟩ => ⟨.error e, after⟩

theorem readTemplate_length {c after : Cursor} {t : Token}
    (h : readTemplate inside c = ⟨.ok t, after⟩) : after.rest.length < c.rest.length := by
  unfold readTemplate at h
  split at h
  · rename_i hbody
    have hlt := templateBody_length inside hbody
    simp only [Step.mk.injEq] at h
    simp only [Cursor.advance, List.length_drop] at hlt
    rw [← h.2]
    omega
  · simp at h

end FlowExpr.Token
