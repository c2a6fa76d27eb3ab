import FlowExpr.Outcome
import FlowExpr.Path
import FlowExpr.Path.Fault
import FlowExpr.Text.Blank
import FlowExpr.Text.Cursor
import FlowExpr.Text.Whole

namespace FlowExpr.Path

open Text (Cursor)

abbrev Place := PathFault × Nat

-- The key in quotes whose opening quote has been read, the text it was written as up to the closing
-- quote, and what follows. A backslash keeps the character after it.
def quotedKey (quote : Char) : List Char → Option (List Char × List Char × List Char)
  | [] => none
  | c :: rest =>
    if c = '\\' then
      match rest with
      | [] => none
      | e :: rest =>
        (quotedKey quote rest).map fun (key, written, after) =>
          (e :: key, c :: e :: written, after)
    else if c = quote then some ([], [c], rest)
    else
      (quotedKey quote rest).map fun (key, written, after) => (c :: key, c :: written, after)

theorem eq_of_quotedKey {quote : Char} {text key written rest : List Char}
    (h : quotedKey quote text = some (key, written, rest)) : text = written ++ rest := by
  fun_induction quotedKey quote text generalizing key written with
  | case1 => simp at h
  | case2 => simp at h
  | case4 =>
    simp only [Option.some.injEq, Prod.mk.injEq] at h
    simp [← h.2.1, h.2.2]
  | case3 | case5 =>
    rename_i ih
    simp only [Option.map_eq_some_iff, Prod.mk.injEq, Prod.exists] at h
    obtain ⟨_, _, _, hkey, _, rfl, rfl⟩ := h
    rw [ih hkey]
    rfl

-- The text up to the bracket that closes one which has been read, and the rest from that bracket
-- on. `depth` counts the further brackets that are open. Brackets in quotes do not count, and an
-- open quote is reported at its place.
def bracketBody (depth : Nat) (quote : Option (Char × Nat)) (position : Nat) :
    List Char → Except (Option Nat) (List Char × List Char)
  | [] => .error (quote.map Prod.snd)
  | c :: rest =>
    match quote with
    | some (q, start) =>
      if c = '\\' then
        match rest with
        | [] => .error (some start)
        | e :: rest =>
          (bracketBody depth quote (position + 2) rest).map fun (inner, after) =>
            (c :: e :: inner, after)
      else
        (bracketBody depth (if c = q then none else quote) (position + 1) rest).map
          fun (inner, after) => (c :: inner, after)
    | none =>
      if c = '"' ∨ c = '\'' then
        (bracketBody depth (some (c, position)) (position + 1) rest).map fun (inner, after) =>
          (c :: inner, after)
      else if c = '[' then
        (bracketBody (depth + 1) none (position + 1) rest).map fun (inner, after) =>
          (c :: inner, after)
      else if c = ']' then
        match depth with
        | 0 => .ok ([], c :: rest)
        | depth + 1 =>
          (bracketBody depth none (position + 1) rest).map fun (inner, after) =>
            (c :: inner, after)
      else
        (bracketBody depth none (position + 1) rest).map fun (inner, after) =>
          (c :: inner, after)

theorem eq_of_bracketBody {depth position : Nat} {quote : Option (Char × Nat)}
    {text inner rest : List Char}
    (h : bracketBody depth quote position text = .ok (inner, rest)) : text = inner ++ rest := by
  fun_induction bracketBody depth quote position text generalizing inner with
  | case1 => simp at h
  | case2 => simp at h
  | case7 =>
    simp only [Except.ok.injEq, Prod.mk.injEq] at h
    simp [← h.1, h.2]
  | case3 | case4 | case5 | case6 | case8 | case9 =>
    rename_i ih
    obtain ⟨⟨_, _⟩, hbody, hpair⟩ := Outcome.map_eq_ok_iff.mp h
    simp only [Prod.mk.injEq] at hpair
    rw [← hpair.1, ← hpair.2, ih (hpair.2 ▸ hbody)]
    simp [hpair.2]

def isNameEnd (c : Char) : Bool :=
  c == '.' || c == '[' || c == ']'

-- A name up to the next dot or bracket, without the blanks around it.
def readName (c : Cursor) : Except Place (Segment × Cursor) :=
  let name := Text.trim (c.rest.takeWhile fun x => !isNameEnd x)
  if name.isEmpty then .error (.missingName, c.offset)
  else .ok (.property (String.ofList name), c.skipWhile fun x => !isNameEnd x)

-- What stands in brackets without quotes: an index if it is all digits, and a computed key
-- otherwise.
def ofBracketText (opening start : Nat) (inner : List Char) : Except Place Segment :=
  let text := Text.trim inner
  if text.isEmpty then .error (.emptyBrackets, opening)
  else if text.all Char.isDigit then
    match Text.readUnsigned? text with
    | some i => .ok (.index i)
    | none => .error (.indexTooLarge (String.ofList text), start)
  else .ok (.computed (String.ofList text))

-- The key in quotes that a bracket holds, from its opening quote to the bracket that closes.
def readQuoted (quote : Char) (c : Cursor) : Except Place (Segment × Cursor) :=
  match quotedKey quote (c.rest.drop 1) with
  | none => .error (.openQuote, c.offset)
  | some (key, written, rest) =>
    let after := (c.past (quote :: written) rest).skipWhile Text.isBlank
    match after.rest with
    | ']' :: _ => .ok (.property (String.ofList key), after.advance 1)
    | _ => .error (.afterQuotedKey, after.offset)

def readUnquoted (opening : Nat) (c : Cursor) : Except Place (Segment × Cursor) :=
  match bracketBody 0 none c.offset c.rest with
  | .error (some quote) => .error (.openQuote, quote)
  | .error none => .error (.openBracket, opening)
  | .ok (inner, rest) =>
    (ofBracketText opening c.offset inner).map (·, (c.past inner rest).advance 1)

-- A segment in brackets, from the opening bracket to the closing one.
def readBracket (c : Cursor) : Except Place (Segment × Cursor) :=
  let body := c.advance 1
  if body.rest.head? = some '[' then .error (.doubleBracket, c.offset)
  else
    let start := body.skipWhile Text.isBlank
    match start.rest with
    | '"' :: _ => readQuoted '"' start
    | '\'' :: _ => readQuoted '\'' start
    | _ => readUnquoted c.offset start

theorem readName_length_le {c after : Cursor} {segment : Segment}
    (h : readName c = .ok (segment, after)) : after.rest.length ≤ c.rest.length := by
  unfold readName at h
  dsimp only at h
  split at h
  · simp at h
  · simp only [Except.ok.injEq, Prod.mk.injEq] at h
    rw [← h.2]
    exact Cursor.length_skipWhile_le c _

theorem readBracket_length {c after : Cursor} {segment : Segment} (hc : c.rest ≠ [])
    (h : readBracket c = .ok (segment, after)) : after.rest.length < c.rest.length := by
  have hpos := List.length_pos_iff.2 hc
  have hquoted {quote : Char} {start : Cursor} (hstart : start.rest.length < c.rest.length)
      (hread : readQuoted quote start = .ok (segment, after)) :
      after.rest.length < c.rest.length := by
    unfold readQuoted at hread
    split at hread
    · simp at hread
    · rename_i hkey
      have hlength := congrArg List.length (eq_of_quotedKey hkey)
      simp only [List.length_drop, List.length_append] at hlength
      dsimp only at hread
      split at hread
      · rename_i key written rest _ _ _
        have hskip := Cursor.length_skipWhile_le (start.past (quote :: written) rest) Text.isBlank
        simp only [Cursor.past] at hskip
        simp only [Except.ok.injEq, Prod.mk.injEq] at hread
        simp only [← hread.2, Cursor.advance, List.length_drop, Cursor.past]
        omega
      · simp at hread
  have hskip := Cursor.length_skipWhile_le (c.advance 1) Text.isBlank
  have hadvance : (c.advance 1).rest.length < c.rest.length := by
    simp only [Cursor.advance, List.length_drop]
    omega
  unfold readBracket at h
  dsimp only at h
  split at h
  · simp at h
  split at h
  · exact hquoted (by omega) h
  · exact hquoted (by omega) h
  · unfold readUnquoted at h
    split at h
    · simp at h
    · simp at h
    · rename_i inner rest hbody
      have hlength := congrArg List.length (eq_of_bracketBody hbody)
      simp only [List.length_append] at hlength
      obtain ⟨_, _, hpair⟩ := Outcome.map_eq_ok_iff.mp h
      simp only [Prod.mk.injEq] at hpair
      simp only [← hpair.2, Cursor.advance, Cursor.past, List.length_drop]
      omega

-- The segments that follow the first.
def readRest (c : Cursor) : Except Place Path :=
  match _hc : c.rest with
  | [] => .ok []
  | x :: _ =>
    if x = '.' then
      match _h : readName (c.advance 1) with
      | .error e => .error e
      | .ok (segment, after) => (readRest after).map (segment :: ·)
    else if x = '[' then
      match _h : readBracket c with
      | .error e => .error e
      | .ok (segment, after) => (readRest after).map (segment :: ·)
    else if x = ']' then .error (.strayBracket, c.offset)
    else .error (.unexpected x, c.offset)
termination_by c.rest.length
decreasing_by
  · have hname := readName_length_le _h
    simp only [Cursor.advance, _hc, List.length_drop, List.length_cons] at hname ⊢
    omega
  · exact readBracket_length (by simp [_hc]) _h

def readSegments (c : Cursor) : Except Place Path :=
  match c.rest with
  | [] => .error (.empty, 0)
  | '[' :: _ => readRest c
  | _ =>
    match readName c with
    | .error e => .error e
    | .ok (segment, after) => (readRest after).map (segment :: ·)

-- The segments of a path, the first of which is a name unless it stands in brackets.
def read (path : String) : Except PathError Path :=
  match readSegments (Cursor.start path.toList) with
  | .ok segments => .ok segments
  | .error (fault, position) => .error ⟨path, position, fault⟩

end FlowExpr.Path
