import FlowExpr.Proofs.Blank
import FlowExpr.Outcome
import FlowExpr.Token.Check

namespace FlowExpr.Token

open Text (Cursor)

variable {inside : Cursor → Except LexError (List Token)} {c after next : Cursor} {t : Token}

-- When a token is read, and which.
theorem readString_eq_ok_iff {quote : Char} :
    readString quote c = ⟨.ok t, after⟩ ↔ ∃ content written rest,
      stringBody quote (c.rest.drop 1) = some (content, written, rest) ∧
        t = .text .string (String.ofList (quote :: written)) (String.ofList content) ∧
        after = c.past (quote :: written) rest := by
  rw [readString]
  cases stringBody quote (c.rest.drop 1) with
  | none => simp [fail]
  | some body =>
      obtain ⟨content, written, rest⟩ := body
      simp only [Step.mk.injEq, Except.ok.injEq, Option.some.injEq, Prod.mk.injEq]
      constructor
      · rintro ⟨rfl, rfl⟩
        exact ⟨content, written, rest, ⟨rfl, rfl, rfl⟩, rfl, rfl⟩
      · rintro ⟨_, _, _, ⟨rfl, rfl, rfl⟩, rfl, rfl⟩
        exact ⟨rfl, rfl⟩

theorem readReference_eq_ok_iff :
    readReference inside c = ⟨.ok t, after⟩ ↔ ∃ inner rest children,
      extent referenceDelimiters 0 none (c.advance 2).offset (c.advance 2).rest =
          .closed inner rest ∧
        Text.trim inner ≠ [] ∧ inside ⟨inner, (c.advance 2).offset⟩ = .ok children ∧
        t = .group .reference (String.ofList (Text.trim inner)) children ∧
        after = (c.advance 2).past (inner ++ ['}']) rest := by
  rw [readReference]
  dsimp only
  cases extent referenceDelimiters 0 none (c.advance 2).offset (c.advance 2).rest with
  | openQuote position => simp [fail]
  | unclosed => simp [fail]
  | closed inner rest =>
      simp only [Extent.closed.injEq]
      by_cases hpath : Text.trim inner = []
      · simp only [hpath, List.isEmpty_nil, if_true, fail, Step.mk.injEq, reduceCtorEq, false_and,
          false_iff]
        rintro ⟨_, _, _, ⟨rfl, rfl⟩, hne, _⟩
        exact hne hpath
      · simp only [List.isEmpty_iff, hpath, if_false, Step.mk.injEq, Outcome.map_eq_ok_iff]
        constructor
        · rintro ⟨⟨children, hchildren, rfl⟩, rfl⟩
          exact ⟨inner, rest, children, ⟨rfl, rfl⟩, hpath, hchildren, rfl, rfl⟩
        · rintro ⟨_, _, children, ⟨rfl, rfl⟩, _, hchildren, rfl, rfl⟩
          exact ⟨⟨children, hchildren, rfl⟩, rfl⟩

theorem readContainer_eq_ok_iff {kind : Kind} {d : Delimiters} {fault : Fault} :
    readContainer inside kind d fault c = ⟨.ok t, after⟩ ↔ ∃ inner rest children,
      extent d 0 none (c.advance 1).offset (c.advance 1).rest = .closed inner rest ∧
        inside ⟨inner, (c.advance 1).offset⟩ = .ok children ∧
        t = .group kind (String.ofList (d.opening :: inner ++ [d.closing])) children ∧
        after = (c.advance 1).past (inner ++ [d.closing]) rest := by
  rw [readContainer]
  dsimp only
  cases extent d 0 none (c.advance 1).offset (c.advance 1).rest with
  | openQuote position => simp [fail]
  | unclosed => simp [fail]
  | closed inner rest =>
      simp only [Extent.closed.injEq, Step.mk.injEq, Outcome.map_eq_ok_iff]
      constructor
      · rintro ⟨⟨children, hchildren, rfl⟩, rfl⟩
        exact ⟨inner, rest, children, ⟨rfl, rfl⟩, hchildren, rfl, rfl⟩
      · rintro ⟨_, _, children, ⟨rfl, rfl⟩, hchildren, rfl, rfl⟩
        exact ⟨⟨children, hchildren, rfl⟩, rfl⟩

theorem readTemplate_eq_ok_iff :
    readTemplate inside c = ⟨.ok t, after⟩ ↔ ∃ span parts,
      templateBody inside c.offset (c.advance 1) = ⟨.ok (span, parts), after⟩ ∧
        t = .group .template (String.ofList (c.upTo after)) (spanTokens span ++ parts) := by
  rw [readTemplate]
  obtain ⟨result, place⟩ := templateBody inside c.offset (c.advance 1)
  cases result with
  | error e => simp
  | ok body =>
      obtain ⟨span, parts⟩ := body
      simp only [Step.mk.injEq, Except.ok.injEq, Prod.mk.injEq]
      constructor
      · rintro ⟨rfl, rfl⟩
        exact ⟨span, parts, ⟨⟨rfl, rfl⟩, rfl⟩, rfl⟩
      · rintro ⟨_, _, ⟨⟨rfl, rfl⟩, rfl⟩, rfl⟩
        exact ⟨rfl, rfl⟩

theorem exists_of_opensReference {text : List Char} (h : opensReference text = true) :
    ∃ rest, text = '$' :: '{' :: rest := by
  unfold opensReference at h
  split at h
  · exact ⟨_, rfl⟩
  · simp at h

theorem opensReference_cons {x : Char} {text : List Char} :
    opensReference (x :: text) = (x == '$' && text.head? == some '{') := by
  unfold opensReference
  split
  · rename_i heq
    obtain ⟨rfl, rfl⟩ := List.cons.inj heq
    rfl
  · rename_i hne
    cases text with
    | nil => simp
    | cons d rest =>
        have hne' : ¬(x = '$' ∧ d = '{') := fun ⟨hc, hd⟩ => hne rest (by rw [hc, hd])
        simpa using hne'

-- How a template goes on.
theorem templateBody_nil {start : Nat} (hc : c.rest = []) :
    templateBody inside start c = fail .openTemplate start c := by
  rw [templateBody]
  split <;> simp_all

theorem templateBody_backslash {start : Nat} (hc : c.rest = ['\\']) :
    templateBody inside start c = fail .openTemplate start c.atEnd := by
  rw [templateBody]
  split
  · simp_all
  · rename_i hrest
    obtain ⟨rfl, rfl⟩ := List.cons.inj (hrest.symm.trans hc)
    rw [if_neg (by decide), if_pos rfl]

theorem templateBody_end {start : Nat} {rest : List Char} (hc : c.rest = '\x60' :: rest) :
    templateBody inside start c = ⟨.ok ([], []), c.advance 1⟩ := by
  rw [templateBody]
  split <;> simp_all

theorem templateBody_escape {start : Nat} {e : Char} {rest : List Char}
    (hc : c.rest = '\\' :: e :: rest) : templateBody inside start c =
      (templateBody inside start (c.advance 2)).map (addToSpan (unescape e)) := by
  rw [templateBody]
  split
  · simp_all
  · rename_i hrest
    obtain ⟨rfl, rfl⟩ := List.cons.inj (hrest.symm.trans hc)
    rw [if_neg (by decide), if_pos rfl]

theorem templateBody_opening {start : Nat} (hopens : opensReference c.rest = true) :
    templateBody inside start c =
      match readReference inside c with
      | ⟨.ok t, next⟩ => (templateBody inside start next).map (addReference t)
      | ⟨.error e, next⟩ => ⟨.error e, next⟩ := by
  rw [templateBody]
  split
  · simp_all [opensReference]
  · rename_i x rest hrest
    rw [hrest] at hopens
    obtain ⟨more, hmore⟩ := exists_of_opensReference hopens
    obtain rfl : x = '$' := (List.cons.inj hmore).1
    rw [if_neg (by decide), if_neg (by decide), if_pos hopens]
    split
    · rename_i hread
      rw [hread]
    · rename_i hread
      rw [hread]

theorem templateBody_reference {start : Nat} (hopens : opensReference c.rest = true)
    (hr : readReference inside c = ⟨.ok t, next⟩) : templateBody inside start c =
      (templateBody inside start next).map (addReference t) := by
  rw [templateBody_opening hopens, hr]

theorem templateBody_reference_error {start : Nat} {e : LexError}
    (hopens : opensReference c.rest = true) (hr : readReference inside c = ⟨.error e, next⟩) :
    templateBody inside start c = ⟨.error e, next⟩ := by
  rw [templateBody_opening hopens, hr]

theorem templateBody_char {start : Nat} {x : Char} {rest : List Char} (hc : c.rest = x :: rest)
    (hend : x ≠ '\x60') (hescape : x ≠ '\\') (hopens : opensReference (x :: rest) = false) :
    templateBody inside start c = (templateBody inside start (c.advance 1)).map (addToSpan x) := by
  rw [templateBody]
  split <;> simp_all

theorem nextWith_some : nextWith inside c = ⟨.ok (some t), after⟩ ↔ ∃ x rest,
    (c.skipWhile Text.isBlank).rest = x :: rest ∧
      readToken inside (c.skipWhile Text.isBlank) x rest = ⟨.ok t, after⟩ := by
  rw [nextWith]
  split
  · rename_i hrest
    simp [hrest]
  · rename_i x rest hrest
    constructor
    · intro h
      obtain ⟨t', hread, htoken⟩ := Step.exists_of_map_ok h
      obtain rfl : t' = t := Option.some.inj htoken
      exact ⟨x, rest, hrest, hread⟩
    · rintro ⟨x', rest', hrest', hread⟩
      obtain ⟨rfl, rfl⟩ := List.cons.inj (hrest.symm.trans hrest')
      rw [hread]
      rfl

theorem nextWith_none : nextWith inside c = ⟨.ok none, after⟩ ↔
    (c.skipWhile Text.isBlank).rest = [] ∧ after = c.skipWhile Text.isBlank := by
  rw [nextWith]
  split
  · rename_i hrest
    simp [hrest, eq_comm]
  · rename_i x rest hrest
    rw [hrest]
    constructor
    · intro h
      obtain ⟨_, _, htoken⟩ := Step.exists_of_map_ok h
      simp at htoken
    · rintro ⟨hempty, _⟩
      simp at hempty

theorem readAll_some (h : nextWith inside c = ⟨.ok (some t), after⟩) :
    readAll inside c = (readAll inside after).map (t :: ·) := by
  rw [readAll]
  split <;> simp_all

theorem readAll_none (h : nextWith inside c = ⟨.ok none, after⟩) : readAll inside c = .ok [] := by
  rw [readAll]
  split <;> simp_all

theorem readAll_error {e : LexError} (h : nextWith inside c = ⟨.error e, after⟩) :
    readAll inside c = .error e := by
  rw [readAll]
  split <;> simp_all

-- Only the next step counts.
theorem readAll_congr {c' : Cursor} (h : nextWith inside c = nextWith inside c') :
    readAll inside c = readAll inside c' := by
  cases hnext : nextWith inside c' with | mk result place =>
  rw [hnext] at h
  rcases result with e | _ | t
  · rw [readAll_error h, readAll_error hnext]
  · rw [readAll_none h, readAll_none hnext]
  · rw [readAll_some h, readAll_some hnext]

theorem nextWith_of_not_isBlank {x : Char} {rest : List Char} {offset : Nat}
    (hx : Text.isBlank x = false) : nextWith inside ⟨x :: rest, offset⟩ =
      (readToken inside ⟨x :: rest, offset⟩ x rest).map some := by
  rw [nextWith, Cursor.skipWhile_of_not_isBlank hx]

theorem nextWith_of_readReference {text : List Char} {offset : Nat}
    (h : readReference inside ⟨'$' :: '{' :: text, offset⟩ = ⟨.ok t, after⟩) :
    nextWith inside ⟨'$' :: '{' :: text, offset⟩ = ⟨.ok (some t), after⟩ := by
  have hopens : opensReference ('$' :: '{' :: text) = true := rfl
  rw [nextWith_of_not_isBlank rfl, readToken, if_pos hopens, h]
  rfl

-- Blanks in front of a text are passed over.
theorem nextWith_blank {blank : List Char} (h : Text.isBlankText blank = true) (text : List Char)
    (offset : Nat) : nextWith inside ⟨blank ++ text, offset⟩ =
      nextWith inside ⟨text, offset + blank.length⟩ := by
  have hall : ∀ x ∈ blank, Text.isBlank x = true := List.all_eq_true.mp h
  have hskip : (Cursor.mk (blank ++ text) offset).skipWhile Text.isBlank =
      (Cursor.mk text (offset + blank.length)).skipWhile Text.isBlank := by
    simp only [Cursor.skipWhile, List.takeWhile_append_of_pos hall,
      List.dropWhile_append_of_pos hall, List.length_append, Nat.add_assoc]
  rw [nextWith, nextWith, hskip]

theorem readAll_blank {blank : List Char} (h : Text.isBlankText blank = true) (text : List Char)
    (offset : Nat) : readAll inside ⟨blank ++ text, offset⟩ =
      readAll inside ⟨text, offset + blank.length⟩ :=
  readAll_congr (nextWith_blank h text offset)

theorem readAll_end {offset : Nat} : readAll inside ⟨[], offset⟩ = .ok [] :=
  readAll_none (nextWith_none.mpr ⟨rfl, rfl⟩)

theorem readToken_brace (c : Cursor) (rest : List Char) : readToken inside c '{' rest =
    readContainer inside .object objectDelimiters .openObject c :=
  rfl

theorem readToken_bracket (c : Cursor) (rest : List Char) : readToken inside c '[' rest =
    readContainer inside .array arrayDelimiters .openArray c :=
  rfl

-- The characters other than those of names that a token can start with.
def startMarks : List Char :=
  ['"', '\'', '\x60', '{', '}', '[', ']', '(', ')', ':', ','] ++ "=!<>&|?+-*/%".toList

theorem not_mem_startMarks {c : Char} (h : isIdentifierChar c = true) : c ∉ startMarks := by
  have hmarks : startMarks.any isIdentifierChar = false := by decide +kernel
  exact Text.not_mem_of_kind hmarks h

-- What such a character is not the start of is a number, an identifier or no token.
theorem readToken_of_not_mem {x : Char} {rest : List Char} (hx : x ∉ startMarks)
    (hopens : opensReference (x :: rest) = false)
    (hdots : "...".toList.isPrefixOf (x :: rest) = false) (c : Cursor) :
    readToken inside c x rest =
      if x.isDigit then
        ⟨.ok (.plain .number (String.ofList (numberRun (x :: rest)).1)),
          c.past (numberRun (x :: rest)).1 (numberRun (x :: rest)).2⟩
      else if isIdentifierChar x then
        ⟨.ok (.plain .identifier (String.ofList (identifierRun (x :: rest)).1)),
          c.past (identifierRun (x :: rest)).1 (identifierRun (x :: rest)).2⟩
      else fail (.invalidCharacter x) c.offset c := by
  have hne {m : Char} (hm : m ∈ startMarks) : x ≠ m := fun heq => hx (heq ▸ hm)
  have hquote : ¬(x = '"' ∨ x = '\'') := by
    rintro (heq | heq)
    · exact hne (by decide) heq
    · exact hne (by decide) heq
  have hpunctuation : x ∉ punctuationChars := by
    have hmarks : punctuationChars ⊆ startMarks := by simp [punctuationChars, startMarks]
    exact fun hmem => hx (hmarks hmem)
  have hoperator : ¬isOperatorChar x = true := by
    intro htrue
    have hmem : x ∈ "=!<>&|?+-*/%".toList := by simpa [isOperatorChar] using htrue
    exact hx (List.mem_append_right _ hmem)
  rw [readToken, if_neg (Bool.eq_false_iff.mp hopens), if_neg hquote, if_neg (hne (by decide)),
    if_neg (hne (by decide)), if_neg (hne (by decide)), if_neg (Bool.eq_false_iff.mp hdots),
    if_neg hpunctuation, if_neg hoperator]

theorem isBlank_of_isIdentifierChar {c : Char} (h : isIdentifierChar c = true) :
    Text.isBlank c = false := by
  simp only [isIdentifierChar, Bool.or_eq_true, beq_iff_eq] at h
  rcases h with rfl | h
  · rfl
  · exact Text.isBlank_of_isNameChar h

theorem opensReference_of_ne {x : Char} (h : x ≠ '$') (rest : List Char) :
    opensReference (x :: rest) = false := by
  rw [Bool.eq_false_iff]
  intro hopens
  obtain ⟨after, heq⟩ := exists_of_opensReference hopens
  exact h (List.cons.inj heq).1

theorem isPrefixOf_dots_of_ne {x : Char} (h : x ≠ '.') (rest : List Char) :
    "...".toList.isPrefixOf (x :: rest) = false := by
  have hpoints : "...".toList = ['.', '.', '.'] := rfl
  simp [hpoints, List.isPrefixOf, Ne.symm h]

theorem exists_readAll_eq_lexWithin (levels : Nat) :
    ∃ inside, ∀ c, lexWithin levels c = readAll inside c := by
  cases levels with
  | zero => exact ⟨_, fun _ => rfl⟩
  | succ levels => exact ⟨lexWithin levels, fun _ => rfl⟩

theorem checkRun_identifier {opened : Nat} {name : String} (hname : name.toList.head? ≠ some '$')
    (rest : List Token) :
    checkRun opened (.plain .identifier name :: rest) = checkRun opened rest := by
  have hkind : (plain .identifier name).kind = .identifier := rfl
  have hraw : (plain .identifier name).raw = name := rfl
  rw [checkRun.eq_def]
  simp only [hkind, hraw, if_neg hname]

theorem checkRun_group {opened : Nat} {kind : Kind} {raw : String} {children : List Token}
    (hkind : kind.isContainer = true) (h : checkRun 0 children = .ok ()) (rest : List Token) :
    checkRun opened (.group kind raw children :: rest) = checkRun opened rest := by
  have hcontent : checkContent (.group kind raw children) = .ok () := by
    rw [checkContent, if_pos hkind, h]
  rw [checkRun.eq_def]
  cases kind <;> simp_all [Token.kind, Kind.isContainer]

-- A text is read if it is not blank and its tokens pass the check.
theorem read_eq_ok_iff {text : String} {tokens : List Token} :
    read text = .ok tokens ↔ Text.isBlankText text.toList = false ∧ lex text = .ok tokens ∧
      checkRun 0 tokens = .ok () := by
  have hcheck (found : List Token) : check found = .ok () ↔ checkRun 0 found = .ok () := by
    unfold check
    split <;> simp_all
  rw [read]
  by_cases hblank : Text.isBlankText text.toList = true
  · simp [hblank]
  · rw [if_neg hblank]
    rw [Bool.not_eq_true] at hblank
    constructor
    · intro h
      obtain ⟨found, hlex, hrest⟩ := Outcome.bind_eq_ok_iff.mp h
      obtain ⟨_, hshape, hreturn⟩ := Outcome.bind_eq_ok_iff.mp hrest
      obtain rfl : found = tokens := by simpa [pure, Except.pure] using hreturn
      exact ⟨hblank, hlex, (hcheck found).mp hshape⟩
    · rintro ⟨_, hlex, hshape⟩
      refine Outcome.bind_eq_ok_iff.mpr ⟨tokens, hlex, ?_⟩
      exact Outcome.bind_eq_ok_iff.mpr ⟨(), (hcheck tokens).mpr hshape, rfl⟩

end FlowExpr.Token
