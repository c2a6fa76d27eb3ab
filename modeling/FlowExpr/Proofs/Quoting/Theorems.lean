import FlowExpr.Proofs.PathText.Reading
import FlowExpr.Proofs.Spelling.Theorems
import FlowExpr.Tree.Element

namespace FlowExpr

open Text (Cursor IsQuoted)

namespace Token

variable {inside : Cursor → Except LexError (List Token)} {c : Cursor} {t : Token}
  {text raw content : String} {tokens : List Token}

-- How a reading of all tokens begins, and how it ends.
theorem exists_of_readAll_cons (h : readAll inside c = .ok (t :: tokens)) :
    ∃ after, nextWith inside c = ⟨.ok (some t), after⟩ ∧ readAll inside after = .ok tokens := by
  rw [readAll] at h
  split at h
  · rename_i first after hnext
    obtain ⟨more, hmore, heq⟩ := Outcome.map_eq_ok_iff.mp h
    obtain ⟨rfl, rfl⟩ := List.cons.inj heq
    exact ⟨after, hnext, hmore⟩
  · simp at h
  · simp at h

theorem isBlankText_of_readAll_nil (h : readAll inside c = .ok []) :
    Text.isBlankText c.rest = true := by
  rw [readAll] at h
  split at h
  · simp [Outcome.map_eq_ok_iff] at h
  · rename_i after hnext
    exact isBlankText_of_nextWith hnext
  · simp at h

-- Only a quote starts a string.
theorem readString_of_readToken {x : Char} {rest : List Char} {after : Cursor}
    (hc : c.rest = x :: rest)
    (h : readToken inside c x rest = ⟨.ok (.text .string raw content), after⟩) :
    (x = '"' ∨ x = '\'') ∧ readString x c = ⟨.ok (.text .string raw content), after⟩ := by
  cases isReadBy_of_readToken hc h with
  | string hquote hread => exact ⟨hquote, hread⟩
  | reference _ hread =>
      obtain ⟨_, _, _, _, _, _, ht, _⟩ := readReference_eq_ok_iff.mp hread
      simp at ht
  | template _ hread =>
      obtain ⟨_, _, _, ht⟩ := readTemplate_eq_ok_iff.mp hread
      simp at ht
  | object _ hread | array _ hread =>
      obtain ⟨_, _, _, _, _, ht, _⟩ := readContainer_eq_ok_iff.mp hread
      simp at ht
  | plain hrun ht =>
      obtain ⟨rfl, -, -⟩ := Token.text.inj ht
      exact absurd rfl hrun.kind_cases.1

-- A text is one string if it stands in quotes, with blanks around them.
theorem lex_eq_string_iff : lex text = .ok [.text .string raw content] ↔
    ∃ before quote inner behind, Text.isBlankText before = true ∧ (quote = '"' ∨ quote = '\'') ∧
      IsQuoted quote inner ∧ Text.isBlankText behind = true ∧
      text.toList = before ++ quote :: (inner ++ quote :: behind) ∧
      raw = String.ofList (quote :: (inner ++ [quote])) ∧
      content = String.ofList (Text.decode unescape inner) := by
  have hescape {quote : Char} (hquote : quote = '"' ∨ quote = '\'') : quote ≠ '\\' := by
    rcases hquote with rfl | rfl <;> decide
  obtain ⟨inside, hread⟩ := exists_readAll_eq_lexWithin maxNesting
  rw [lex, hread]
  constructor
  · intro h
    obtain ⟨after, hnext, hend⟩ := exists_of_readAll_cons h
    obtain ⟨quote, rest, hstart, htoken⟩ := nextWith_some.mp hnext
    obtain ⟨hquote, hstring⟩ := readString_of_readToken hstart htoken
    obtain ⟨value, written, behind, hbody, ht, rfl⟩ := readString_eq_ok_iff.mp hstring
    obtain ⟨-, rfl, rfl⟩ := Token.text.inj ht
    rw [hstart, List.drop_one, List.tail_cons] at hbody
    obtain ⟨inner, hinner, rfl, rfl, rfl⟩ := exists_of_stringBody hbody
    have hskip : text.toList = text.toList.takeWhile Text.isBlank ++
        ((Cursor.start text.toList).skipWhile Text.isBlank).rest :=
      (Cursor.passes_skipWhile (Cursor.start text.toList) Text.isBlank).1
    rw [hstart] at hskip
    exact ⟨_, quote, inner, behind, Text.isBlankText_takeWhile text.toList, hquote, hinner,
      isBlankText_of_readAll_nil hend, hskip, rfl, rfl⟩
  · rintro ⟨before, quote, inner, behind, hbefore, hquote, hinner, hbehind, htext, rfl, rfl⟩
    have hbody : stringBody quote (inner ++ quote :: behind) =
        some (Text.decode unescape inner, inner ++ [quote], behind) :=
      stringBody_of_isQuoted (hescape hquote) hinner behind
    have hopens : ¬opensReference (quote :: (inner ++ quote :: behind)) = true := by
      rcases hquote with rfl | rfl <;> simp [opensReference]
    have hblank : Text.isBlank quote = false := by
      rcases hquote with rfl | rfl <;> rfl
    have hnext : nextWith inside ⟨quote :: (inner ++ quote :: behind), 0 + before.length⟩ = _ :=
      nextWith_of_not_isBlank hblank
    rw [readToken, if_neg hopens, if_pos hquote,
      readString_eq_ok_iff.mpr ⟨_, _, _, hbody, rfl, rfl⟩] at hnext
    rw [Cursor.start, htext, readAll_blank hbefore, readAll_some hnext, Cursor.past,
      ← List.append_nil behind, readAll_blank hbehind, readAll_end]
    rfl

-- The letters that stand for another character behind a backslash in a string.
theorem unescape_eq_self_iff {x : Char} : unescape x = x ↔ x ∉ ['n', 't', 'r', '0'] := by
  unfold unescape
  split <;> simp_all

end Token

-- In an object, a string in front of a colon is a key by its content.
theorem Element.ofSegment_string {raw content : String} {value : List Token} (hvalue : value ≠ []) :
    ofSegment .object (.text .string raw content :: .plain .punctuation ":" :: value) =
      .ok (.keyed content value) := by
  have hcolon : splitColon 0 (.text .string raw content :: .plain .punctuation ":" :: value) =
      some ([.text .string raw content], value) := rfl
  have hkey : keyOf (.text .string raw content) = .ok content := rfl
  have hkeyed : ofSegment .object (.text .string raw content :: .plain .punctuation ":" :: value) =
      ofKeyed (.text .string raw content :: .plain .punctuation ":" :: value) := rfl
  rw [hkeyed, ofKeyed, hcolon]
  simp [hkey, hvalue]

namespace Path

-- The same text in the brackets of a path. Behind a backslash every character stands for itself.
theorem read_quoted {text : String} {before inner behind : List Char} {quote : Char}
    (hbefore : Text.isBlankText before = true) (hquote : quote = '"' ∨ quote = '\'')
    (hinner : IsQuoted quote inner) (hbehind : Text.isBlankText behind = true)
    (htext : text.toList = before ++ quote :: (inner ++ quote :: behind)) :
    read ("x[" ++ text ++ "]") =
      .ok [.property "x", .property (String.ofList (Text.decode id inner))] := by
  have hname : IsNameText ['x'] := ⟨by decide, by simp [isNameEnd]⟩
  have hbody : IsBracketed text.toList (.property (String.ofList (Text.decode id inner))) := by
    rw [htext]
    exact .quoted hbefore (mem_keyQuotes_iff.mpr hquote) hinner hbehind
  have hchars : ("x[" ++ text ++ "]").toList = ['x'] ++ '[' :: (text.toList ++ [']']) := by
    simp [String.toList_append]
  rw [read_eq_ok_iff, hchars]
  exact .name hname (.bracket hbody .nil)

-- A string is the same key in an object and in the brackets of a path exactly if none of its
-- escapes stands for another character.
theorem read_quotedString {text raw content : String}
    (h : Token.lex text = .ok [.text .string raw content]) :
    (∀ value ≠ [], Element.ofSegment .object
      (.text .string raw content :: .plain .punctuation ":" :: value) =
        .ok (.keyed content value)) ∧
    ∃ quote inner, raw = String.ofList (quote :: (inner ++ [quote])) ∧
      content = String.ofList (Text.decode Token.unescape inner) ∧
      read ("x[" ++ text ++ "]") =
        .ok [.property "x", .property (String.ofList (Text.decode id inner))] ∧
      (read ("x[" ++ text ++ "]") = .ok [.property "x", .property content] ↔
        ∀ c ∈ Text.escapes inner, c ∉ ['n', 't', 'r', '0']) := by
  refine ⟨fun value hvalue => Element.ofSegment_string hvalue, ?_⟩
  obtain ⟨before, quote, inner, behind, hbefore, hquote, hinner, hbehind, htext, hraw, hcontent⟩ :=
    Token.lex_eq_string_iff.mp h
  have hread := read_quoted hbefore hquote hinner hbehind htext
  refine ⟨quote, inner, hraw, hcontent, hread, ?_⟩
  rw [hread, hcontent]
  simp only [Except.ok.injEq, List.cons.injEq, Segment.property.injEq, String.ofList_inj, true_and,
    and_true]
  rw [eq_comm, Text.decode_eq_decode_iff]
  simp only [id, Token.unescape_eq_self_iff]

-- A quote behind a backslash.
theorem read_quotedString_quote :
    let text := "'it\\'s'"
    Token.lex text = .ok [.text .string text "it's"] ∧
      read ("x[" ++ text ++ "]") = .ok [.property "x", .property "it's"] := by
  intro text
  have hinner : IsQuoted '\'' ['i', 't', '\\', '\'', 's'] :=
    .char (by decide) (by decide) (.char (by decide) (by decide) (.escape
      (.char (by decide) (by decide) .nil)))
  have hlex : Token.lex text = .ok [.text .string text "it's"] :=
    Token.lex_eq_string_iff.mpr ⟨[], '\'', _, [], rfl, .inr rfl, hinner, rfl, by decide, by decide,
      by decide⟩
  obtain ⟨-, quote, inner, hraw, -, -, hsame⟩ := read_quotedString hlex
  have hchars : ['\'', 'i', 't', '\\', '\'', 's', '\''] = quote :: (inner ++ [quote]) := by
    rw [← String.ofList_inj, ← hraw]
  obtain ⟨rfl, hrest⟩ := List.cons.inj hchars
  obtain rfl : ['i', 't', '\\', '\'', 's'] = inner := List.append_cancel_right hrest
  exact ⟨hlex, hsame.mpr (by simp [Text.escapes])⟩

-- A line break in the string is the letter of its escape in the path.
theorem not_read_quotedString :
    ¬∀ text content : String, Token.lex text = .ok [.text .string text content] →
      read ("x[" ++ text ++ "]") = .ok [.property "x", .property content] := by
  intro hall
  have hinner : IsQuoted '"' ['\\', 'n'] := .escape .nil
  have htext : "\"\\n\"".toList = [] ++ '"' :: (['\\', 'n'] ++ '"' :: []) := by decide
  have hlex : Token.lex "\"\\n\"" = .ok [.text .string "\"\\n\"" "\n"] :=
    Token.lex_eq_string_iff.mpr ⟨[], '"', _, [], rfl, .inl rfl, hinner, rfl, htext, by decide,
      by decide⟩
  have hread := read_quoted rfl (.inl rfl) hinner rfl htext
  rw [hall _ _ hlex] at hread
  revert hread
  decide

end Path

end FlowExpr
