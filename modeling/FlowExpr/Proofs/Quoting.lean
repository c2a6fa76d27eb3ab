import FlowExpr.Path.Reader
import FlowExpr.Token.Run

namespace FlowExpr

namespace Text

-- A text that stays between its quotes: the quote is in it only behind a backslash, and every
-- backslash has a character behind it.
inductive IsQuoted (quote : Char) : List Char → Prop where
  | nil : IsQuoted quote []
  | char {c : Char} {text : List Char} (hescape : c ≠ '\\') (hquote : c ≠ quote)
      (htext : IsQuoted quote text) : IsQuoted quote (c :: text)
  | escape {c : Char} {text : List Char} (htext : IsQuoted quote text) :
      IsQuoted quote ('\\' :: c :: text)

-- What a text between quotes stands for, if the characters behind a backslash have the given
-- meaning.
def decode (meaning : Char → Char) : List Char → List Char
  | '\\' :: c :: rest => meaning c :: decode meaning rest
  | c :: rest => c :: decode meaning rest
  | [] => []

-- The characters behind a backslash.
def escapes : List Char → List Char
  | '\\' :: c :: rest => c :: escapes rest
  | _ :: rest => escapes rest
  | [] => []

variable {meaning other : Char → Char} {quote : Char} {text : List Char}

theorem decode_cons_of_ne {c : Char} (h : c ≠ '\\') (text : List Char) :
    decode meaning (c :: text) = c :: decode meaning text := by
  rw [decode]
  rintro e rest rfl
  exact absurd rfl h

-- Two meanings make the same of a text if they agree on what is escaped in it, and only then.
theorem decode_eq_decode_iff :
    decode meaning text = decode other text ↔ ∀ c ∈ escapes text, meaning c = other c := by
  fun_induction escapes text with
  | case1 c rest ih => simp [decode, ih]
  | case2 c rest hplain ih => simp [decode, ih]
  | case3 => simp [decode]

end Text

open Text (IsQuoted decode decode_cons_of_ne)

variable {quote : Char} {text inner written rest : List Char}

namespace Path

-- A key is read up to the first quote that is not escaped. Behind a backslash it keeps every
-- character.
theorem exists_of_quotedKey {key : List Char}
    (h : quotedKey quote text = some (key, written, rest)) :
    ∃ inner, IsQuoted quote inner ∧ text = inner ++ quote :: rest ∧ written = inner ++ [quote] ∧
      key = decode id inner := by
  fun_induction quotedKey quote text generalizing key written with
  | case1 | case2 => simp at h
  | case3 e tail ih =>
      simp only [Option.map_eq_some_iff, Prod.mk.injEq, Prod.exists] at h
      obtain ⟨_, _, _, hkey, rfl, rfl, rfl⟩ := h
      obtain ⟨inner, hinner, rfl, rfl, rfl⟩ := ih hkey
      exact ⟨'\\' :: e :: inner, .escape hinner, rfl, rfl, rfl⟩
  | case4 tail =>
      simp only [Option.some.injEq, Prod.mk.injEq] at h
      obtain ⟨rfl, rfl, rfl⟩ := h
      exact ⟨[], .nil, rfl, rfl, rfl⟩
  | case5 c tail hescape hne ih =>
      simp only [Option.map_eq_some_iff, Prod.mk.injEq, Prod.exists] at h
      obtain ⟨_, _, _, hkey, rfl, rfl, rfl⟩ := h
      obtain ⟨inner, hinner, rfl, rfl, rfl⟩ := ih hkey
      exact ⟨c :: inner, .char hescape hne hinner, rfl, rfl, (decode_cons_of_ne hescape inner).symm⟩

theorem quotedKey_of_isQuoted (hquote : quote ≠ '\\') (h : IsQuoted quote inner)
    (rest : List Char) :
    quotedKey quote (inner ++ quote :: rest) = some (decode id inner, inner ++ [quote], rest) := by
  induction h with
  | nil =>
      rw [List.nil_append, quotedKey.eq_def]
      simp [hquote, decode]
  | char hescape hne _ ih =>
      rw [List.cons_append, quotedKey.eq_def]
      simp [hescape, hne, ih, decode_cons_of_ne]
  | escape _ ih =>
      rw [List.cons_append, List.cons_append, quotedKey, if_pos rfl, ih]
      rfl

end Path

namespace Token

-- A string is read up to the same quote, and has escapes that stand for other characters.
theorem exists_of_stringBody {content : List Char}
    (h : stringBody quote text = some (content, written, rest)) :
    ∃ inner, IsQuoted quote inner ∧ text = inner ++ quote :: rest ∧ written = inner ++ [quote] ∧
      content = decode unescape inner := by
  fun_induction stringBody quote text generalizing content written with
  | case1 | case3 => simp at h
  | case2 =>
      simp only [Option.some.injEq, Prod.mk.injEq] at h
      obtain ⟨rfl, rfl, rfl⟩ := h
      exact ⟨[], .nil, rfl, rfl, rfl⟩
  | case4 e tail _ ih =>
      simp only [Option.map_eq_some_iff, Prod.mk.injEq, Prod.exists] at h
      obtain ⟨_, _, _, hbody, rfl, rfl, rfl⟩ := h
      obtain ⟨inner, hinner, rfl, rfl, rfl⟩ := ih hbody
      exact ⟨'\\' :: e :: inner, .escape hinner, rfl, rfl, rfl⟩
  | case5 c tail hne hescape ih =>
      simp only [Option.map_eq_some_iff, Prod.mk.injEq, Prod.exists] at h
      obtain ⟨_, _, _, hbody, rfl, rfl, rfl⟩ := h
      obtain ⟨inner, hinner, rfl, rfl, rfl⟩ := ih hbody
      exact ⟨c :: inner, .char hescape hne hinner, rfl, rfl, (decode_cons_of_ne hescape inner).symm⟩

theorem stringBody_of_isQuoted (hquote : quote ≠ '\\') (h : IsQuoted quote inner)
    (rest : List Char) :
    stringBody quote (inner ++ quote :: rest) =
      some (decode unescape inner, inner ++ [quote], rest) := by
  induction h with
  | nil =>
      rw [List.nil_append, stringBody.eq_def]
      simp [decode]
  | char hescape hne _ ih =>
      rw [List.cons_append, stringBody.eq_def]
      simp [hescape, hne, ih, decode_cons_of_ne]
  | escape _ ih =>
      rw [List.cons_append, List.cons_append, stringBody, if_neg hquote.symm, if_pos rfl]
      simp only [ih]
      rfl

end Token

end FlowExpr
