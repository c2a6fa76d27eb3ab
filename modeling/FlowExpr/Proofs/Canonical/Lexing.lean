import FlowExpr.Proofs.Canonical.Lemmas
import FlowExpr.Proofs.Extent
import Mathlib.Data.List.TakeWhile

namespace FlowExpr.Token

open FlowExpr.Path (IsKey escapeKeyChar isPlainName restText)
open Text (Cursor)

variable {inside : Cursor → Except LexError (List Token)} {d : Delimiters} {body rest : List Char}
  {segment : Segment} {segments : Path} {offset : Nat}

-- A bracket ends an identifier, and so does the end of the text.
theorem identifierRun_append {run : List Char} (h : ∀ c ∈ run, isIdentifierChar c = true)
    (hrest : ∀ c ∈ rest.head?, c = '[') : identifierRun (run ++ rest) = (run, rest) := by
  have hbrace : isIdentifierChar '{' = false := by decide +kernel
  have hbracket : isIdentifierChar '[' = false := by decide +kernel
  induction run with
  | nil =>
      cases rest with
      | nil => rfl
      | cons c more =>
          rw [List.nil_append, hrest c rfl, identifierRun, hbracket, Bool.false_and]
          rfl
  | cons c more ih =>
      have hmore := ih fun x hx => h x (List.mem_cons_of_mem c hx)
      have hopens : opensReference (c :: (more ++ rest)) = false := by
        rw [Bool.eq_false_iff]
        intro hopens
        obtain ⟨after, heq⟩ := exists_of_opensReference hopens
        have hnext : more ++ rest = '{' :: after := (List.cons.inj heq).2
        cases more with
        | nil =>
            have hhead := hrest '{' (by simpa using congrArg List.head? hnext)
            simp at hhead
        | cons x later =>
            have hx : x = '{' := (List.cons.inj hnext).1
            have hfalse := h x (by simp)
            rw [hx, hbrace] at hfalse
            simp at hfalse
      rw [List.cons_append, identifierRun, h c (by simp), hopens, hmore]
      rfl

-- A word is one token, if nothing follows it but a bracket.
theorem nextWith_word {x : Char} {more : List Char} (h : IsWord (x :: more))
    (hrest : ∀ c ∈ rest.head?, c = '[') :
    nextWith inside ⟨x :: (more ++ rest), offset⟩ =
      ⟨.ok (some (.plain .identifier (String.ofList (x :: more)))),
        ⟨rest, offset + (x :: more).length⟩⟩ := by
  have hrun : identifierRun (x :: (more ++ rest)) = (x :: more, rest) :=
    identifierRun_append h.1 hrest
  have hx : isIdentifierChar x = true := h.1 x (by simp)
  obtain ⟨hdigit, hdollar, hdot⟩ := h.2 x more rfl
  have hopens := opensReference_of_ne hdollar (more ++ rest)
  have hdots : "...".toList.isPrefixOf (x :: (more ++ rest)) = false := by
    by_cases hx : x = '.'
    · obtain ⟨next, later, rfl, hnext⟩ := hdot hx
      have hpoints : "...".toList = ['.', '.', '.'] := rfl
      simp [hpoints, List.isPrefixOf, Ne.symm hnext]
    · exact isPrefixOf_dots_of_ne hx _
  rw [nextWith_of_not_isBlank (isBlank_of_isIdentifierChar hx),
    readToken_of_not_mem (not_mem_startMarks hx) hopens hdots,
    if_neg (Bool.eq_false_iff.mp hdigit), if_pos hx, hrun]
  rfl

theorem IsWord.nil : IsWord [] :=
  ⟨by simp, by simp⟩

theorem isDigit_of_isNameStart {c : Char} (h : Text.isNameStart c = true) : c.isDigit = false := by
  have hcodes : ∀ n ∈ List.range' 48 10, Text.inRanges Text.alphabeticRanges n = false ∧
      n ≠ '_'.toNat ∧ n ≠ '$'.toNat := by
    decide +kernel
  rw [Bool.eq_false_iff]
  intro hdigit
  have hbounds : 48 ≤ c.toNat ∧ c.toNat ≤ 57 := Char.isDigit_iff_toNat.mp hdigit
  have hmem : c.toNat ∈ List.range' 48 10 := by
    simp only [List.mem_range'_1]
    omega
  obtain ⟨halphabetic, hline, hdollar⟩ := hcodes c.toNat hmem
  have hline' : c ≠ '_' := fun heq => hline (congrArg Char.toNat heq)
  have hdollar' : c ≠ '$' := fun heq => hdollar (congrArg Char.toNat heq)
  simp [Text.isNameStart, Text.isAlphabetic, halphabetic, hline', hdollar'] at h

theorem isIdentifierChar_of_isPlainName {name : List Char} (h : isPlainName name = true) :
    ∀ c ∈ name, isIdentifierChar c = true := by
  intro c hc
  rw [isIdentifierChar, Path.isNameChar_of_isPlainName h c hc, Bool.or_true]

theorem ne_dot_of_isNameStart {c : Char} (h : Text.isNameStart c = true) : c ≠ '.' := by
  have hdot : Text.isNameStart '.' = false := by decide +kernel
  rintro rfl
  simp [hdot] at h

-- A plain name that does not start with a dollar sign is a word.
theorem IsWord.of_isPlainName {name : List Char} (h : isPlainName name = true)
    (hdollar : name.head? ≠ some '$') : IsWord name := by
  refine ⟨isIdentifierChar_of_isPlainName h, ?_⟩
  rintro c more rfl
  obtain ⟨first, _, heq, hstart⟩ := Path.exists_of_isPlainName h
  obtain rfl : c = first := (List.cons.inj heq).1
  refine ⟨isDigit_of_isNameStart hstart, by simpa using hdollar, ?_⟩
  exact fun hdot => absurd hdot (ne_dot_of_isNameStart hstart)

-- A plain name behind a dot makes a word longer, or starts one.
theorem IsWord.append_name {run name : List Char} (hrun : IsWord run)
    (hname : isPlainName name = true) : IsWord (run ++ '.' :: name) := by
  have hchars := isIdentifierChar_of_isPlainName hname
  refine ⟨?_, ?_⟩
  · intro c hc
    rcases List.mem_append.mp hc with hc | hc
    · exact hrun.1 c hc
    · rcases List.mem_cons.mp hc with rfl | hc
      · rfl
      · exact hchars c hc
  · intro c more heq
    cases run with
    | nil =>
        obtain ⟨rfl, rfl⟩ := List.cons.inj heq
        obtain ⟨first, later, rfl, hstart⟩ := Path.exists_of_isPlainName hname
        exact ⟨rfl, by decide, fun _ => ⟨first, later, rfl, ne_dot_of_isNameStart hstart⟩⟩
    | cons x tail =>
        obtain ⟨rfl, rfl⟩ := List.cons.inj heq
        obtain ⟨hdigit, hdollar, hdot⟩ := hrun.2 x tail rfl
        refine ⟨hdigit, hdollar, fun hx => ?_⟩
        obtain ⟨next, later, rfl, hnext⟩ := hdot hx
        exact ⟨next, later ++ '.' :: name, rfl, hnext⟩

-- What stands in the brackets of a segment is skipped.
theorem skips_key (h : IsKey segment body) (hd : d.IsProper) (hquote : '"' ∈ d.quotes)
    (hdigits : ∀ c : Char, c.isDigit = true → IsPlain d c) : Skips d none body := by
  cases h with
  | quoted name => exact (Skips.of_isQuoted (Path.isQuoted_escaped name.toList)).quoted hd hquote
  | index i =>
      exact Skips.of_plain fun c hc => hdigits c (Text.isDigit_of_mem_toDigits c hc)

theorem stringBody_escaped (key rest : List Char) :
    stringBody '"' (key.flatMap escapeKeyChar ++ '"' :: rest) =
      some (key, key.flatMap escapeKeyChar ++ ['"'], rest) := by
  rw [stringBody_of_isQuoted (by decide) (Path.isQuoted_escaped key),
    Path.decode_escaped rfl rfl]

theorem numberRun_digits {digits : List Char} (h : ∀ c ∈ digits, c.isDigit = true) :
    numberRun digits = (digits, []) := by
  have hsplit : Decimal.splitDigits digits = (digits, []) := by
    rw [Decimal.splitDigits, List.takeWhile_eq_self_iff.mpr h, List.dropWhile_eq_nil_iff.mpr h]
  rw [numberRun, hsplit]

-- Digits alone are one number.
theorem readToken_digits {x : Char} {more : List Char}
    (h : ∀ c ∈ x :: more, c.isDigit = true) :
    readToken inside ⟨x :: more, offset⟩ x more =
      ⟨.ok (.plain .number (String.ofList (x :: more))), ⟨[], offset + (x :: more).length⟩⟩ := by
  have hx : x.isDigit = true := h x (by simp)
  have hmarks : ('$' :: '.' :: startMarks).any Char.isDigit = false := by decide
  have hnot := Text.not_mem_of_kind hmarks hx
  rw [List.mem_cons, List.mem_cons, not_or, not_or] at hnot
  obtain ⟨hdollar, hdot, hstart⟩ := hnot
  have hdots := isPrefixOf_dots_of_ne hdot more
  rw [readToken_of_not_mem hstart (opensReference_of_ne hdollar more) hdots, if_pos hx,
    numberRun_digits h]
  rfl

theorem readAll_single {x : Char} {t : Token} {place : Nat} (hx : Text.isBlank x = false)
    (h : readToken inside ⟨x :: rest, offset⟩ x rest = ⟨.ok t, ⟨[], place⟩⟩) :
    readAll inside ⟨x :: rest, offset⟩ = .ok [t] := by
  have hnext : nextWith inside ⟨x :: rest, offset⟩ = ⟨.ok (some t), ⟨[], place⟩⟩ := by
    rw [nextWith_of_not_isBlank hx, h]
    rfl
  rw [readAll_some hnext, readAll_end]
  rfl

-- A segment in brackets is one token there: a string or a number.
theorem isAccepted_key (h : IsKey segment body) (levels : Nat) : IsAccepted levels body := by
  intro offset
  obtain ⟨inside, hlex⟩ := exists_readAll_eq_lexWithin levels
  rw [hlex]
  cases h with
  | quoted name =>
      have hread : readString '"' ⟨'"' :: (name.toList.flatMap escapeKeyChar ++ ['"']), offset⟩ =
          ⟨.ok (.text .string (String.ofList ('"' :: (name.toList.flatMap escapeKeyChar ++ ['"'])))
            (String.ofList name.toList)), ⟨[], _⟩⟩ :=
        readString_eq_ok_iff.mpr ⟨_, _, _, stringBody_escaped name.toList [], rfl, rfl⟩
      exact ⟨_, readAll_single rfl hread, rfl⟩
  | index i =>
      have hdigits : ∀ c ∈ Nat.toDigits 10 i.toNat, c.isDigit = true :=
        Text.isDigit_of_mem_toDigits
      cases htext : Nat.toDigits 10 i.toNat with
      | nil => exact absurd htext Nat.toDigits_ne_nil
      | cons x more =>
          rw [htext] at hdigits
          exact ⟨_, readAll_single (Text.isBlank_of_isDigit (hdigits x (by simp)))
            (readToken_digits hdigits), rfl⟩

-- A word in front of what starts with a bracket adds one identifier.
theorem IsAccepted.word {levels : Nat} {run : List Char} (h : IsAccepted levels rest)
    (hrun : IsWord run) (hrest : ∀ c ∈ rest.head?, c = '[') : IsAccepted levels (run ++ rest) := by
  intro offset
  cases run with
  | nil => exact h offset
  | cons x more =>
      obtain ⟨inside, hread⟩ := exists_readAll_eq_lexWithin levels
      obtain ⟨tokens, hlex, hcheck⟩ := h (offset + (x :: more).length)
      have hdollar : (String.ofList (x :: more)).toList.head? ≠ some '$' := by
        simpa using (hrun.2 x more rfl).2.1
      refine ⟨.plain .identifier (String.ofList (x :: more)) :: tokens, ?_, ?_⟩
      · rw [hread] at hlex ⊢
        rw [List.cons_append, readAll_some (nextWith_word hrun hrest), hlex]
        rfl
      · rw [checkRun_identifier hdollar, hcheck]

-- A segment in its brackets adds one array.
theorem IsAccepted.key {levels : Nat} (h : IsAccepted (levels + 1) rest)
    (hkey : IsKey segment body) : IsAccepted (levels + 1) ('[' :: (body ++ ']' :: rest)) := by
  intro offset
  obtain ⟨children, hchildren, hinner⟩ := isAccepted_key hkey levels (offset + 1)
  obtain ⟨tokens, hlex, hcheck⟩ := h (offset + 1 + (body ++ [']']).length)
  have hquote : '"' ∈ arrayDelimiters.quotes := by decide
  have hskips : Skips arrayDelimiters none body := by
    apply skips_key hkey isProper_array hquote
    exact fun c => isPlain_of_kind (by decide)
  have hnext := nextWith_enclosed isProper_array rfl readToken_bracket hskips hchildren rest
  have hread : lexWithin (levels + 1) ⟨'[' :: (body ++ ']' :: rest), offset⟩ =
      .ok (.group .array (String.ofList ('[' :: body ++ [']'])) children :: tokens) := by
    rw [lexWithin] at hlex ⊢
    apply (readAll_some hnext).trans
    exact Outcome.map_eq_ok_iff.mpr ⟨tokens, hlex, rfl⟩
  refine ⟨_, hread, ?_⟩
  rw [checkRun_group rfl hinner, hcheck]

-- The text behind a name, or behind a bracket, is read as identifiers and brackets. Names that
-- follow one another are one identifier, so the induction carries the part of it that was read.
theorem isAccepted_restText (levels : Nat) (h : ∀ key, Segment.computed key ∉ segments)
    {run : List Char} (hrun : IsWord run) :
    IsAccepted (levels + 1) (run ++ restText segments) := by
  induction segments generalizing run with
  | nil =>
      have hend : IsAccepted (levels + 1) (restText []) := fun _ => ⟨[], readAll_end, rfl⟩
      exact hend.word hrun (by simp [restText])
  | cons segment more ih =>
      obtain ⟨hsegment, hmore⟩ := Path.not_computed_of_cons h
      rw [Path.restText_cons]
      rcases Path.segmentText_cases hsegment with ⟨name, rfl, hname, htext⟩ | ⟨body, hkey, htext⟩
      · have hlonger := ih hmore (hrun.append_name hname)
        rw [htext]
        simpa using hlonger
      · have hlater := (ih hmore IsWord.nil).key hkey
        rw [htext]
        refine (?_ : IsAccepted (levels + 1) ('[' :: (body ++ [']']) ++ restText more)).word hrun ?_
        · simpa using hlater
        · simp

theorem skips_name {text : List Char} (h : isPlainName text = true) :
    Skips referenceDelimiters none text := by
  apply Skips.of_plain
  intro c hc
  have hmarks : (referenceDelimiters.opening :: referenceDelimiters.closing ::
      referenceDelimiters.quotes).any Text.isNameChar = false := by
    decide +kernel
  exact isPlain_of_kind hmarks (Path.isNameChar_of_isPlainName h c hc)

-- Nothing in a canonical path ends the reference that it stands in.
theorem skips_restText (h : ∀ key, Segment.computed key ∉ segments) :
    Skips referenceDelimiters none (restText segments) := by
  induction segments with
  | nil => exact .nil
  | cons segment more ih =>
      obtain ⟨hsegment, hkeys⟩ := Path.not_computed_of_cons h
      have hmore := ih hkeys
      rw [Path.restText_cons]
      refine Skips.append ?_ hmore
      rcases Path.segmentText_cases hsegment with ⟨name, rfl, hname, htext⟩ | ⟨body, hkey, htext⟩
      · rw [htext]
        exact (Skips.plain (by decide)).append (skips_name hname)
      · have hbody : Skips referenceDelimiters none body := by
          apply skips_key hkey isProper_reference (by decide)
          exact fun c => isPlain_of_kind (by decide)
        rw [htext]
        exact (Skips.plain (by decide)).append (hbody.append (Skips.plain (by decide)))

-- A canonical path between its marks is one reference to that path.
theorem exists_read_format {name : String} (hname : isPlainName name.toList = true)
    (hdollar : name.toList.head? ≠ some '$') (h : ∀ key, Segment.computed key ∉ segments) :
    let path := Path.format (.property name :: segments)
    ∃ children, read ("$\x7b" ++ path ++ "\x7d") = .ok [.group .reference path children] := by
  intro path
  have hpath : path.toList = name.toList ++ restText segments := Path.toList_format hname segments
  have htext : ("$\x7b" ++ path ++ "\x7d").toList = '$' :: '{' :: (path.toList ++ ['}']) := by
    simp
  have htrim : Text.trim path.toList = path.toList := Path.trim_format _
  have hne : Text.trim path.toList ≠ [] := by
    obtain ⟨first, more, heq, _⟩ := Path.exists_of_isPlainName hname
    rw [htrim, hpath, heq, List.cons_append]
    simp
  have hskips : Skips referenceDelimiters none path.toList := by
    rw [hpath]
    exact (skips_name hname).append (skips_restText h)
  have hword := IsWord.of_isPlainName hname hdollar
  obtain ⟨children, hchildren, hinner⟩ := isAccepted_restText 254 h hword (0 + 2)
  rw [← hpath] at hchildren
  have hnext := nextWith_reference hskips hne hchildren []
  rw [htrim, String.ofList_toList] at hnext
  refine ⟨children, read_eq_ok_iff.mpr ⟨?_, ?_, ?_⟩⟩
  · rw [htext]
    rfl
  · rw [lex, htext]
    apply (readAll_some hnext).trans
    rw [readAll_end]
    rfl
  · rw [checkRun_group rfl hinner]
    rfl

end FlowExpr.Token
