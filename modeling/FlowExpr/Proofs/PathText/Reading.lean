import FlowExpr.Outcome
import FlowExpr.Proofs.PathText
import FlowExpr.Proofs.Segments

namespace FlowExpr.Path

open Text (Cursor IsQuoted)

variable {text inner rest body : List Char} {segment : Segment} {segments : Path}
  {quote : Char} {offset opening : Nat}

theorem isProper_key : keyDelimiters.IsProper := by
  constructor <;> decide

theorem mem_keyQuotes_iff {c : Char} : c ∈ keyDelimiters.quotes ↔ c = '"' ∨ c = '\'' := by
  simp [keyDelimiters]

-- The extent of a text in brackets, where the closing bracket is left to read.
def bodyOf : Token.Extent → Except (Option Nat) (List Char × List Char)
  | .closed inner rest => .ok (inner, ']' :: rest)
  | .openQuote place => .error (some place)
  | .unclosed => .error none

theorem bodyOf_cons (c : Char) (e : Token.Extent) :
    bodyOf (e.cons c) = (bodyOf e).map fun (inner, after) => (c :: inner, after) := by
  cases e <;> rfl

-- A bracket is closed where the lexer's scan would find its end.
theorem bracketBody_eq {depth position : Nat} {quote : Option (Char × Nat)} :
    bracketBody depth quote position text =
      bodyOf (Token.extent keyDelimiters depth quote position text) := by
  have hopening : keyDelimiters.opening = '[' := rfl
  have hclosing : keyDelimiters.closing = ']' := rfl
  fun_induction bracketBody depth quote position text with
  | case1 =>
      rw [Token.extent.eq_def]
      dsimp only
      split <;> rfl
  | case2 => simp [Token.extent, bodyOf]
  | case3 depth position q start e rest ih =>
      rw [ih]
      simp only [Token.extent, bodyOf_cons, if_true]
      cases bodyOf (Token.extent keyDelimiters depth (some (q, start)) (position + 2) rest) <;> rfl
  | case4 depth position c rest q start hescape ih =>
      rw [ih, Token.extent.eq_def _ _ (some (q, start)) position]
      simp [bodyOf_cons, hescape]
  | case5 =>
      rename_i hquote ih
      rw [ih]
      simp [Token.extent, bodyOf_cons, mem_keyQuotes_iff.mpr hquote]
  | case6 =>
      rename_i ih
      rw [ih]
      simp [Token.extent, bodyOf_cons, mem_keyQuotes_iff, hopening]
  | case7 => simp [Token.extent, bodyOf, mem_keyQuotes_iff, hopening, hclosing]
  | case8 =>
      rename_i ih
      rw [ih]
      simp [Token.extent, bodyOf_cons, mem_keyQuotes_iff, hopening, hclosing]
  | case9 =>
      rename_i hquote hbracket hend ih
      rw [ih]
      simp [Token.extent, bodyOf_cons, mem_keyQuotes_iff, hopening, hclosing, hquote, hbracket,
        hend]

theorem ofBracketText_eq_ok_iff {start : Nat} :
    ofBracketText opening start inner = .ok segment ↔ IsBare (Text.trim inner) segment := by
  have hnil : ([] : List Char).all Char.isDigit = true := rfl
  unfold ofBracketText
  dsimp only
  constructor
  · intro h
    split at h
    · simp at h
    rename_i hne
    split at h
    · rename_i hall
      split at h
      · rename_i i hread
        obtain rfl := Except.ok.inj h
        exact .index (by simp_all [Text.isDigits]) hread
      · simp at h
    · rename_i hall
      obtain rfl := Except.ok.inj h
      exact .computed (by simpa using hall)
  · intro h
    cases h with
    | index hdigits hread =>
        simp only [Text.isDigits, Bool.and_eq_true, Bool.not_eq_true'] at hdigits
        simp [hdigits.1, hdigits.2, hread]
    | computed hdigits =>
        have hne : (Text.trim inner).isEmpty = false := by
          cases htrim : Text.trim inner with
          | nil => simp [htrim] at hdigits
          | cons => rfl
        simp [hne, hdigits]

-- What is not in quotes is read up to the closing bracket.
theorem readUnquoted_eq_ok_iff :
    (∃ place, readUnquoted opening ⟨text, offset⟩ = .ok (segment, ⟨rest, place⟩)) ↔
      ∃ inner, Token.Skips keyDelimiters none inner ∧ text = inner ++ ']' :: rest ∧
        IsBare (Text.trim inner) segment := by
  have hextent (inner after : List Char) :
      Token.extent keyDelimiters 0 none offset text = .closed inner after ↔
        text = inner ++ ']' :: after ∧ Token.Skips keyDelimiters none inner :=
    Token.extent_eq_closed_iff isProper_key
  unfold readUnquoted
  dsimp only
  rw [bracketBody_eq]
  constructor
  · rintro ⟨place, h⟩
    cases he : Token.extent keyDelimiters 0 none offset text with
    | openQuote _ | unclosed => simp [he, bodyOf] at h
    | closed inner after =>
        simp only [he, bodyOf] at h
        obtain ⟨found, hfound, hpair⟩ := Outcome.map_eq_ok_iff.mp h
        simp only [Cursor.past, Cursor.advance, List.drop_one, List.tail_cons, Prod.mk.injEq,
          Cursor.mk.injEq] at hpair
        obtain ⟨rfl, rfl, -⟩ := hpair
        obtain ⟨htext, hinner⟩ := (hextent inner after).mp he
        exact ⟨inner, hinner, htext, ofBracketText_eq_ok_iff.mp hfound⟩
  · rintro ⟨inner, hinner, htext, hsegment⟩
    rw [(hextent inner rest).mpr ⟨htext, hinner⟩]
    simp only [bodyOf, ofBracketText_eq_ok_iff.mpr hsegment]
    exact ⟨_, rfl⟩

-- A name in quotes is read up to the closing bracket, which only blanks may stand before.
theorem readQuoted_eq_ok_iff (hquote : quote ≠ '\\') :
    (∃ place, readQuoted quote ⟨quote :: text, offset⟩ = .ok (segment, ⟨rest, place⟩)) ↔
      ∃ inner behind, IsQuoted quote inner ∧ Text.isBlankText behind = true ∧
        text = inner ++ quote :: (behind ++ ']' :: rest) ∧
        segment = .property (String.ofList (Text.decode id inner)) := by
  simp only [readQuoted, List.drop_one, List.tail_cons]
  constructor
  · rintro ⟨place, h⟩
    split at h
    · simp at h
    rename_i key written after hkey
    obtain ⟨inner, hinner, rfl, rfl, rfl⟩ := exists_of_quotedKey hkey
    split at h
    · rename_i tail hdrop
      simp only [Cursor.skipWhile, Cursor.past] at hdrop
      simp only [Cursor.skipWhile, Cursor.past, Cursor.advance, hdrop, List.drop_one,
        List.tail_cons, Except.ok.injEq, Prod.mk.injEq, Cursor.mk.injEq] at h
      obtain ⟨rfl, rfl, -⟩ := h
      refine ⟨inner, after.takeWhile Text.isBlank, hinner, Text.isBlankText_takeWhile after, ?_,
        rfl⟩
      rw [← hdrop, List.takeWhile_append_dropWhile]
    · simp at h
  · rintro ⟨inner, behind, hinner, hbehind, rfl, rfl⟩
    have hkey : quotedKey quote (inner ++ quote :: (behind ++ ']' :: rest)) =
        some (Text.decode id inner, inner ++ [quote], behind ++ ']' :: rest) :=
      quotedKey_of_isQuoted hquote hinner _
    have hdrop : (behind ++ ']' :: rest).dropWhile Text.isBlank = ']' :: rest :=
      Text.trimStart_append hbehind (']' :: rest)
    simp only [hkey, Cursor.past, Cursor.skipWhile, hdrop, Cursor.advance]
    exact ⟨_, rfl⟩

variable {before more : List Char}

theorem skipWhile_blank (hbefore : Text.isBlankText before = true)
    (hmore : ∀ c ∈ more.head?, Text.isBlank c = false) :
    (Cursor.mk (before ++ more) offset).skipWhile Text.isBlank =
      ⟨more, offset + before.length⟩ := by
  have hall : ∀ c ∈ before, Text.isBlank c = true := List.all_eq_true.mp hbefore
  rw [Cursor.skipWhile, List.dropWhile_append_of_pos hall, List.takeWhile_append_of_pos hall]
  cases more with
  | nil => simp
  | cons c rest => simp [hmore c rfl]

theorem exists_blank_append (text : List Char) : ∃ before more, text = before ++ more ∧
    Text.isBlankText before = true ∧ ∀ c ∈ more.head?, Text.isBlank c = false := by
  refine ⟨_, _, List.takeWhile_append_dropWhile.symm, Text.isBlankText_takeWhile text, ?_⟩
  intro c hc
  have hend := List.head?_dropWhile_not Text.isBlank text
  rw [Option.mem_def.mp hc] at hend
  exact hend

-- Only a text without blanks in front starts with what follows them.
theorem head?_ne_bracket (hbefore : Text.isBlankText before = true)
    (hmore : before = [] → more.head? ≠ some '[') : (before ++ more).head? ≠ some '[' := by
  cases before with
  | nil => exact hmore rfl
  | cons c rest =>
      have hc : Text.isBlank c = true := List.all_eq_true.mp hbefore c (by simp)
      have hbracket : Text.isBlank '[' = false := rfl
      rintro ⟨⟩
      simp [hbracket] at hc

-- Behind the blanks, a quote decides how the bracket is read.
theorem readBracket_quoted (hbefore : Text.isBlankText before = true)
    (hquote : quote ∈ keyDelimiters.quotes) :
    readBracket ⟨'[' :: (before ++ quote :: more), offset⟩ =
      readQuoted quote ⟨quote :: more, offset + 1 + before.length⟩ := by
  have hblank : ∀ c ∈ (quote :: more).head?, Text.isBlank c = false := by
    rcases mem_keyQuotes_iff.mp hquote with rfl | rfl <;> simp <;> rfl
  have hhead : (before ++ quote :: more).head? ≠ some '[' := by
    apply head?_ne_bracket hbefore
    rcases mem_keyQuotes_iff.mp hquote with rfl | rfl <;> simp
  simp only [readBracket, Cursor.advance, List.drop_one, List.tail_cons, if_neg hhead,
    skipWhile_blank hbefore hblank]
  rcases mem_keyQuotes_iff.mp hquote with rfl | rfl <;> rfl

theorem readBracket_bare (hbefore : Text.isBlankText before = true)
    (hmore : StartsBare before more) :
    readBracket ⟨'[' :: (before ++ more), offset⟩ =
      readUnquoted offset ⟨more, offset + 1 + before.length⟩ := by
  have hhead : (before ++ more).head? ≠ some '[' :=
    head?_ne_bracket hbefore fun hnil hbracket => (hmore '[' hbracket).2.2 hnil rfl
  have hblank : ∀ c ∈ more.head?, Text.isBlank c = false := fun c hc => (hmore c hc).1
  simp only [readBracket, Cursor.advance, List.drop_one, List.tail_cons, if_neg hhead,
    skipWhile_blank hbefore hblank]
  split
  · exact absurd (by simp [keyDelimiters]) (hmore '"' (by simp_all)).2.1
  · exact absurd (by simp [keyDelimiters]) (hmore '\'' (by simp_all)).2.1
  · rfl

-- A bracket is read up to the one that closes it.
theorem readBracket_eq_ok_iff :
    (∃ place, readBracket ⟨'[' :: text, offset⟩ = .ok (segment, ⟨rest, place⟩)) ↔
      ∃ body, IsBracketed body segment ∧ text = body ++ ']' :: rest := by
  constructor
  · rintro ⟨place, h⟩
    obtain ⟨before, more, rfl, hbefore, hmore⟩ := exists_blank_append text
    by_cases hquoted : ∃ quote ∈ keyDelimiters.quotes, more.head? = some quote
    · obtain ⟨quote, hquote, hhead⟩ := hquoted
      obtain ⟨tail, rfl⟩ := List.head?_eq_some_iff.mp hhead
      rw [readBracket_quoted hbefore hquote] at h
      have hescape : quote ≠ '\\' := fun heq => isProper_key.escape (heq ▸ hquote)
      obtain ⟨inner, behind, hinner, hbehind, rfl, rfl⟩ := (readQuoted_eq_ok_iff hescape).mp ⟨_, h⟩
      exact ⟨_, .quoted hbefore hquote hinner hbehind, by simp⟩
    by_cases hdouble : (before ++ more).head? = some '['
    · simp [readBracket, Cursor.advance, hdouble] at h
    have hstart : StartsBare before more := by
      intro c hc
      refine ⟨hmore c hc, fun hmem => hquoted ⟨c, hmem, hc⟩, ?_⟩
      rintro rfl rfl
      exact hdouble hc
    rw [readBracket_bare hbefore hstart] at h
    obtain ⟨inner, hinner, rfl, hsegment⟩ := readUnquoted_eq_ok_iff.mp ⟨_, h⟩
    have hinside : StartsBare before inner := by
      intro c hc
      apply hstart c
      cases inner with
      | nil => simp at hc
      | cons => exact hc
    exact ⟨_, .bare hbefore hinside hinner hsegment, by simp⟩
  · rintro ⟨body, hbody, rfl⟩
    cases hbody with
    | @quoted before inner behind quote hbefore hquote hinner hbehind =>
        have hescape : quote ≠ '\\' := fun heq => isProper_key.escape (heq ▸ hquote)
        have htext : (before ++ quote :: (inner ++ quote :: behind)) ++ ']' :: rest =
            before ++ quote :: (inner ++ quote :: (behind ++ ']' :: rest)) := by
          simp
        rw [htext, readBracket_quoted hbefore hquote]
        exact (readQuoted_eq_ok_iff hescape).mpr ⟨inner, behind, hinner, hbehind, rfl, rfl⟩
    | @bare before inner _ hbefore hstart hinner hsegment =>
        have hmore : StartsBare before (inner ++ ']' :: rest) := by
          cases inner with
          | nil =>
              rintro c ⟨⟩
              exact ⟨rfl, by decide, by simp⟩
          | cons => exact hstart
        rw [List.append_assoc, readBracket_bare hbefore hmore]
        exact readUnquoted_eq_ok_iff.mpr ⟨inner, hinner, rfl, hsegment⟩

-- A name is read up to what ends one.
theorem readName_eq_ok_iff :
    (∃ place, readName ⟨text, offset⟩ = .ok (segment, ⟨rest, place⟩)) ↔
      ∃ name, IsNameText name ∧ text = name ++ rest ∧ (∀ c ∈ rest.head?, isNameEnd c = true) ∧
        segment = .property (String.ofList (Text.trim name)) := by
  simp only [readName, Cursor.skipWhile]
  constructor
  · rintro ⟨place, h⟩
    split at h
    · simp at h
    rename_i hne
    simp only [Except.ok.injEq, Prod.mk.injEq, Cursor.mk.injEq] at h
    obtain ⟨rfl, rfl, -⟩ := h
    refine ⟨_, ⟨by simpa using hne, ?_⟩, List.takeWhile_append_dropWhile.symm, ?_, rfl⟩
    · intro c hc
      simpa using List.all_eq_true.mp List.all_takeWhile c hc
    · intro c hc
      have hend := List.head?_dropWhile_not (fun c => !isNameEnd c) text
      rw [Option.mem_def.mp hc] at hend
      simpa using hend
  · rintro ⟨name, ⟨hne, hname⟩, rfl, hrest, rfl⟩
    have hinside : ∀ c ∈ name, (!isNameEnd c) = true := by simpa using hname
    have hsplit : (name ++ rest).takeWhile (fun c => !isNameEnd c) = name ∧
        (name ++ rest).dropWhile (fun c => !isNameEnd c) = rest := by
      rw [List.takeWhile_append_of_pos hinside, List.dropWhile_append_of_pos hinside]
      cases rest with
      | nil => simp
      | cons c more => simp [hrest c rfl]
    simp only [hsplit.1, hsplit.2]
    simp [hne]

theorem SpellsRest.isNameEnd_head (h : SpellsRest text segments) :
    ∀ c ∈ text.head?, isNameEnd c = true := by
  cases h with
  | nil => simp
  | name | bracket =>
      rintro c ⟨⟩
      rfl

-- Whatever follows the text of segments, they are read first.
theorem SpellsRest.exists_readRest_append (h : SpellsRest text segments)
    (hrest : ∀ c ∈ rest.head?, isNameEnd c = true) (offset : Nat) :
    ∃ place, readRest ⟨text ++ rest, offset⟩ = (readRest ⟨rest, place⟩).map (segments ++ ·) := by
  have hmap {segment : Segment} {more : Path} (x : Except Place Path) :
      (x.map (more ++ ·)).map (segment :: ·) = x.map ((segment :: more) ++ ·) := by
    cases x <;> rfl
  induction h generalizing offset with
  | nil =>
      refine ⟨offset, ?_⟩
      cases h : readRest ⟨rest, offset⟩ <;> simp [h, Except.map]
  | @name name later segments hname hlater ih =>
      have hhead : ∀ c ∈ (later ++ rest).head?, isNameEnd c = true := by
        intro c hc
        cases later with
        | nil => exact hrest c hc
        | cons => exact hlater.isNameEnd_head c hc
      obtain ⟨next, hread⟩ := readName_eq_ok_iff.mpr ⟨name, hname, rfl, hhead, rfl⟩
      obtain ⟨place, hmore⟩ := ih next
      refine ⟨place, ?_⟩
      rw [List.cons_append, List.append_assoc, readRest_dot hread, hmore, hmap]
  | @bracket body later segment segments hbody hlater ih =>
      obtain ⟨next, hread⟩ := readBracket_eq_ok_iff.mpr ⟨body, hbody, rfl⟩
      obtain ⟨place, hmore⟩ := ih next
      refine ⟨place, ?_⟩
      rw [List.cons_append, List.append_assoc, List.cons_append, readRest_bracket rfl hread, hmore,
        hmap]

theorem readRest_eq_ok_iff :
    readRest ⟨text, offset⟩ = .ok segments ↔ SpellsRest text segments := by
  constructor
  · intro h
    generalize hc : Cursor.mk text offset = c at h
    fun_induction readRest c generalizing segments text offset with
    | case1 c hnil =>
        obtain rfl := hc
        obtain rfl : text = [] := hnil
        obtain rfl := Except.ok.inj h
        exact .nil
    | case2 | case4 | case6 | case7 => simp at h
    | case3 c tail segment after hread hdot ih =>
        obtain rfl := hc
        obtain rfl : text = '.' :: tail := hdot
        obtain ⟨more, hmore, rfl⟩ := Outcome.map_eq_ok_iff.mp h
        obtain ⟨name, hname, hname', -, rfl⟩ := readName_eq_ok_iff.mp ⟨after.offset, hread⟩
        obtain rfl : tail = name ++ after.rest := hname'
        exact .name hname (ih rfl hmore)
    | case5 c tail segment after hread hbracket _ ih =>
        obtain rfl := hc
        obtain rfl : text = '[' :: tail := hbracket
        obtain ⟨more, hmore, rfl⟩ := Outcome.map_eq_ok_iff.mp h
        obtain ⟨body, hbody, rfl⟩ := readBracket_eq_ok_iff.mp ⟨after.offset, hread⟩
        exact .bracket hbody (ih rfl hmore)
  · intro h
    have hnil : ∀ c ∈ ([] : List Char).head?, isNameEnd c = true := by simp
    obtain ⟨place, hread⟩ := h.exists_readRest_append hnil offset
    have hend : readRest ⟨[], place⟩ = .ok [] := readRest_nil rfl
    rw [List.append_nil, hend] at hread
    simpa [Except.map] using hread

theorem readSegments_bracket (text : List Char) (offset : Nat) :
    readSegments ⟨'[' :: text, offset⟩ = readRest ⟨'[' :: text, offset⟩ :=
  rfl

theorem readSegments_name {name : List Char} {after : Cursor} (hname : IsNameText name)
    (h : readName ⟨name ++ rest, offset⟩ = .ok (segment, after)) :
    readSegments ⟨name ++ rest, offset⟩ = (readRest after).map (segment :: ·) := by
  obtain ⟨hne, hchars⟩ := hname
  cases name with
  | nil => exact absurd rfl hne
  | cons c more =>
      have hc : c ≠ '[' := by
        rintro rfl
        exact absurd (hchars '[' (by simp)) (by decide)
      rw [readSegments]
      split
      · simp_all
      · simp_all
      · rw [h]

theorem readSegments_eq_ok_iff :
    readSegments ⟨text, offset⟩ = .ok segments ↔ Spells text segments := by
  constructor
  · intro h
    unfold readSegments at h
    split at h
    · simp at h
    · rename_i tail htext
      obtain rfl : text = '[' :: tail := htext
      cases readRest_eq_ok_iff.mp h with
      | bracket hbody hrest => exact .bracket hbody hrest
    · split at h
      · simp at h
      · rename_i segment after hread
        obtain ⟨more, hmore, rfl⟩ := Outcome.map_eq_ok_iff.mp h
        obtain ⟨name, hname, rfl, -, rfl⟩ := readName_eq_ok_iff.mp ⟨after.offset, hread⟩
        exact .name hname (readRest_eq_ok_iff.mp hmore)
  · intro h
    cases h with
    | name hname hrest =>
      obtain ⟨place, hread⟩ := readName_eq_ok_iff.mpr ⟨_, hname, rfl, hrest.isNameEnd_head, rfl⟩
      rw [readSegments_name hname hread, readRest_eq_ok_iff.mpr hrest]
      rfl
    | bracket hbody hrest =>
      rw [readSegments_bracket]
      exact readRest_eq_ok_iff.mpr (.bracket hbody hrest)

-- A text is read as a path if and only if the path is spelled so.
theorem read_eq_ok_iff {path : String} :
    read path = .ok segments ↔ Spells path.toList segments := by
  have hread : readSegments ⟨path.toList, 0⟩ = .ok segments ↔ Spells path.toList segments :=
    readSegments_eq_ok_iff
  rw [← hread, read, Cursor.start]
  cases readSegments ⟨path.toList, 0⟩ <;> simp

end FlowExpr.Path
