import FlowExpr.Proofs.Canonical
import FlowExpr.Proofs.Digits
import FlowExpr.Proofs.PathText.Reading

namespace FlowExpr.Path

variable {name : List Char} {segment : Segment} {segments : Path}

theorem isNameChar_of_isNameStart {c : Char} (h : Text.isNameStart c = true) :
    Text.isNameChar c = true := by
  simp only [Text.isNameStart, Bool.or_eq_true] at h
  simp only [Text.isNameChar, Text.isAlphanumeric, Bool.or_eq_true]
  rcases h with h | h
  · exact .inl h
  · exact .inr (.inl h)

theorem isNameChar_of_isPlainName (h : isPlainName name = true) :
    ∀ c ∈ name, Text.isNameChar c = true := by
  cases name with
  | nil => simp
  | cons first more =>
      rw [isPlainName, Bool.and_eq_true] at h
      intro c hc
      rcases List.mem_cons.mp hc with rfl | hc
      · exact isNameChar_of_isNameStart h.1
      · exact List.all_eq_true.mp h.2 c hc

theorem isNameEnd_of_isNameChar {c : Char} (h : Text.isNameChar c = true) :
    isNameEnd c = false := by
  have hends : ['.', '[', ']'].any Text.isNameChar = false := by decide +kernel
  have hnot := Text.not_mem_of_kind hends h
  simpa [isNameEnd, and_assoc] using hnot

theorem trim_of_forall_isNameChar (h : ∀ c ∈ name, Text.isNameChar c = true) :
    Text.trim name = name := by
  apply Text.trim_eq_self
  · exact fun c hc => Text.isBlank_of_isNameChar (h c (List.mem_of_mem_head? hc))
  · exact fun c hc => Text.isBlank_of_isNameChar (h c (List.mem_of_getLast? hc))

theorem isNameText_of_isPlainName (h : isPlainName name = true) : IsNameText name := by
  have hchars := isNameChar_of_isPlainName h
  refine ⟨?_, fun c hc => isNameEnd_of_isNameChar (hchars c hc)⟩
  rw [trim_of_forall_isNameChar hchars]
  rintro rfl
  simp [isPlainName] at h

-- What is escaped for a key stays between its quotes, and is the key again.
theorem isQuoted_escaped (key : List Char) : Text.IsQuoted '"' (key.flatMap escapeKeyChar) := by
  induction key with
  | nil => exact .nil
  | cons c more ih =>
      rw [List.flatMap_cons, escapeKeyChar]
      by_cases hescape : c = '\\' ∨ c = '"'
      · rw [if_pos hescape]
        exact .escape ih
      · rw [if_neg hescape]
        rw [not_or] at hescape
        exact .char hescape.1 hescape.2 ih

theorem decode_escaped {meaning : Char → Char} (hescape : meaning '\\' = '\\')
    (hquote : meaning '"' = '"') (key : List Char) :
    Text.decode meaning (key.flatMap escapeKeyChar) = key := by
  induction key with
  | nil => rfl
  | cons c more ih =>
      rw [List.flatMap_cons, escapeKeyChar]
      by_cases hmark : c = '\\' ∨ c = '"'
      · have hmeaning : meaning c = c := by
          rcases hmark with rfl | rfl
          · exact hescape
          · exact hquote
        rw [if_pos hmark, List.cons_append, List.cons_append, List.nil_append, Text.decode, ih,
          hmeaning]
      · rw [if_neg hmark, List.cons_append, List.nil_append]
        rw [not_or] at hmark
        rw [Text.decode_cons_of_ne hmark.1, ih]

theorem trim_toDigits (n : Nat) : Text.trim (Nat.toDigits 10 n) = Nat.toDigits 10 n :=
  Text.trim_of_not_blank fun c hc => Text.isBlank_of_isDigit (Text.isDigit_of_mem_toDigits c hc)

-- The digits of an index stand for that index.
theorem isBare_toDigits (i : UInt64) : IsBare (Nat.toDigits 10 i.toNat) (.index i) := by
  exact .index (Text.isDigits_toDigits i.toNat) (Text.readUnsigned?_toDigits i)

-- What a segment has in its brackets may stand there, if a computed key may.
theorem isBracketed_keyText (h : ∀ key, segment = .computed key → IsBracketed key.toList segment) :
    IsBracketed (keyText segment) segment := by
  cases segment with
  | property name =>
      have hquoted : IsBracketed ([] ++ '"' :: (name.toList.flatMap escapeKeyChar ++ '"' :: []))
          (.property (String.ofList (Text.decode id (name.toList.flatMap escapeKeyChar)))) :=
        .quoted rfl (by decide) (isQuoted_escaped name.toList) rfl
      rw [decode_escaped rfl rfl, String.ofList_toList] at hquoted
      simpa [keyText, quoteKey] using hquoted
  | index i =>
      have hdigits : ∀ c ∈ Nat.toDigits 10 i.toNat, c.isDigit = true := Text.isDigit_of_mem_toDigits
      have hmarks : (keyDelimiters.opening :: keyDelimiters.closing ::
          keyDelimiters.quotes).any Char.isDigit = false := by
        decide
      have hplain : ∀ c ∈ Nat.toDigits 10 i.toNat, Token.IsPlain keyDelimiters c :=
        fun c hc => Token.isPlain_of_kind hmarks (hdigits c hc)
      have hstart : StartsBare [] (Nat.toDigits 10 i.toNat) := by
        intro c hc
        have hmem := List.mem_of_mem_head? hc
        exact ⟨Text.isBlank_of_isDigit (hdigits c hmem), (hplain c hmem).1, fun _ => (hplain c hmem).2.1⟩
      have hbare := isBare_toDigits i
      rw [← trim_toDigits] at hbare
      exact .bare rfl hstart (Token.Skips.of_plain hplain) hbare
  | computed key => exact h key rfl

-- Only a plain name is not written in brackets.
theorem segmentText_shape (segment : Segment) :
    (∃ name, segment = .property name ∧ isPlainName name.toList = true) ∨
      ∀ first, (segmentText first segment).toList = '[' :: (keyText segment ++ [']']) := by
  cases segment with
  | property name =>
      by_cases hname : isPlainName name.toList = true
      · exact .inl ⟨name, rfl, hname⟩
      · exact .inr fun first => by simp [segmentText, hname, keyText]
  | index i => exact .inr fun first => by simp [segmentText, keyText]
  | computed key => exact .inr fun first => by simp [segmentText, keyText]

theorem segmentText_plain {name : String} (h : isPlainName name.toList = true) :
    (segmentText true (.property name)).toList = name.toList ∧
      (segmentText false (.property name)).toList = '.' :: name.toList := by
  simp [segmentText, h]

-- How a segment is written behind others.
theorem segmentText_cases (h : ∀ key, segment ≠ .computed key) :
    (∃ name, segment = .property name ∧ isPlainName name.toList = true ∧
      (segmentText false segment).toList = '.' :: name.toList) ∨
    ∃ body, IsKey segment body ∧ (segmentText false segment).toList = '[' :: (body ++ [']']) := by
  rcases segmentText_shape segment with ⟨name, rfl, hname⟩ | htext
  · exact .inl ⟨name, rfl, hname, (segmentText_plain hname).2⟩
  · right
    refine ⟨keyText segment, ?_, htext false⟩
    cases segment with
    | property name =>
        have hquoted := IsKey.quoted name
        simpa [keyText, quoteKey] using hquoted
    | index i => exact .index i
    | computed key => exact absurd rfl (h key)

theorem restText_cons (segment : Segment) (segments : Path) :
    restText (segment :: segments) = (segmentText false segment).toList ++ restText segments :=
  List.flatMap_cons

theorem not_computed_of_cons (h : ∀ key, Segment.computed key ∉ segment :: segments) :
    (∀ key, segment ≠ .computed key) ∧ ∀ key, Segment.computed key ∉ segments := by
  constructor
  · intro key heq
    exact h key (by simp [heq])
  · intro key hmem
    exact h key (by simp [hmem])

-- What follows a segment ends a name.
theorem exists_restText_cons (segment : Segment) (segments : Path) :
    ∃ c rest, restText (segment :: segments) = c :: rest ∧ (c = '.' ∨ c = '[') := by
  rw [restText_cons]
  rcases segmentText_shape segment with ⟨name, rfl, hname⟩ | htext
  · exact ⟨_, _, by rw [(segmentText_plain hname).2, List.cons_append], .inl rfl⟩
  · exact ⟨_, _, by rw [htext, List.cons_append], .inr rfl⟩

theorem head_restText (segments : Path) : ∀ c ∈ (restText segments).head?, c = '.' ∨ c = '[' := by
  cases segments with
  | nil => simp [restText]
  | cons segment more =>
      obtain ⟨c, rest, htext, hc⟩ := exists_restText_cons segment more
      simpa [htext] using hc

-- Canonical segments are spelled as they should be.
theorem spellsRest_restText (h : ∀ segment ∈ segments, IsBracketed (keyText segment) segment) :
    SpellsRest (restText segments) segments := by
  induction segments with
  | nil => exact .nil
  | cons segment more ih =>
      rw [List.forall_mem_cons] at h
      have hmore := ih h.2
      rw [restText_cons]
      rcases segmentText_shape segment with ⟨name, rfl, hname⟩ | htext
      · have hrest := SpellsRest.name (isNameText_of_isPlainName hname) hmore
        rwa [trim_of_forall_isNameChar (isNameChar_of_isPlainName hname), String.ofList_toList,
          ← List.cons_append, ← (segmentText_plain hname).2] at hrest
      · have hrest := SpellsRest.bracket h.1 hmore
        rw [htext]
        simpa using hrest

theorem toList_format_cons (segment : Segment) (segments : Path) :
    (format (segment :: segments)).toList =
      (segmentText true segment).toList ++ restText segments := by
  simp [format, restText, String.toList_join, List.flatMap_map]

theorem toList_format {name : String} (hname : isPlainName name.toList = true)
    (segments : Path) :
    (format (.property name :: segments)).toList = name.toList ++ restText segments := by
  rw [toList_format_cons, (segmentText_plain hname).1]

-- The canonical text of a path is a text of that path.
theorem spells_format (hne : segments ≠ [])
    (h : ∀ segment ∈ segments, IsBracketed (keyText segment) segment) :
    Spells (format segments).toList segments := by
  cases segments with
  | nil => exact absurd rfl hne
  | cons segment more =>
      rw [List.forall_mem_cons] at h
      have hmore := spellsRest_restText h.2
      rw [toList_format_cons]
      rcases segmentText_shape segment with ⟨name, rfl, hname⟩ | htext
      · have hrest := Spells.name (isNameText_of_isPlainName hname) hmore
        rwa [trim_of_forall_isNameChar (isNameChar_of_isPlainName hname), String.ofList_toList,
          ← (segmentText_plain hname).1] at hrest
      · have hrest := Spells.bracket h.1 hmore
        rw [htext]
        simpa using hrest

theorem exists_of_isPlainName (h : isPlainName name = true) :
    ∃ c more, name = c :: more ∧ Text.isNameStart c = true := by
  cases name with
  | nil => simp [isPlainName] at h
  | cons c more =>
      rw [isPlainName, Bool.and_eq_true] at h
      exact ⟨c, more, rfl, h.1⟩

theorem isBlank_of_mem_plainName {text : List Char} (h : isPlainName text = true) :
    ∀ c ∈ text, Text.isBlank c = false :=
  fun c hc => Text.isBlank_of_isNameChar (isNameChar_of_isPlainName h c hc)

theorem isBlank_segmentText (first : Bool) (segment : Segment) :
    (∀ c ∈ (segmentText first segment).toList.head?, Text.isBlank c = false) ∧
      ∀ c ∈ (segmentText first segment).toList.getLast?, Text.isBlank c = false := by
  rcases segmentText_shape segment with ⟨name, rfl, hname⟩ | htext
  · have hblank : ∀ c ∈ (segmentText first (.property name)).toList, Text.isBlank c = false := by
      have hchars := isBlank_of_mem_plainName hname
      cases first with
      | true => rwa [(segmentText_plain hname).1]
      | false =>
          rw [(segmentText_plain hname).2, List.forall_mem_cons]
          exact ⟨rfl, hchars⟩
    exact ⟨fun c hc => hblank c (List.mem_of_mem_head? hc),
      fun c hc => hblank c (List.mem_of_getLast? hc)⟩
  · rw [htext, ← List.cons_append]
    refine ⟨?_, ?_⟩
    · rintro c ⟨⟩
      rfl
    · rw [List.getLast?_concat]
      rintro c ⟨⟩
      rfl

theorem isBlank_getLast_restText (segments : Path) :
    ∀ c ∈ (restText segments).getLast?, Text.isBlank c = false := by
  induction segments with
  | nil => simp [restText]
  | cons segment more ih =>
      rw [restText_cons, List.getLast?_append]
      intro c hc
      rcases Option.or_eq_some_iff.mp hc with hlast | ⟨_, hlast⟩
      · exact ih c hlast
      · exact (isBlank_segmentText false segment).2 c hlast

-- A canonical path neither starts nor ends with a blank.
theorem trim_format (segments : Path) :
    Text.trim (format segments).toList = (format segments).toList := by
  cases segments with
  | nil => rfl
  | cons segment more =>
      obtain ⟨hfirst, hlast⟩ := isBlank_segmentText true segment
      rw [toList_format_cons]
      apply Text.trim_eq_self
      · intro c hc
        rw [List.head?_append] at hc
        rcases Option.or_eq_some_iff.mp hc with hhead | ⟨hnil, hhead⟩
        · exact hfirst c hhead
        · rcases head_restText more c hhead with rfl | rfl <;> rfl
      · intro c hc
        rw [List.getLast?_append] at hc
        rcases Option.or_eq_some_iff.mp hc with hend | ⟨_, hend⟩
        · exact isBlank_getLast_restText more c hend
        · exact hlast c hend

-- A path is read back from its canonical text, unless a computed key in it cannot stand in
-- brackets.
theorem read_canonical (hne : segments ≠ [])
    (h : ∀ key, .computed key ∈ segments → IsBracketed key.toList (.computed key)) :
    read (format segments) = .ok segments := by
  apply read_eq_ok_iff.mpr
  apply spells_format hne
  intro segment hsegment
  apply isBracketed_keyText
  rintro key rfl
  exact h key hsegment

end FlowExpr.Path
