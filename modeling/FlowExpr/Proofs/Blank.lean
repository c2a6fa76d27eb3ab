import FlowExpr.Text.Blank
import FlowExpr.Text.Cursor
import FlowExpr.Text.Letter

namespace FlowExpr.Text

variable {text more : List Char}

-- A character of a kind that no mark is of is no mark.
theorem not_mem_of_kind {p : Char → Bool} {c : Char} {marks : List Char}
    (hmarks : marks.any p = false) (h : p c = true) : c ∉ marks :=
  fun hmem => List.any_eq_false.mp hmarks c hmem h

theorem isBlankText_append (h : isBlankText text = true) (hmore : isBlankText more = true) :
    isBlankText (text ++ more) = true := by
  rw [isBlankText, List.all_append, Bool.and_eq_true]
  exact ⟨h, hmore⟩

theorem isBlankText_takeWhile (text : List Char) :
    isBlankText (text.takeWhile isBlank) = true :=
  List.all_takeWhile

-- What is taken off the end is blank.
theorem exists_of_trimEnd (text : List Char) :
    ∃ behind, text = trimEnd text ++ behind ∧ isBlankText behind = true := by
  refine ⟨(text.reverse.takeWhile isBlank).reverse, ?_, ?_⟩
  · have hsplit : text.reverse.takeWhile isBlank ++ text.reverse.dropWhile isBlank =
        text.reverse := List.takeWhile_append_dropWhile
    have hreverse := congrArg List.reverse hsplit
    rw [List.reverse_append, List.reverse_reverse] at hreverse
    exact hreverse.symm
  · rw [isBlankText, List.all_reverse]
    exact isBlankText_takeWhile _

-- What a trim takes off at the two ends is blank.
theorem exists_of_trim (text : List Char) : ∃ before after,
    text = before ++ (trim text ++ after) ∧ isBlankText before = true ∧
      isBlankText after = true := by
  obtain ⟨after, hend, hafter⟩ := exists_of_trimEnd (trimStart text)
  refine ⟨text.takeWhile isBlank, after, ?_, isBlankText_takeWhile text, hafter⟩
  rw [trim, ← hend]
  exact List.takeWhile_append_dropWhile.symm

theorem trim_infix (text : List Char) : trim text <:+: text := by
  obtain ⟨before, after, htext, -, -⟩ := exists_of_trim text
  exact ⟨before, after, by rw [List.append_assoc]; exact htext.symm⟩

-- A text that neither starts nor ends with a blank is its own trim.
theorem trim_eq_self (hstart : ∀ c ∈ text.head?, isBlank c = false)
    (hend : ∀ c ∈ text.getLast?, isBlank c = false) : trim text = text := by
  have hdrop {text : List Char} (h : ∀ c ∈ text.head?, isBlank c = false) :
      text.dropWhile isBlank = text := by
    cases text with
    | nil => rfl
    | cons c rest => rw [List.dropWhile_cons_of_neg (by simpa using h)]
  have hreverse : ∀ c ∈ text.reverse.head?, isBlank c = false := by
    rwa [List.head?_reverse]
  rw [trim, trimStart, trimEnd, hdrop hstart, hdrop hreverse, List.reverse_reverse]

theorem trim_of_not_blank (h : ∀ c ∈ text, isBlank c = false) : trim text = text :=
  trim_eq_self (fun c hc => h c (List.mem_of_mem_head? hc)) fun c hc => h c (List.mem_of_getLast? hc)

-- Nothing is skipped before a character that is no blank.
theorem Cursor.skipWhile_of_not_isBlank {c : Char} {offset : Nat} (h : isBlank c = false) :
    (Cursor.mk (c :: text) offset).skipWhile isBlank = ⟨c :: text, offset⟩ := by
  simp [Cursor.skipWhile, h]

theorem trimStart_append (h : isBlankText text = true) (more : List Char) :
    trimStart (text ++ more) = trimStart more :=
  List.dropWhile_append_of_pos fun c hc => List.all_eq_true.mp h c hc

-- Blanks at the ends of a text make no difference to its trim.
theorem trim_append {before behind : List Char} (hbefore : isBlankText before = true)
    (hbehind : isBlankText behind = true) (text : List Char) :
    trim (before ++ (text ++ behind)) = trim text := by
  have hend {text : List Char} : trimEnd (text ++ behind) = trimEnd text := by
    have hreverse : ∀ c ∈ behind.reverse, isBlank c = true := by
      simpa using List.all_eq_true.mp hbehind
    rw [trimEnd, trimEnd, List.reverse_append, List.dropWhile_append_of_pos hreverse]
  rw [trim, trim, trimStart_append hbefore, trimStart, trimStart, List.dropWhile_append]
  split
  · rename_i hblank
    have hnone : behind.dropWhile isBlank = [] := by
      simpa [trimStart] using trimStart_append hbehind []
    rw [List.isEmpty_iff.mp hblank, hnone]
  · exact hend

theorem trim_trim (text : List Char) : trim (trim text) = trim text := by
  obtain ⟨before, after, htext, hbefore, hafter⟩ := exists_of_trim text
  have htrim := trim_append hbefore hafter (trim text)
  rw [← htext] at htrim
  exact htrim.symm

-- Nothing is taken off in front of a text that starts with no blank.
theorem exists_behind_trim (h : ∀ c ∈ text.head?, isBlank c = false) :
    ∃ after, text = trim text ++ after ∧ isBlankText after = true := by
  obtain ⟨before, after, htext, hbefore, hafter⟩ := exists_of_trim text
  cases before with
  | nil => exact ⟨after, htext, hafter⟩
  | cons c rest =>
      have hc : isBlank c = true := List.all_eq_true.mp hbefore c (by simp)
      rw [h c (by rw [htext]; rfl)] at hc
      simp at hc

def blankCodes : List Nat :=
  [0x9, 0xa, 0xb, 0xc, 0xd, 0x20, 0x85, 0xa0, 0x1680, 0x2000, 0x2001, 0x2002, 0x2003, 0x2004,
   0x2005, 0x2006, 0x2007, 0x2008, 0x2009, 0x200a, 0x2028, 0x2029, 0x202f, 0x205f, 0x3000]

theorem mem_blankCodes {c : Char} (h : isBlank c = true) : c.toNat ∈ blankCodes := by
  simp [isBlank, inRanges, blankRanges, blankCodes] at h ⊢
  omega

theorem isBlank_of_isDigit {c : Char} (h : c.isDigit = true) : isBlank c = false := by
  rw [Bool.eq_false_iff]
  intro hblank
  have hcode := mem_blankCodes hblank
  have hbounds : 48 ≤ c.toNat ∧ c.toNat ≤ 57 := Char.isDigit_iff_toNat.mp h
  simp only [blankCodes, List.mem_cons, List.not_mem_nil, or_false] at hcode
  omega

-- No blank is a letter or a number.
theorem isNameChar_of_isBlank {c : Char} (h : isBlank c = true) : isNameChar c = false := by
  have hcodes : ∀ n ∈ blankCodes, inRanges alphabeticRanges n = false ∧
      inRanges numericRanges n = false ∧ n ≠ '_'.toNat ∧ n ≠ '$'.toNat := by
    decide +kernel
  obtain ⟨halphabetic, hnumeric, hline, hdollar⟩ := hcodes c.toNat (mem_blankCodes h)
  have hline' : c ≠ '_' := fun heq => hline (congrArg Char.toNat heq)
  have hdollar' : c ≠ '$' := fun heq => hdollar (congrArg Char.toNat heq)
  simp [isNameChar, isAlphanumeric, isAlphabetic, isNumeric, halphabetic, hnumeric, hline',
    hdollar']

theorem isBlank_of_isNameChar {c : Char} (h : isNameChar c = true) : isBlank c = false := by
  rw [Bool.eq_false_iff]
  intro hblank
  rw [isNameChar_of_isBlank hblank] at h
  simp at h

end FlowExpr.Text
