import FlowExpr.Proofs.Rereading
import FlowExpr.Proofs.Spelling.Tokens

namespace FlowExpr

namespace Decimal

theorem splitDigits_append_of_forall {digits rest : List Char}
    (h : ∀ c ∈ digits, c.isDigit = true) (hrest : ∀ c ∈ rest.head?, c.isDigit = false) :
    splitDigits (digits ++ rest) = (digits, rest) := by
  rw [splitDigits, List.takeWhile_append_of_pos h, List.dropWhile_append_of_pos h]
  cases rest with
  | nil => simp
  | cons c tail =>
      have hc : c.isDigit = false := hrest c rfl
      simp [hc]

end Decimal

namespace Token

open Text (Cursor)

variable {inside : Cursor → Except LexError (List Token)} {kind : Kind} {text other : List Char}
  {c : Char} {offset : Nat}

theorem extendsToken_of_isIdentifierChar (h : isIdentifierChar c = true) :
    extendsToken c = true := by
  rw [extendsToken, h, Bool.true_or, Bool.true_or]

theorem extendsToken_of_isOperatorChar (h : isOperatorChar c = true) : extendsToken c = true := by
  rw [extendsToken, h, Bool.or_true, Bool.true_or]

theorem isIdentifierChar_of_isDigit (h : c.isDigit = true) : isIdentifierChar c = true := by
  have hbounds : 48 ≤ c.toNat ∧ c.toNat ≤ 57 := Char.isDigit_iff_toNat.mp h
  have hnumeric : Text.isNumeric c = true := by
    rw [Text.isNumeric, Text.numericRanges, Text.inRanges, if_neg (by omega), if_pos (by omega)]
  rw [isIdentifierChar, Text.isNameChar, Text.isAlphanumeric, hnumeric, Bool.or_true, Bool.or_true,
    Bool.or_true]

theorem takeWhile_of_isSeam (h : IsSeam text) : text.takeWhile extendsToken = [] := by
  cases text with
  | nil => rfl
  | cons c rest => rw [List.takeWhile_cons_of_neg (by simp [h c rfl])]

namespace StandsFor

-- Before a seam, and before another one, the same text.
theorem append (run : List Char) (htext : IsSeam text) (hother : IsSeam other) :
    StandsFor (run ++ text) (run ++ other) := by
  refine .inr ?_
  rw [List.takeWhile_append, List.takeWhile_append, takeWhile_of_isSeam htext,
    takeWhile_of_isSeam hother]

-- What a run starts with, it starts with before the other text too.
theorem isPrefix (h : StandsFor text other) (run : List Char) {front : List Char}
    (hfront : ∀ c ∈ front, extendsToken c = true) (htext : front <+: run ++ text) :
    front <+: run ++ other := by
  have hstart : text.takeWhile extendsToken <+: other := by
    rcases h with hseam | heq
    · rw [takeWhile_of_isSeam hseam]
      exact List.nil_prefix
    · rw [heq]
      exact List.takeWhile_prefix _
  obtain ⟨rest, heq⟩ := htext
  rcases List.append_eq_append_iff.mp heq with ⟨after, rfl, -⟩ | ⟨more, rfl, rfl⟩
  · exact (List.prefix_append front after).trans (List.prefix_append _ other)
  · rw [List.takeWhile_append_of_pos fun c hc => hfront c (List.mem_append_right run hc)] at hstart
    exact (List.prefix_append_right_inj run).mpr ((List.prefix_append more _).trans hstart)

theorem mem_head? (h : StandsFor text other) (hc : extendsToken c = true) (htext : c ∈ text.head?) :
    c ∈ other.head? := by
  obtain ⟨rest, rfl⟩ := List.head?_eq_some_iff.mp htext
  have hfront : ∀ x ∈ [c], extendsToken x = true := by simpa using hc
  obtain ⟨more, rfl⟩ := h.isPrefix [] hfront ⟨rest, rfl⟩
  rfl

theorem symm_of_mem_head? (h : StandsFor text other) (hc : extendsToken c = true)
    (htext : c ∈ text.head?) : StandsFor other text := by
  rcases h with hseam | heq
  · rw [hseam c htext] at hc
    simp at hc
  · exact .inr heq.symm

-- A text that does not start with a character of some kind is not made to by what stands for it.
theorem head?_eq_false {p : Char → Bool} (h : StandsFor text other)
    (hp : ∀ c, p c = true → extendsToken c = true) (hother : ∀ c ∈ other.head?, p c = false) :
    ∀ c ∈ text.head?, p c = false := by
  intro c hc
  rw [Bool.eq_false_iff]
  intro htrue
  have hfalse := hother c (h.mem_head? (hp c htrue) hc)
  rw [htrue] at hfalse
  simp at hfalse

end StandsFor

-- A number is as long as it can be: no digit follows it, and a point with a digit behind it only
-- if it has a point already.
theorem numberRun_whole {whole rest : List Char} (hwhole : ∀ c ∈ whole, c.isDigit = true)
    (hrest : ∀ c ∈ rest.head?, c.isDigit = false)
    (hpoint : ∀ d, ['.', d] <+: rest → d.isDigit = false) :
    numberRun (whole ++ rest) = (whole, rest) := by
  rw [numberRun, Decimal.splitDigits_append_of_forall hwhole hrest]
  dsimp only
  split
  · rename_i more
    have hnone : (Decimal.splitDigits more).1 = [] := by
      cases more with
      | nil => rfl
      | cons d later =>
          have hd : d.isDigit = false := hpoint d ⟨later, rfl⟩
          rw [Decimal.splitDigits, List.takeWhile_cons_of_neg (by simp [hd])]
    rw [hnone]
    rfl
  · rfl

theorem numberRun_fraction {whole fraction rest : List Char}
    (hwhole : ∀ c ∈ whole, c.isDigit = true) (hfraction : ∀ c ∈ fraction, c.isDigit = true)
    (hne : fraction ≠ []) (hrest : ∀ c ∈ rest.head?, c.isDigit = false) :
    numberRun (whole ++ '.' :: (fraction ++ rest)) = (whole ++ '.' :: fraction, rest) := by
  have hpoint : ∀ c ∈ ('.' :: (fraction ++ rest)).head?, c.isDigit = false := by simp
  have hempty : fraction.isEmpty = false := by simpa using hne
  simp [numberRun, Decimal.splitDigits_append_of_forall hwhole hpoint,
    Decimal.splitDigits_append_of_forall hfraction hrest, hempty]

theorem numberRun_cases (text : List Char) :
    ∃ whole rest, (∀ c ∈ whole, c.isDigit = true) ∧ (∀ c ∈ rest.head?, c.isDigit = false) ∧
      (((∀ d, ['.', d] <+: rest → d.isDigit = false) ∧ numberRun text = (whole, rest)) ∨
        ∃ fraction, (∀ c ∈ fraction, c.isDigit = true) ∧ fraction ≠ [] ∧
          numberRun text = (whole ++ '.' :: fraction, rest)) := by
  have hall (text : List Char) : ∀ c ∈ (Decimal.splitDigits text).1, c.isDigit = true :=
    fun c hc => List.mem_takeWhile_imp hc
  have hend (text : List Char) : ∀ c ∈ (Decimal.splitDigits text).2.head?, c.isDigit = false := by
    intro c hc
    have hstop := List.head?_dropWhile_not Char.isDigit text
    rw [Decimal.splitDigits] at hc
    simp_all
  rw [numberRun]
  dsimp only
  split
  · rename_i more hrest
    by_cases hnone : (Decimal.splitDigits more).1 = []
    · refine ⟨_, _, hall text, hend text, .inl ⟨?_, by simp [hnone, hrest]⟩⟩
      rintro d ⟨later, heq⟩
      obtain rfl : d :: later = more := (List.cons.inj (heq.trans hrest)).2
      simpa [Decimal.splitDigits, List.takeWhile_cons] using hnone
    · exact ⟨_, _, hall text, hend more, .inr ⟨_, hall more, hnone, by simp [hnone]⟩⟩
  · rename_i hrest
    refine ⟨_, _, hall text, hend text, .inl ⟨?_, rfl⟩⟩
    rintro d ⟨later, heq⟩
    exact absurd heq.symm (hrest (d :: later))

-- A run is read up to the same place if another text stands for what follows it.
theorem numberRun_of_standsFor (h : StandsFor other (numberRun text).2) :
    numberRun ((numberRun text).1 ++ other) = ((numberRun text).1, other) := by
  have hdigit (c : Char) (hc : c.isDigit = true) : extendsToken c = true :=
    extendsToken_of_isIdentifierChar (isIdentifierChar_of_isDigit hc)
  obtain ⟨whole, rest, hwhole, hrest, ⟨hpoint, hrun⟩ | ⟨fraction, hfraction, hne, hrun⟩⟩ :=
    numberRun_cases text
  · rw [hrun] at h ⊢
    apply numberRun_whole hwhole (h.head?_eq_false hdigit hrest)
    intro d hd
    rw [Bool.eq_false_iff]
    intro htrue
    have hextends : ∀ c ∈ ['.', d], extendsToken c = true := by
      simpa [hdigit d htrue] using extendsToken_of_isIdentifierChar rfl
    have hfalse := hpoint d (h.isPrefix [] hextends hd)
    rw [htrue] at hfalse
    simp at hfalse
  · rw [hrun] at h ⊢
    rw [List.append_assoc, List.cons_append]
    exact numberRun_fraction hwhole hfraction hne (h.head?_eq_false hdigit hrest)

-- A dollar sign before it does not make a text the start of a reference.
theorem StandsFor.opensReference (h : StandsFor text other) (run : List Char)
    (hother : Token.opensReference (run ++ other) = false) :
    Token.opensReference (run ++ text) = false := by
  rw [Bool.eq_false_iff] at hother ⊢
  intro hopens
  obtain ⟨rest, hrest⟩ := exists_of_opensReference hopens
  have hopening : ['$', '{'].all extendsToken = true := rfl
  obtain ⟨more, hmore⟩ := h.isPrefix run (List.all_eq_true.mp hopening) ⟨rest, hrest.symm⟩
  rw [← hmore] at hother
  exact hother rfl

-- Where a name ends it starts with no character, or a reference does.
theorem identifierRun_eq_nil
    (h : ∀ c ∈ text.head?, isIdentifierChar c = true → opensReference text = true) :
    identifierRun text = ([], text) := by
  cases text with
  | nil => rfl
  | cons c rest =>
      have hc : (isIdentifierChar c && !opensReference (c :: rest)) = false := by
        by_cases hchar : isIdentifierChar c = true
        · simp [h c rfl hchar]
        · simp [hchar]
      rw [identifierRun, hc]
      rfl

theorem StandsFor.identifierRun_eq_nil (h : StandsFor text other)
    (hother : ∀ c ∈ other.head?, isIdentifierChar c = true → Token.opensReference other = true) :
    identifierRun text = ([], text) := by
  apply Token.identifierRun_eq_nil
  intro c hc hchar
  have hextends := extendsToken_of_isIdentifierChar hchar
  have hopens := hother c (h.mem_head? hextends hc) hchar
  by_contra hnot
  rw [Bool.not_eq_true] at hnot
  have hfalse := (h.symm_of_mem_head? hextends hc).opensReference [] hnot
  rw [List.nil_append, hopens] at hfalse
  simp at hfalse

theorem identifierRun_of_standsFor (h : StandsFor other (identifierRun text).2) :
    identifierRun ((identifierRun text).1 ++ other) = ((identifierRun text).1, other) := by
  induction text with
  | nil => exact h.identifierRun_eq_nil (by simp [identifierRun])
  | cons c rest ih =>
      rw [identifierRun] at h ⊢
      split at h
      · rename_i hc
        have hrest := ih h
        rw [Bool.and_eq_true, Bool.not_eq_true'] at hc
        have hopens : opensReference (c :: (identifierRun rest).1 ++ other) = false := by
          apply h.opensReference
          rw [List.cons_append, eq_of_identifierRun]
          exact hc.2
        rw [if_pos (by simp [hc])]
        simp only [List.cons_append] at hopens ⊢
        rw [identifierRun.eq_def]
        simp only [hc.1, hopens, hrest]
        rfl
      · rename_i hc
        rw [if_neg hc]
        apply h.identifierRun_eq_nil
        intro x hx hchar
        obtain rfl : c = x := Option.some.inj hx
        simpa [hchar] using hc

theorem operatorAt?_of_standsFor {op : Operator} {rest : List Char} (h : StandsFor other rest)
    (hop : operatorAt? (op.symbol.toList ++ rest) = some op) :
    operatorAt? (op.symbol.toList ++ other) = some op := by
  rw [operatorAt?, List.find?_eq_some_iff_append] at hop ⊢
  obtain ⟨-, before, after, hall, hbefore⟩ := hop
  refine ⟨List.isPrefixOf_iff_prefix.mpr (List.prefix_append _ _), before, after, hall, ?_⟩
  intro longer hlonger
  have hnot := hbefore longer hlonger
  rw [Bool.not_eq_true', Bool.eq_false_iff, ne_eq, List.isPrefixOf_iff_prefix] at hnot ⊢
  have hsymbol : ∀ c ∈ longer.symbol.toList, extendsToken c = true := by
    have hchars : longer.symbol.toList.all isOperatorChar = true := by cases longer <;> decide
    exact fun c hc => extendsToken_of_isOperatorChar (List.all_eq_true.mp hchars c hc)
  exact fun hprefix => hnot (h.isPrefix _ hsymbol hprefix)

-- A run stays one if another text stands for what follows it.
theorem IsPlainRun.of_standsFor {run rest : List Char} (h : IsPlainRun kind run rest)
    (hother : StandsFor other rest) : IsPlainRun kind run other := by
  cases h with
  | spread => exact .spread
  | sign hx => exact .sign hx
  | operator op hop => exact .operator op (operatorAt?_of_standsFor hother hop)
  | @number x text hx =>
      have hrun := numberRun_of_standsFor hother
      have hwhole := eq_of_numberRun (x :: text)
      have hne := (@IsPlainRun.number x text hx).ne_nil
      obtain ⟨run, hstart, -⟩ := (List.append_eq_cons_iff.mp hwhole).resolve_left
        fun hnil => hne hnil.1
      rw [hstart] at hrun ⊢
      have hnumber := @IsPlainRun.number x (run ++ other) hx
      rwa [← List.cons_append, hrun] at hnumber
  | @name x text hx hopens hdigit hdots =>
      have hrun := identifierRun_of_standsFor hother
      have hwhole := eq_of_identifierRun (x :: text)
      have hne := (IsPlainRun.name hx hopens hdigit hdots).ne_nil
      obtain ⟨run, hstart, -⟩ := (List.append_eq_cons_iff.mp hwhole).resolve_left
        fun hnil => hne hnil.1
      rw [hstart] at hrun hwhole ⊢
      have hopens' : opensReference (x :: run ++ other) = false := by
        apply hother.opensReference
        rwa [hwhole]
      have hdots' : "...".toList.isPrefixOf (x :: run ++ other) = false := by
        rw [← hwhole] at hdots
        rw [Bool.eq_false_iff, ne_eq, List.isPrefixOf_iff_prefix] at hdots ⊢
        have hspread : "...".toList.all extendsToken = true := rfl
        exact fun hprefix => hdots (hother.isPrefix _ (List.all_eq_true.mp hspread) hprefix)
      have hname := @IsPlainRun.name x (run ++ other) hx hopens' hdigit hdots'
      rwa [← List.cons_append, hrun] at hname

-- The characters of operators start nothing else.
theorem readToken_of_isOperatorChar {x : Char} {rest : List Char} {op : Operator}
    (hx : isOperatorChar x = true) (hop : operatorAt? (x :: rest) = some op) (c : Cursor) :
    readToken inside c x rest =
      ⟨.ok (.plain .operator op.symbol), c.advance op.symbol.length⟩ := by
  have hmarks : (['$', '.', '"', '\'', '\x60', '{', '['] ++ punctuationChars).any isOperatorChar =
      false := by decide
  have hnot := Text.not_mem_of_kind hmarks hx
  have hne {m : Char} (hm : m ∈ ['$', '.', '"', '\'', '\x60', '{', '[']) : x ≠ m := by
    rintro rfl
    exact hnot (List.mem_append_left _ hm)
  have hquote : ¬(x = '"' ∨ x = '\'') := by
    rintro (heq | heq)
    · exact hne (by decide) heq
    · exact hne (by decide) heq
  have hpunctuation : x ∉ punctuationChars := fun hmem => hnot (List.mem_append_right _ hmem)
  have hdigit : ¬x.isDigit = true := by
    intro hdigit
    have hmem : x ∈ "=!<>&|?+-*/%".toList := by simpa [isOperatorChar] using hx
    exact not_mem_startMarks (isIdentifierChar_of_isDigit hdigit) (List.mem_append_right _ hmem)
  rw [readToken, if_neg (Bool.eq_false_iff.mp (opensReference_of_ne (hne (by decide)) rest)),
    if_neg hquote, if_neg (hne (by decide)), if_neg (hne (by decide)), if_neg (hne (by decide)),
    if_neg (Bool.eq_false_iff.mp (isPrefixOf_dots_of_ne (hne (by decide)) rest)),
    if_neg hpunctuation, if_neg hdigit, if_pos hx, hop]

-- A plain run is read as one token.
theorem IsPlainRun.nextWith_eq {run rest : List Char} (h : IsPlainRun kind run rest) :
    nextWith inside ⟨run ++ rest, offset⟩ =
      ⟨.ok (some (.plain kind (String.ofList run))), ⟨rest, offset + run.length⟩⟩ := by
  cases h with
  | spread => rfl
  | sign hx =>
      simp only [punctuationChars, List.mem_cons, List.not_mem_nil, or_false] at hx
      rcases hx with rfl | rfl | rfl | rfl | rfl | rfl <;> rfl
  | operator op hop =>
      obtain ⟨x, more, hsymbol, hblank, hx⟩ : ∃ x more, op.symbol.toList = x :: more ∧
          Text.isBlank x = false ∧ isOperatorChar x = true := by
        cases op <;> exact ⟨_, _, rfl, rfl, rfl⟩
      have hlength : op.symbol.length = (x :: more).length := by
        rw [← String.length_toList, hsymbol]
      rw [hsymbol, List.cons_append] at hop ⊢
      rw [nextWith_of_not_isBlank hblank, readToken_of_isOperatorChar hx hop, Cursor.advance,
        hlength, ← hsymbol, String.ofList_toList, hsymbol, ← List.cons_append, List.drop_left]
      rfl
  | @number x text hx =>
      have hchar := isIdentifierChar_of_isDigit hx
      have hne {m : Char} (hm : m.isDigit = false) : x ≠ m := by
        rintro rfl
        rw [hx] at hm
        simp at hm
      rw [eq_of_numberRun, nextWith_of_not_isBlank (isBlank_of_isIdentifierChar hchar),
        readToken_of_not_mem (not_mem_startMarks hchar) (opensReference_of_ne (hne rfl) _)
          (isPrefixOf_dots_of_ne (hne rfl) _), if_pos hx]
      rfl
  | name hx hopens hdigit hdots =>
      rw [eq_of_identifierRun, nextWith_of_not_isBlank (isBlank_of_isIdentifierChar hx),
        readToken_of_not_mem (not_mem_startMarks hx) hopens hdots,
        if_neg (Bool.eq_false_iff.mp hdigit), if_pos hx]
      rfl

end Token

end FlowExpr
