import FlowExpr.Proofs.Guard.Balance
import FlowExpr.Proofs.Spelling.Theorems

namespace FlowExpr

namespace Token

open Guard (IsPaired Reaches balanceMarks)
open Text (Cursor)

-- The token is a template with that text, or a bracket that holds one at whatever depth. Templates
-- in a reference do not count.
inductive HasTemplate (raw : String) : Token → Prop where
  | here {t : Token} (hkind : t.kind = .template) (hraw : t.raw = raw) : HasTemplate raw t
  | inside {part t : Token} (hkind : t.kind = .object ∨ t.kind = .array)
      (hpart : part ∈ t.children) (h : HasTemplate raw part) : HasTemplate raw t

def HasPairedTemplates (t : Token) : Prop :=
  ∀ raw, HasTemplate raw t → IsPaired raw.toList

variable {inside : Cursor → Except LexError (List Token)} {c after : Cursor} {t : Token}
  {more : List Char}

-- Behind a text that is read the scan has no reference open. What comes next must not make a
-- reference of a dollar sign that ends the text.
def LeavesNoneOpen (inside : Cursor → Except LexError (List Token)) : Prop :=
  ∀ c tokens, inside c = .ok tokens → (∀ t ∈ tokens, t.HasPairedTemplates) →
    ∀ more, more.head? ≠ some '{' → Reaches (c.rest ++ more) more

theorem reaches_of_readReference (hopens : opensReference c.rest = true)
    (h : readReference inside c = ⟨.ok t, after⟩) (more : List Char) :
    Reaches (c.rest ++ more) (after.rest ++ more) := by
  obtain ⟨rest, hrest⟩ := exists_of_opensReference hopens
  obtain ⟨inner, _, children, hextent, _, _, rfl, rfl⟩ := readReference_eq_ok_iff.mp h
  have hbody : (c.advance 2).rest = rest := by rw [Cursor.advance, hrest]; rfl
  rw [hbody] at hextent
  rw [hrest]
  exact Reaches.reference hextent more

theorem reaches_of_readString {quote : Char} {rest : List Char}
    (hquote : quote = '"' ∨ quote = '\'') (hc : c.rest = quote :: rest)
    (h : readString quote c = ⟨.ok t, after⟩) (more : List Char) :
    Reaches (c.rest ++ more) (after.rest ++ more) := by
  obtain ⟨content, written, _, hbody, rfl, rfl⟩ := readString_eq_ok_iff.mp h
  rw [hc, List.drop_one, List.tail_cons] at hbody
  rw [hc]
  exact Reaches.quoted hquote hbody more

theorem reaches_of_readTemplate (hinside : IsFaithful inside) {rest : List Char}
    (hc : c.rest = '\x60' :: rest) (h : readTemplate inside c = ⟨.ok t, after⟩)
    (ht : t.HasPairedTemplates) (more : List Char) :
    Reaches (c.rest ++ more) (after.rest ++ more) := by
  obtain ⟨span, parts, hbody, rfl⟩ := readTemplate_eq_ok_iff.mp h
  obtain ⟨inner, hinner, -⟩ := exists_of_templateBody hinside hbody
  have hopening : c.Passes ['\x60'] (c.advance 1) := Cursor.passes_advance hc
  have hpasses := hopening.trans hinner
  have hpaired := ht _ (.here rfl rfl)
  rw [raw, String.toList_ofList, hpasses.upTo_eq] at hpaired
  have hlast : (['\x60'] ++ (inner ++ ['\x60'])).getLast? ≠ some '$' := by
    rw [← List.append_assoc, List.getLast?_concat]
    decide
  rw [hpasses.1, List.append_assoc]
  exact Reaches.of_isPaired hpaired hlast _

-- An object or an array, from one bracket to the other.
theorem reaches_of_readContainer (hinside : LeavesNoneOpen inside) {kind : Kind}
    {d : Delimiters} {fault : Fault} {rest : List Char}
    (hkind : kind = .object ∨ kind = .array) (hclosing : d.closing ≠ '{')
    (hbrackets : ∀ text, Reaches (d.opening :: text) text ∧ Reaches (d.closing :: text) text)
    (hc : c.rest = d.opening :: rest)
    (h : readContainer inside kind d fault c = ⟨.ok t, after⟩) (ht : t.HasPairedTemplates)
    (more : List Char) : Reaches (c.rest ++ more) (after.rest ++ more) := by
  have hopening : c.Passes [d.opening] (c.advance 1) := Cursor.passes_advance hc
  obtain ⟨inner, _, children, hextent, hchildren, rfl, rfl⟩ := readContainer_eq_ok_iff.mp h
  have hinner := hinside _ _ hchildren fun part hpart raw hraw =>
    ht raw (.inside hkind hpart hraw)
  have hpasses := (passes_extent hopening hextent).1
  rw [hpasses]
  simp only [List.cons_append, List.nil_append, List.append_assoc]
  refine (hbrackets _).1.trans ((hinner _ ?_).trans (hbrackets _).2)
  simpa using hclosing

theorem IsPlainRun.reaches {kind : Kind} {run rest : List Char} (h : IsPlainRun kind run rest)
    (hmore : more.head? ≠ some '{') : Reaches (run ++ (rest ++ more)) (rest ++ more) := by
  have hplain (p : Char → Bool) (hp : balanceMarks.any p = false) (h : ∀ x ∈ run, p x = true) :
      Reaches (run ++ (rest ++ more)) (rest ++ more) :=
    Reaches.of_forall (fun x hx => Text.not_mem_of_kind hp (h x hx)) (rest ++ more)
  cases h with
  | spread => exact hplain (· == '.') (by decide) (List.all_eq_true.mp (by decide))
  | @sign x _ hx =>
      by_cases hclose : x = '}'
      · exact hclose ▸ Reaches.closeBrace (rest ++ more)
      · have hmarks : ∀ x ∈ punctuationChars, (x == '}' || !balanceMarks.contains x) = true :=
          List.all_eq_true.mp (by decide)
        have hmark : x ∉ balanceMarks := by simpa [hclose] using hmarks x hx
        exact Reaches.plain hmark (rest ++ more)
  | number =>
      exact hplain (fun x => x.isDigit || x == '.') (by decide)
        fun _ => isDigit_or_dot_of_mem_numberRun
  | operator op =>
      have hsymbol : op.symbol.toList.all isOperatorChar = true := by cases op <;> decide
      exact hplain isOperatorChar (by decide) (List.all_eq_true.mp hsymbol)
  | name =>
      rw [← List.append_assoc, eq_of_identifierRun]
      exact Reaches.identifierRun hmore

theorem reaches_of_readToken (hfaithful : IsFaithful inside) (hinside : LeavesNoneOpen inside)
    {x : Char} {rest : List Char} (hc : c.rest = x :: rest)
    (h : readToken inside c x rest = ⟨.ok t, after⟩) (ht : t.HasPairedTemplates)
    (hmore : more.head? ≠ some '{') : Reaches (c.rest ++ more) (after.rest ++ more) := by
  cases isReadBy_of_readToken hc h with
  | reference hopens h => exact reaches_of_readReference hopens h more
  | string hquote h => exact reaches_of_readString hquote hc h more
  | template hx h => exact reaches_of_readTemplate hfaithful (hx ▸ hc) h ht more
  | object hx h =>
      have hbraces (text : List Char) :
          Reaches ('{' :: text) text ∧ Reaches ('}' :: text) text :=
        ⟨Reaches.openBrace text, Reaches.closeBrace text⟩
      exact reaches_of_readContainer hinside (.inl rfl) (by decide) hbraces (hx ▸ hc) h ht more
  | array hx h =>
      have hbrackets (text : List Char) :
          Reaches ('[' :: text) text ∧ Reaches (']' :: text) text :=
        ⟨Reaches.plain (by decide) text, Reaches.plain (by decide) text⟩
      exact reaches_of_readContainer hinside (.inr rfl) (by decide) hbrackets (hx ▸ hc) h ht more
  | plain hrun _ hpasses =>
      rw [hpasses.1, List.append_assoc]
      exact hrun.reaches hmore

theorem leavesNoneOpen_readAll (hfaithful : IsFaithful inside) (hinside : LeavesNoneOpen inside) :
    LeavesNoneOpen (readAll inside) := by
  intro c tokens h htokens more hmore
  have hblanks {blank : List Char} (h : Text.isBlankText blank = true) (text : List Char) :
      Reaches (blank ++ text) text := by
    apply Reaches.of_forall
    intro x hx
    exact Text.not_mem_of_kind (by decide) (List.all_eq_true.mp h x hx)
  fun_induction readAll inside c generalizing tokens with
  | case1 c t after hnext ih =>
      obtain ⟨rest, hrest, rfl⟩ := Outcome.map_eq_ok_iff.mp h
      obtain ⟨x, tail, hstart, hread⟩ := nextWith_some.mp hnext
      have ht : t.HasPairedTemplates := htokens t (by simp)
      have htoken := reaches_of_readToken hfaithful hinside hstart hread ht hmore
      have hafter := ih rest hrest fun other hother => htokens other (List.mem_cons_of_mem t hother)
      have hblank := hblanks (Text.isBlankText_takeWhile c.rest)
        ((c.skipWhile Text.isBlank).rest ++ more)
      rw [(Cursor.passes_skipWhile c Text.isBlank).1, List.append_assoc]
      exact (hblank.trans htoken).trans hafter
  | case2 c after hnext => exact hblanks (isBlankText_of_nextWith hnext) more
  | case3 => simp at h

theorem leavesNoneOpen_lexWithin (levels : Nat) : LeavesNoneOpen (lexWithin levels) := by
  induction levels with
  | zero =>
      have hnone : IsFaithful fun body => .error ⟨.nestedTooDeeply, some body.offset⟩ := by
        intro body tokens h
        simp at h
      exact leavesNoneOpen_readAll hnone fun _ _ h => by simp at h
  | succ levels ih => exact leavesNoneOpen_readAll (isFaithful_lexWithin levels) ih

end Token

namespace Guard

-- The guard lets every text pass that is read, is not too long and has neither a forbidden pattern
-- nor an empty slot, if the quotes and references in its templates are paired for the scan as well.
theorem check_of_read {expression : String} {tokens : List Token} {maxLength : Nat}
    (hread : Token.read expression = .ok tokens)
    (hlength : expression.toList.length ≤ maxLength) (hclean : IsClean expression.toList)
    (hslot : ¬HasEmptySlot expression.toList)
    (htemplates : ∀ t ∈ tokens, t.HasPairedTemplates) : check expression maxLength = .ok () := by
  obtain ⟨hblank, hlex, -⟩ := Token.read_eq_ok_iff.mp hread
  refine check_eq_ok_iff.mpr ⟨hblank, hlength, hclean, hslot, ?_⟩
  have hreaches := Token.leavesNoneOpen_lexWithin maxNesting _ tokens hlex htemplates [] (by simp)
  obtain ⟨opened, hopened, hbalanced⟩ := hreaches [] (by simp)
  rw [Text.Cursor.start, List.append_nil] at hbalanced
  rw [hbalanced]
  simpa [isBalanced] using hopened

section Apostrophe

open Token

-- A template with an apostrophe, and a string in which no reference is meant.
def apostrophe : String :=
  "`'`+'$\x7b'"

private theorem toList_apostrophe :
    apostrophe.toList = ['\x60', '\'', '\x60', '+', '\'', '$', '{', '\''] := by
  decide

private theorem read_apostrophe : Token.read apostrophe =
    .ok [.group .template "`'`" [.plain .string "'"], .plain .operator "+",
      .text .string "'$\x7b'" "$\x7b"] := by
  have hbody : templateBody (lexWithin 255) 0
      ⟨['\'', '\x60', '+', '\'', '$', '{', '\''], 1⟩ =
        ⟨.ok (['\''], []), ⟨['+', '\'', '$', '{', '\''], 3⟩⟩ := by
    rw [templateBody_char rfl (by decide) (by decide) rfl, templateBody_end rfl]
    rfl
  have htemplate : nextWith (lexWithin 255)
      ⟨['\x60', '\'', '\x60', '+', '\'', '$', '{', '\''], 0⟩ =
        ⟨.ok (some (.group .template "`'`" [.plain .string "'"])),
          ⟨['+', '\'', '$', '{', '\''], 3⟩⟩ := by
    have htoken : readTemplate (lexWithin 255)
        ⟨['\x60', '\'', '\x60', '+', '\'', '$', '{', '\''], 0⟩ =
          ⟨.ok (.group .template "`'`" [.plain .string "'"]), ⟨['+', '\'', '$', '{', '\''], 3⟩⟩ :=
      readTemplate_eq_ok_iff.mpr ⟨['\''], [], hbody, rfl⟩
    rw [nextWith_of_not_isBlank rfl]
    exact congrArg (Step.map some) htoken
  have hplus : nextWith (lexWithin 255) ⟨['+', '\'', '$', '{', '\''], 3⟩ =
      ⟨.ok (some (.plain .operator "+")), ⟨['\'', '$', '{', '\''], 4⟩⟩ := rfl
  have hstring : nextWith (lexWithin 255) ⟨['\'', '$', '{', '\''], 4⟩ =
      ⟨.ok (some (.text .string "'$\x7b'" "$\x7b")), ⟨[], 8⟩⟩ := rfl
  have hlex : lex apostrophe =
      .ok [.group .template "`'`" [.plain .string "'"], .plain .operator "+",
        .text .string "'$\x7b'" "$\x7b"] := by
    rw [lex, toList_apostrophe, maxNesting, lexWithin, Text.Cursor.start, readAll_some htemplate,
      readAll_some hplus, readAll_some hstring, readAll_end]
    rfl
  have hblank : Text.isBlankText apostrophe.toList = false := by
    rw [toList_apostrophe]
    rfl
  exact read_eq_ok_iff.mpr ⟨hblank, hlex, rfl⟩

private theorem check_apostrophe : check apostrophe defaultMaxLength = .error .openReference := by
  unfold check
  rw [toList_apostrophe]
  rfl

-- An apostrophe in a template opens a quote for the scan, which ends where a string begins.
theorem not_check_of_read :
    ¬∀ (expression : String) (tokens : List Token) (maxLength : Nat),
      Token.read expression = .ok tokens → expression.toList.length ≤ maxLength →
        IsClean expression.toList → ¬HasEmptySlot expression.toList →
          check expression maxLength = .ok () := by
  intro h
  have hclean : IsClean apostrophe.toList := by
    rw [← find?_forbiddenPatterns_eq_none, toList_apostrophe]
    rfl
  have hslot : ¬HasEmptySlot apostrophe.toList := by
    rw [← hasEmptySlot_iff, toList_apostrophe]
    decide
  have hcheck := h apostrophe _ defaultMaxLength read_apostrophe (by decide) hclean hslot
  rw [check_apostrophe] at hcheck
  simp at hcheck

-- Two apostrophes in a template are a pair for the scan.
theorem check_apostrophes : check "`'a'`" defaultMaxLength = .ok () := by
  have hchars : "`'a'`".toList = ['\x60', '\'', 'a', '\'', '\x60'] := by decide
  have hbody : templateBody (lexWithin 255) 0 ⟨['\'', 'a', '\'', '\x60'], 1⟩ =
      ⟨.ok (['\'', 'a', '\''], []), ⟨[], 5⟩⟩ := by
    rw [templateBody_char rfl (by decide) (by decide) rfl,
      templateBody_char rfl (by decide) (by decide) rfl,
      templateBody_char rfl (by decide) (by decide) rfl, templateBody_end rfl]
    rfl
  have htoken : readTemplate (lexWithin 255) ⟨['\x60', '\'', 'a', '\'', '\x60'], 0⟩ =
      ⟨.ok (.group .template "`'a'`" [.plain .string "'a'"]), ⟨[], 5⟩⟩ :=
    readTemplate_eq_ok_iff.mpr ⟨['\'', 'a', '\''], [], hbody, rfl⟩
  have htemplate : nextWith (lexWithin 255) ⟨['\x60', '\'', 'a', '\'', '\x60'], 0⟩ =
      ⟨.ok (some (.group .template "`'a'`" [.plain .string "'a'"])), ⟨[], 5⟩⟩ := by
    rw [nextWith_of_not_isBlank rfl]
    exact congrArg (Step.map some) htoken
  have hlex : lex "`'a'`" = .ok [.group .template "`'a'`" [.plain .string "'a'"]] := by
    rw [lex, hchars, maxNesting, lexWithin, Text.Cursor.start, readAll_some htemplate, readAll_end]
    rfl
  have hread : Token.read "`'a'`" = .ok [.group .template "`'a'`" [.plain .string "'a'"]] :=
    read_eq_ok_iff.mpr ⟨by rw [hchars]; rfl, hlex, rfl⟩
  have hclean : IsClean "`'a'`".toList := by
    rw [← find?_forbiddenPatterns_eq_none, hchars]
    rfl
  have hslot : ¬HasEmptySlot "`'a'`".toList := by
    rw [← hasEmptySlot_iff, hchars]
    decide
  apply check_of_read hread (by decide) hclean hslot
  intro t ht raw hraw
  obtain rfl := List.mem_singleton.mp ht
  cases hraw with
  | here _ hraw =>
      have htext : raw.toList = ['\x60', '\'', 'a', '\'', '\x60'] := hraw ▸ hchars
      have hend : IsPaired ['\x60'] := .char (by decide) rfl .nil
      have hquoted : IsPaired ['\'', 'a', '\'', '\x60'] := .quoted (.inr rfl) rfl hend
      rw [htext]
      exact .char (by decide) rfl hquoted
  | inside hkind => simp [Token.kind] at hkind

end Apostrophe

end Guard

end FlowExpr
