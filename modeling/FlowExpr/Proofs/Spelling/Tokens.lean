import FlowExpr.Proofs.Spelling.Lemmas
import Mathlib.Data.List.TakeWhile

namespace FlowExpr.Token

open Text (Cursor)

variable {inside : Cursor → Except LexError (List Token)} {c after : Cursor} {t : Token}
  {text : List Char}

-- How a token without an inner text is written, and what follows it.
inductive IsPlainRun : Kind → List Char → List Char → Prop where
  | spread {rest : List Char} : IsPlainRun .punctuation "...".toList rest
  | sign {x : Char} {rest : List Char} (hx : x ∈ punctuationChars) :
      IsPlainRun .punctuation [x] rest
  | number {x : Char} {text : List Char} (hx : x.isDigit = true) :
      IsPlainRun .number (numberRun (x :: text)).1 (numberRun (x :: text)).2
  | operator {rest : List Char} (op : Operator)
      (hop : operatorAt? (op.symbol.toList ++ rest) = some op) :
      IsPlainRun .operator op.symbol.toList rest
  | name {x : Char} {text : List Char} (hx : isIdentifierChar x = true)
      (hopens : opensReference (x :: text) = false) (hdigit : x.isDigit = false)
      (hdots : "...".toList.isPrefixOf (x :: text) = false) :
      IsPlainRun .identifier (identifierRun (x :: text)).1 (identifierRun (x :: text)).2

-- Which reader a token comes from, and what its first character is then.
inductive IsReadBy (inside : Cursor → Except LexError (List Token)) (c : Cursor) (x : Char)
    (t : Token) (after : Cursor) : Prop where
  | reference (hopens : opensReference c.rest = true)
      (h : readReference inside c = ⟨.ok t, after⟩)
  | string (hquote : x = '"' ∨ x = '\'') (h : readString x c = ⟨.ok t, after⟩)
  | template (hx : x = '\x60') (h : readTemplate inside c = ⟨.ok t, after⟩)
  | object (hx : x = '{')
      (h : readContainer inside .object objectDelimiters .openObject c = ⟨.ok t, after⟩)
  | array (hx : x = '[')
      (h : readContainer inside .array arrayDelimiters .openArray c = ⟨.ok t, after⟩)
  | plain {kind : Kind} {run : List Char} (hrun : IsPlainRun kind run after.rest)
      (ht : t = .plain kind (String.ofList run)) (hpasses : c.Passes run after)

theorem IsPlainRun.ne_nil {kind : Kind} {run rest : List Char} (h : IsPlainRun kind run rest) :
    run ≠ [] := by
  cases h with
  | spread => decide
  | sign => simp
  | number hx => exact List.ne_nil_of_length_pos (length_numberRun_pos _ hx)
  | operator op => cases op <;> decide
  | name hx hopens =>
      rw [identifierRun, if_pos (by simp [hx, hopens])]
      simp

theorem IsPlainRun.kind_cases {kind : Kind} {run rest : List Char}
    (h : IsPlainRun kind run rest) : kind ≠ .string ∧ kind.isContainer = false := by
  cases h <;> exact ⟨by decide, rfl⟩

theorem operatorAt?_eq_some {op : Operator} (h : operatorAt? text = some op) :
    ∃ rest, text = op.symbol.toList ++ rest := by
  have hprefix := List.find?_some h
  obtain ⟨rest, hrest⟩ := List.isPrefixOf_iff_prefix.mp hprefix
  exact ⟨rest, hrest.symm⟩

theorem isDigit_or_dot_of_mem_numberRun {x : Char} (h : x ∈ (numberRun text).1) :
    (x.isDigit || x == '.') = true := by
  have hdigits {text : List Char} (h : x ∈ (Decimal.splitDigits text).1) :
      (x.isDigit || x == '.') = true := by
    rw [List.mem_takeWhile_imp h, Bool.true_or]
  unfold numberRun at h
  dsimp only at h
  split at h
  · split at h
    · exact hdigits h
    · rcases List.mem_append.mp h with h | h
      · exact hdigits h
      · rcases List.mem_cons.mp h with rfl | h
        · rfl
        · exact hdigits h
  · exact hdigits h

theorem isIdentifierChar_of_mem_identifierRun {x : Char} (h : x ∈ (identifierRun text).1) :
    isIdentifierChar x = true := by
  induction text with
  | nil => simp [identifierRun] at h
  | cons y rest ih =>
      rw [identifierRun] at h
      split at h
      · rename_i hy
        rw [Bool.and_eq_true] at hy
        rcases List.mem_cons.mp h with rfl | h
        · exact hy.1
        · exact ih h
      · simp at h

-- The first character tells which reader takes over. The tests come in this order, so each case has
-- the failed tests of those before it.
theorem isReadBy_of_readToken {x : Char} {rest : List Char} (hc : c.rest = x :: rest)
    (h : readToken inside c x rest = ⟨.ok t, after⟩) : IsReadBy inside c x t after := by
  rw [readToken] at h
  by_cases hopens : opensReference (x :: rest) = true
  · rw [if_pos hopens] at h
    exact .reference (hc ▸ hopens) h
  rw [if_neg hopens] at h
  by_cases hquote : x = '"' ∨ x = '\''
  · rw [if_pos hquote] at h
    exact .string hquote h
  rw [if_neg hquote] at h
  by_cases hbacktick : x = '\x60'
  · rw [if_pos hbacktick] at h
    exact .template hbacktick h
  rw [if_neg hbacktick] at h
  by_cases hbrace : x = '{'
  · rw [if_pos hbrace] at h
    exact .object hbrace h
  rw [if_neg hbrace] at h
  by_cases hbracket : x = '['
  · rw [if_pos hbracket] at h
    exact .array hbracket h
  rw [if_neg hbracket] at h
  by_cases hdots : "...".toList.isPrefixOf (x :: rest) = true
  · rw [if_pos hdots, Step.mk.injEq, Except.ok.injEq] at h
    obtain ⟨rfl, rfl⟩ := h
    obtain ⟨more, hmore⟩ := List.isPrefixOf_iff_prefix.mp hdots
    have hpasses : c.Passes "...".toList (c.advance 3) :=
      Cursor.passes_advance (hc.trans hmore.symm)
    exact .plain .spread rfl hpasses
  rw [if_neg hdots] at h
  by_cases hpunctuation : x ∈ punctuationChars
  · rw [if_pos hpunctuation, Step.mk.injEq, Except.ok.injEq] at h
    obtain ⟨rfl, rfl⟩ := h
    have hpasses : c.Passes [x] (c.advance 1) := Cursor.passes_advance hc
    exact .plain (.sign hpunctuation) (by rw [String.singleton_eq_ofList]) hpasses
  rw [if_neg hpunctuation] at h
  by_cases hdigit : x.isDigit = true
  · rw [if_pos hdigit, Step.mk.injEq, Except.ok.injEq] at h
    obtain ⟨rfl, rfl⟩ := h
    have hpasses := Cursor.passes_past (hc.trans (eq_of_numberRun (x :: rest)).symm)
    exact .plain (.number hdigit) rfl hpasses
  rw [if_neg hdigit] at h
  by_cases hoperator : isOperatorChar x = true
  · rw [if_pos hoperator] at h
    cases hop : operatorAt? (x :: rest) with
    | none => simp [hop, fail] at h
    | some op =>
        rw [hop, Step.mk.injEq, Except.ok.injEq] at h
        obtain ⟨rfl, rfl⟩ := h
        obtain ⟨more, hmore⟩ := operatorAt?_eq_some hop
        have hpasses : c.Passes op.symbol.toList (c.advance op.symbol.toList.length) :=
          Cursor.passes_advance (hc.trans hmore)
        rw [← hc, hpasses.1] at hop
        exact .plain (.operator op hop) (by rw [String.ofList_toList]) hpasses
  rw [if_neg hoperator] at h
  by_cases hname : isIdentifierChar x = true
  · rw [if_pos hname, Step.mk.injEq, Except.ok.injEq] at h
    obtain ⟨rfl, rfl⟩ := h
    have hpasses := Cursor.passes_past (hc.trans (eq_of_identifierRun (x :: rest)).symm)
    have hrun := IsPlainRun.name hname (Bool.eq_false_iff.mpr hopens)
      (Bool.eq_false_iff.mpr hdigit) (Bool.eq_false_iff.mpr hdots)
    exact .plain hrun rfl hpasses
  · rw [if_neg hname] at h
    simp [fail] at h

end FlowExpr.Token
