import FlowExpr.Proofs.Rereading.Tokens
import FlowExpr.Proofs.Spelling.Theorems

namespace FlowExpr.Token

open Text (Cursor)

variable {inside inside' : Cursor → Except LexError (List Token)} {most levels : Nat}
  {c after : Cursor} {t : Token} {tokens : List Token} {before text behind other : List Char}

theorem isSeam_of_isBlankText {blank : List Char} (h : Text.isBlankText blank = true) :
    IsSeam blank := by
  intro c hc
  have hblank := List.all_eq_true.mp h c (List.mem_of_mem_head? hc)
  have hchar : isIdentifierChar c = false := by
    rw [Bool.eq_false_iff]
    intro hchar
    rw [isBlank_of_isIdentifierChar hchar] at hblank
    simp at hblank
  have hoperator : isOperatorChar c = false := by
    have hmarks : "=!<>&|?+-*/%".toList.any Text.isBlank = false := by decide
    rw [Bool.eq_false_iff]
    intro hoperator
    have hmem : c ∈ "=!<>&|?+-*/%".toList := by simpa [isOperatorChar] using hoperator
    exact Text.not_mem_of_kind hmarks hblank hmem
  have hbrace : (c == '{') = false := by
    rw [beq_eq_false_iff_ne]
    rintro rfl
    exact absurd hblank (by decide)
  rw [extendsToken, hchar, hoperator, hbrace]
  rfl

-- A text that ends in no blank is over before the blanks at the end of a longer one.
theorem exists_of_append_eq {run rest : List Char}
    (hrun : ∃ e ∈ run.getLast?, Text.isBlank e = false) (hbehind : Text.isBlankText behind = true)
    (h : before ++ (run ++ rest) = text ++ behind) :
    ∃ more, text = before ++ (run ++ more) ∧ rest = more ++ behind := by
  rw [← List.append_assoc] at h
  rcases List.append_eq_append_iff.mp h with ⟨more, htext, hrest⟩ | ⟨more, hmore, hblank⟩
  · exact ⟨more, by rw [htext, List.append_assoc], hrest⟩
  · obtain ⟨e, he, hfalse⟩ := hrun
    have hlast := congrArg List.getLast? hmore
    rw [List.getLast?_append, List.getLast?_append, Option.mem_def.mp he, Option.some_or] at hlast
    cases hend : more.getLast? with
    | none =>
        obtain rfl : more = [] := List.getLast?_eq_none_iff.mp hend
        rw [List.append_nil] at hmore
        exact ⟨[], by rw [List.append_nil, hmore], by simp [hblank]⟩
    | some y =>
        rw [hend, Option.some_or] at hlast
        obtain rfl : e = y := Option.some.inj hlast
        have hmem : e ∈ behind := hblank ▸ List.mem_append_left rest (List.mem_of_getLast? hend)
        rw [List.all_eq_true.mp hbehind e hmem] at hfalse
        simp at hfalse

-- A text with blanks behind it has its tokens also before anything else that no token goes on in.
theorem readAll_again (hinside : Rereads most inside inside')
    (hbehind : Text.isBlankText behind = true) (hc : c.rest = text ++ behind)
    (h : readAll inside c = .ok tokens) (htokens : runNesting tokens ≤ most)
    (hother : IsSeam other) (place : Nat) :
    readAll inside' ⟨text ++ other, place⟩ =
      (readAll inside' ⟨other, place + text.length⟩).map (tokens ++ ·) := by
  fun_induction readAll inside c generalizing text place tokens with
  | case1 c t after hnext ih =>
      obtain ⟨rest, hrest, rfl⟩ := Outcome.map_eq_ok_iff.mp h
      rw [runNesting] at htokens
      obtain ⟨blank, run, hstart, hblank, hlast, hagain, -⟩ :=
        exists_of_nextWith_again hinside hnext (by omega)
      obtain ⟨more, rfl, hafter⟩ :=
        exists_of_append_eq hlast hbehind (hstart.symm.trans hc)
      have hseam : StandsFor (more ++ other) after.rest := by
        rw [hafter]
        exact .append more hother (isSeam_of_isBlankText hbehind)
      have hlater := ih hafter hrest (by omega) (place + blank.length + run.length)
      rw [List.append_assoc, readAll_blank hblank, List.append_assoc,
        readAll_some (hagain _ _ hseam), hlater]
      have hplace : place + blank.length + run.length + more.length =
          place + (blank ++ (run ++ more)).length := by
        simp only [List.length_append]
        omega
      rw [hplace]
      cases readAll inside' ⟨other, place + (blank ++ (run ++ more)).length⟩ <;> rfl
  | case2 c after hnext =>
      simp only [Except.ok.injEq] at h
      have hblank := isBlankText_of_nextWith hnext
      rw [hc, Text.isBlankText, List.all_append, Bool.and_eq_true] at hblank
      rw [readAll_blank hblank.1, ← h]
      cases readAll inside' ⟨other, place + text.length⟩ <;> rfl
  | case3 => simp at h

theorem readAll_trimmed (hinside : Rereads most inside inside')
    (hbefore : Text.isBlankText before = true) (hbehind : Text.isBlankText behind = true)
    {offset : Nat} (h : readAll inside ⟨before ++ (text ++ behind), offset⟩ = .ok tokens)
    (htokens : runNesting tokens ≤ most) (place : Nat) :
    readAll inside' ⟨text, place⟩ = .ok tokens := by
  rw [readAll_blank hbefore] at h
  have hseam : IsSeam [] := by simp [IsSeam]
  have hread := readAll_again hinside hbehind rfl h htokens hseam place
  rw [List.append_nil, readAll_end] at hread
  simpa [Except.map] using hread

-- A text needs no more levels than its tokens have, and it has the same tokens wherever it stands,
-- without blanks at its ends too.
theorem lexWithin_trimmed {offset : Nat} (hbefore : Text.isBlankText before = true)
    (hbehind : Text.isBlankText behind = true)
    (h : lexWithin levels ⟨before ++ (text ++ behind), offset⟩ = .ok tokens)
    (htokens : runNesting tokens ≤ most) (place : Nat) :
    lexWithin most ⟨text, place⟩ = .ok tokens := by
  induction most generalizing levels before text behind offset tokens place with
  | zero =>
      have hnone (inside inside' : Cursor → Except LexError (List Token)) :
          Rereads 0 inside inside' :=
        fun _ _ _ _ _ _ _ _ hlt => absurd hlt (Nat.not_lt_zero _)
      cases levels with
      | zero => exact readAll_trimmed (hnone _ _) hbefore hbehind h htokens place
      | succ levels => exact readAll_trimmed (hnone _ _) hbefore hbehind h htokens place
  | succ most ih =>
      cases levels with
      | zero =>
          refine readAll_trimmed ?_ hbefore hbehind h htokens place
          intro _ _ _ _ _ _ _ hnone
          simp at hnone
      | succ levels =>
          have hinside : Rereads (most + 1) (lexWithin levels) (lexWithin most) :=
            fun _ _ _ _ _ hbefore hbehind hinner hlt place =>
              ih hbefore hbehind hinner (Nat.le_of_lt_succ hlt) place
          exact readAll_trimmed hinside hbefore hbehind h htokens place

theorem rereads_lexWithin (levels : Nat) :
    Rereads (levels + 1) (lexWithin levels) (lexWithin levels) :=
  fun _ _ _ _ _ hbefore hbehind h hlt place =>
    lexWithin_trimmed hbefore hbehind h (Nat.le_of_lt_succ hlt) place

section Bound

-- The tokens of every inner text have fewer brackets than so many in one another.
variable (hinside : ∀ c tokens, inside c = .ok tokens → runNesting tokens < most)
include hinside

theorem nesting_le_of_readReference (h : readReference inside c = ⟨.ok t, after⟩) :
    t.nesting ≤ most := by
  obtain ⟨_, _, children, -, -, hchildren, rfl, -⟩ := readReference_eq_ok_iff.mp h
  exact hinside _ _ hchildren

theorem nesting_le_of_readContainer {kind : Kind} {d : Delimiters} {fault : Fault}
    (h : readContainer inside kind d fault c = ⟨.ok t, after⟩) : t.nesting ≤ most := by
  obtain ⟨_, _, children, -, hchildren, rfl, -⟩ := readContainer_eq_ok_iff.mp h
  have hlt := hinside _ _ hchildren
  rw [nesting]
  split <;> omega

theorem runNesting_le_of_templateBody {start : Nat} {body : List Char × List Token}
    (h : templateBody inside start c = ⟨.ok body, after⟩) : runNesting body.2 ≤ most := by
  fun_induction templateBody inside start c generalizing body after with
  | case1 | case3 => simp [fail] at h
  | case2 =>
      simp only [Step.mk.injEq, Except.ok.injEq] at h
      rw [← h.1]
      exact Nat.zero_le most
  | case4 _ _ _ _ _ _ ih | case7 _ _ _ _ _ _ _ ih =>
      obtain ⟨_, hnext, rfl⟩ := Step.exists_of_map_ok h
      have hbound := ih hnext
      exact hbound
  | case5 _ _ _ _ _ _ _ _ _ hr ih =>
      obtain ⟨_, hnext, rfl⟩ := Step.exists_of_map_ok h
      rw [addReference, runNesting, runNesting_spanTokens]
      exact Nat.max_le.mpr ⟨nesting_le_of_readReference hinside hr, ih hnext⟩
  | case6 => simp at h

theorem nesting_le_of_readToken {x : Char} {rest : List Char} (hc : c.rest = x :: rest)
    (h : readToken inside c x rest = ⟨.ok t, after⟩) : t.nesting ≤ most := by
  cases isReadBy_of_readToken hc h with
  | reference _ h => exact nesting_le_of_readReference hinside h
  | string _ h =>
      obtain ⟨_, _, _, -, rfl, -⟩ := readString_eq_ok_iff.mp h
      exact Nat.zero_le most
  | template _ h =>
      obtain ⟨_, _, hbody, rfl⟩ := readTemplate_eq_ok_iff.mp h
      rw [nesting, runNesting_spanTokens]
      exact runNesting_le_of_templateBody hinside hbody
  | object _ h => exact nesting_le_of_readContainer hinside h
  | array _ h => exact nesting_le_of_readContainer hinside h
  | plain _ ht _ =>
      rw [ht]
      exact Nat.zero_le most

theorem runNesting_le_of_readAll (h : readAll inside c = .ok tokens) :
    runNesting tokens ≤ most := by
  fun_induction readAll inside c generalizing tokens with
  | case1 c t after hnext ih =>
      obtain ⟨rest, hrest, rfl⟩ := Outcome.map_eq_ok_iff.mp h
      obtain ⟨x, _, hstart, hread⟩ := nextWith_some.mp hnext
      exact Nat.max_le.mpr ⟨nesting_le_of_readToken hinside hstart hread, ih hrest⟩
  | case2 =>
      simp only [Except.ok.injEq] at h
      rw [← h]
      exact Nat.zero_le most
  | case3 => simp at h

end Bound

-- The brackets of a text never stand deeper in one another than there are levels.
theorem runNesting_le_of_lexWithin (h : lexWithin levels c = .ok tokens) :
    runNesting tokens ≤ levels := by
  induction levels generalizing c tokens with
  | zero =>
      apply runNesting_le_of_readAll _ h
      intro _ _ hnone
      simp at hnone
  | succ levels ih =>
      exact runNesting_le_of_readAll (fun _ _ hinner => Nat.lt_succ_of_le (ih hinner)) h

end FlowExpr.Token
