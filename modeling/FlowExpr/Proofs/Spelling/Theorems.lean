import FlowExpr.Proofs.Blank
import FlowExpr.Proofs.Spelling.Tokens

namespace FlowExpr.Token

open Text (Cursor)

variable {inside : Cursor → Except LexError (List Token)} {c after : Cursor} {t : Token}

-- Whatever a token starts with, it takes the text that spells it and leaves the rest.
theorem exists_of_readToken (hinside : IsFaithful inside) {x : Char} {rest : List Char}
    (hc : c.rest = x :: rest) (h : readToken inside c x rest = ⟨.ok t, after⟩) :
    ∃ spelling, c.Passes spelling after ∧ IsSpelling spelling t := by
  cases isReadBy_of_readToken hc h with
  | reference hopens h => exact (exists_of_readReference hinside hopens h).2
  | string _ h => exact exists_of_readString hc h
  | template hx h => exact exists_of_readTemplate hinside (hx ▸ hc) h
  | object hx h =>
      have hopening : c.rest = objectDelimiters.opening :: rest := by rw [hc, hx]; rfl
      obtain ⟨inner, children, hinner, rfl, hpasses⟩ :=
        exists_of_readContainer hinside hopening h
      exact ⟨_, hpasses, .object hinner⟩
  | array hx h =>
      have hopening : c.rest = arrayDelimiters.opening :: rest := by rw [hc, hx]; rfl
      obtain ⟨inner, children, hinner, rfl, hpasses⟩ :=
        exists_of_readContainer hinside hopening h
      exact ⟨_, hpasses, .array hinner⟩
  | plain hrun ht hpasses =>
      obtain ⟨hstring, hcontainer⟩ := hrun.kind_cases
      rw [ht]
      exact ⟨_, hpasses, .plain hstring hcontainer hrun.ne_nil⟩

-- One step passes blanks and one token.
theorem exists_of_nextWith (hinside : IsFaithful inside)
    (h : nextWith inside c = ⟨.ok (some t), after⟩) :
    ∃ blank spelling, c.rest = blank ++ (spelling ++ after.rest) ∧
      Text.isBlankText blank = true ∧ IsSpelling spelling t := by
  have hskip : c.rest = c.rest.takeWhile Text.isBlank ++ (c.skipWhile Text.isBlank).rest :=
    (Cursor.passes_skipWhile c Text.isBlank).1
  obtain ⟨x, rest, hstart, hread⟩ := nextWith_some.mp h
  obtain ⟨spelling, hpasses, ht⟩ := exists_of_readToken hinside hstart hread
  rw [hpasses.1] at hskip
  exact ⟨_, spelling, hskip, Text.isBlankText_takeWhile c.rest, ht⟩

theorem isBlankText_of_nextWith (h : nextWith inside c = ⟨.ok none, after⟩) :
    Text.isBlankText c.rest = true := by
  have hskip : c.rest = c.rest.takeWhile Text.isBlank ++ (c.skipWhile Text.isBlank).rest :=
    (Cursor.passes_skipWhile c Text.isBlank).1
  rw [(nextWith_none.mp h).1, List.append_nil] at hskip
  rw [hskip]
  exact Text.isBlankText_takeWhile c.rest

-- Step after step, up to the end of the text.
theorem spells_of_readAll (hinside : IsFaithful inside) {tokens : List Token}
    (h : readAll inside c = .ok tokens) : Spells c.rest tokens := by
  fun_induction readAll inside c generalizing tokens with
  | case1 c t after hnext ih =>
      obtain ⟨rest, hrest, rfl⟩ := Outcome.map_eq_ok_iff.mp h
      obtain ⟨blank, spelling, hc, hblank, ht⟩ := exists_of_nextWith hinside hnext
      rw [hc]
      exact .cons hblank ht (ih hrest)
  | case2 c after hnext =>
      simp only [Except.ok.injEq] at h
      rw [← h]
      exact .nil (isBlankText_of_nextWith hnext)
  | case3 => simp at h

-- The content of a bracket is read with one level less.
theorem isFaithful_lexWithin (levels : Nat) : IsFaithful (lexWithin levels) := by
  induction levels with
  | zero =>
      have hnone : IsFaithful fun body => .error ⟨.nestedTooDeeply, some body.offset⟩ := by
        intro body tokens h
        simp at h
      exact fun c tokens h => spells_of_readAll hnone h
  | succ levels ih => exact fun c tokens h => spells_of_readAll ih h

-- No character of a text is lost and none is invented: the text consists of its tokens, and so does
-- the content of every bracket in it.
theorem spells_of_lex {text : String} {tokens : List Token} (h : lex text = .ok tokens) :
    Spells text.toList tokens :=
  isFaithful_lexWithin maxNesting (Cursor.start text.toList) tokens h

theorem lex_reference : lex "$\x7b a \x7d" =
    .ok [.group .reference "a" [.plain .identifier "a"]] := by
  have hname : nextWith (lexWithin 254) ⟨[' ', 'a', ' '], 2⟩ =
      ⟨.ok (some (.plain .identifier "a")), ⟨[' '], 4⟩⟩ := rfl
  have hblank : nextWith (lexWithin 254) ⟨[' '], 4⟩ = ⟨.ok none, ⟨[], 5⟩⟩ := rfl
  have hinner : lexWithin 255 ⟨[' ', 'a', ' '], 2⟩ = .ok [.plain .identifier "a"] := by
    rw [lexWithin, readAll_some hname, readAll_none hblank]
    rfl
  have hstep : nextWith (lexWithin 255) (Cursor.start "$\x7b a \x7d".toList) =
      ⟨((lexWithin 255 ⟨[' ', 'a', ' '], 2⟩).map (.group .reference "a")).map some, ⟨[], 6⟩⟩ := rfl
  have hend : nextWith (lexWithin 255) ⟨[], 6⟩ = ⟨.ok none, ⟨[], 6⟩⟩ := rfl
  rw [hinner] at hstep
  rw [lex, maxNesting, lexWithin, readAll_some hstep, readAll_none hend]
  rfl

theorem spells_reference :
    Spells "$\x7b a \x7d".toList [.group .reference "a" [.plain .identifier "a"]] :=
  spells_of_lex lex_reference

end FlowExpr.Token
