import FlowExpr.Proofs.Rereading.Levels

namespace FlowExpr.Token

open Text (Cursor)

variable {inside inside' : Cursor → Except LexError (List Token)} {most : Nat} {c : Cursor}
  {tokens : List Token} {run : List (Token × String)}

-- Every token of a text is read again from its own text, before what leaves it as it is.
theorem isReadAgain_of_mem (hinside : Rereads most inside inside')
    (h : readAll inside c = .ok tokens) (htokens : runNesting tokens ≤ most) :
    ∀ t ∈ tokens, ∃ rest, IsReadAgain inside' t t.spelling.toList rest := by
  fun_induction readAll inside c generalizing tokens with
  | case1 c t after hnext ih =>
      obtain ⟨later, hlater, rfl⟩ := Outcome.map_eq_ok_iff.mp h
      rw [runNesting] at htokens
      obtain ⟨_, _, _, _, _, _, hspelling⟩ := exists_of_nextWith_again hinside hnext (by omega)
      exact List.forall_mem_cons.mpr ⟨⟨_, hspelling⟩, ih hlater (by omega)⟩
  | case2 =>
      simp only [Except.ok.injEq] at h
      simp [← h]
  | case3 => simp at h

theorem toList_spelledOut_cons (t : Token) (blank : String) (run : List (Token × String)) :
    (spelledOut ((t, blank) :: run)).toList =
      t.spelling.toList ++ (blank.toList ++ (spelledOut run).toList) := by
  simp [spelledOut]

theorem readAll_spelledOut
    (hread : ∀ part ∈ run, ∃ rest, IsReadAgain inside part.1 part.1.spelling.toList rest)
    (hblank : ∀ part ∈ run, Text.isBlankText part.2.toList = true)
    (hbetween : ∀ part ∈ run.dropLast, part.2 ≠ "") (place : Nat) :
    readAll inside ⟨(spelledOut run).toList, place⟩ = .ok (run.map Prod.fst) := by
  induction run generalizing place with
  | nil => exact readAll_end
  | cons part run ih =>
      obtain ⟨t, blank⟩ := part
      rw [List.forall_mem_cons] at hread hblank
      obtain ⟨rest, ht⟩ := hread.1
      obtain ⟨hseam, hlater⟩ : IsSeam (blank.toList ++ (spelledOut run).toList) ∧
          ∀ part ∈ run.dropLast, part.2 ≠ "" := by
        have hends := isSeam_of_isBlankText hblank.1
        cases run with
        | nil => exact ⟨by simpa [spelledOut] using hends, by simp⟩
        | cons next later =>
            rw [List.dropLast_cons_of_ne_nil (by simp), List.forall_mem_cons] at hbetween
            obtain ⟨first, more, hmore⟩ := List.exists_cons_of_ne_nil
              (mt String.toList_eq_nil_iff.mp hbetween.1)
            rw [hmore] at hends ⊢
            exact ⟨hends, hbetween.2⟩
      rw [toList_spelledOut_cons, readAll_some (ht _ place (.inl hseam)), readAll_blank hblank.1,
        ih hread.2 hblank.2 hlater]
      rfl

-- The tokens of a text with blanks between them are read as the same tokens: which token it is and
-- what it holds are in the text of the token alone.
theorem lex_spelledOut {text before : String} (h : lex text = .ok (run.map Prod.fst))
    (hbefore : Text.isBlankText before.toList = true)
    (hblank : ∀ part ∈ run, Text.isBlankText part.2.toList = true)
    (hbetween : ∀ part ∈ run.dropLast, part.2 ≠ "") :
    lex (before ++ spelledOut run) = .ok (run.map Prod.fst) := by
  have hread := isReadAgain_of_mem (rereads_lexWithin 255) h (runNesting_le_of_lexWithin h)
  rw [lex, Cursor.start, String.toList_append]
  apply (readAll_blank hbefore _ 0).trans
  apply readAll_spelledOut _ hblank hbetween
  exact fun part hpart => hread part.1 (List.mem_map_of_mem hpart)

-- A path with blanks around it, a number before two dots more than it can take, and a name.
theorem lex_spread : lex "$\x7b a \x7d1...x" =
    .ok [.group .reference "a" [.plain .identifier "a"], .plain .number "1",
      .plain .punctuation "...", .plain .identifier "x"] := by
  have hname : nextWith (lexWithin 254) ⟨[' ', 'a', ' '], 2⟩ =
      ⟨.ok (some (.plain .identifier "a")), ⟨[' '], 4⟩⟩ := rfl
  have hblank : nextWith (lexWithin 254) ⟨[' '], 4⟩ = ⟨.ok none, ⟨[], 5⟩⟩ := rfl
  have hinner : lexWithin 255 ⟨[' ', 'a', ' '], 2⟩ = .ok [.plain .identifier "a"] := by
    rw [lexWithin, readAll_some hname, readAll_none hblank]
    rfl
  have hstep : nextWith (lexWithin 255) (Cursor.start "$\x7b a \x7d1...x".toList) =
      ⟨((lexWithin 255 ⟨[' ', 'a', ' '], 2⟩).map (.group .reference "a")).map some,
        ⟨['1', '.', '.', '.', 'x'], 6⟩⟩ := rfl
  have hnumber : nextWith (lexWithin 255) ⟨['1', '.', '.', '.', 'x'], 6⟩ =
      ⟨.ok (some (.plain .number "1")), ⟨['.', '.', '.', 'x'], 7⟩⟩ := rfl
  have hdots : nextWith (lexWithin 255) ⟨['.', '.', '.', 'x'], 7⟩ =
      ⟨.ok (some (.plain .punctuation "...")), ⟨['x'], 10⟩⟩ := rfl
  have hlast : nextWith (lexWithin 255) ⟨['x'], 10⟩ =
      ⟨.ok (some (.plain .identifier "x")), ⟨[], 11⟩⟩ := rfl
  rw [hinner] at hstep
  rw [lex, maxNesting, lexWithin, readAll_some hstep, readAll_some hnumber, readAll_some hdots,
    readAll_some hlast, readAll_end]
  rfl

theorem lex_spelledOut_spread :
    let run : List (Token × String) :=
      [(.group .reference "a" [.plain .identifier "a"], " "), (.plain .number "1", "\n"),
        (.plain .punctuation "...", "  "), (.plain .identifier "x", "")]
    lex ("\t" ++ spelledOut run) =
      .ok [.group .reference "a" [.plain .identifier "a"], .plain .number "1",
        .plain .punctuation "...", .plain .identifier "x"] := by
  intro run
  have hrun : lex "$\x7b a \x7d1...x" = .ok (run.map Prod.fst) := lex_spread
  exact lex_spelledOut hrun (by decide) (by decide) (by decide)

end FlowExpr.Token
