import FlowExpr.Proofs.Position.Lemmas

namespace FlowExpr.Token

open Outcome (CutsOff Raises)
open Text (Cursor)

variable {source : List Char} {c after : Cursor} {e : LexError}
  {inside : Cursor → Except LexError (List Token)}

section Readers

-- What is read in brackets is cut off by a limit on their nesting at most, and the text that is
-- left stands in the source.
variable (hinside : ∀ body, CutsOff (Raises IsTooDeep) (inside body) (lexUnlimited body))
  (hc : StandsAt source c.rest c.offset)
include hinside hc

theorem blames_templateBody {start : Nat} (hstart : StandsAt source ['\x60'] start)
    (h : templateBody inside start c = ⟨.error e, after⟩) :
    Blames source inside (TemplateHolds c) e := by
  fun_induction templateBody inside start c generalizing after with
  | case1 | case3 => exact blames_fail h hstart
  | case2 => simp at h
  | case4 c x rest _ _ hrest ih =>
      have hnext := ih (hc.advance ['\\', x] hrest) (Step.eq_of_map_error h)
      exact hnext.mono fun _ => .escape hrest
  | case5 c x rest hrest _ _ hopens t next hr ih =>
      have hread := cutsOff_readReference (fun body _ => hinside body) (Nat.le_refl c.rest.length)
      rw [hr] at hread
      rw [← hrest] at hopens
      have hsame := eq_of_cutsOff hread
      have hplace := hc.readReference hopens hsame
      exact (ih hplace (Step.eq_of_map_error h)).mono fun _ => .later hopens hsame
  | case6 c x rest hrest _ _ hopens other next hr =>
      obtain rfl := Except.error.inj (Step.mk.inj h).1
      rw [← hrest] at hopens
      exact (blames_readReference hc hopens hr).mono fun _ => .reference hopens
  | case7 c x rest hrest hend hescape hopens ih =>
      have hnext := ih (hc.advance [x] hrest) (Step.eq_of_map_error h)
      rw [Bool.not_eq_true] at hopens
      exact hnext.mono fun _ => .char hrest hend hescape hopens

-- The first character tells which reader is to blame.
theorem blames_readToken {x : Char} {rest : List Char} (hrest : c.rest = x :: rest)
    (h : readToken inside c x rest = ⟨.error e, after⟩) :
    Blames source inside (fun body => Opens c body ∨
      c.rest.head? = some '\x60' ∧ TemplateHolds (c.advance 1) body) e := by
  have hhead : c.rest.head? = some x := by rw [hrest, List.head?_cons]
  have hplace := hc.head [x] hrest
  rw [readToken] at h
  by_cases hopens : opensReference (x :: rest) = true
  · rw [if_pos hopens] at h
    exact (blames_readReference hc (hrest ▸ hopens) h).mono fun _ => .inl
  rw [if_neg hopens] at h
  by_cases hquote : x = '"' ∨ x = '\''
  · rw [if_pos hquote] at h
    exact blames_readString hc hquote hhead h
  rw [if_neg hquote] at h
  by_cases hbacktick : x = '\x60'
  · rw [if_pos hbacktick] at h
    subst hbacktick
    unfold readTemplate at h
    split at h
    · simp at h
    · rename_i hbody
      obtain rfl := Except.error.inj (Step.mk.inj h).1
      have htemplate := blames_templateBody hinside (hc.advance ['\x60'] hrest) hplace hbody
      exact htemplate.mono fun _ hholds => .inr ⟨hhead, hholds⟩
  rw [if_neg hbacktick] at h
  by_cases hbrace : x = '{'
  · rw [if_pos hbrace] at h
    subst hbrace
    have hfault : PointsAt source c.offset .openObject := hplace
    exact (blames_readContainer hc rfl hhead hfault (fun _ _ => .object hhead) h).mono fun _ => .inl
  rw [if_neg hbrace] at h
  by_cases hbracket : x = '['
  · rw [if_pos hbracket] at h
    subst hbracket
    have hfault : PointsAt source c.offset .openArray := hplace
    exact (blames_readContainer hc rfl hhead hfault (fun _ _ => .array hhead) h).mono fun _ => .inl
  rw [if_neg hbracket] at h
  split at h
  · simp at h
  split at h
  · simp at h
  split at h
  · simp at h
  split at h
  · split at h
    · simp at h
    · exact blames_fail h hplace
  split at h
  · simp at h
  · exact blames_fail h hplace

theorem blames_nextWith (h : nextWith inside c = ⟨.error e, after⟩) :
    Blames source inside (Holds c) e := by
  unfold nextWith at h
  dsimp only at h
  split at h
  · simp at h
  · rename_i hrest
    have hstart := hc.passes (Cursor.passes_skipWhile c Text.isBlank)
    have htoken := blames_readToken hinside hstart hrest (Step.eq_of_map_error h)
    refine htoken.mono fun body hholds => ?_
    rcases hholds with hopens | ⟨hhead, htemplate⟩
    · exact .bracket hopens
    · exact .template hhead htemplate

theorem blames_readAll (h : readAll inside c = .error e) : Blames source inside (Holds c) e := by
  fun_induction readAll inside c with
  | case1 c t after hnext ih =>
      have hstep := cutsOff_nextWith (fun body _ => hinside body) (Nat.le_refl c.rest.length)
      rw [hnext] at hstep
      have hlater : readAll inside after = .error e := by
        cases hrest : readAll inside after with
        | ok tokens => simp [hrest, Except.map] at h
        | error other => simpa [hrest, Except.map] using h
      have hsame := eq_of_cutsOff hstep
      exact (ih (hc.nextWith hsame) hlater).mono fun _ => .later hsame
  | case2 => simp at h
  | case3 c other after hnext =>
      obtain rfl := Except.error.inj h
      exact blames_nextWith hinside hc hnext

end Readers

-- The levels that are left are those that the content of a bracket does not stand in.
theorem pointsAt_of_lexWithin {levels outer : Nat} (houter : outer + levels = maxNesting)
    (hcontent : IsContent source outer c) (h : lexWithin levels c = .error e) :
    ∃ position, e.position = some position ∧ PointsAt source position e.fault := by
  induction levels generalizing outer c with
  | zero =>
      obtain rfl : outer = maxNesting := houter
      have hinside (body : Cursor) :
          CutsOff (Raises IsTooDeep) (.error ⟨.nestedTooDeeply, some body.offset⟩)
            (lexUnlimited body) :=
        .inr ⟨_, ⟨body.offset, rfl⟩, rfl⟩
      rcases blames_readAll hinside hcontent.standsAt h with hown | ⟨body, hbody, herror⟩
      · exact hown
      · obtain rfl := Except.error.inj herror
        obtain ⟨_, start, hstart, hbracket⟩ := hbody.standsInBracket hcontent.standsAt
        exact ⟨body.offset, rfl, body, start, hcontent.bracket hbody, rfl, hstart, hbracket⟩
  | succ levels ih =>
      rcases blames_readAll (cutsOff_lexWithin levels) hcontent.standsAt h with
        hown | ⟨body, hbody, herror⟩
      · exact hown
      · exact ih (by omega) (hcontent.bracket hbody) herror

theorem PointsAt.le_length {position : Nat} {fault : Fault} (h : PointsAt source position fault) :
    position ≤ source.length := by
  cases fault with
  | invalidCharacter | invalidOperator | openReference | openTemplate | openObject | openArray =>
      have hle := StandsAt.le_length h
      omega
  | openString =>
      obtain ⟨_, _, hquote⟩ := h
      have hle := hquote.le_length
      omega
  | emptyReference =>
      obtain ⟨start, rfl, hopening⟩ := h
      exact hopening.le_length
  | nestedTooDeeply =>
      obtain ⟨_, start, _, _, rfl, _, _, hbracket⟩ := h
      exact hbracket.le_length
  | emptyExpression | operatorSequence | bareReference | strayParenthesis | strayBrace
  | strayBracket | openParenthesis => exact h.elim

-- A text that cannot be read is blamed at a position in it, however deep that stands in brackets,
-- and there stands what is to blame.
theorem pointsAt_of_lex {text : String} (h : lex text = .error e) :
    ∃ position, e.position = some position ∧ position ≤ text.length ∧
      PointsAt text.toList position e.fault := by
  obtain ⟨position, hposition, hpoints⟩ :=
    pointsAt_of_lexWithin (Nat.zero_add maxNesting) .whole h
  exact ⟨position, hposition, hpoints.le_length, hpoints⟩

-- A mark that starts no token, in a reference in a template in an array.
def markedTemplate : List Char :=
  ['\x60', '$', '{', '#', '}', '\x60']

theorem lex_markedTemplate :
    lex "[`$\x7b#\x7d`]" = .error ⟨.invalidCharacter '#', some 4⟩ := by
  have hmark : nextWith (lexWithin 253) ⟨['#'], 4⟩ =
      ⟨.error ⟨.invalidCharacter '#', some 4⟩, ⟨['#'], 4⟩⟩ := rfl
  have hpath : lexWithin 254 ⟨['#'], 4⟩ = .error ⟨.invalidCharacter '#', some 4⟩ := by
    rw [lexWithin, readAll_error hmark]
  have hreference : readReference (lexWithin 254) ⟨['$', '{', '#', '}', '\x60'], 2⟩ =
      ⟨(lexWithin 254 ⟨['#'], 4⟩).map (.group .reference "#"), ⟨['\x60'], 6⟩⟩ := rfl
  rw [hpath] at hreference
  have htemplate : readTemplate (lexWithin 254) ⟨markedTemplate, 1⟩ =
      ⟨.error ⟨.invalidCharacter '#', some 4⟩, ⟨['\x60'], 6⟩⟩ := by
    have hbody : templateBody (lexWithin 254) 1 (Cursor.advance ⟨markedTemplate, 1⟩ 1) =
        ⟨.error ⟨.invalidCharacter '#', some 4⟩, ⟨['\x60'], 6⟩⟩ :=
      templateBody_reference_error rfl hreference
    rw [readTemplate, hbody]
  have hcontent : lexWithin 255 ⟨markedTemplate, 1⟩ =
      .error ⟨.invalidCharacter '#', some 4⟩ := by
    have hnext : nextWith (lexWithin 254) ⟨markedTemplate, 1⟩ =
        (readTemplate (lexWithin 254) ⟨markedTemplate, 1⟩).map some := rfl
    rw [htemplate] at hnext
    rw [lexWithin, readAll_error hnext]
  have hchars : "[`$\x7b#\x7d`]".toList = '[' :: markedTemplate ++ [']'] := by decide
  have hstep : nextWith (lexWithin 255) ⟨'[' :: markedTemplate ++ [']'], 0⟩ =
      ⟨((lexWithin 255 ⟨markedTemplate, 1⟩).map
        (.group .array (String.ofList ('[' :: markedTemplate ++ [']'])))).map some, ⟨[], 8⟩⟩ := rfl
  rw [hcontent] at hstep
  rw [lex, hchars, Cursor.start, maxNesting, lexWithin, readAll_error hstep]

-- The mark stands where the error says, four characters into the whole text.
theorem pointsAt_of_lex_markedTemplate :
    lex "[`$\x7b#\x7d`]" = .error ⟨.invalidCharacter '#', some 4⟩ ∧
      4 ≤ "[`$\x7b#\x7d`]".length ∧ StandsAt "[`$\x7b#\x7d`]".toList ['#'] 4 := by
  obtain ⟨position, hposition, hle, hpoints⟩ := pointsAt_of_lex lex_markedTemplate
  obtain rfl : 4 = position := Option.some.inj hposition
  exact ⟨lex_markedTemplate, hle, hpoints⟩

end FlowExpr.Token
