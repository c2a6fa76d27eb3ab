import FlowExpr.Proofs.Reading
import FlowExpr.Proofs.Unlimited

namespace FlowExpr.Token

open Outcome (CutsOff Raises)
open Text (Cursor)

variable {inside inside' : Cursor → Except LexError (List Token)} {p : LexError → Prop}
  {c after next : Cursor} {α β : Type} {n : Nat}

theorem cutsOff_step {x y : Except LexError α} (h : CutsOff (Raises p) x y) (place : Cursor) :
    CutsOff (Step.Raises p) ⟨x, place⟩ ⟨y, place⟩ :=
  h.apply (Step.mk · place) id

theorem cutsOff_map {s s' : Step α} (h : CutsOff (Step.Raises p) s s') (f : α → β) :
    CutsOff (Step.Raises p) (s.map f) (s'.map f) :=
  h.apply (Step.map f) fun hraises => Raises.map hraises f

-- A step that returns something returns the same without being cut off.
theorem eq_of_cutsOff {s' : Step α} {a : α} (h : CutsOff (Step.Raises p) ⟨.ok a, after⟩ s') :
    s' = ⟨.ok a, after⟩ := by
  refine (h.eq_of_not ?_).symm
  rintro ⟨e, _, herror⟩
  cases herror

-- The content of a bracket is shorter than the text that the bracket starts.
theorem length_inner_lt {d : Delimiters} {inner rest : List Char}
    (h : extent d 0 none (c.advance n).offset (c.advance n).rest = .closed inner rest) :
    inner.length < c.rest.length := by
  have hbody := congrArg List.length (eq_of_extent_closed h)
  simp only [Cursor.advance, List.length_drop, List.length_append, List.length_cons] at hbody
  omega

section Readers

-- What is read in brackets is cut off at most, as long as it is shorter than so many characters.
variable (hinside : ∀ body : Cursor, body.rest.length < n →
  CutsOff (Raises p) (inside body) (inside' body))
include hinside

theorem cutsOff_readReference (hc : c.rest.length ≤ n) :
    CutsOff (Step.Raises p) (readReference inside c) (readReference inside' c) := by
  unfold readReference
  dsimp only
  cases hextent : extent referenceDelimiters 0 none (c.advance 2).offset (c.advance 2).rest with
  | openQuote position => exact .refl _
  | unclosed => exact .refl _
  | closed inner rest =>
      dsimp only
      split
      · exact .refl _
      · have hlength := length_inner_lt hextent
        exact cutsOff_step ((hinside ⟨inner, _⟩ (by simp only; omega)).map _) _

theorem cutsOff_readContainer (kind : Kind) (d : Delimiters) (fault : Fault)
    (hc : c.rest.length ≤ n) :
    CutsOff (Step.Raises p) (readContainer inside kind d fault c)
      (readContainer inside' kind d fault c) := by
  unfold readContainer
  dsimp only
  cases hextent : extent d 0 none (c.advance 1).offset (c.advance 1).rest with
  | openQuote position => exact .refl _
  | unclosed => exact .refl _
  | closed inner rest =>
      have hlength := length_inner_lt hextent
      exact cutsOff_step ((hinside ⟨inner, _⟩ (by simp only; omega)).map _) _

theorem cutsOff_templateBody (start : Nat) (hc : c.rest.length ≤ n) :
    CutsOff (Step.Raises p) (templateBody inside start c) (templateBody inside' start c) := by
  fun_induction templateBody inside start c with
  | case1 c hrest =>
      rw [templateBody_nil hrest]
      exact .refl _
  | case2 c rest hrest =>
      rw [templateBody_end hrest]
      exact .refl _
  | case3 c _ hrest =>
      rw [templateBody_backslash hrest]
      exact .refl _
  | case4 c e rest _ _ hrest ih =>
      rw [templateBody_escape hrest]
      refine cutsOff_map (ih ?_) _
      simp only [Cursor.advance, List.length_drop]
      omega
  | case5 c x rest hrest _ _ hopens t next hr ih =>
      have hread := cutsOff_readReference hinside hc
      rw [hr] at hread
      have hlength := readReference_length inside hr
      rw [templateBody_reference (hrest ▸ hopens) (eq_of_cutsOff hread)]
      exact cutsOff_map (ih (by omega)) _
  | case6 c x rest hrest _ _ hopens e next hr =>
      have hread := cutsOff_readReference hinside hc
      rw [hr] at hread
      rcases hread with heq | ⟨_, he, ⟨⟩⟩
      · rw [templateBody_reference_error (hrest ▸ hopens) heq.symm]
        exact .refl _
      · exact .inr ⟨e, he, rfl⟩
  | case7 c x rest hrest hend hescape hopens ih =>
      rw [templateBody_char hrest hend hescape (Bool.eq_false_iff.mpr hopens)]
      refine cutsOff_map (ih ?_) _
      simp only [Cursor.advance, List.length_drop]
      omega

theorem cutsOff_readTemplate (hc : c.rest.length ≤ n) :
    CutsOff (Step.Raises p) (readTemplate inside c) (readTemplate inside' c) := by
  have hbody : (c.advance 1).rest.length ≤ n := by
    simp only [Cursor.advance, List.length_drop]
    omega
  unfold readTemplate
  rcases cutsOff_templateBody hinside c.offset hbody with heq | ⟨e, he, herror⟩
  · rw [heq]
    exact .refl _
  · have hread : templateBody inside c.offset (c.advance 1) =
        ⟨.error e, (templateBody inside c.offset (c.advance 1)).after⟩ := by
      rw [← herror]
    rw [hread]
    exact .inr ⟨e, he, rfl⟩

theorem cutsOff_readToken (x : Char) (rest : List Char) (hc : c.rest.length ≤ n) :
    CutsOff (Step.Raises p) (readToken inside c x rest) (readToken inside' c x rest) := by
  rw [readToken, readToken]
  by_cases hopens : opensReference (x :: rest) = true
  · rw [if_pos hopens, if_pos hopens]
    exact cutsOff_readReference hinside hc
  rw [if_neg hopens, if_neg hopens]
  by_cases hquote : x = '"' ∨ x = '\''
  · rw [if_pos hquote, if_pos hquote]
    exact .refl _
  rw [if_neg hquote, if_neg hquote]
  by_cases hbacktick : x = '\x60'
  · rw [if_pos hbacktick, if_pos hbacktick]
    exact cutsOff_readTemplate hinside hc
  rw [if_neg hbacktick, if_neg hbacktick]
  by_cases hbrace : x = '{'
  · rw [if_pos hbrace, if_pos hbrace]
    exact cutsOff_readContainer hinside _ _ _ hc
  rw [if_neg hbrace, if_neg hbrace]
  by_cases hbracket : x = '['
  · rw [if_pos hbracket, if_pos hbracket]
    exact cutsOff_readContainer hinside _ _ _ hc
  · rw [if_neg hbracket, if_neg hbracket]
    exact .refl _

theorem cutsOff_nextWith (hc : c.rest.length ≤ n) :
    CutsOff (Step.Raises p) (nextWith inside c) (nextWith inside' c) := by
  have hskip := Cursor.length_skipWhile_le c Text.isBlank
  unfold nextWith
  dsimp only
  split
  · exact .refl _
  · exact cutsOff_map (cutsOff_readToken hinside _ _ (by omega)) some

theorem cutsOff_readAll (hc : c.rest.length ≤ n) :
    CutsOff (Raises p) (readAll inside c) (readAll inside' c) := by
  fun_induction readAll inside c with
  | case1 c t after hnext ih =>
      have hstep := cutsOff_nextWith hinside hc
      rw [hnext] at hstep
      have hlength := nextWith_length inside hnext
      rw [readAll_some (eq_of_cutsOff hstep)]
      exact (ih (by omega)).map _
  | case2 c after hnext =>
      have hstep := cutsOff_nextWith hinside hc
      rw [hnext] at hstep
      rw [readAll_none (eq_of_cutsOff hstep)]
      exact .refl _
  | case3 c e after hnext =>
      have hstep := cutsOff_nextWith hinside hc
      rw [hnext] at hstep
      rcases hstep with heq | ⟨_, he, ⟨⟩⟩
      · rw [readAll_error heq.symm]
        exact .refl _
      · exact .inr ⟨e, he, rfl⟩

end Readers

end FlowExpr.Token
