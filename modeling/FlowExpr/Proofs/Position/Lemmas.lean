import FlowExpr.Proofs.Position
import FlowExpr.Proofs.Spelling.Theorems
import FlowExpr.Proofs.Unlimited.Theorems

namespace FlowExpr.Token

open Text (Cursor)

variable {source text word more rest : List Char} {position p : Nat} {c after body : Cursor}
  {t : Token} {inside : Cursor → Except LexError (List Token)} {e : LexError}

theorem StandsAt.append (h : StandsAt source (word ++ more) position) :
    StandsAt source word position ∧ StandsAt source more (position + word.length) := by
  obtain ⟨before, behind, rfl, rfl⟩ := h
  exact ⟨⟨before, more ++ behind, by simp, rfl⟩, ⟨before ++ word, behind, by simp, by simp⟩⟩

theorem StandsAt.cons {x : Char} (h : StandsAt source (x :: rest) position) :
    StandsAt source [x] position ∧ StandsAt source rest (position + 1) :=
  append h

theorem StandsAt.le_length (h : StandsAt source word position) :
    position + word.length ≤ source.length := by
  obtain ⟨before, behind, rfl, rfl⟩ := h
  simp only [List.length_append]
  omega

theorem standsAt_start (source : List Char) : StandsAt source source 0 :=
  ⟨[], [], by simp, rfl⟩

theorem StandsAt.passes (h : StandsAt source c.rest c.offset) (hpasses : c.Passes word after) :
    StandsAt source after.rest after.offset := by
  rw [hpasses.1] at h
  rw [hpasses.2]
  exact h.append.2

theorem StandsAt.head (h : StandsAt source c.rest c.offset) (word : List Char)
    (hc : c.rest = word ++ rest) :
    StandsAt source word c.offset := by
  rw [hc] at h
  exact h.append.1

theorem StandsAt.advance (h : StandsAt source c.rest c.offset) (word : List Char)
    (hc : c.rest = word ++ rest) :
    StandsAt source (c.advance word.length).rest (c.advance word.length).offset :=
  h.passes (Cursor.passes_advance hc)

theorem Extent.eq_openQuote_of_cons {x : Char} {found : Extent}
    (h : found.cons x = .openQuote p) : found = .openQuote p := by
  cases found with
  | closed => simp [cons] at h
  | openQuote => exact h
  | unclosed => simp [cons] at h

-- The quote that is never closed stands where it was found.
theorem standsAt_of_extent {d : Delimiters} {depth : Nat} {quote : Option (Char × Nat)}
    (htext : StandsAt source text position)
    (hquote : ∀ q start, quote = some (q, start) → ∃ q ∈ d.quotes, StandsAt source [q] start)
    (h : extent d depth quote position text = .openQuote p) :
    ∃ q ∈ d.quotes, StandsAt source [q] p := by
  fun_induction extent d depth quote position text with
  | case1 =>
      obtain rfl := Extent.openQuote.inj h
      exact hquote _ _ rfl
  | case2 => simp at h
  | case3 =>
      obtain rfl := Extent.openQuote.inj h
      exact hquote _ _ rfl
  | case4 depth position e rest q start ih =>
      have hafter := htext.cons.2.cons.2
      exact ih hafter hquote (Extent.eq_openQuote_of_cons (Extent.eq_openQuote_of_cons h))
  | case5 depth position x rest q start hx ih =>
      refine ih htext.cons.2 ?_ (Extent.eq_openQuote_of_cons h)
      intro other place hother
      split at hother
      · simp at hother
      · exact hquote other place hother
  | case6 depth position x rest hx ih =>
      refine ih htext.cons.2 ?_ (Extent.eq_openQuote_of_cons h)
      rintro _ _ ⟨⟩
      exact ⟨x, hx, htext.cons.1⟩
  | case8 => simp at h
  | case7 | case9 | case10 =>
      rename_i ih
      exact ih htext.cons.2 (by simp) (Extent.eq_openQuote_of_cons h)

theorem isFaithful_lexUnlimited : IsFaithful lexUnlimited := by
  intro c tokens h
  rw [← lexWithin_eq_lexUnlimited (Nat.le_refl _)] at h
  exact isFaithful_lexWithin _ c tokens h

-- What follows a token stands where the token ends.
theorem StandsAt.nextWith (hc : StandsAt source c.rest c.offset)
    (h : nextWith lexUnlimited c = ⟨.ok (some t), after⟩) :
    StandsAt source after.rest after.offset := by
  obtain ⟨x, rest, hstart, hread⟩ := nextWith_some.mp h
  obtain ⟨_, hpasses, _⟩ := exists_of_readToken isFaithful_lexUnlimited hstart hread
  exact (hc.passes (Cursor.passes_skipWhile c Text.isBlank)).passes hpasses

theorem StandsAt.readReference (hc : StandsAt source c.rest c.offset)
    (hopens : opensReference c.rest = true)
    (h : readReference lexUnlimited c = ⟨.ok t, after⟩) :
    StandsAt source after.rest after.offset := by
  obtain ⟨_, _, hpasses, _⟩ := exists_of_readReference isFaithful_lexUnlimited hopens h
  exact hc.passes hpasses

-- The text in a bracket stands behind the bracket.
def StandsInBracket (source : List Char) (body : Cursor) : Prop :=
  StandsAt source body.rest body.offset ∧
    ∃ start, body.offset = start + 1 ∧ ∃ bracket ∈ ['{', '['], StandsAt source [bracket] start

theorem Opens.standsInBracket (h : Opens c body) (hc : StandsAt source c.rest c.offset) :
    StandsInBracket source body := by
  cases h with
  | reference hopens hextent =>
      obtain ⟨rest, hrest⟩ := exists_of_opensReference hopens
      have hbody := hc.advance ['$', '{'] hrest
      rw [hrest] at hc
      exact ⟨hbody.head _ (eq_of_extent_closed hextent), c.offset + 1, rfl, '{', by simp,
        hc.cons.2.cons.1⟩
  | object hhead hextent | array hhead hextent =>
      obtain ⟨rest, hrest⟩ := List.head?_eq_some_iff.mp hhead
      have hbody := hc.advance [_] hrest
      rw [hrest] at hc
      exact ⟨hbody.head _ (eq_of_extent_closed hextent), c.offset, rfl, _, by simp, hc.cons.1⟩

theorem TemplateHolds.standsInBracket (h : TemplateHolds c body)
    (hc : StandsAt source c.rest c.offset) : StandsInBracket source body := by
  induction h with
  | reference _ h => exact h.standsInBracket hc
  | escape hrest _ ih => exact ih (hc.advance ['\\', _] hrest)
  | later hopens hread _ ih => exact ih (hc.readReference hopens hread)
  | char hrest _ _ _ _ ih => exact ih (hc.advance [_] hrest)

theorem Holds.standsInBracket (h : Holds c body) (hc : StandsAt source c.rest c.offset) :
    StandsInBracket source body := by
  induction h with
  | bracket h => exact h.standsInBracket (hc.passes (Cursor.passes_skipWhile _ Text.isBlank))
  | template hhead h =>
      obtain ⟨rest, hrest⟩ := List.head?_eq_some_iff.mp hhead
      have hstart := hc.passes (Cursor.passes_skipWhile _ Text.isBlank)
      exact h.standsInBracket (hstart.advance ['\x60'] hrest)
  | later hnext _ ih => exact ih (hc.nextWith hnext)

theorem IsContent.standsAt {levels : Nat} (h : IsContent source levels c) :
    StandsAt source c.rest c.offset := by
  induction h with
  | whole => exact standsAt_start source
  | bracket _ hbody ih => exact (hbody.standsInBracket ih).1

-- An error points at what is to blame for it, or it comes from the content of a bracket.
def Blames (source : List Char) (inside : Cursor → Except LexError (List Token))
    (holds : Cursor → Prop) (e : LexError) : Prop :=
  (∃ position, e.position = some position ∧ PointsAt source position e.fault) ∨
    ∃ body, holds body ∧ inside body = .error e

theorem Blames.mono {holds holds' : Cursor → Prop} (h : Blames source inside holds e)
    (hholds : ∀ body, holds body → holds' body) : Blames source inside holds' e := by
  rcases h with hown | ⟨body, hbody, herror⟩
  · exact .inl hown
  · exact .inr ⟨body, hholds body hbody, herror⟩

theorem blames_fail {holds : Cursor → Prop} {fault : Fault} {α : Type}
    (h : fail fault position c = (⟨.error e, after⟩ : Step α))
    (hfault : PointsAt source position fault) : Blames source inside holds e := by
  obtain rfl := Except.error.inj (Step.mk.inj h).1
  exact .inl ⟨position, rfl, hfault⟩

theorem Step.eq_of_map_error {α β : Type} {s : Step α} {f : α → β}
    (h : s.map f = ⟨.error e, after⟩) : s = ⟨.error e, after⟩ := by
  obtain ⟨result, place⟩ := s
  cases result with
  | ok a => simp [map, Except.map] at h
  | error other =>
      obtain ⟨herror, rfl⟩ := Step.mk.inj h
      rw [Except.error.inj herror]

theorem error_of_map {α β : Type} {x : Except LexError α} {f : α → β} {place : Cursor}
    (h : (⟨x.map f, place⟩ : Step β) = ⟨.error e, after⟩) : x = .error e :=
  (Step.mk.inj (Step.eq_of_map_error (show Step.map f ⟨x, place⟩ = _ from h))).1

section Standing

variable (hc : StandsAt source c.rest c.offset)
include hc

theorem blames_readString {quote : Char} (hquote : quote = '"' ∨ quote = '\'')
    (hhead : c.rest.head? = some quote) {holds : Cursor → Prop}
    (h : readString quote c = ⟨.error e, after⟩) : Blames source inside holds e := by
  obtain ⟨rest, hrest⟩ := List.head?_eq_some_iff.mp hhead
  unfold readString at h
  split at h
  · simp at h
  · refine blames_fail h ⟨quote, ?_, hc.head [quote] hrest⟩
    rcases hquote with rfl | rfl <;> decide

theorem blames_readReference (hopens : opensReference c.rest = true)
    (h : readReference inside c = ⟨.error e, after⟩) : Blames source inside (Opens c) e := by
  obtain ⟨rest, hrest⟩ := exists_of_opensReference hopens
  have hbody := hc.advance ['$', '{'] hrest
  have hopening := hc.head ['$', '{'] hrest
  unfold readReference at h
  dsimp only at h
  split at h
  · rename_i hextent
    split at h
    · exact blames_fail h ⟨c.offset, rfl, hopening⟩
    · exact .inr ⟨_, .reference hopens hextent, error_of_map h⟩
  · rename_i hextent
    obtain ⟨quote, hquote, hplace⟩ := standsAt_of_extent hbody (by simp) hextent
    have hmem : quote ∈ ['"', '\'', '\x60'] := by
      have hsubset : referenceDelimiters.quotes ⊆ ['"', '\'', '\x60'] := by
        simp [referenceDelimiters]
      exact hsubset hquote
    exact blames_fail h ⟨quote, hmem, hplace⟩
  · exact blames_fail h hopening

theorem blames_readContainer {kind : Kind} {d : Delimiters} {fault : Fault}
    (hquotes : d.quotes = ['"', '\'', '\x60']) (hhead : c.rest.head? = some d.opening)
    (hfault : PointsAt source c.offset fault)
    (hopens : ∀ inner rest,
      extent d 0 none (c.advance 1).offset (c.advance 1).rest = .closed inner rest →
        Opens c ⟨inner, (c.advance 1).offset⟩)
    (h : readContainer inside kind d fault c = ⟨.error e, after⟩) :
    Blames source inside (Opens c) e := by
  obtain ⟨rest, hrest⟩ := List.head?_eq_some_iff.mp hhead
  have hbody := hc.advance [d.opening] hrest
  unfold readContainer at h
  dsimp only at h
  split at h
  · rename_i hextent
    exact .inr ⟨_, hopens _ _ hextent, error_of_map h⟩
  · rename_i hextent
    obtain ⟨quote, hquote, hplace⟩ := standsAt_of_extent hbody (by simp) hextent
    exact blames_fail h ⟨quote, hquotes ▸ hquote, hplace⟩
  · exact blames_fail h hfault

end Standing

end FlowExpr.Token
