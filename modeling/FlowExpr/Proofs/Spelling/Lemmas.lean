import FlowExpr.Proofs.Quoting
import FlowExpr.Proofs.Reading
import FlowExpr.Proofs.Spelling

namespace FlowExpr

namespace Text.Cursor

variable {c next after : Cursor} {run rest : List Char}

theorem Passes.trans {more : List Char} (h : c.Passes run next) (hnext : next.Passes more after) :
    c.Passes (run ++ more) after := by
  refine ⟨?_, ?_⟩
  · rw [h.1, hnext.1, List.append_assoc]
  · have hlength : (run ++ more).length = run.length + more.length := List.length_append
    have hfirst := h.2
    have hsecond := hnext.2
    omega

theorem passes_advance (h : c.rest = run ++ rest) : c.Passes run (c.advance run.length) := by
  refine ⟨?_, rfl⟩
  rw [h, advance, h, List.drop_left]

theorem passes_past (h : c.rest = run ++ rest) : c.Passes run (c.past run rest) :=
  ⟨h, rfl⟩

theorem passes_skipWhile (c : Cursor) (p : Char → Bool) :
    c.Passes (c.rest.takeWhile p) (c.skipWhile p) :=
  ⟨List.takeWhile_append_dropWhile.symm, rfl⟩

theorem Passes.upTo_eq (h : c.Passes run after) : c.upTo after = run := by
  have hlength : after.offset - c.offset = run.length := by
    have hoffset := h.2
    omega
  rw [upTo, hlength, h.1, List.take_left]

end Text.Cursor

namespace Token

open Text (Cursor)

variable {inside : Cursor → Except LexError (List Token)} {c after : Cursor} {t : Token}

-- The text between the quotes of a string.
theorem SpellsParts.of_isQuoted {quote : Char} {inner : List Char} (h : Text.IsQuoted quote inner) :
    SpellsParts inner (Text.decode unescape inner) [] := by
  induction h with
  | nil => exact .nil
  | char hescape _ _ ih =>
      rw [Text.decode_cons_of_ne hescape]
      exact .char hescape ih
  | escape _ ih => exact .escape ih

theorem exists_of_readString {quote : Char} {rest : List Char} (hc : c.rest = quote :: rest)
    (h : readString quote c = ⟨.ok t, after⟩) :
    ∃ spelling, c.Passes spelling after ∧ IsSpelling spelling t := by
  obtain ⟨content, written, more, hbody, rfl, rfl⟩ := readString_eq_ok_iff.mp h
  rw [hc, List.drop_one, List.tail_cons] at hbody
  obtain ⟨inner, hinner, rfl, rfl, rfl⟩ := exists_of_stringBody hbody
  refine ⟨quote :: inner ++ [quote], Cursor.passes_past ?_, .string (.of_isQuoted hinner)⟩
  rw [hc, List.append_assoc]
  rfl

-- Every content that is read in brackets consists of its tokens.
def IsFaithful (inside : Cursor → Except LexError (List Token)) : Prop :=
  ∀ c tokens, inside c = .ok tokens → Spells c.rest tokens

theorem passes_extent {d : Delimiters} {body : Cursor} {opening inner rest : List Char}
    (hopening : c.Passes opening body)
    (h : extent d 0 none body.offset body.rest = .closed inner rest) :
    c.Passes (opening ++ (inner ++ [d.closing])) (body.past (inner ++ [d.closing]) rest) := by
  have hbody : body.rest = (inner ++ [d.closing]) ++ rest := by
    rw [eq_of_extent_closed h, List.append_assoc]
    rfl
  exact hopening.trans (Cursor.passes_past hbody)

theorem exists_of_readReference (hinside : IsFaithful inside)
    (hopens : opensReference c.rest = true) (h : readReference inside c = ⟨.ok t, after⟩) :
    t.kind = .reference ∧ ∃ spelling, c.Passes spelling after ∧ IsSpelling spelling t := by
  obtain ⟨rest, hrest⟩ := exists_of_opensReference hopens
  have hopening : c.Passes ['$', '{'] (c.advance 2) := Cursor.passes_advance hrest
  obtain ⟨inner, _, children, hextent, _, hchildren, rfl, rfl⟩ := readReference_eq_ok_iff.mp h
  have hinner : Spells inner children := hinside _ _ hchildren
  exact ⟨rfl, _, passes_extent hopening hextent, .reference hinner⟩

theorem exists_of_readContainer (hinside : IsFaithful inside) {kind : Kind} {d : Delimiters}
    {fault : Fault} {rest : List Char} (hc : c.rest = d.opening :: rest)
    (h : readContainer inside kind d fault c = ⟨.ok t, after⟩) :
    ∃ inner children, Spells inner children ∧
      t = .group kind (String.ofList (d.opening :: inner ++ [d.closing])) children ∧
      c.Passes (d.opening :: inner ++ [d.closing]) after := by
  have hopening : c.Passes [d.opening] (c.advance 1) := Cursor.passes_advance hc
  obtain ⟨inner, _, children, hextent, hchildren, rfl, rfl⟩ := readContainer_eq_ok_iff.mp h
  have hinner : Spells inner children := hinside _ _ hchildren
  exact ⟨inner, children, hinner, rfl, passes_extent hopening hextent⟩

-- What a template holds, up to its closing backtick.
theorem exists_of_templateBody (hinside : IsFaithful inside) {start : Nat}
    {body : List Char × List Token} (h : templateBody inside start c = ⟨.ok body, after⟩) :
    ∃ inner, c.Passes (inner ++ ['\x60']) after ∧ SpellsParts inner body.1 body.2 := by
  fun_induction templateBody inside start c generalizing body after with
  | case1 => simp [fail] at h
  | case2 c rest hc =>
      simp only [Step.mk.injEq, Except.ok.injEq] at h
      obtain ⟨rfl, rfl⟩ := h
      exact ⟨[], Cursor.passes_advance hc, .nil⟩
  | case3 => simp [fail] at h
  | case4 c e rest _ _ hc ih =>
      obtain ⟨body', hnext, rfl⟩ := Step.exists_of_map_ok h
      obtain ⟨inner, hpasses, hinner⟩ := ih hnext
      have hfirst : c.Passes ['\\', e] (c.advance 2) := Cursor.passes_advance hc
      exact ⟨'\\' :: e :: inner, hfirst.trans hpasses, .escape hinner⟩
  | case5 c x rest hc _ _ hopens t next hr ih =>
      obtain ⟨body', hnext, rfl⟩ := Step.exists_of_map_ok h
      obtain ⟨inner, hpasses, hinner⟩ := ih hnext
      obtain ⟨hkind, spelling, hfirst, ht⟩ := exists_of_readReference hinside (hc ▸ hopens) hr
      refine ⟨spelling ++ inner, ?_, .part hkind ht hinner⟩
      rw [List.append_assoc]
      exact hfirst.trans hpasses
  | case6 => simp at h
  | case7 c x rest hc _ hbackslash _ ih =>
      obtain ⟨body', hnext, rfl⟩ := Step.exists_of_map_ok h
      obtain ⟨inner, hpasses, hinner⟩ := ih hnext
      have hfirst : c.Passes [x] (c.advance 1) := Cursor.passes_advance hc
      exact ⟨x :: inner, hfirst.trans hpasses, .char hbackslash hinner⟩

theorem exists_of_readTemplate (hinside : IsFaithful inside) {rest : List Char}
    (hc : c.rest = '\x60' :: rest) (h : readTemplate inside c = ⟨.ok t, after⟩) :
    ∃ spelling, c.Passes spelling after ∧ IsSpelling spelling t := by
  have hopening : c.Passes ['\x60'] (c.advance 1) := Cursor.passes_advance hc
  obtain ⟨span, parts, hbody, rfl⟩ := readTemplate_eq_ok_iff.mp h
  obtain ⟨inner, hinner, hparts⟩ := exists_of_templateBody hinside hbody
  have hpasses := hopening.trans hinner
  refine ⟨_, hpasses, ?_⟩
  rw [hpasses.upTo_eq]
  exact .template hparts

end Token

end FlowExpr
