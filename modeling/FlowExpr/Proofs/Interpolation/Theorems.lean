import FlowExpr.Proofs.Evaluation
import FlowExpr.Proofs.Extent
import FlowExpr.Proofs.Grammar.Theorems
import FlowExpr.Proofs.Interpolation
import FlowExpr.Proofs.Origin

namespace FlowExpr

namespace Token

-- Every token comes from a reader, and so does every token in it.
theorem IsProduced.throughout {t : Token} (h : IsProduced t) : Throughout IsRead t := by
  induction h with
  | lex h ht => exact readsAll_lexWithin maxNesting _ _ h _ ht
  | next h =>
      obtain ⟨x, rest, hstart, hread⟩ := nextWith_some.mp h
      exact (isReadBy_of_readToken hstart hread).throughout (readsAll_lexWithin _) hstart
  | inside _ hpart ih => exact ih.parts _ hpart

end Token

namespace Template

open Text (Cursor)
open Token (lexWithin spanTokens templateBody)

section Concat

variable {α : Type} {text : α → Except ReferenceFault String}

theorem concat_cons (part : α) (parts : List α) :
    concat text (part :: parts) =
      (text part).bind fun s => (concat text parts).map (s ++ ·) := by
  unfold concat
  rw [List.mapM_cons]
  cases text part with
  | error fault => rfl
  | ok s =>
      cases parts.mapM text with
      | error fault => rfl
      | ok texts => exact congrArg Except.ok String.join_cons

-- What stands before a text is joined to it, where there is a text.
theorem map_empty_append (x : Except ReferenceFault String) : x.map ("" ++ ·) = x := by
  cases x with
  | error fault => rfl
  | ok s => exact congrArg Except.ok String.empty_append

theorem map_append_map (s t : String) (x : Except ReferenceFault String) :
    (x.map (t ++ ·)).map (s ++ ·) = x.map (s ++ t ++ ·) := by
  cases x with
  | error fault => rfl
  | ok u => exact congrArg Except.ok String.append_assoc.symm

end Concat

variable {env : Environment} {locals : Scope}

-- A text is joined to what stands before it, whatever value it is the text of.
theorem evaluate_addPart {first : Tree} {before : Except ReferenceFault String}
    (h : first.evaluate .standard env locals = outcome before) (part : Token) :
    (Tree.operation .add first (Tree.partTree part)).evaluate .standard env locals =
      outcome (before.bind fun s => (partText env locals part).map (s ++ ·)) := by
  rw [Tree.evaluate_operation rfl, h]
  cases before with
  | error fault => rfl
  | ok s =>
      unfold Tree.partTree partText
      by_cases hkind : part.kind = .reference
      · rw [if_pos hkind, if_pos hkind, Tree.evaluate]
        cases env.resolve locals part.raw <;> rfl
      · rw [if_neg hkind, if_neg hkind, Tree.evaluate]
        rfl

-- The sum starts with a text and so stays one, from part to part.
theorem evaluate_addParts {first : Tree} {before : Except ReferenceFault String}
    (h : first.evaluate .standard env locals = outcome before) (parts : List Token) :
    (Tree.addParts first parts).evaluate .standard env locals =
      outcome (before.bind fun s => (concat (partText env locals) parts).map (s ++ ·)) := by
  induction parts generalizing first before with
  | nil =>
      rw [Tree.addParts, List.foldl_nil, h]
      cases before with
      | error fault => rfl
      | ok s => exact congrArg (fun s => outcome (.ok s)) String.append_empty.symm
  | cons part rest ih =>
      have hrest := ih (evaluate_addPart h part)
      rw [Tree.addParts, List.foldl_cons]
      refine hrest.trans ?_
      rw [concat_cons]
      cases before with
      | error fault => rfl
      | ok s =>
          cases partText env locals part with
          | error fault => rfl
          | ok t => exact congrArg outcome (map_append_map s t _).symm

-- Whatever the parts are, the tree of a template joins their texts.
theorem evaluate_templateTree (parts : List Token) :
    (Tree.templateTree parts).evaluate .standard env locals =
      outcome (concat (partText env locals) parts) := by
  have hliteral (s : String) :
      (Tree.literal (.string s)).evaluate .standard env locals = outcome (.ok s) := by
    rw [Tree.evaluate]
    rfl
  cases parts with
  | nil => exact hliteral ""
  | cons first rest =>
      rw [Tree.templateTree]
      by_cases hkind : first.kind = .string
      · have hfirst : partText env locals first = .ok first.value := by
          rw [partText, hkind, if_neg (by decide)]
        rw [if_pos hkind, evaluate_addParts (hliteral _), concat_cons, hfirst]
      · rw [if_neg hkind, evaluate_addParts (hliteral _)]
        exact congrArg outcome (map_empty_append _)

-- A span of text is one part or none, with the same text.
theorem concat_spanTokens (span : List Char) (parts : List Token) :
    concat (partText env locals) (spanTokens span ++ parts) =
      (concat (partText env locals) parts).map (String.ofList span ++ ·) := by
  cases span with
  | nil => exact (map_empty_append _).symm
  | cons c rest => exact concat_cons _ _

theorem concat_addToSpan (c : Char) (span : List Char) (parts : List Token) :
    concat (partText env locals) (spanTokens (c :: span) ++ parts) =
      (concat (partText env locals) (spanTokens span ++ parts)).map (String.singleton c ++ ·) := by
  have hspan : String.ofList (c :: span) = String.singleton c ++ String.ofList span := by
    rw [String.singleton_eq_ofList, ← String.ofList_append]
    rfl
  rw [concat_spanTokens, concat_spanTokens, map_append_map, hspan]

variable {inside : Cursor → Except Token.LexError (List Token)} {c after : Cursor}

-- A reference is read up to the brace that closes it, wherever it stands.
theorem exists_of_readReference_piece {t : Token} (hopens : Token.opensReference c.rest = true)
    (h : Token.readReference inside c = ⟨.ok t, after⟩) :
    ∃ inner, c.Passes ('$' :: '{' :: (inner ++ ['}'])) after ∧
      (∀ text, Token.extent Token.referenceDelimiters 0 none 0 (inner ++ '}' :: text) =
        .closed inner text) ∧
      ∀ env locals, partText env locals t = (Piece.reference inner).text env locals := by
  obtain ⟨rest, hrest⟩ := Token.exists_of_opensReference hopens
  have hopening : c.Passes ['$', '{'] (c.advance 2) := Cursor.passes_advance hrest
  obtain ⟨inner, _, _, hextent, _, _, rfl, rfl⟩ := Token.readReference_eq_ok_iff.mp h
  refine ⟨inner, Token.passes_extent hopening hextent, fun text => ?_, fun env locals => ?_⟩
  · have hskips := Token.Skips.of_extent Token.isProper_reference hextent
    exact hskips.closes Token.isProper_reference text 0 0
  · rw [partText, Token.kind, if_pos rfl]
    rfl

theorem opensReference_of_append {text more : List Char}
    (h : Token.opensReference (text ++ more) = false) : Token.opensReference text = false := by
  rw [Bool.eq_false_iff] at h ⊢
  intro hopens
  obtain ⟨rest, rfl⟩ := Token.exists_of_opensReference hopens
  exact h rfl

-- What is read up to the closing backtick has the text of what is written there.
theorem exists_pieces_of_templateBody {start : Nat} {body : List Char × List Token}
    (h : templateBody inside start c = ⟨.ok body, after⟩) :
    ∃ inner pieces, c.Passes (inner ++ ['\x60']) after ∧ IsDivided inner pieces ∧
      ∀ env locals, concat (partText env locals) (spanTokens body.1 ++ body.2) =
        concat (Piece.text env locals) pieces := by
  fun_induction templateBody inside start c generalizing body after with
  | case1 | case3 => simp [Token.fail] at h
  | case2 c rest hc =>
      simp only [Token.Step.mk.injEq, Except.ok.injEq] at h
      obtain ⟨rfl, rfl⟩ := h
      exact ⟨[], [], Cursor.passes_advance hc, .nil, fun _ _ => rfl⟩
  | case4 c e rest _ _ hc ih =>
      obtain ⟨body', hnext, rfl⟩ := Token.Step.exists_of_map_ok h
      obtain ⟨inner, pieces, hpasses, hinner, htext⟩ := ih hnext
      have hfirst : c.Passes ['\\', e] (c.advance 2) := Cursor.passes_advance hc
      refine ⟨'\\' :: e :: inner, .escape e :: pieces, hfirst.trans hpasses, .escape hinner, ?_⟩
      intro env locals
      rw [concat_cons, ← htext]
      exact concat_addToSpan _ _ _
  | case5 c x rest hc _ _ hopens t next hr ih =>
      obtain ⟨body', hnext, rfl⟩ := Token.Step.exists_of_map_ok h
      obtain ⟨text, pieces, hpasses, htext, hjoined⟩ := ih hnext
      obtain ⟨inner, hfirst, hclosed, ht⟩ := exists_of_readReference_piece (hc ▸ hopens) hr
      refine ⟨'$' :: '{' :: (inner ++ '}' :: text), .reference inner :: pieces, ?_,
        .reference (hclosed text) htext, ?_⟩
      · simpa using hfirst.trans hpasses
      · intro env locals
        rw [concat_cons, ← ht, ← hjoined]
        exact concat_cons _ _
  | case6 => simp at h
  | case7 c x rest hc hend hescape hopens ih =>
      obtain ⟨body', hnext, rfl⟩ := Token.Step.exists_of_map_ok h
      obtain ⟨inner, pieces, hpasses, hinner, htext⟩ := ih hnext
      have hfirst : c.Passes [x] (c.advance 1) := Cursor.passes_advance hc
      -- the lexer has looked past the closing backtick, the division ends there
      have hwhole : x :: rest = (x :: inner) ++ ('\x60' :: after.rest) := by
        simpa [hc] using (hfirst.trans hpasses).1
      have hopens' : Token.opensReference (x :: inner) = false :=
        opensReference_of_append (hwhole ▸ Bool.eq_false_iff.mpr hopens)
      refine ⟨x :: inner, .char x :: pieces, hfirst.trans hpasses,
        .char hend hescape hopens' hinner, ?_⟩
      intro env locals
      rw [concat_cons, ← htext]
      exact concat_addToSpan _ _ _

theorem exists_pieces_of_readTemplate {t : Token} {rest : List Char} (hc : c.rest = '\x60' :: rest)
    (h : Token.readTemplate inside c = ⟨.ok t, after⟩) :
    ∃ inner pieces, t.raw.toList = '\x60' :: inner ++ ['\x60'] ∧ IsDivided inner pieces ∧
      ∀ env locals, concat (partText env locals) t.children =
        concat (Piece.text env locals) pieces := by
  have hopening : c.Passes ['\x60'] (c.advance 1) := Cursor.passes_advance hc
  obtain ⟨span, parts, hbody, rfl⟩ := Token.readTemplate_eq_ok_iff.mp h
  obtain ⟨inner, pieces, hpasses, hinner, htext⟩ := exists_pieces_of_templateBody hbody
  refine ⟨inner, pieces, ?_, hinner, htext⟩
  rw [Token.raw, String.toList_ofList, (hopening.trans hpasses).upTo_eq]
  rfl

-- No other reader returns a template.
theorem exists_readTemplate {t : Token} (h : t.IsRead) (hkind : t.kind = .template) :
    ∃ inside c after rest, c.rest = '\x60' :: rest ∧
      Token.readTemplate inside c = ⟨.ok t, after⟩ := by
  cases h with
  | span ht => simp [ht, Token.plain, Token.kind] at hkind
  | step hc h =>
      cases h with
      | template hx h => exact ⟨_, _, _, _, hx ▸ hc, h⟩
      | reference _ h =>
          obtain ⟨_, _, _, _, _, _, rfl, _⟩ := Token.readReference_eq_ok_iff.mp h
          simp [Token.kind] at hkind
      | string _ h =>
          obtain ⟨_, _, _, _, rfl, _⟩ := Token.readString_eq_ok_iff.mp h
          simp [Token.kind] at hkind
      | object _ h | array _ h =>
          obtain ⟨_, _, _, _, _, rfl, _⟩ := Token.readContainer_eq_ok_iff.mp h
          simp [Token.kind] at hkind
      | plain hrun ht _ =>
          rw [ht] at hkind
          have hcontainer := hrun.kind_cases.2
          simp_all [Token.plain, Token.kind, Token.Kind.isContainer]

-- A template is divided in one way only.
theorem IsDivided.unique {text : List Char} {pieces other : List Piece} (h : IsDivided text pieces)
    (hother : IsDivided text other) : pieces = other := by
  induction h generalizing other with
  | nil =>
      cases hother
      rfl
  | char hend hescape hopens _ ih =>
      cases hother with
      | char _ _ _ hrest => rw [ih hrest]
      | escape => exact absurd rfl hescape
      | reference => simp [Token.opensReference] at hopens
  | escape _ ih =>
      cases hother with
      | char _ hescape => exact absurd rfl hescape
      | escape hrest => rw [ih hrest]
  | reference h _ ih =>
      cases hother with
      | char _ _ hopens => simp [Token.opensReference] at hopens
      | reference h' hrest =>
          obtain ⟨rfl, rfl⟩ := Token.Extent.closed.inj (h.symm.trans h')
          rw [ih hrest]

-- A template is the concatenation of its characters and of the texts of its references' values, in
-- the order in which they are written, or fails as the first of its references that fails.
theorem evaluate_template {t : Token} (ht : t.IsProduced) (hkind : t.kind = .template)
    (hheight : (Tree.templateTree t.children).height ≤ maxNesting) :
    ∃ inner pieces tree, t.raw.toList = '\x60' :: inner ++ ['\x60'] ∧ IsDivided inner pieces ∧
      Tree.parse [t] = .ok tree ∧
        ∀ env locals, tree.evaluate .standard env locals =
          outcome (concat (Piece.text env locals) pieces) := by
  obtain ⟨inside, c, after, rest, hc, htemplate⟩ := exists_readTemplate ht.throughout.here hkind
  obtain ⟨inner, pieces, hraw, hinner, htext⟩ := exists_pieces_of_readTemplate hc htemplate
  have hreads : Tree.Reads [t] (Tree.templateTree t.children) :=
    .leaf (by simp [Tree.leafTree?, hkind])
  refine ⟨inner, pieces, _, hraw, hinner, Tree.parse_eq_ok_iff.mpr ⟨hreads, hheight⟩, ?_⟩
  intro env locals
  rw [evaluate_templateTree, htext]

-- A template of two references, and nothing else.
def twoReferences : Token :=
  let name : Token := .group .reference "a" [.plain .identifier "a"]
  .group .template "`$\x7ba\x7d$\x7ba\x7d`" [name, name]

theorem lex_twoReferences : Token.lex "`$\x7ba\x7d$\x7ba\x7d`" = .ok [twoReferences] := by
  have hname (n : Nat) : lexWithin 255 ⟨['a'], n⟩ = .ok [.plain .identifier "a"] := by
    have hstep : Token.nextWith (lexWithin 254) ⟨['a'], n⟩ =
        ⟨.ok (some (.plain .identifier "a")), ⟨[], n + 1⟩⟩ := rfl
    rw [lexWithin, Token.readAll_some hstep, Token.readAll_end]
    rfl
  have hskips : Token.Skips Token.referenceDelimiters none ['a'] := .plain (by decide)
  have href (rest : List Char) (n : Nat) :
      Token.readReference (lexWithin 255) ⟨'$' :: '{' :: 'a' :: '}' :: rest, n⟩ =
        ⟨.ok (.group .reference "a" [.plain .identifier "a"]), ⟨rest, n + 4⟩⟩ :=
    Token.readReference_of_skips hskips (by decide) (hname _) rest
  have hbody : Token.templateBody (lexWithin 255) 0
      ⟨['$', '{', 'a', '}', '$', '{', 'a', '}', '\x60'], 1⟩ =
        ⟨.ok ([], twoReferences.children), ⟨[], 10⟩⟩ := by
    rw [Token.templateBody_reference rfl (href _ _), Token.templateBody_reference rfl (href _ _),
      Token.templateBody_end rfl]
    rfl
  have htemplate : Token.readTemplate (lexWithin 255)
      (Cursor.start "`$\x7ba\x7d$\x7ba\x7d`".toList) = ⟨.ok twoReferences, ⟨[], 10⟩⟩ :=
    Token.readTemplate_eq_ok_iff.mpr ⟨[], _, hbody, rfl⟩
  have hnext : Token.nextWith (lexWithin 255) (Cursor.start "`$\x7ba\x7d$\x7ba\x7d`".toList) =
      ⟨.ok (some twoReferences), ⟨[], 10⟩⟩ := congrArg (Token.Step.map some) htemplate
  rw [Token.lex, maxNesting, lexWithin, Token.readAll_some hnext, Token.readAll_end]
  rfl

-- Between two references numbers are joined as texts as well.
theorem evaluate_template_numbers :
    ∃ tree, Tree.parse [twoReferences] = .ok tree ∧
      tree.evaluate .standard ⟨[("a", .int 1)], .null⟩ [] = .ok (.string "11") := by
  obtain ⟨inner, pieces, tree, hraw, hinner, hparse, hvalue⟩ :=
    evaluate_template (.lex lex_twoReferences (List.mem_singleton_self _)) rfl (by decide)
  have hreferences : IsDivided ['$', '{', 'a', '}', '$', '{', 'a', '}']
      [.reference ['a'], .reference ['a']] := .reference rfl (.reference rfl .nil)
  obtain rfl : inner = ['$', '{', 'a', '}', '$', '{', 'a', '}'] :=
    List.append_cancel_right (List.cons.inj hraw).2.symm
  obtain rfl := hinner.unique hreferences
  exact ⟨tree, hparse, (hvalue _ _).trans rfl⟩

end Template

end FlowExpr
