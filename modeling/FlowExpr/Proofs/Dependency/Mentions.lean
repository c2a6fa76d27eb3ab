import FlowExpr.Proofs.Dependency
import FlowExpr.Proofs.Grammar.Elements
import FlowExpr.Proofs.Grammar.Lemmas
import FlowExpr.Proofs.Spelling

namespace FlowExpr

namespace Token

-- The token is a reference with the path, or it holds one at whatever depth.
inductive Mentions (path : String) : Token → Prop where
  | here {t : Token} (hkind : t.kind = .reference) (hraw : t.raw = path) : Mentions path t
  | inside {part t : Token} (hpart : part ∈ t.children) (h : Mentions path part) :
      Mentions path t

variable {path : String} {spelling : List Char} {t part : Token}

theorem Spells.exists_of_mem {text : List Char} {tokens : List Token} (h : Spells text tokens)
    (ht : t ∈ tokens) :
    ∃ spelling, spelling <:+: text ∧ IsSpelling spelling t := by
  match h with
  | .nil _ => simp at ht
  | @Spells.cons blank spelling rest _ _ _ hspelling hrest =>
      rcases List.mem_cons.mp ht with rfl | ht
      · exact ⟨spelling, ⟨blank, rest, by rw [List.append_assoc]⟩, hspelling⟩
      · obtain ⟨spelling', hinfix, hspelling'⟩ := hrest.exists_of_mem ht
        have hrest' : rest <:+: blank ++ (spelling ++ rest) :=
          ⟨blank ++ spelling, [], by simp⟩
        exact ⟨spelling', hinfix.trans hrest', hspelling'⟩

-- A span of text in a template, which mentions nothing.
def IsSpan (t : Token) : Prop :=
  t.kind = .string ∧ t.children = []

theorem isSpan_of_mem {span : List Char} (h : t ∈ spanTokens span) : IsSpan t := by
  unfold spanTokens at h
  split at h
  · simp at h
  · rw [List.mem_singleton.mp h]
    exact ⟨rfl, rfl⟩

theorem SpellsParts.exists_of_mem {text span : List Char} {parts : List Token}
    (h : SpellsParts text span parts) (ht : t ∈ parts) :
    IsSpan t ∨ ∃ spelling, spelling <:+: text ∧ IsSpelling spelling t := by
  have hlonger (front : List Char) {text : List Char}
      (hpart : IsSpan t ∨ ∃ spelling, spelling <:+: text ∧ IsSpelling spelling t) :
      IsSpan t ∨ ∃ spelling, spelling <:+: front ++ text ∧ IsSpelling spelling t := by
    rcases hpart with hspan | ⟨spelling, hinfix, hspelling⟩
    · exact .inl hspan
    · exact .inr ⟨spelling, List.infix_append_of_infix_right hinfix, hspelling⟩
  match h with
  | .nil => simp at ht
  | @SpellsParts.char c _ _ _ _ hrest => exact hlonger [c] (hrest.exists_of_mem ht)
  | @SpellsParts.escape c _ _ _ hrest =>
      exact hlonger ['\\', c] (hrest.exists_of_mem ht)
  | @SpellsParts.part spelling _ _ _ _ _ hspelling hrest =>
      rcases List.mem_cons.mp ht with rfl | ht
      · exact .inr ⟨spelling, List.infix_append_left, hspelling⟩
      rcases List.mem_append.mp ht with hspan | ht
      · exact .inl (isSpan_of_mem hspan)
      · exact hlonger spelling (hrest.exists_of_mem ht)

-- What a token holds is spelled inside its own text.
theorem IsSpelling.exists_of_mem (h : IsSpelling spelling t) (hpart : part ∈ t.children) :
    IsSpan part ∨ ∃ inner, inner <:+: spelling ∧ IsSpelling inner part := by
  have hinside (front : List Char) {inner back : List Char}
      (hspells : ∃ spelling, spelling <:+: inner ∧ IsSpelling spelling part) :
      ∃ spelling, spelling <:+: front ++ inner ++ back ∧ IsSpelling spelling part := by
    obtain ⟨spelling, hinfix, hspelling⟩ := hspells
    exact ⟨spelling, hinfix.trans ⟨front, back, rfl⟩, hspelling⟩
  cases h with
  | plain | string => simp [Token.plain, children] at hpart
  | reference hinner => exact .inr (hinside ['$', '{'] (hinner.exists_of_mem hpart))
  | object hinner => exact .inr (hinside ['{'] (hinner.exists_of_mem hpart))
  | array hinner => exact .inr (hinside ['['] (hinner.exists_of_mem hpart))
  | template hinner =>
      rcases List.mem_append.mp hpart with hspan | hpart
      · exact .inl (isSpan_of_mem hspan)
      rcases hinner.exists_of_mem hpart with hspan | hspells
      · exact .inl hspan
      · exact .inr (hinside ['\x60'] hspells)

-- The path of every reference that a token mentions stands in the token's text, between `${` and
-- `}`.
theorem IsSpelling.exists_of_mentions (h : IsSpelling spelling t) (hmentions : Mentions path t) :
    ∃ inner, '$' :: '{' :: (inner ++ ['}']) <:+: spelling ∧
      path = String.ofList (Text.trim inner) := by
  induction hmentions generalizing spelling with
  | here hkind hraw =>
      cases h with
      | @reference inner children hinner => exact ⟨inner, List.infix_rfl, hraw.symm⟩
      | plain _ hcontainer => simp_all [Token.plain, Token.kind, Kind.isContainer]
      | string | object | array | template => simp [Token.kind] at hkind
  | inside hpart hmentions ih =>
      rcases h.exists_of_mem hpart with ⟨hkind, hchildren⟩ | ⟨inner, hinfix, hspelling⟩
      · cases hmentions with
        | here hreference => simp [hkind] at hreference
        | inside hmem => simp [hchildren] at hmem
      · obtain ⟨found, hfound, hpath⟩ := ih hspelling
        exact ⟨found, hfound.trans hinfix, hpath⟩

end Token

namespace Tree

variable {path : String}

section Groups

variable {elements : List Element} {values : List Tree}

theorem entriesReferences_zipWith (hlength : elements.length = values.length) :
    entriesReferences (List.zipWith Element.entry elements values) = argsReferences values := by
  induction elements generalizing values with
  | nil =>
      rw [List.eq_nil_of_length_eq_zero hlength.symm]
      rfl
  | cons e rest ih =>
      cases values with
      | nil => simp at hlength
      | cons v more =>
          have hv : entryReferences (e.entry v) = v.references := by cases e <;> rfl
          have hrest := ih (by simpa using hlength)
          rw [List.zipWith_cons_cons, entriesReferences, argsReferences, hv, hrest]

theorem itemsReferences_zipWith (hlength : elements.length = values.length) :
    itemsReferences (List.zipWith Element.item elements values) = argsReferences values := by
  induction elements generalizing values with
  | nil =>
      rw [List.eq_nil_of_length_eq_zero hlength.symm]
      rfl
  | cons e rest ih =>
      cases values with
      | nil => simp at hlength
      | cons v more =>
          have hv : itemReferences (e.item v) = v.references := by cases e <;> rfl
          have hrest := ih (by simpa using hlength)
          rw [List.zipWith_cons_cons, itemsReferences, argsReferences, hv, hrest]

theorem exists_of_mem_argsReferences (hlength : elements.length = values.length)
    (h : path ∈ argsReferences values) :
    ∃ e v, (e, v) ∈ elements.zip values ∧ path ∈ v.references := by
  induction elements generalizing values with
  | nil =>
      rw [List.eq_nil_of_length_eq_zero hlength.symm] at h
      simp [argsReferences] at h
  | cons e rest ih =>
      cases values with
      | nil => simp [argsReferences] at h
      | cons v more =>
          rw [argsReferences] at h
          rcases List.mem_append.mp h with h | h
          · exact ⟨e, v, by simp, h⟩
          · obtain ⟨e', v', hmem, hv⟩ := ih (by simpa using hlength) h
            exact ⟨e', v', List.mem_cons_of_mem _ hmem, hv⟩

end Groups

theorem mem_references_addParts {first : Tree} {parts : List Token}
    (h : path ∈ (addParts first parts).references) :
    path ∈ first.references ∨ ∃ part ∈ parts, Token.Mentions path part := by
  unfold addParts at h
  induction parts generalizing first with
  | nil => exact .inl h
  | cons part rest ih =>
      rcases ih h with h | ⟨part', hmem, hmentions⟩
      · rw [references] at h
        rcases List.mem_append.mp h with h | h
        · exact .inl h
        · unfold partTree at h
          split at h
          · rename_i hkind
            have hpath : path = part.raw := by simpa [references] using h
            exact .inr ⟨part, by simp, .here hkind hpath.symm⟩
          · simp [references] at h
      · exact .inr ⟨part', List.mem_cons_of_mem _ hmem, hmentions⟩

theorem mentions_of_leafTree? {t : Token} {tree : Tree} (h : leafTree? t = some tree)
    (hpath : path ∈ tree.references) : Token.Mentions path t := by
  have hparts {first : Tree} {parts : List Token} (hfirst : first.references = [])
      (hchildren : ∀ part ∈ parts, part ∈ t.children)
      (hmem : path ∈ (addParts first parts).references) : Token.Mentions path t := by
    rcases mem_references_addParts hmem with hmem | ⟨part, hpart, hmentions⟩
    · simp [hfirst] at hmem
    · exact .inside (hchildren part hpart) hmentions
  unfold leafTree? at h
  cases hkind : t.kind <;> simp only [hkind, Option.some.injEq, reduceCtorEq] at h
  case number =>
    obtain ⟨v, _, rfl⟩ := Option.map_eq_some_iff.mp h
    simp [references] at hpath
  case string | identifier =>
    rw [← h] at hpath
    simp [references] at hpath
  case reference =>
    rw [← h] at hpath
    have hraw : path = t.raw := by simpa [references] using hpath
    exact .here hkind hraw.symm
  case template =>
    rw [← h] at hpath
    cases hchildren : t.children with
    | nil => simp [hchildren, templateTree, references] at hpath
    | cons first rest =>
        rw [hchildren, templateTree] at hpath
        split at hpath
        · have hrest : ∀ part ∈ rest, part ∈ t.children := by
            intro part hpart
            rw [hchildren]
            exact List.mem_cons_of_mem first hpart
          exact hparts (by simp [references]) hrest hpath
        · have hall : ∀ part ∈ first :: rest, part ∈ t.children := by
            intro part hpart
            rwa [hchildren]
          exact hparts (by simp [references]) hall hpath

-- Every reference of a tree comes from a token of the run that stands for the tree.
theorem Reads.exists_mentions {run : List Token} {tree : Tree} (h : Reads run tree)
    (hpath : path ∈ tree.references) : ∃ t ∈ run, Token.Mentions path t := by
  have hparts {group : Group} {tokens : List Token} {elements : List Element} {values : List Tree}
      (hsplit : Element.split group tokens = .ok elements)
      (hlength : elements.length = values.length)
      (hvalues : ∀ e v, (e, v) ∈ elements.zip values → path ∈ v.references →
        ∃ t ∈ e.run, Token.Mentions path t)
      (hmem : path ∈ argsReferences values) : ∃ t ∈ tokens, Token.Mentions path t := by
    obtain ⟨e, v, hmem, hv⟩ := exists_of_mem_argsReferences hlength hmem
    obtain ⟨t, ht, hmentions⟩ := hvalues e v hmem hv
    exact ⟨t, Element.mem_of_split hsplit (List.of_mem_zip hmem).1 ht, hmentions⟩
  induction h with
  | @leaf t _ h => exact ⟨t, by simp, mentions_of_leafTree? h hpath⟩
  | @object t _ _ _ hsplit hlength _ ih =>
      rw [references, entriesReferences_zipWith hlength] at hpath
      obtain ⟨part, hpart, hmentions⟩ := hparts hsplit hlength ih hpath
      exact ⟨t, by simp, .inside hpart hmentions⟩
  | @array t _ _ _ hsplit hlength _ ih =>
      rw [references, itemsReferences_zipWith hlength] at hpath
      obtain ⟨part, hpart, hmentions⟩ := hparts hsplit hlength ih hpath
      exact ⟨t, by simp, .inside hpart hmentions⟩
  | call _ _ _ _ hsplit _ hlength _ ih =>
      rw [references] at hpath
      obtain ⟨t, ht, hmentions⟩ := hparts hsplit hlength ih hpath
      exact ⟨t, by simp [ht], hmentions⟩
  | enclosed _ _ _ ih =>
      obtain ⟨t, ht, hmentions⟩ := ih hpath
      exact ⟨t, by simp [ht], hmentions⟩
  | operation _ _ _ _ _ ihleft ihright =>
      rw [references] at hpath
      rcases List.mem_append.mp hpath with hpath | hpath
      · obtain ⟨t, ht, hmentions⟩ := ihleft hpath
        exact ⟨t, by simp [ht], hmentions⟩
      · obtain ⟨t, ht, hmentions⟩ := ihright hpath
        exact ⟨t, by simp [ht], hmentions⟩

end Tree

end FlowExpr
