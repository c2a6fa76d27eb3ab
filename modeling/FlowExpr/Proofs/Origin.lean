import FlowExpr.Proofs.Internal
import FlowExpr.Proofs.Spelling.Tokens

namespace FlowExpr.Token

open Text (Cursor)

-- Where a token of a text comes from: it is what a reader has returned, or a span of text in a
-- template.
inductive IsRead (t : Token) : Prop where
  | step {inside : Cursor → Except LexError (List Token)} {c after : Cursor} {x : Char}
      {rest : List Char} (hc : c.rest = x :: rest) (h : IsReadBy inside c x t after) : IsRead t
  | span {text : String} (ht : t = .plain .string text) : IsRead t

-- All that is read in brackets comes from there.
def ReadsAll (inside : Cursor → Except LexError (List Token)) : Prop :=
  ∀ c tokens, inside c = .ok tokens → ∀ t ∈ tokens, Throughout IsRead t

variable {inside : Cursor → Except LexError (List Token)} {c after : Cursor} {t : Token}

theorem Throughout.mono {p q : Token → Prop} (h : Throughout p t) (hpq : ∀ t, p t → q t) :
    Throughout q t := by
  induction h with
  | intro ht _ ih => exact .intro (hpq _ ht) ih

theorem throughout_spanTokens (span : List Char) :
    ∀ t ∈ spanTokens span, Throughout IsRead t := by
  intro t ht
  unfold spanTokens at ht
  split at ht
  · simp at ht
  · rw [List.mem_singleton.mp ht]
    exact .intro (.span rfl) fun _ hpart => absurd hpart List.not_mem_nil

theorem throughout_readReference (hinside : ReadsAll inside) {x : Char} {rest : List Char}
    (hc : c.rest = x :: rest) (hopens : opensReference c.rest = true)
    (h : readReference inside c = ⟨.ok t, after⟩) : Throughout IsRead t := by
  refine .intro (.step hc (.reference hopens h)) ?_
  obtain ⟨_, _, children, _, _, hchildren, rfl, _⟩ := readReference_eq_ok_iff.mp h
  exact hinside _ _ hchildren

theorem throughout_children_readContainer (hinside : ReadsAll inside) {kind : Kind}
    {d : Delimiters} {fault : Fault} (h : readContainer inside kind d fault c = ⟨.ok t, after⟩) :
    ∀ part ∈ t.children, Throughout IsRead part := by
  obtain ⟨_, _, children, _, hchildren, rfl, _⟩ := readContainer_eq_ok_iff.mp h
  exact hinside _ _ hchildren

theorem throughout_templateBody (hinside : ReadsAll inside) {start : Nat}
    {body : List Char × List Token} (h : templateBody inside start c = ⟨.ok body, after⟩) :
    ∀ t ∈ body.2, Throughout IsRead t := by
  fun_induction templateBody inside start c generalizing body after with
  | case1 | case3 => simp [fail] at h
  | case2 =>
      simp only [Step.mk.injEq, Except.ok.injEq] at h
      simp [← h.1]
  | case4 | case7 =>
      rename_i ih
      obtain ⟨body', hnext, rfl⟩ := Step.exists_of_map_ok h
      exact fun t ht => ih hnext t ht
  | case5 c x rest hc _ _ hopens part next hr ih =>
      obtain ⟨body', hnext, rfl⟩ := Step.exists_of_map_ok h
      intro t ht
      rcases List.mem_cons.mp ht with rfl | ht
      · exact throughout_readReference hinside hc (hc ▸ hopens) hr
      rcases List.mem_append.mp ht with ht | ht
      · exact throughout_spanTokens _ t ht
      · exact ih hnext t ht
  | case6 => simp at h

theorem throughout_children_readTemplate (hinside : ReadsAll inside)
    (h : readTemplate inside c = ⟨.ok t, after⟩) :
    ∀ part ∈ t.children, Throughout IsRead part := by
  obtain ⟨span, parts, hbody, rfl⟩ := readTemplate_eq_ok_iff.mp h
  intro part hpart
  rcases List.mem_append.mp hpart with hpart | hpart
  · exact throughout_spanTokens span part hpart
  · exact throughout_templateBody hinside hbody part hpart

-- Whatever reads a token, the tokens in it have been read as well.
theorem IsReadBy.throughout (hinside : ReadsAll inside) {x : Char} {rest : List Char}
    (hc : c.rest = x :: rest) (h : IsReadBy inside c x t after) : Throughout IsRead t := by
  refine .intro (.step hc h) ?_
  cases h with
  | reference hopens h => exact (throughout_readReference hinside hc hopens h).parts
  | string _ h =>
      obtain ⟨_, _, _, _, rfl, _⟩ := readString_eq_ok_iff.mp h
      exact fun _ hpart => absurd hpart List.not_mem_nil
  | template _ h => exact throughout_children_readTemplate hinside h
  | object _ h => exact throughout_children_readContainer hinside h
  | array _ h => exact throughout_children_readContainer hinside h
  | plain _ ht _ =>
      rw [ht]
      exact fun _ hpart => absurd hpart List.not_mem_nil

theorem readsAll_readAll (hinside : ReadsAll inside) : ReadsAll (readAll inside) := by
  intro c tokens h
  fun_induction readAll inside c generalizing tokens with
  | case1 c t after hnext ih =>
      obtain ⟨rest, hrest, rfl⟩ := Outcome.map_eq_ok_iff.mp h
      obtain ⟨x, tail, hstart, hread⟩ := nextWith_some.mp hnext
      intro other hother
      rcases List.mem_cons.mp hother with rfl | hother
      · exact (isReadBy_of_readToken hstart hread).throughout hinside hstart
      · exact ih rest hrest other hother
  | case2 =>
      simp only [Except.ok.injEq] at h
      simp [← h]
  | case3 => simp at h

-- The content of a bracket is read with one level less.
theorem readsAll_lexWithin (levels : Nat) : ReadsAll (lexWithin levels) := by
  induction levels with
  | zero => exact readsAll_readAll fun _ _ h => by simp at h
  | succ levels ih => exact readsAll_readAll ih

end FlowExpr.Token
