import FlowExpr.Proofs.Extent
import FlowExpr.Proofs.Rereading.Runs

namespace FlowExpr.Token

open Text (Cursor)

variable {inside inside' : Cursor → Except LexError (List Token)} {most : Nat} {c after : Cursor}
  {t : Token}

theorem runNesting_append (run more : List Token) :
    runNesting (run ++ more) = max (runNesting run) (runNesting more) := by
  induction run with
  | nil => simp [runNesting]
  | cons t rest ih => rw [List.cons_append, runNesting, runNesting, ih, Nat.max_assoc]

theorem runNesting_spanTokens (span : List Char) (parts : List Token) :
    runNesting (spanTokens span ++ parts) = runNesting parts := by
  have hspan : runNesting (spanTokens span) = 0 := by
    unfold spanTokens
    split <;> rfl
  rw [runNesting_append, hspan, Nat.zero_max]

theorem isReadAgain_string {quote : Char} {rest : List Char} (hquote : quote = '"' ∨ quote = '\'')
    (hc : c.rest = quote :: rest) (h : readString quote c = ⟨.ok t, after⟩) :
    t.kind = .string ∧ c.Passes t.raw.toList after ∧ t.raw.toList.getLast? = some quote ∧
      IsReadAgain inside' t t.raw.toList after.rest := by
  obtain ⟨content, written, more, hbody, rfl, rfl⟩ := readString_eq_ok_iff.mp h
  rw [hc, List.drop_one, List.tail_cons] at hbody
  obtain ⟨inner, hinner, rfl, rfl, rfl⟩ := exists_of_stringBody hbody
  have hraw : (text .string (String.ofList (quote :: (inner ++ [quote])))
      (String.ofList (Text.decode unescape inner))).raw.toList = quote :: (inner ++ [quote]) :=
    String.toList_ofList
  rw [hraw]
  refine ⟨rfl, Cursor.passes_past ?_, ?_, ?_⟩
  · simp [hc]
  · rw [← List.cons_append, List.getLast?_concat]
  · intro other place _
    have hescape : quote ≠ '\\' := by
      rcases hquote with rfl | rfl <;> decide
    have hagain : stringBody quote (inner ++ [quote] ++ other) =
        some (Text.decode unescape inner, inner ++ [quote], other) := by
      rw [List.append_assoc]
      exact stringBody_of_isQuoted hescape hinner other
    have hread : readString quote ⟨quote :: (inner ++ [quote] ++ other), place⟩ =
        ⟨.ok _, ⟨other, _⟩⟩ :=
      readString_eq_ok_iff.mpr ⟨_, _, other, hagain, rfl, rfl⟩
    rcases hquote with rfl | rfl
    · rw [List.cons_append, nextWith_of_not_isBlank rfl]
      exact congrArg (Step.map some) hread
    · rw [List.cons_append, nextWith_of_not_isBlank rfl]
      exact congrArg (Step.map some) hread

theorem isPlain_of_isBlank {blank : List Char} (h : Text.isBlankText blank = true) :
    ∀ c ∈ blank, IsPlain referenceDelimiters c :=
  fun c hc => isPlain_of_kind (by decide) (List.all_eq_true.mp h c hc)

-- A reference is read again without blanks at the ends of its path.
theorem readReference_again (hinside : Rereads most inside inside')
    (hopens : opensReference c.rest = true) (h : readReference inside c = ⟨.ok t, after⟩)
    (ht : t.nesting ≤ most) :
    ∃ inner children, t = .group .reference (String.ofList (Text.trim inner)) children ∧
      c.Passes ('$' :: '{' :: inner ++ ['}']) after ∧
      ∀ before core behind, Text.isBlankText before = true → Text.isBlankText behind = true →
        inner = before ++ (core ++ behind) → ∀ other place,
          readReference inside' ⟨'$' :: '{' :: (core ++ '}' :: other), place⟩ =
            ⟨.ok t, ⟨other, place + 2 + (core ++ ['}']).length⟩⟩ := by
  obtain ⟨rest, hrest⟩ := exists_of_opensReference hopens
  have hopening : c.Passes ['$', '{'] (c.advance 2) := Cursor.passes_advance hrest
  obtain ⟨inner, _, children, hextent, hpath, hchildren, rfl, rfl⟩ := readReference_eq_ok_iff.mp h
  refine ⟨inner, children, rfl, passes_extent hopening hextent, ?_⟩
  rintro before core behind hbefore hbehind rfl other place
  rw [Text.trim_append hbefore hbehind] at hpath ⊢
  have hskips := Skips.of_extent_plain isProper_reference (isPlain_of_isBlank hbefore)
    (isPlain_of_isBlank hbehind) hextent
  have hinner := hinside before core behind hbefore hbehind hchildren ht (place + 2)
  exact readReference_of_skips hskips hpath hinner other

theorem isReadAgain_reference (hinside : Rereads most inside inside')
    (hopens : opensReference c.rest = true) (h : readReference inside c = ⟨.ok t, after⟩)
    (ht : t.nesting ≤ most) :
    ∃ inner, c.Passes ('$' :: '{' :: inner ++ ['}']) after ∧
      IsReadAgain inside' t ('$' :: '{' :: inner ++ ['}']) after.rest ∧
      IsReadAgain inside' t t.spelling.toList after.rest := by
  obtain ⟨inner, _, ht', hpasses, hread⟩ := readReference_again hinside hopens h ht
  have hagain (before core behind : List Char) (hbefore : Text.isBlankText before = true)
      (hbehind : Text.isBlankText behind = true) (hinner : inner = before ++ (core ++ behind)) :
      IsReadAgain inside' t ('$' :: '{' :: core ++ ['}']) after.rest := by
    intro other place _
    have hcore := hread before core behind hbefore hbehind hinner other place
    have hnext := nextWith_of_readReference hcore
    simpa [Nat.add_assoc, Nat.add_comm, Nat.add_left_comm] using hnext
  obtain ⟨before, behind, hinner, hbefore, hbehind⟩ := Text.exists_of_trim inner
  have hspelling : t.spelling.toList = '$' :: '{' :: Text.trim inner ++ ['}'] := by
    rw [ht', spelling]
    simp
  refine ⟨inner, hpasses, hagain [] inner [] rfl rfl (by simp), ?_⟩
  rw [hspelling]
  exact hagain before _ behind hbefore hbehind hinner

theorem isReadAgain_container (hinside : Rereads most inside inside') {kind : Kind} {d : Delimiters}
    {fault : Fault} {rest : List Char} (hd : d.IsProper) (hkind : kind ≠ .template)
    (hblank : Text.isBlank d.opening = false)
    (hcontainer : ∀ c rest,
      readToken inside' c d.opening rest = readContainer inside' kind d fault c)
    (hc : c.rest = d.opening :: rest) (h : readContainer inside kind d fault c = ⟨.ok t, after⟩)
    (ht : t.nesting ≤ most) :
    t.kind = kind ∧ c.Passes t.raw.toList after ∧ t.raw.toList.getLast? = some d.closing ∧
      IsReadAgain inside' t t.raw.toList after.rest := by
  have hopening : c.Passes [d.opening] (c.advance 1) := Cursor.passes_advance hc
  obtain ⟨inner, _, children, hextent, hchildren, rfl, rfl⟩ := readContainer_eq_ok_iff.mp h
  have hraw : (group kind (String.ofList (d.opening :: inner ++ [d.closing])) children).raw.toList =
      d.opening :: inner ++ [d.closing] := String.toList_ofList
  rw [nesting, if_neg hkind] at ht
  rw [hraw]
  refine ⟨rfl, passes_extent hopening hextent, List.getLast?_concat, ?_⟩
  intro other place _
  have hinner := hinside [] inner [] rfl rfl (by simpa using hchildren) ht
  have hnext := nextWith_enclosed hd hblank hcontainer (Skips.of_extent hd hextent)
    (hinner (place + 1)) other
  simpa [Nat.add_assoc, Nat.add_comm, Nat.add_left_comm] using hnext

-- What stands in a template is read again, wherever it stands and whatever follows its end.
theorem templateBody_again (hinside : Rereads most inside inside') {start : Nat}
    {body : List Char × List Token} (h : templateBody inside start c = ⟨.ok body, after⟩)
    (hparts : runNesting body.2 ≤ most) :
    ∃ run, c.Passes (run ++ ['\x60']) after ∧ ∀ start' other place,
      templateBody inside' start' ⟨run ++ '\x60' :: other, place⟩ =
        ⟨.ok body, ⟨other, place + (run ++ ['\x60']).length⟩⟩ := by
  fun_induction templateBody inside start c generalizing body after with
  | case1 => simp [fail] at h
  | case2 c rest hc =>
      simp only [Step.mk.injEq, Except.ok.injEq] at h
      obtain ⟨rfl, rfl⟩ := h
      exact ⟨[], Cursor.passes_advance hc, fun _ _ _ => templateBody_end rfl⟩
  | case3 => simp [fail] at h
  | case4 c e rest _ _ hc ih =>
      obtain ⟨body', hnext, rfl⟩ := Step.exists_of_map_ok h
      obtain ⟨run, hpasses, hrun⟩ := ih hnext hparts
      have hfirst : c.Passes ['\\', e] (c.advance 2) := Cursor.passes_advance hc
      refine ⟨'\\' :: e :: run, hfirst.trans hpasses, fun start' other place => ?_⟩
      have hrest := hrun start' other (place + 2)
      rw [List.cons_append, List.cons_append, templateBody_escape rfl]
      simp only [Cursor.advance, List.drop_succ_cons, List.drop_zero]
      rw [hrest]
      simp only [Step.map, Except.map, List.length_append, List.length_cons, List.length_nil,
        Step.mk.injEq, Cursor.mk.injEq, true_and]
      omega
  | case5 c x rest hc _ _ hopens t next hr ih =>
      obtain ⟨body', hnext, rfl⟩ := Step.exists_of_map_ok h
      rw [addReference, runNesting, runNesting_spanTokens] at hparts
      obtain ⟨run, hpasses, hrun⟩ := ih hnext (by omega)
      obtain ⟨inner, -, -, hfirst, hread⟩ := readReference_again hinside (hc ▸ hopens) hr (by omega)
      refine ⟨'$' :: '{' :: inner ++ ['}'] ++ run, ?_, fun start' other place => ?_⟩
      · rw [List.append_assoc]
        exact hfirst.trans hpasses
      · have hreference := hread [] inner [] rfl rfl (by simp) (run ++ '\x60' :: other) place
        have hstep : templateBody inside' start'
            ⟨'$' :: '{' :: (inner ++ '}' :: (run ++ '\x60' :: other)), place⟩ = _ :=
          templateBody_reference rfl hreference
        rw [hrun] at hstep
        simpa [Step.map, Except.map, Nat.add_assoc, Nat.add_comm, Nat.add_left_comm] using hstep
  | case6 => simp at h
  | case7 c x rest hc hend hescape hopens ih =>
      obtain ⟨body', hnext, rfl⟩ := Step.exists_of_map_ok h
      obtain ⟨run, hpasses, hrun⟩ := ih hnext hparts
      have hfirst : c.Passes [x] (c.advance 1) := Cursor.passes_advance hc
      refine ⟨x :: run, hfirst.trans hpasses, fun start' other place => ?_⟩
      have hopens' : opensReference (x :: (run ++ '\x60' :: other)) = false := by
        have hrest : rest = run ++ '\x60' :: after.rest := by
          simpa [Cursor.advance, hc] using hpasses.1
        rw [hrest, opensReference_cons, Bool.not_eq_true] at hopens
        rw [opensReference_cons, ← hopens]
        cases run <;> rfl
      have hrest := hrun start' other (place + 1)
      rw [List.cons_append, templateBody_char rfl hend hescape hopens']
      simp only [Cursor.advance, List.drop_succ_cons, List.drop_zero]
      rw [hrest]
      simp only [Step.map, Except.map, List.length_append, List.length_cons, List.length_nil,
        Step.mk.injEq, Cursor.mk.injEq, true_and]
      omega

theorem readTemplate_of_templateBody {run other : List Char} {place : Nat}
    {body : List Char × List Token}
    (h : templateBody inside place ⟨run ++ '\x60' :: other, place + 1⟩ =
      ⟨.ok body, ⟨other, place + 1 + (run ++ ['\x60']).length⟩⟩) :
    readTemplate inside ⟨'\x60' :: (run ++ '\x60' :: other), place⟩ =
      ⟨.ok (.group .template (String.ofList ('\x60' :: run ++ ['\x60']))
          (spanTokens body.1 ++ body.2)),
        ⟨other, place + 1 + (run ++ ['\x60']).length⟩⟩ := by
  have hlength : place + 1 + (run ++ ['\x60']).length =
      place + ('\x60' :: run ++ ['\x60']).length := by
    rw [List.cons_append, List.length_cons]
    omega
  have hpasses : (Cursor.mk ('\x60' :: (run ++ '\x60' :: other)) place).Passes
      ('\x60' :: run ++ ['\x60']) ⟨other, place + 1 + (run ++ ['\x60']).length⟩ :=
    ⟨by simp, hlength⟩
  refine readTemplate_eq_ok_iff.mpr ⟨body.1, body.2, h, ?_⟩
  rw [hpasses.upTo_eq]

theorem isReadAgain_template (hinside : Rereads most inside inside') {rest : List Char}
    (hc : c.rest = '\x60' :: rest) (h : readTemplate inside c = ⟨.ok t, after⟩)
    (ht : t.nesting ≤ most) :
    t.kind = .template ∧ c.Passes t.raw.toList after ∧ t.raw.toList.getLast? = some '\x60' ∧
      IsReadAgain inside' t t.raw.toList after.rest := by
  have hopening : c.Passes ['\x60'] (c.advance 1) := Cursor.passes_advance hc
  obtain ⟨span, parts, hbody, rfl⟩ := readTemplate_eq_ok_iff.mp h
  rw [nesting, runNesting_spanTokens, if_pos rfl] at ht
  obtain ⟨run, hrun, hagain⟩ := templateBody_again hinside hbody ht
  have hpasses : c.Passes ('\x60' :: run ++ ['\x60']) after := hopening.trans hrun
  rw [hpasses.upTo_eq, raw, String.toList_ofList]
  refine ⟨rfl, hpasses, List.getLast?_concat, ?_⟩
  intro other place _
  have hread := readTemplate_of_templateBody (hagain place other (place + 1))
  have hnext : nextWith inside' ⟨'\x60' :: (run ++ '\x60' :: other), place⟩ = _ :=
    (nextWith_of_not_isBlank rfl).trans (congrArg (Step.map some) hread)
  simpa [Step.map, Except.map, Nat.add_assoc, Nat.add_comm, Nat.add_left_comm] using hnext

theorem IsPlainRun.isBlank_eq_false {kind : Kind} {run rest : List Char}
    (h : IsPlainRun kind run rest) : ∀ x ∈ run, Text.isBlank x = false := by
  have hnone {marks : List Char} (hmarks : marks.any Text.isBlank = false) :
      ∀ x ∈ marks, Text.isBlank x = false :=
    fun x hx => Bool.eq_false_iff.mpr (List.any_eq_false.mp hmarks x hx)
  cases h with
  | spread => exact hnone rfl
  | sign hx =>
      intro x hmem
      obtain rfl := List.mem_singleton.mp hmem
      exact hnone rfl _ hx
  | number =>
      intro x hx
      have hchar := isDigit_or_dot_of_mem_numberRun hx
      rw [Bool.or_eq_true, beq_iff_eq] at hchar
      rcases hchar with hdigit | rfl
      · exact isBlank_of_isIdentifierChar (isIdentifierChar_of_isDigit hdigit)
      · rfl
  | operator op =>
      have hsymbol : op.symbol.toList.any Text.isBlank = false := by cases op <;> rfl
      exact hnone hsymbol
  | name => exact fun x hx => isBlank_of_isIdentifierChar (isIdentifierChar_of_mem_identifierRun hx)

theorem spelling_of_ne (ht : t.kind ≠ .reference) : t.spelling = t.raw := by
  cases t with
  | text => rfl
  | group kind => cases kind <;> first | rfl | exact absurd rfl ht

-- A token is read again from the text that it was read from and from the text that spells it.
theorem exists_of_readToken_again (hinside : Rereads most inside inside') {x : Char}
    {rest : List Char} (hc : c.rest = x :: rest)
    (h : readToken inside c x rest = ⟨.ok t, after⟩) (ht : t.nesting ≤ most) :
    ∃ text, c.Passes text after ∧ (∃ e ∈ text.getLast?, Text.isBlank e = false) ∧
      IsReadAgain inside' t text after.rest ∧
      IsReadAgain inside' t t.spelling.toList after.rest := by
  have hraw (hkind : t.kind ≠ .reference) (hpasses : c.Passes t.raw.toList after) {e : Char}
      (hlast : t.raw.toList.getLast? = some e) (he : Text.isBlank e = false)
      (hread : IsReadAgain inside' t t.raw.toList after.rest) :
      ∃ text, c.Passes text after ∧ (∃ e ∈ text.getLast?, Text.isBlank e = false) ∧
        IsReadAgain inside' t text after.rest ∧
        IsReadAgain inside' t t.spelling.toList after.rest := by
    rw [spelling_of_ne hkind]
    exact ⟨_, hpasses, ⟨e, hlast, he⟩, hread, hread⟩
  cases isReadBy_of_readToken hc h with
  | reference hopens h =>
      obtain ⟨inner, hpasses, hread, hspelling⟩ := isReadAgain_reference hinside hopens h ht
      exact ⟨_, hpasses, ⟨'}', List.getLast?_concat, rfl⟩, hread, hspelling⟩
  | string hquote h =>
      obtain ⟨hkind, hpasses, hlast, hread⟩ := isReadAgain_string hquote hc h
      have hblank : Text.isBlank x = false := by rcases hquote with rfl | rfl <;> rfl
      exact hraw (by simp [hkind]) hpasses hlast hblank hread
  | template hx h =>
      obtain ⟨hkind, hpasses, hlast, hread⟩ := isReadAgain_template hinside (hx ▸ hc) h ht
      exact hraw (by simp [hkind]) hpasses hlast rfl hread
  | object hx h =>
      obtain ⟨hkind, hpasses, hlast, hread⟩ := isReadAgain_container hinside isProper_object
        (by decide) rfl readToken_brace (hx ▸ hc) h ht
      exact hraw (by simp [hkind]) hpasses hlast rfl hread
  | array hx h =>
      obtain ⟨hkind, hpasses, hlast, hread⟩ := isReadAgain_container hinside isProper_array
        (by decide) rfl readToken_bracket (hx ▸ hc) h ht
      exact hraw (by simp [hkind]) hpasses hlast rfl hread
  | @plain kind run hrun heq hpasses =>
      have htext : t.raw.toList = run := by
        rw [heq]
        exact String.toList_ofList
      have hkind : t.kind ≠ .reference := by
        have hcontainer : t.kind.isContainer = false := heq ▸ hrun.kind_cases.2
        intro href
        rw [href] at hcontainer
        simp [Kind.isContainer] at hcontainer
      obtain ⟨e, hlast, hblank⟩ : ∃ e, run.getLast? = some e ∧ Text.isBlank e = false :=
        ⟨_, List.getLast?_eq_some_getLast hrun.ne_nil,
          hrun.isBlank_eq_false _ (List.getLast_mem hrun.ne_nil)⟩
      rw [← htext] at hpasses hlast
      refine hraw hkind hpasses hlast hblank ?_
      rw [htext, heq]
      exact fun other place hother => (hrun.of_standsFor hother).nextWith_eq

theorem exists_of_nextWith_again (hinside : Rereads most inside inside')
    (h : nextWith inside c = ⟨.ok (some t), after⟩) (ht : t.nesting ≤ most) :
    ∃ blank text, c.rest = blank ++ (text ++ after.rest) ∧ Text.isBlankText blank = true ∧
      (∃ e ∈ text.getLast?, Text.isBlank e = false) ∧ IsReadAgain inside' t text after.rest ∧
      IsReadAgain inside' t t.spelling.toList after.rest := by
  obtain ⟨x, rest, hstart, hread⟩ := nextWith_some.mp h
  obtain ⟨text, hpasses, hlast, hagain⟩ := exists_of_readToken_again hinside hstart hread ht
  have hskip := (Cursor.passes_skipWhile c Text.isBlank).1
  rw [hpasses.1] at hskip
  exact ⟨_, text, hskip, Text.isBlankText_takeWhile c.rest, hlast, hagain⟩

end FlowExpr.Token
