import FlowExpr.Proofs.Blank
import FlowExpr.Proofs.Enclosing
import FlowExpr.Proofs.Extent
import FlowExpr.Proofs.Grammar.Parenthesis
import FlowExpr.Proofs.Spelling.Theorems

namespace FlowExpr.Token

open Text (Cursor)

variable {inside : Cursor → Except LexError (List Token)} {c after : Cursor} {t : Token}
  {d : Delimiters} {text : List Char}

-- The scan for the end of an object, or of an array.
def IsContainerScan (d : Delimiters) : Prop :=
  d = objectDelimiters ∨ d = arrayDelimiters

-- The characters that mean something to one of the two scans.
def scanMarks : List Char :=
  ['"', '\'', '\x60', '{', '}', '[', ']']

theorem IsContainerScan.isProper (hd : IsContainerScan d) : d.IsProper := by
  rcases hd with rfl | rfl
  · exact isProper_object
  · exact isProper_array

theorem IsContainerScan.mem_quotes (hd : IsContainerScan d) {q : Char}
    (hq : q ∈ ['"', '\'', '\x60']) : q ∈ d.quotes := by
  rcases hd with rfl | rfl
  · exact hq
  · exact hq

theorem IsContainerScan.isPlain (hd : IsContainerScan d) {x : Char} (hx : x ∉ scanMarks) :
    IsPlain d x := by
  simp only [scanMarks, List.mem_cons, not_or] at hx
  rcases hd with rfl | rfl
  · simp [IsPlain, objectDelimiters, hx]
  · simp [IsPlain, arrayDelimiters, hx]

-- Both kinds of bracket around a text that is skipped are skipped by both scans: as brackets by the
-- one, and as any other character by the other.
theorem Skips.braces (hd : IsContainerScan d) (h : Skips d none text) :
    Skips d none ('{' :: text ++ ['}']) := by
  rcases hd with rfl | rfl
  · exact h.enclosed isProper_object
  · have hopening : Skips arrayDelimiters none ['{'] := .plain (by decide)
    have hclosing : Skips arrayDelimiters none ['}'] := .plain (by decide)
    exact (hopening.append h).append hclosing

theorem Skips.brackets (hd : IsContainerScan d) (h : Skips d none text) :
    Skips d none ('[' :: text ++ [']']) := by
  rcases hd with rfl | rfl
  · have hopening : Skips objectDelimiters none ['['] := .plain (by decide)
    have hclosing : Skips objectDelimiters none [']'] := .plain (by decide)
    exact (hopening.append h).append hclosing
  · exact h.enclosed isProper_array

theorem Skips.of_forall (hd : IsContainerScan d) (p : Char → Bool)
    (hp : scanMarks.any p = false) (h : ∀ x ∈ text, p x = true) : Skips d none text := by
  apply Skips.of_plain
  intro x hx
  exact hd.isPlain (Text.not_mem_of_kind hp (h x hx))

-- What the shape check and the form of the spans say about one token of a run.
structure IsSealed (t : Token) : Prop where
  brace : t.isPunctuation "\x7d" = false
  bracket : t.isPunctuation "]" = false
  content : t.kind.isContainer = true → checkRun 0 t.children = .ok ()
  spans : t.hasPlainSpans = true

theorem checkRun_children (h : checkContent t = .ok ()) (hkind : t.kind.isContainer = true) :
    checkRun 0 t.children = .ok () := by
  cases t with
  | text => rw [children, checkRun, if_pos rfl]
  | group kind raw children =>
      have hcontainer : kind.isContainer = true := hkind
      rw [checkContent, if_pos hcontainer] at h
      exact h

-- What the check of a run says about its first token, and that it goes on behind it with the
-- parentheses that are open there.
theorem checkRun_cons {opened : Nat} {rest : List Token}
    (h : checkRun opened (t :: rest) = .ok ()) :
    (t.isPunctuation "\x7d" = false ∧ t.isPunctuation "]" = false ∧
      (t.kind.isContainer = true → checkRun 0 t.children = .ok ())) ∧
      ∃ opened', Tree.openAfter opened (t :: rest) = Tree.openAfter opened' rest ∧
        checkRun opened' rest = .ok () := by
  have hplain (hkind : t.kind ≠ .punctuation) :
      Tree.openAfter opened (t :: rest) = Tree.openAfter opened rest :=
    Tree.openAfter_plain (Tree.isPlain_of_kind hkind) opened rest
  rw [checkRun.eq_def] at h
  dsimp only at h
  cases hkind : t.kind <;> simp only [hkind] at h
  case operator =>
    refine ⟨by simp [isPunctuation, hkind, Kind.isContainer], opened, hplain (by simp [hkind]), ?_⟩
    cases hnext : rest.head? with
    | none => simpa [hnext] using h
    | some next =>
        simp only [hnext] at h
        split at h
        · simp at h
        · exact h
  case identifier =>
    refine ⟨by simp [isPunctuation, hkind, Kind.isContainer], opened, hplain (by simp [hkind]), ?_⟩
    split at h
    · simp at h
    · exact h
  case punctuation =>
    have hcontainer : Kind.isContainer .punctuation = false := rfl
    by_cases hopening : t.raw = "("
    · rw [if_pos hopening] at h
      have ho : Tree.IsOpening t := Tree.isPunctuation_iff.mpr ⟨hkind, hopening⟩
      exact ⟨by simp [isPunctuation, hopening, hcontainer], opened + 1,
        Tree.openAfter_opening ho opened rest, h⟩
    rw [if_neg hopening] at h
    by_cases hclosing : t.raw = ")"
    · rw [if_pos hclosing] at h
      have hc : Tree.IsClosing t := Tree.isPunctuation_iff.mpr ⟨hkind, hclosing⟩
      refine ⟨by simp [isPunctuation, hclosing, hcontainer], ?_⟩
      cases opened with
      | zero => simp at h
      | succ opened => exact ⟨opened, Tree.openAfter_closing hc opened rest, h⟩
    rw [if_neg hclosing] at h
    by_cases hbrace : t.raw = "\x7d"
    · simp [hbrace] at h
    rw [if_neg hbrace] at h
    by_cases hbracket : t.raw = "]"
    · simp [hbracket] at h
    rw [if_neg hbracket] at h
    have hp : Tree.IsPlain t := by simp [Tree.IsPlain, isPunctuation, hopening, hclosing]
    exact ⟨by simp [isPunctuation, hbrace, hbracket, hcontainer], opened,
      Tree.openAfter_plain hp opened rest, h⟩
  all_goals
    cases hcontent : checkContent t with
    | error fault => simp [hcontent] at h
    | ok =>
      simp only [hcontent] at h
      refine ⟨⟨by simp [isPunctuation, hkind], by simp [isPunctuation, hkind], ?_⟩, opened,
        hplain (by simp [hkind]), h⟩
      intro hcontainer
      exact checkRun_children hcontent (hkind ▸ hcontainer)

theorem isSealed_of_checkRun {opened : Nat} {rest : List Token}
    (h : checkRun opened (t :: rest) = .ok ()) (hspans : runHasPlainSpans (t :: rest) = true) :
    IsSealed t ∧ runHasPlainSpans rest = true ∧ ∃ opened', checkRun opened' rest = .ok () := by
  obtain ⟨⟨hbrace, hbracket, hcontent⟩, opened', _, hrest⟩ := checkRun_cons h
  rw [runHasPlainSpans, Bool.and_eq_true] at hspans
  exact ⟨⟨hbrace, hbracket, hcontent, hspans.1⟩, hspans.2, opened', hrest⟩

-- Whatever a reader of inner texts accepts is skipped, once its tokens pass the check and no
-- template in it has a backtick in a reference.
def SkipsContent (d : Delimiters) (inside : Cursor → Except LexError (List Token)) : Prop :=
  ∀ c tokens opened, inside c = .ok tokens → checkRun opened tokens = .ok () →
    runHasPlainSpans tokens = true → Skips d none c.rest

theorem runHasPlainSpans_children {kind : Kind} {raw : String} {children : List Token}
    (h : (Token.group kind raw children).hasPlainSpans = true) :
    runHasPlainSpans children = true := by
  rw [hasPlainSpans, Bool.and_eq_true] at h
  exact h.2

theorem exists_of_readString_skips (hd : IsContainerScan d) {quote : Char} {rest : List Char}
    (hquote : quote = '"' ∨ quote = '\'') (hc : c.rest = quote :: rest)
    (h : readString quote c = ⟨.ok t, after⟩) :
    ∃ run, c.rest = run ++ after.rest ∧ Skips d none run := by
  obtain ⟨content, written, rest', hbody, rfl, rfl⟩ := readString_eq_ok_iff.mp h
  rw [hc, List.drop_one, List.tail_cons] at hbody
  obtain ⟨inner, hinner, rfl, rfl, rfl⟩ := exists_of_stringBody hbody
  have hmem : quote ∈ d.quotes := by
    apply hd.mem_quotes
    rcases hquote with rfl | rfl
    · simp
    · simp
  refine ⟨quote :: inner ++ [quote], ?_, (Skips.of_isQuoted hinner).quoted hd.isProper hmem⟩
  rw [hc, List.append_assoc]
  rfl

theorem exists_of_readReference_skips (hd : IsContainerScan d) (hinside : SkipsContent d inside)
    (hopens : opensReference c.rest = true) (h : readReference inside c = ⟨.ok t, after⟩)
    (ht : IsSealed t) : ∃ run, c.rest = run ++ after.rest ∧ Skips d none run := by
  obtain ⟨rest, hrest⟩ := exists_of_opensReference hopens
  have hopening : c.Passes ['$', '{'] (c.advance 2) := Cursor.passes_advance hrest
  obtain ⟨inner, _, children, hextent, _, hchildren, rfl, rfl⟩ := readReference_eq_ok_iff.mp h
  have hinner : Skips d none inner :=
    hinside _ children 0 hchildren (ht.content rfl) (runHasPlainSpans_children ht.spans)
  have hdollar : Skips d none ['$'] := .plain (hd.isPlain (by decide))
  refine ⟨['$'] ++ ('{' :: inner ++ ['}']), ?_, hdollar.append (hinner.braces hd)⟩
  exact (passes_extent hopening hextent).1

theorem exists_of_readContainer_skips {kind : Kind} {fault : Fault} {scan : Delimiters}
    (hkind : kind.isContainer = true) (hinside : SkipsContent d inside)
    (henclosed : ∀ inner, Skips d none inner →
      Skips d none (scan.opening :: inner ++ [scan.closing])) {rest : List Char}
    (hc : c.rest = scan.opening :: rest)
    (h : readContainer inside kind scan fault c = ⟨.ok t, after⟩) (ht : IsSealed t) :
    ∃ run, c.rest = run ++ after.rest ∧ Skips d none run := by
  have hopening : c.Passes [scan.opening] (c.advance 1) := Cursor.passes_advance hc
  obtain ⟨inner, _, children, hextent, hchildren, rfl, rfl⟩ := readContainer_eq_ok_iff.mp h
  have hinner : Skips d none inner :=
    hinside _ children 0 hchildren (ht.content hkind) (runHasPlainSpans_children ht.spans)
  exact ⟨_, (passes_extent hopening hextent).1, henclosed inner hinner⟩

-- A reference without a backtick stays inside the backticks of its template.
theorem exists_of_readReference_spans (hopens : opensReference c.rest = true)
    (h : readReference inside c = ⟨.ok t, after⟩) (ht : t.isPlainSpan = true) :
    ∃ run, c.rest = run ++ after.rest ∧ Skips d (some '\x60') run := by
  obtain ⟨rest, hrest⟩ := exists_of_opensReference hopens
  have hopening : c.Passes ['$', '{'] (c.advance 2) := Cursor.passes_advance hrest
  obtain ⟨inner, _, children, hextent, _, _, rfl, rfl⟩ := readReference_eq_ok_iff.mp h
  refine ⟨_, (passes_extent hopening hextent).1, ?_⟩
  have hpath : '\x60' ∉ Text.trim inner := by
    simpa [isPlainSpan, raw] using ht
  obtain ⟨before, behind, hinner, hbefore, hbehind⟩ := Text.exists_of_trim inner
  have hblank {blank : List Char} (h : Text.isBlankText blank = true) : '\x60' ∉ blank := by
    intro hmem
    have := List.all_eq_true.mp h _ hmem
    revert this
    decide
  apply Skips.of_not_mem
  · rw [hinner]
    simp [hpath, hblank hbefore, hblank hbehind, referenceDelimiters]
  · rw [← List.append_assoc, List.getLast?_concat]
    decide

-- What a template holds does not end it for the scan.
theorem exists_of_templateBody_skips {start : Nat} {body : List Char × List Token}
    (h : templateBody inside start c = ⟨.ok body, after⟩)
    (hparts : ∀ p ∈ body.2, p.kind = .reference → p.isPlainSpan = true) :
    ∃ inner, c.rest = inner ++ '\x60' :: after.rest ∧ Skips d (some '\x60') inner := by
  fun_induction templateBody inside start c generalizing body after with
  | case1 => simp [fail] at h
  | case2 c rest hc =>
      simp only [Step.mk.injEq, Except.ok.injEq] at h
      obtain ⟨rfl, rfl⟩ := h
      have hpasses : c.Passes ['\x60'] (c.advance 1) := Cursor.passes_advance hc
      exact ⟨[], hpasses.1, .nil⟩
  | case3 => simp [fail] at h
  | case4 c e rest _ _ hc ih =>
      obtain ⟨body', hnext, rfl⟩ := Step.exists_of_map_ok h
      obtain ⟨inner, hinner, hskips⟩ := ih hnext hparts
      have hfirst : c.Passes ['\\', e] (c.advance 2) := Cursor.passes_advance hc
      refine ⟨['\\', e] ++ inner, ?_, (Skips.escaped e).append hskips⟩
      rw [hfirst.1, hinner]
      rfl
  | case5 c x rest hc _ _ hopens t next hr ih =>
      obtain ⟨body', hnext, rfl⟩ := Step.exists_of_map_ok h
      have hkind : t.kind = .reference := by
        obtain ⟨_, _, _, _, _, _, rfl, _⟩ := readReference_eq_ok_iff.mp hr
        rfl
      have hfirst : t.isPlainSpan = true := hparts t (by simp [addReference]) hkind
      have hrest : ∀ p ∈ body'.2, p.kind = .reference → p.isPlainSpan = true := by
        intro p hp
        exact hparts p (by simp [addReference, hp])
      obtain ⟨run, hrun, hskip⟩ := exists_of_readReference_spans (hc ▸ hopens) hr hfirst
      obtain ⟨inner, hinner, hskips⟩ := ih hnext hrest
      refine ⟨run ++ inner, ?_, hskip.append hskips⟩
      rw [hrun, hinner, List.append_assoc]
  | case6 => simp at h
  | case7 c x rest hc hend hescape _ ih =>
      obtain ⟨body', hnext, rfl⟩ := Step.exists_of_map_ok h
      obtain ⟨inner, hinner, hskips⟩ := ih hnext hparts
      have hfirst : c.Passes [x] (c.advance 1) := Cursor.passes_advance hc
      refine ⟨[x] ++ inner, ?_, (Skips.char hescape hend).append hskips⟩
      rw [hfirst.1, hinner]
      rfl

theorem exists_of_readTemplate_skips (hd : IsContainerScan d) {rest : List Char}
    (hc : c.rest = '\x60' :: rest) (h : readTemplate inside c = ⟨.ok t, after⟩)
    (ht : t.hasPlainSpans = true) : ∃ run, c.rest = run ++ after.rest ∧ Skips d none run := by
  have hopening : c.Passes ['\x60'] (c.advance 1) := Cursor.passes_advance hc
  obtain ⟨span, parts, hbody, rfl⟩ := readTemplate_eq_ok_iff.mp h
  rw [hasPlainSpans, Bool.and_eq_true] at ht
  have hparts : ∀ p ∈ parts, p.kind = .reference → p.isPlainSpan = true := by
    intro p hp hkind
    have hall : (spanTokens span ++ parts).all
        (fun t => t.kind != .reference || t.isPlainSpan) = true := ht.1
    simpa [hkind] using List.all_eq_true.mp hall p (List.mem_append_right _ hp)
  obtain ⟨inner, hinner, hskips⟩ := exists_of_templateBody_skips hbody hparts
  refine ⟨'\x60' :: inner ++ ['\x60'], ?_, hskips.quoted hd.isProper (hd.mem_quotes (by simp))⟩
  rw [hopening.1, hinner]
  simp

-- Of what is no bracket and no quote, only a stray closing bracket matters to a scan.
theorem IsPlainRun.skips (hd : IsContainerScan d) {kind : Kind} {run rest : List Char}
    (h : IsPlainRun kind run rest) (ht : IsSealed (.plain kind (String.ofList run))) :
    Skips d none run := by
  cases h with
  | spread =>
      have hdots : "...".toList.all (· == '.') = true := by decide
      exact Skips.of_forall hd (· == '.') (by decide) (List.all_eq_true.mp hdots)
  | sign hx =>
      rename_i x
      have hmarks : punctuationChars.filter (· ∈ scanMarks) = ['}', ']'] := by decide
      apply Skips.plain
      apply hd.isPlain
      intro hmark
      have hclosing : x ∈ ['}', ']'] := by
        rw [← hmarks]
        exact List.mem_filter.mpr ⟨hx, decide_eq_true hmark⟩
      rw [List.mem_cons, List.mem_singleton] at hclosing
      rcases hclosing with rfl | rfl
      · exact absurd ht.brace (by decide)
      · exact absurd ht.bracket (by decide)
  | number =>
      exact Skips.of_forall hd (fun x => x.isDigit || x == '.') (by decide)
        fun _ => isDigit_or_dot_of_mem_numberRun
  | operator op =>
      have hsymbol : op.symbol.toList.all isOperatorChar = true := by cases op <;> decide
      exact Skips.of_forall hd isOperatorChar (by decide) (List.all_eq_true.mp hsymbol)
  | name =>
      exact Skips.of_forall hd isIdentifierChar (by decide +kernel)
        fun _ => isIdentifierChar_of_mem_identifierRun

theorem exists_of_readToken_skips (hd : IsContainerScan d) (hinside : SkipsContent d inside)
    {x : Char} {rest : List Char} (hc : c.rest = x :: rest)
    (h : readToken inside c x rest = ⟨.ok t, after⟩) (ht : IsSealed t) :
    ∃ run, c.rest = run ++ after.rest ∧ Skips d none run := by
  cases isReadBy_of_readToken hc h with
  | reference hopens h => exact exists_of_readReference_skips hd hinside hopens h ht
  | string hquote h => exact exists_of_readString_skips hd hquote hc h
  | template hx h => exact exists_of_readTemplate_skips hd (hx ▸ hc) h ht.spans
  | object hx h =>
      exact exists_of_readContainer_skips rfl hinside (fun _ => Skips.braces hd) (hx ▸ hc) h ht
  | array hx h =>
      exact exists_of_readContainer_skips rfl hinside (fun _ => Skips.brackets hd) (hx ▸ hc) h ht
  | plain hrun hplain hpasses =>
      rw [hplain] at ht
      exact ⟨_, hpasses.1, hrun.skips hd ht⟩

theorem skips_of_readAll (hd : IsContainerScan d) (hinside : SkipsContent d inside) :
    SkipsContent d (readAll inside) := by
  have hblanks {blank : List Char} (h : Text.isBlankText blank = true) : Skips d none blank :=
    Skips.of_forall hd Text.isBlank (by decide) (List.all_eq_true.mp h)
  intro c tokens opened h hcheck hspans
  fun_induction readAll inside c generalizing tokens opened with
  | case1 c t after hnext ih =>
      obtain ⟨rest, hrest, rfl⟩ := Outcome.map_eq_ok_iff.mp h
      obtain ⟨ht, hspans', opened', hcheck'⟩ := isSealed_of_checkRun hcheck hspans
      obtain ⟨x, more, hstart, hread⟩ := nextWith_some.mp hnext
      obtain ⟨run, hrun, hskips⟩ := exists_of_readToken_skips hd hinside hstart hread ht
      have hblank := hblanks (Text.isBlankText_takeWhile c.rest)
      rw [(Cursor.passes_skipWhile c Text.isBlank).1, hrun]
      exact hblank.append (hskips.append (ih _ _ hrest hcheck' hspans'))
  | case2 c after hnext => exact hblanks (isBlankText_of_nextWith hnext)
  | case3 => simp at h

-- Both scans skip what the lexer reads, however deep its brackets are nested.
theorem skips_of_lexWithin (hd : IsContainerScan d) (levels : Nat) :
    SkipsContent d (lexWithin levels) := by
  induction levels with
  | zero => exact skips_of_readAll hd fun _ _ _ hnone => by simp at hnone
  | succ levels ih => exact skips_of_readAll hd ih

end FlowExpr.Token
