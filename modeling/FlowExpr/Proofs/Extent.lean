import FlowExpr.Proofs.Quoting
import FlowExpr.Proofs.Reading

namespace FlowExpr.Token

-- The brackets of a run are two different characters, and neither is a quote. No quote is the
-- character that takes the meaning from the next one.
structure Delimiters.IsProper (d : Delimiters) : Prop where
  opening : d.opening ∉ d.quotes
  closing : d.closing ∉ d.quotes
  brackets : d.opening ≠ d.closing
  escape : '\\' ∉ d.quotes

-- A run ends at the same place wherever the whole text stands.
def Closes (d : Delimiters) (depth : Nat) (quote : Option Char) (text inner rest : List Char) :
    Prop :=
  ∀ position start, extent d depth (quote.map fun q => (q, start)) position text =
    .closed inner rest

-- A text that stands in a run does not end it: it opens no bracket and no quote that it leaves open
-- and closes none that it has not opened.
def Skips (d : Delimiters) (quote : Option Char) (text : List Char) : Prop :=
  ∀ depth more inner rest, Closes d depth quote more inner rest →
    Closes d depth quote (text ++ more) (text ++ inner) rest

-- The character stands for itself outside quotes.
def IsPlain (d : Delimiters) (c : Char) : Prop :=
  c ∉ d.quotes ∧ c ≠ d.opening ∧ c ≠ d.closing

instance (d : Delimiters) (c : Char) : Decidable (IsPlain d c) :=
  inferInstanceAs (Decidable (_ ∧ _))

variable {d : Delimiters} {depth : Nat} {quote : Option Char} {q c : Char}
  {text more inner rest : List Char}

theorem isProper_reference : referenceDelimiters.IsProper := by
  constructor <;> decide

theorem isProper_object : objectDelimiters.IsProper := by
  constructor <;> decide

theorem isProper_array : arrayDelimiters.IsProper := by
  constructor <;> decide

-- Characters of a kind that no bracket and no quote is of stand for themselves.
theorem isPlain_of_kind {p : Char → Bool}
    (hd : (d.opening :: d.closing :: d.quotes).any p = false) (h : p c = true) :
    IsPlain d c := by
  have hnot := Text.not_mem_of_kind hd h
  simp only [List.mem_cons, not_or] at hnot
  obtain ⟨hopening, hclosing, hquotes⟩ := hnot
  exact ⟨hquotes, hopening, hclosing⟩

namespace Closes

theorem closing (hd : d.IsProper) (rest : List Char) :
    Closes d 0 none (d.closing :: rest) [] rest := by
  intro position start
  simp [extent, hd.closing, hd.brackets.symm]

theorem plain (h : Closes d depth none text inner rest) (hc : IsPlain d c) :
    Closes d depth none (c :: text) (c :: inner) rest := by
  intro position start
  have htext := h (position + 1) start
  simp only [Option.map_none] at htext ⊢
  simp [extent, hc.1, hc.2.1, hc.2.2, htext, Extent.cons]

theorem bracket (h : Closes d (depth + 1) none text inner rest) (hd : d.IsProper) :
    Closes d depth none (d.opening :: text) (d.opening :: inner) rest := by
  intro position start
  have htext := h (position + 1) start
  simp only [Option.map_none] at htext ⊢
  simp [extent, hd.opening, htext, Extent.cons]

theorem unbracket (h : Closes d depth none text inner rest) (hd : d.IsProper) :
    Closes d (depth + 1) none (d.closing :: text) (d.closing :: inner) rest := by
  intro position start
  have htext := h (position + 1) start
  simp only [Option.map_none] at htext ⊢
  simp [extent, hd.closing, hd.brackets.symm, htext, Extent.cons]

theorem quoted (h : Closes d depth (some q) text inner rest) (hq : q ∈ d.quotes) :
    Closes d depth none (q :: text) (q :: inner) rest := by
  intro position start
  have htext := h (position + 1) position
  simp only [Option.map_some] at htext
  simp [extent, hq, htext, Extent.cons]

theorem unquoted (h : Closes d depth none text inner rest) (hescape : q ≠ '\\') :
    Closes d depth (some q) (q :: text) (q :: inner) rest := by
  intro position start
  have htext := h (position + 1) start
  simp only [Option.map_none] at htext
  rw [Option.map_some, extent.eq_def]
  simp [hescape, htext, Extent.cons]

theorem char (h : Closes d depth (some q) text inner rest) (hescape : c ≠ '\\') (hc : c ≠ q) :
    Closes d depth (some q) (c :: text) (c :: inner) rest := by
  intro position start
  have htext := h (position + 1) start
  simp only [Option.map_some] at htext
  rw [Option.map_some, extent.eq_def]
  simp [hescape, hc, htext, Extent.cons]

theorem escaped (h : Closes d depth (some q) text inner rest) (c : Char) :
    Closes d depth (some q) ('\\' :: c :: text) ('\\' :: c :: inner) rest := by
  intro position start
  have htext := h (position + 2) start
  simp only [Option.map_some] at htext
  simp [extent, htext, Extent.cons]

end Closes

theorem extent_of_plain (hc : IsPlain d c) {position : Nat}
    (h : extent d depth none position (c :: text) = .closed inner rest) :
    ∃ tail, inner = c :: tail ∧ extent d depth none (position + 1) text = .closed tail rest := by
  unfold extent at h
  simp only [if_neg hc.1, if_neg hc.2.1, if_neg hc.2.2] at h
  exact Extent.eq_closed_of_cons h

-- The run that nothing but such characters close is open in no quote and in no further bracket.
theorem start_of_extent_plain {quote : Option (Char × Nat)} {position : Nat}
    (hquote : ∀ q ∈ quote.map Prod.fst, q ∈ d.quotes) (hinner : ∀ c ∈ inner, IsPlain d c)
    (h : extent d depth quote position text = .closed inner rest) : quote = none ∧ depth = 0 := by
  fun_induction extent d depth quote position text generalizing inner with
  | case1 | case2 | case3 => simp at h
  | case4 =>
      rename_i ih
      obtain ⟨_, rfl, hnext⟩ := Extent.eq_closed_of_cons h
      obtain ⟨_, rfl, hlast⟩ := Extent.eq_closed_of_cons hnext
      have hstart := ih hquote (by simp_all) hlast
      simp at hstart
  | case5 =>
      rename_i c _ q _ _ ih
      obtain ⟨_, rfl, hnext⟩ := Extent.eq_closed_of_cons h
      rw [List.forall_mem_cons] at hinner
      have hc : c ≠ q := by
        rintro rfl
        exact hinner.1.1 (hquote c rfl)
      rw [if_neg hc] at hnext ih
      have hstart := ih hquote hinner.2 hnext
      simp at hstart
  | case6 | case7 | case9 =>
      obtain ⟨_, rfl, -⟩ := Extent.eq_closed_of_cons h
      rw [List.forall_mem_cons] at hinner
      simp_all [IsPlain]
  | case8 => exact ⟨rfl, rfl⟩
  | case10 =>
      rename_i ih
      obtain ⟨_, rfl, hnext⟩ := Extent.eq_closed_of_cons h
      rw [List.forall_mem_cons] at hinner
      exact ih hquote hinner.2 hnext

-- What stands in a run, but for characters at its end that stand for themselves, has closed what it
-- has opened, so it can stand before whatever ends a run.
theorem closes_append {quote : Option (Char × Nat)} {position further : Nat}
    {core behind rest' : List Char} (hd : d.IsProper)
    (hquote : ∀ q ∈ quote.map Prod.fst, q ∈ d.quotes) (hbehind : ∀ c ∈ behind, IsPlain d c)
    (h : extent d depth quote position text = .closed (core ++ behind) rest)
    (hmore : Closes d further none more inner rest') :
    Closes d (further + depth) (quote.map Prod.fst) (core ++ more) (core ++ inner) rest' := by
  -- the first state is final if nothing but the end is left to read
  have hstart (hrun : extent d depth quote position text = .closed behind rest) :
      quote = none ∧ depth = 0 :=
    start_of_extent_plain hquote hbehind hrun
  fun_induction extent d depth quote position text generalizing core with
  | case1 | case2 | case3 => simp at h
  | case4 =>
      rename_i ih
      cases core with
      | nil => simpa using hstart h
      | cons x core =>
          obtain ⟨_, heq, hnext⟩ := Extent.eq_closed_of_cons h
          obtain ⟨rfl, rfl⟩ := List.cons.inj heq
          obtain ⟨tail, heq, hlast⟩ := Extent.eq_closed_of_cons hnext
          cases core with
          | nil =>
              have hplain : ∀ c ∈ tail, IsPlain d c := by simp_all
              simpa using start_of_extent_plain hquote hplain hlast
          | cons e core =>
              obtain ⟨rfl, rfl⟩ := List.cons.inj heq
              have hrest := ih hquote hlast (start_of_extent_plain hquote hbehind)
              exact hrest.escaped e
  | case5 =>
      rename_i hescape ih
      cases core with
      | nil => simpa using hstart h
      | cons c core =>
          obtain ⟨_, heq, hnext⟩ := Extent.eq_closed_of_cons h
          obtain ⟨rfl, rfl⟩ := List.cons.inj heq
          split at hnext
          · rename_i hc
            rw [if_pos hc] at ih
            have hrest := ih (by simp) hnext (start_of_extent_plain (by simp) hbehind)
            exact hc ▸ hrest.unquoted hescape
          · rename_i hc
            rw [if_neg hc] at ih
            have hrest := ih hquote hnext (start_of_extent_plain hquote hbehind)
            exact hrest.char hescape hc
  | case6 =>
      rename_i hq ih
      cases core with
      | nil => exact (hstart h).2 ▸ hmore
      | cons c core =>
          obtain ⟨_, heq, hnext⟩ := Extent.eq_closed_of_cons h
          obtain ⟨rfl, rfl⟩ := List.cons.inj heq
          have hrest := ih (by simpa using hq) hnext
            (start_of_extent_plain (by simpa using hq) hbehind)
          exact hrest.quoted hq
  | case7 =>
      rename_i ih
      cases core with
      | nil => exact (hstart h).2 ▸ hmore
      | cons c core =>
          obtain ⟨_, heq, hnext⟩ := Extent.eq_closed_of_cons h
          obtain ⟨rfl, rfl⟩ := List.cons.inj heq
          have hrest := ih hquote hnext (start_of_extent_plain hquote hbehind)
          exact hrest.bracket hd
  | case8 =>
      rw [Extent.closed.injEq] at h
      obtain ⟨rfl, -⟩ := List.append_eq_nil_iff.mp h.1.symm
      exact hmore
  | case9 =>
      rename_i ih
      cases core with
      | nil => simpa using hstart h
      | cons c core =>
          obtain ⟨_, heq, hnext⟩ := Extent.eq_closed_of_cons h
          obtain ⟨rfl, rfl⟩ := List.cons.inj heq
          have hrest := ih hquote hnext (start_of_extent_plain hquote hbehind)
          exact hrest.unbracket hd
  | case10 =>
      rename_i hnot hopening hclosing ih
      cases core with
      | nil => exact (hstart h).2 ▸ hmore
      | cons c core =>
          obtain ⟨_, heq, hnext⟩ := Extent.eq_closed_of_cons h
          obtain ⟨rfl, rfl⟩ := List.cons.inj heq
          have hrest := ih hquote hnext (start_of_extent_plain hquote hbehind)
          exact hrest.plain ⟨hnot, hopening, hclosing⟩

namespace Skips

theorem nil : Skips d quote [] :=
  fun _ _ _ _ h => h

theorem append {later : List Char} (h : Skips d quote text) (hlater : Skips d quote later) :
    Skips d quote (text ++ later) := by
  intro depth more inner rest hmore
  rw [List.append_assoc, List.append_assoc]
  exact h depth _ _ rest (hlater depth more inner rest hmore)

theorem plain (hc : IsPlain d c) : Skips d none [c] :=
  fun _ _ _ _ h => h.plain hc

-- Characters that stand for themselves end nothing.
theorem of_plain (h : ∀ c ∈ text, IsPlain d c) : Skips d none text := by
  induction text with
  | nil => exact nil
  | cons c rest ih =>
      have hrest := ih fun other hother => h other (List.mem_cons_of_mem c hother)
      exact (plain (h c (by simp))).append hrest

theorem char (hescape : c ≠ '\\') (hc : c ≠ q) : Skips d (some q) [c] :=
  fun _ _ _ _ h => h.char hescape hc

theorem escaped (c : Char) : Skips d (some q) ['\\', c] :=
  fun _ _ _ _ h => h.escaped c

-- What stays between its quotes does not close them.
theorem of_isQuoted (h : Text.IsQuoted q text) : Skips d (some q) text := by
  induction h with
  | nil => exact nil
  | char hescape hquote _ ih => exact (char hescape hquote).append ih
  | @escape c _ _ ih => exact (escaped c).append ih

-- A text in its quotes, and a text in its brackets.
theorem quoted (hd : d.IsProper) (hq : q ∈ d.quotes) (h : Skips d (some q) text) :
    Skips d none (q :: text ++ [q]) := by
  intro depth more inner rest hmore
  have hescape : q ≠ '\\' := fun heq => hd.escape (heq ▸ hq)
  have htext := h depth _ _ rest (hmore.unquoted hescape)
  simpa using htext.quoted hq

theorem enclosed (hd : d.IsProper) (h : Skips d none text) :
    Skips d none (d.opening :: text ++ [d.closing]) := by
  intro depth more inner rest hmore
  have htext := h (depth + 1) _ _ rest (hmore.unbracket hd)
  simpa using htext.bracket hd

-- Without the quote in it, a text stays in its quotes, unless the last character takes the meaning
-- from what follows.
theorem of_not_mem {text : List Char} (h : q ∉ text) (hlast : text.getLast? ≠ some '\\') :
    Skips d (some q) text := by
  match text with
  | [] => exact nil
  | [c] =>
      have hc : c ≠ q := fun heq => h (by simp [heq])
      exact char (by simpa using hlast) hc
  | c :: e :: more =>
      have hrest : (e :: more).getLast? ≠ some '\\' := by rwa [List.getLast?_cons_cons] at hlast
      rw [List.mem_cons, List.mem_cons, not_or, not_or] at h
      by_cases hescape : c = '\\'
      · have hend : more.getLast? ≠ some '\\' := by
          cases more with
          | nil => simp
          | cons next later => rwa [List.getLast?_cons_cons] at hrest
        rw [hescape]
        exact (escaped e).append (of_not_mem h.2.2 hend)
      · have htail : q ∉ e :: more := by simp [h.2.1, h.2.2]
        exact (char hescape (Ne.symm h.1)).append (of_not_mem htail hrest)

-- The run ends where a text that it skips is over.
theorem closes (hd : d.IsProper) (h : Skips d none text) (rest : List Char) :
    Closes d 0 none (text ++ d.closing :: rest) text rest := by
  have htext := h 0 _ _ rest (Closes.closing hd rest)
  rwa [List.append_nil] at htext

-- What a run was read up to is skipped.
theorem of_extent {position : Nat} (hd : d.IsProper)
    (h : extent d 0 none position text = .closed inner rest) : Skips d none inner := by
  rw [← List.append_nil inner] at h
  exact fun _ _ _ _ hmore => closes_append hd (by simp) (by simp) h hmore

-- It is skipped without characters at its ends that stand for themselves as well.
theorem of_extent_plain {before core behind : List Char} {position : Nat} (hd : d.IsProper)
    (hbefore : ∀ c ∈ before, IsPlain d c) (hbehind : ∀ c ∈ behind, IsPlain d c)
    (h : extent d 0 none position text = .closed (before ++ (core ++ behind)) rest) :
    Skips d none core := by
  induction before generalizing text position with
  | nil => exact fun _ _ _ _ hmore => closes_append hd (by simp) hbehind h hmore
  | cons c before ih =>
      rw [List.forall_mem_cons] at hbefore
      rw [eq_of_extent_closed h] at h
      obtain ⟨_, heq, hnext⟩ := extent_of_plain hbefore.1 h
      rw [← (List.cons.inj heq).2] at hnext
      exact ih hbefore.2 hnext

-- Characters at the end of a text that is skipped may be left off if they stand for themselves.
theorem of_append_plain {behind : List Char} (hd : d.IsProper) (hbehind : ∀ c ∈ behind, IsPlain d c)
    (h : Skips d none (text ++ behind)) : Skips d none text := by
  have hextent : extent d 0 none 0 (text ++ behind ++ [d.closing]) =
      .closed ([] ++ (text ++ behind)) [] := h.closes hd [] 0 0
  exact of_extent_plain hd (by simp) hbehind hextent

end Skips

-- A run ends with the first closing bracket behind a text that it skips.
theorem extent_eq_closed_iff {position : Nat} (hd : d.IsProper) :
    extent d 0 none position text = .closed inner rest ↔
      text = inner ++ d.closing :: rest ∧ Skips d none inner := by
  constructor
  · exact fun h => ⟨eq_of_extent_closed h, .of_extent hd h⟩
  · rintro ⟨rfl, h⟩
    exact h.closes hd rest position 0

-- What follows a run does not change where it ends.
theorem extent_append {position : Nat} (hd : d.IsProper)
    (h : extent d 0 none position text = .closed inner rest) (more : List Char) :
    extent d 0 none position (text ++ more) = .closed inner (rest ++ more) := by
  have htext : text ++ more = inner ++ d.closing :: (rest ++ more) := by
    rw [eq_of_extent_closed h, List.append_assoc]
    rfl
  rw [htext]
  exact (Skips.of_extent hd h).closes hd _ position 0

-- A bracket around a text that its scan skips is one token, with the tokens of that text.
theorem nextWith_enclosed {inside : Text.Cursor → Except LexError (List Token)} {kind : Kind}
    {fault : Fault} {children : List Token} {offset : Nat} (hd : d.IsProper)
    (hblank : Text.isBlank d.opening = false)
    (hcontainer : ∀ c rest, readToken inside c d.opening rest = readContainer inside kind d fault c)
    (h : Skips d none inner) (hchildren : inside ⟨inner, offset + 1⟩ = .ok children)
    (rest : List Char) :
    nextWith inside ⟨d.opening :: (inner ++ d.closing :: rest), offset⟩ =
      ⟨.ok (some (.group kind (String.ofList (d.opening :: inner ++ [d.closing])) children)),
        ⟨rest, offset + 1 + (inner ++ [d.closing]).length⟩⟩ := by
  have hread : readContainer inside kind d fault
      ⟨d.opening :: (inner ++ d.closing :: rest), offset⟩ =
        ⟨.ok (.group kind (String.ofList (d.opening :: inner ++ [d.closing])) children),
          ⟨rest, offset + 1 + (inner ++ [d.closing]).length⟩⟩ :=
    readContainer_eq_ok_iff.mpr
      ⟨inner, rest, children, h.closes hd rest _ 0, hchildren, rfl, rfl⟩
  rw [nextWith_of_not_isBlank hblank, hcontainer, hread]
  rfl

-- A text between `${` and `}` that the scan for the end of a reference skips.
theorem readReference_of_skips {inside : Text.Cursor → Except LexError (List Token)}
    {children : List Token} {offset : Nat} (h : Skips referenceDelimiters none inner)
    (hpath : Text.trim inner ≠ []) (hchildren : inside ⟨inner, offset + 2⟩ = .ok children)
    (rest : List Char) :
    readReference inside ⟨'$' :: '{' :: (inner ++ '}' :: rest), offset⟩ =
      ⟨.ok (.group .reference (String.ofList (Text.trim inner)) children),
        ⟨rest, offset + 2 + (inner ++ ['}']).length⟩⟩ :=
  readReference_eq_ok_iff.mpr
    ⟨inner, rest, children, h.closes isProper_reference rest _ 0, hpath, hchildren, rfl, rfl⟩

theorem nextWith_reference {inside : Text.Cursor → Except LexError (List Token)}
    {children : List Token} {offset : Nat} (h : Skips referenceDelimiters none inner)
    (hpath : Text.trim inner ≠ []) (hchildren : inside ⟨inner, offset + 2⟩ = .ok children)
    (rest : List Char) :
    nextWith inside ⟨'$' :: '{' :: (inner ++ '}' :: rest), offset⟩ =
      ⟨.ok (some (.group .reference (String.ofList (Text.trim inner)) children)),
        ⟨rest, offset + 2 + (inner ++ ['}']).length⟩⟩ :=
  nextWith_of_readReference (readReference_of_skips h hpath hchildren rest)

end FlowExpr.Token
