import FlowExpr.Proofs.Indexing.Scanning

namespace FlowExpr.Token.Indexed

open Text (Cursor)

variable {input : List Char} {base i j : Nat} {x quote : Char} {run rest : List Char}
  {α β : Type} {r : Reading α} {s : Step α}

-- The place of a position. Behind the end of the text there is one place only.
def cursorAt (input : List Char) (base i : Nat) : Cursor :=
  ⟨input.drop i, base + min i input.length⟩

def embed (result : Except LexError α) : Except Halt α :=
  result.mapError .fault

-- The same is read by position and by what is left of the text, and reading ends at most one place
-- past the text.
structure Agrees (input : List Char) (base : Nat) (r : Reading α) (s : Step α) : Prop where
  result : r.result = embed s.result
  after : s.after = cursorAt input base r.position
  position_le : r.position ≤ input.length + 1

theorem cursorAt_of_le (h : i ≤ input.length) (base : Nat) :
    cursorAt input base i = ⟨input.drop i, base + i⟩ := by
  rw [cursorAt, Nat.min_eq_left h]

theorem cursorAt_of_ge (h : input.length ≤ i) (base : Nat) :
    cursorAt input base i = ⟨[], base + input.length⟩ := by
  rw [cursorAt, Nat.min_eq_right h, List.drop_eq_nil_of_le h]

theorem offset_cursorAt (h : i ≤ input.length) : (cursorAt input base i).offset = base + i := by
  rw [cursorAt_of_le h]

theorem atEnd_cursorAt (h : input.length ≤ j) :
    (cursorAt input base i).atEnd = cursorAt input base j := by
  rw [cursorAt_of_ge h, Cursor.atEnd, cursorAt, List.length_drop]
  dsimp only
  exact congrArg (Cursor.mk []) (by omega)

theorem advance_cursorAt {n : Nat} (h : i + n ≤ input.length) :
    (cursorAt input base i).advance n = cursorAt input base (i + n) := by
  rw [cursorAt_of_le h, cursorAt_of_le (by omega), Cursor.advance, List.drop_drop, Nat.add_assoc]

theorem past_cursorAt (base : Nat) (h : input.drop i = run ++ rest) (hi : i ≤ input.length) :
    (cursorAt input base i).past run rest = cursorAt input base (i + run.length) := by
  have hlength := congrArg List.length h
  rw [List.length_drop, List.length_append] at hlength
  rw [cursorAt_of_le hi, cursorAt_of_le (by omega), Cursor.past, drop_of_drop h, Nat.add_assoc]

theorem scanWhile_le (p : Char → Bool) (hi : i ≤ input.length + 1) :
    scanWhile input (fun _ => p) i ≤ input.length + 1 := by
  have hle := (List.takeWhile_sublist (l := input.drop i) p).length_le
  rw [List.length_drop] at hle
  rw [scanWhile_eq]
  omega

theorem skipWhile_cursorAt (p : Char → Bool) (i : Nat) :
    (cursorAt input base i).skipWhile p =
      cursorAt input base (scanWhile input (fun _ => p) i) := by
  rw [scanWhile_eq]
  by_cases hi : i ≤ input.length
  · have hrun : input.drop i = (input.drop i).takeWhile p ++ (input.drop i).dropWhile p :=
      List.takeWhile_append_dropWhile.symm
    rw [← past_cursorAt base hrun hi, cursorAt_of_le hi]
    rfl
  · have hge : input.length ≤ i := Nat.le_of_not_le hi
    rw [List.drop_eq_nil_of_le hge, cursorAt_of_ge hge, List.takeWhile_nil, List.length_nil,
      Nat.add_zero, cursorAt_of_ge hge]
    rfl

theorem Agrees.map (h : Agrees input base r s) (f : α → β) :
    Agrees input base (r.map f) (s.map f) := by
  obtain ⟨hresult, hafter, hle⟩ := h
  refine ⟨?_, hafter, hle⟩
  rw [Reading.map, Step.map, hresult]
  cases s.result <;> rfl

theorem Agrees.eq_ok {a : α} (h : Agrees input base ⟨.ok a, j⟩ s) :
    s = ⟨.ok a, cursorAt input base j⟩ := by
  obtain ⟨result, after⟩ := s
  obtain ⟨hresult, rfl, -⟩ := h
  cases result with
  | ok b =>
      obtain rfl := Except.ok.inj hresult
      rfl
  | error e => cases hresult

theorem Agrees.eq_error {halt : Halt} (h : Agrees input base ⟨.error halt, j⟩ s) :
    ∃ e, halt = .fault e ∧ s = ⟨.error e, cursorAt input base j⟩ := by
  obtain ⟨result, after⟩ := s
  obtain ⟨hresult, rfl, -⟩ := h
  cases result with
  | ok b => cases hresult
  | error e => exact ⟨e, Except.error.inj hresult, rfl⟩

theorem agrees_at {result : Except Halt α} {result' : Except LexError α}
    (hresult : result = embed result') (hi : i ≤ input.length + 1) :
    Agrees input base ⟨result, i⟩ ⟨result', cursorAt input base i⟩ :=
  ⟨hresult, rfl, hi⟩

theorem agrees_halted {fault : Fault} {position : Nat} {after : Cursor}
    (hafter : after = cursorAt input base i) (hi : i ≤ input.length + 1) :
    Agrees input base (⟨halted fault position, i⟩ : Reading α) (fail fault position after) := by
  subst hafter
  exact agrees_at rfl hi

-- A run of characters that is a token.
theorem agrees_run {f : List Char → Token} (h : input.drop i = run ++ rest)
    (hi : i ≤ input.length) :
    Agrees input base ⟨(slice input i (i + run.length)).map f, i + run.length⟩
      ⟨.ok (f run), (cursorAt input base i).past run rest⟩ := by
  have hlength := congrArg List.length h
  rw [List.length_drop, List.length_append] at hlength
  rw [slice_of_drop h hi, past_cursorAt base h hi]
  exact agrees_at rfl (by omega)

theorem agrees_readString (h : input[i]? = some quote) :
    Agrees input base (readString input base quote i)
      (Token.readString quote (cursorAt input base i)) := by
  have hlt := lt_length_of_getElem? h
  have hrest : (cursorAt input base i).rest.drop 1 = input.drop (i + 1) := List.drop_drop ..
  unfold readString Token.readString
  rw [hrest, stringEnd_eq quote hlt]
  cases hbody : stringBody quote (input.drop (i + 1)) with
  | none =>
      rw [offset_cursorAt (Nat.le_of_lt hlt)]
      exact agrees_halted (atEnd_cursorAt (Nat.le_refl _)) (Nat.le_succ _)
  | some body =>
      obtain ⟨content, written, after⟩ := body
      have hrun : input.drop i = (quote :: written) ++ after := by
        rw [drop_of_getElem? h, eq_of_stringBody hbody, List.cons_append]
      have hstop : i + 1 + written.length = i + (quote :: written).length := by
        rw [List.length_cons]
        omega
      dsimp only
      rw [hstop]
      exact agrees_run hrun (Nat.le_of_lt hlt)

-- How a bracketed run is found by position and by what is left of the text.
theorem bracketEnd_cases (d : Delimiters) (base : Nat) (hi : i ≤ input.length) :
    (∃ inner rest, extent d 0 none (base + i) (input.drop i) = .closed inner rest ∧
      bracketEnd input d 0 i = (.closed, i + inner.length)) ∨
    (∃ q stop, extent d 0 none (base + i) (input.drop i) = .openQuote (base + q) ∧
      bracketEnd input d 0 i = (.openQuote q, stop) ∧ input.length ≤ stop ∧
      stop ≤ input.length + 1) ∨
    extent d 0 none (base + i) (input.drop i) = .unclosed ∧
      bracketEnd input d 0 i = (.unclosed, input.length) := by
  have hends : Ends input base i (extent d 0 none (base + i) (input.drop i))
    (bracketEnd input d 0 i) := ends_bracketEnd base hi
  cases hextent : extent d 0 none (base + i) (input.drop i) with
  | closed inner rest =>
      rw [hextent] at hends
      exact .inl ⟨inner, rest, rfl, hends⟩
  | openQuote position =>
      rw [hextent] at hends
      obtain ⟨q, stop, hend, rfl, hstop⟩ := hends
      exact .inr (.inl ⟨q, stop, rfl, hend, hstop⟩)
  | unclosed =>
      rw [hextent] at hends
      exact .inr (.inr ⟨rfl, hends⟩)

-- The content of a bracketed run, and the place behind its closing bracket.
theorem of_extent_closed {d : Delimiters} {inner : List Char} {position : Nat} (base : Nat)
    (h : extent d 0 none position (input.drop i) = .closed inner rest) (hi : i ≤ input.length) :
    slice input i (i + inner.length) = .ok inner ∧ i + inner.length < input.length ∧
      (cursorAt input base i).past (inner ++ [d.closing]) rest =
        cursorAt input base (i + inner.length + 1) := by
  have hinner := eq_of_extent_closed h
  have hclosed : input.drop i = (inner ++ [d.closing]) ++ rest := by simp [hinner]
  have hpast := past_cursorAt base hclosed hi
  have hlength := congrArg List.length hinner
  rw [List.length_append, List.length_singleton, ← Nat.add_assoc] at hpast
  rw [List.length_drop, List.length_append, List.length_cons] at hlength
  exact ⟨slice_of_drop hinner hi, by omega, hpast⟩

theorem cons_prefix_drop {word : List Char} : x :: word <+: input.drop i ↔
    input[i]? = some x ∧ word <+: input.drop (i + 1) := by
  cases h : input[i]? with
  | none => simp [drop_of_getElem?_none h]
  | some y => rw [drop_of_getElem? h, List.cons_prefix_cons, Option.some_inj, eq_comm]

theorem length_symbol_le {op : Operator} (h : Token.operatorAt? (input.drop i) = some op)
    (hi : i ≤ input.length) : i + op.symbol.length ≤ input.length := by
  have hmatches : op.symbol.toList.isPrefixOf (input.drop i) = true :=
    List.find?_some (p := fun op : Operator => op.symbol.toList.isPrefixOf (input.drop i)) h
  have hfront := (List.isPrefixOf_iff_prefix.mp hmatches).length_le
  rw [List.length_drop, String.length_toList] at hfront
  omega

section Brackets

variable {inside : List Char → Nat → Except Halt (List Token)}
  {inside' : Cursor → Except LexError (List Token)}

-- A template that is closed ends in the text.
theorem le_of_templateBody {start : Nat} {body : List Char × List Token}
    (h : (templateBody input base inside start i).result = .ok body) :
    (templateBody input base inside start i).position ≤ input.length := by
  fun_induction templateBody input base inside start i generalizing body with
  | case1 | case3 | case6 => cases h
  | case2 i hx => exact lt_length_of_getElem? hx
  | case4 | case5 | case7 =>
      rename_i ih
      obtain ⟨_, hmore, -⟩ := Outcome.map_eq_ok_iff.mp h
      exact ih hmore

variable (hinside : ∀ inner start, inside inner start = embed (inside' ⟨inner, start⟩))
include hinside

theorem agrees_readReference (base : Nat) (h : i + 2 ≤ input.length) :
    Agrees input base (readReference input base inside i)
      (Token.readReference inside' (cursorAt input base i)) := by
  have hi : i ≤ input.length := by omega
  have hrest : (cursorAt input base (i + 2)).rest = input.drop (i + 2) := rfl
  unfold readReference Token.readReference
  dsimp only
  rw [advance_cursorAt h, offset_cursorAt h, offset_cursorAt hi, hrest]
  rcases bracketEnd_cases referenceDelimiters base h with
    ⟨inner, rest, hextent, hend⟩ | ⟨q, stop, hextent, hend, hstop, hstop'⟩ | ⟨hextent, hend⟩ <;>
    rw [hextent, hend] <;> dsimp only
  · obtain ⟨hslice, hlt, hpast⟩ := of_extent_closed base hextent h
    have hpast' : (cursorAt input base (i + 2)).past (inner ++ ['}']) rest =
        cursorAt input base (i + 2 + inner.length + 1) := hpast
    rw [hslice, hpast']
    by_cases hempty : (Text.trim inner).isEmpty = true
    · rw [if_pos hempty]
      refine agrees_at ?_ (Nat.le_succ_of_le hlt)
      simp only [bind, Except.bind, if_pos hempty]
      rfl
    · rw [if_neg hempty]
      refine agrees_at ?_ (Nat.le_succ_of_le hlt)
      simp only [bind, Except.bind, if_neg hempty, hinside]
      cases inside' ⟨inner, base + (i + 2)⟩ <;> rfl
  · exact agrees_halted (atEnd_cursorAt hstop) hstop'
  · exact agrees_halted (atEnd_cursorAt (Nat.le_refl _)) (Nat.le_succ _)

theorem agrees_readContainer (base : Nat) (d : Delimiters) (kind : Kind) (fault : Fault)
    (h : input[i]? = some d.opening) :
    Agrees input base (readContainer input base inside kind d fault i)
      (Token.readContainer inside' kind d fault (cursorAt input base i)) := by
  have hlt := lt_length_of_getElem? h
  have hi : i ≤ input.length := Nat.le_of_lt hlt
  have hrest : (cursorAt input base (i + 1)).rest = input.drop (i + 1) := rfl
  unfold readContainer Token.readContainer
  dsimp only
  rw [advance_cursorAt hlt, offset_cursorAt hlt, offset_cursorAt hi, hrest]
  rcases bracketEnd_cases d base hlt with
    ⟨inner, rest, hextent, hend⟩ | ⟨q, stop, hextent, hend, hstop, hstop'⟩ | ⟨hextent, hend⟩ <;>
    rw [hextent, hend] <;> dsimp only
  · obtain ⟨hslice, hstop, hpast⟩ := of_extent_closed base hextent hlt
    have hraw : slice input i (i + 1 + inner.length + 1) =
        .ok (d.opening :: inner ++ [d.closing]) := by
      have hrun : input.drop i = (d.opening :: inner ++ [d.closing]) ++ rest := by
        simp [drop_of_getElem? h, eq_of_extent_closed hextent]
      have hwhole := slice_of_drop hrun hi
      rwa [List.length_append, List.length_cons, List.length_singleton,
        Nat.add_comm inner.length, ← Nat.add_assoc, ← Nat.add_assoc] at hwhole
    rw [hslice, hpast]
    refine agrees_at ?_ (Nat.le_succ_of_le hstop)
    simp only [bind, Except.bind, hinside, hraw]
    cases inside' ⟨inner, base + (i + 1)⟩ <;> rfl
  · exact agrees_halted (atEnd_cursorAt hstop) hstop'
  · exact agrees_halted (atEnd_cursorAt (Nat.le_refl _)) (Nat.le_succ _)

-- Both readers go on after a reference, or both stop with its fault.
theorem agrees_templateBody {start : Nat} (base : Nat) (hi : i ≤ input.length + 1) :
    Agrees input base (templateBody input base inside start i)
      (Token.templateBody inside' (base + start) (cursorAt input base i)) := by
  have hrest (i : Nat) : (cursorAt input base i).rest = input.drop i := rfl
  fun_induction templateBody input base inside start i with
  | case1 i h =>
      rw [templateBody_nil (by rw [hrest, drop_of_getElem?_none h])]
      exact agrees_halted rfl hi
  | case2 i h =>
      have hlt := lt_length_of_getElem? h
      rw [templateBody_end (by rw [hrest, drop_of_getElem? h]), advance_cursorAt hlt]
      exact agrees_at rfl (Nat.le_succ_of_le hlt)
  | case3 i he h =>
      have hlt := lt_length_of_getElem? h
      have hle := List.getElem?_eq_none_iff.mp he
      rw [templateBody_backslash (by rw [hrest, drop_of_getElem? h, drop_of_getElem?_none he])]
      exact agrees_halted (atEnd_cursorAt hle) (Nat.le_succ_of_le hlt)
  | case4 i e he h hend ih =>
      have hlt := lt_length_of_getElem? he
      have hescape : (cursorAt input base i).rest = '\\' :: e :: input.drop (i + 2) := by
        rw [hrest, drop_of_getElem? h, drop_of_getElem? he]
      rw [templateBody_escape hescape, advance_cursorAt hlt]
      exact (ih (Nat.le_succ_of_le hlt)).map _
  | case5 i x h hend hescape hdollar t next hread ih =>
      have hopens : opensReference (cursorAt input base i).rest = true := by
        simp [hrest, opensReference_drop h, hdollar]
      have hreference := agrees_readReference hinside base (lt_length_of_getElem? hdollar.2)
      rw [hread] at hreference
      rw [templateBody_reference hopens hreference.eq_ok]
      exact (ih hreference.position_le).map _
  | case6 i x h hend hescape hdollar halt next hread =>
      have hopens : opensReference (cursorAt input base i).rest = true := by
        simp [hrest, opensReference_drop h, hdollar]
      have hreference := agrees_readReference hinside base (lt_length_of_getElem? hdollar.2)
      rw [hread] at hreference
      obtain ⟨e, rfl, herror⟩ := hreference.eq_error
      rw [templateBody_reference_error hopens herror]
      exact agrees_at rfl hreference.position_le
  | case7 i x h hend hescape hdollar ih =>
      have hlt := lt_length_of_getElem? h
      have hopens : opensReference (x :: input.drop (i + 1)) = false := by
        rw [← drop_of_getElem? h, opensReference_drop h]
        simpa using hdollar
      rw [templateBody_char (by rw [hrest, drop_of_getElem? h]) hend hescape hopens,
        advance_cursorAt hlt]
      exact (ih (Nat.le_succ_of_le hlt)).map _

theorem agrees_readTemplate (base : Nat) (h : i < input.length) :
    Agrees input base (readTemplate input base inside i)
      (Token.readTemplate inside' (cursorAt input base i)) := by
  have hi : i ≤ input.length := Nat.le_of_lt h
  have hle := le_templateBody input base inside i (i + 1)
  have hbody : Agrees input base (templateBody input base inside i (i + 1)) _ :=
    agrees_templateBody hinside base (Nat.le_succ_of_le h)
  unfold readTemplate Token.readTemplate
  rw [advance_cursorAt h, offset_cursorAt hi]
  cases hread : templateBody input base inside i (i + 1) with | mk result stop =>
  rw [hread] at hbody hle
  cases result with
  | ok body =>
      have hstop : stop ≤ input.length := by
        simpa only [hread] using le_of_templateBody (congrArg Reading.result hread)
      have hupTo : (cursorAt input base i).upTo (cursorAt input base stop) =
          (input.take stop).drop i := by
        rw [Cursor.upTo, offset_cursorAt hi, offset_cursorAt hstop, List.drop_take]
        congr 1
        omega
      have hslice : slice input i stop = .ok ((input.take stop).drop i) :=
        if_pos ⟨Nat.le_of_lt hle, hstop⟩
      rw [hbody.eq_ok]
      dsimp only
      rw [hupTo, hslice]
      exact agrees_at rfl (Nat.le_succ_of_le hstop)
  | error halt =>
      obtain ⟨e, rfl, herror⟩ := hbody.eq_error
      rw [herror]
      exact agrees_at rfl hbody.position_le

theorem agrees_readToken (base : Nat) (h : input[i]? = some x) :
    Agrees input base (readToken input base inside i x)
      (Token.readToken inside' (cursorAt input base i) x (input.drop (i + 1))) := by
  have hlt := lt_length_of_getElem? h
  have hi : i ≤ input.length := Nat.le_of_lt hlt
  have hopens : opensReference (x :: input.drop (i + 1)) = true ↔
      x = '$' ∧ input[i + 1]? = some '{' := by
    simp [← drop_of_getElem? h, opensReference_drop h]
  have hdots : "...".toList.isPrefixOf (x :: input.drop (i + 1)) = true ↔
      x = '.' ∧ input[i + 1]? = some '.' ∧ input[i + 2]? = some '.' := by
    have hword : "...".toList = ['.', '.', '.'] := rfl
    rw [List.isPrefixOf_iff_prefix, hword, List.cons_prefix_cons, cons_prefix_drop,
      cons_prefix_drop, eq_comm]
    simp
  unfold readToken Token.readToken
  by_cases hreference : x = '$' ∧ input[i + 1]? = some '{'
  · rw [if_pos hreference, if_pos (hopens.mpr hreference)]
    exact agrees_readReference hinside base (lt_length_of_getElem? hreference.2)
  rw [if_neg hreference, if_neg (mt hopens.mp hreference)]
  by_cases hstring : x = '"' ∨ x = '\''
  · rw [if_pos hstring, if_pos hstring]
    exact agrees_readString h
  rw [if_neg hstring, if_neg hstring]
  by_cases htemplate : x = '\x60'
  · rw [if_pos htemplate, if_pos htemplate]
    exact agrees_readTemplate hinside base hlt
  rw [if_neg htemplate, if_neg htemplate]
  by_cases hobject : x = '{'
  · rw [if_pos hobject, if_pos hobject]
    rw [hobject] at h
    exact agrees_readContainer hinside base objectDelimiters _ _ h
  rw [if_neg hobject, if_neg hobject]
  by_cases harray : x = '['
  · rw [if_pos harray, if_pos harray]
    rw [harray] at h
    exact agrees_readContainer hinside base arrayDelimiters _ _ h
  rw [if_neg harray, if_neg harray]
  by_cases hspread : x = '.' ∧ input[i + 1]? = some '.' ∧ input[i + 2]? = some '.'
  · have hstop := lt_length_of_getElem? hspread.2.2
    rw [if_pos hspread, if_pos (hdots.mpr hspread), advance_cursorAt hstop]
    exact agrees_at rfl (Nat.le_succ_of_le hstop)
  rw [if_neg hspread, if_neg (mt hdots.mp hspread)]
  by_cases hpunctuation : x ∈ punctuationChars
  · rw [if_pos hpunctuation, if_pos hpunctuation, advance_cursorAt hlt]
    exact agrees_at rfl (Nat.le_succ_of_le hlt)
  rw [if_neg hpunctuation, if_neg hpunctuation]
  by_cases hdigit : x.isDigit = true
  · rw [if_pos hdigit, if_pos hdigit, ← drop_of_getElem? h, numberEnd_eq]
    exact agrees_run (eq_of_numberRun _).symm hi
  rw [if_neg hdigit, if_neg hdigit]
  by_cases hoperator : isOperatorChar x = true
  · rw [if_pos hoperator, if_pos hoperator, ← drop_of_getElem? h, operatorAt?_eq,
      offset_cursorAt hi]
    cases hop : Token.operatorAt? (input.drop i) with
    | none => exact agrees_halted rfl (Nat.le_succ_of_le hi)
    | some op =>
        have hstop := length_symbol_le hop hi
        dsimp only
        rw [advance_cursorAt hstop]
        exact agrees_at rfl (Nat.le_succ_of_le hstop)
  rw [if_neg hoperator, if_neg hoperator]
  by_cases hname : isIdentifierChar x = true
  · rw [if_pos hname, if_pos hname, ← drop_of_getElem? h, identifierEnd_eq]
    exact agrees_run (eq_of_identifierRun _).symm hi
  · rw [if_neg hname, if_neg hname, offset_cursorAt hi]
    exact agrees_halted rfl (Nat.le_succ_of_le hi)

theorem agrees_nextWith (base : Nat) (hi : i ≤ input.length + 1) :
    Agrees input base (nextWith input base inside i)
      (Token.nextWith inside' (cursorAt input base i)) := by
  have hrest (i : Nat) : (cursorAt input base i).rest = input.drop i := rfl
  unfold nextWith Token.nextWith
  dsimp only
  rw [skipWhile_cursorAt, hrest]
  cases hx : input[scanWhile input (fun _ => Text.isBlank) i]? with
  | none =>
      rw [drop_of_getElem?_none hx]
      exact agrees_at rfl (scanWhile_le _ hi)
  | some x =>
      rw [drop_of_getElem? hx]
      exact (agrees_readToken hinside base hx).map some

theorem readAll_eq (base : Nat) (hi : i ≤ input.length + 1) :
    readAll input base inside i = embed (Token.readAll inside' (cursorAt input base i)) := by
  fun_induction readAll input base inside i with
  | case1 i t next hnext ih =>
      have hagrees := agrees_nextWith hinside base hi
      rw [hnext] at hagrees
      rw [readAll_some hagrees.eq_ok, ih hagrees.position_le]
      cases Token.readAll inside' (cursorAt input base next) <;> rfl
  | case2 i next hnext =>
      have hagrees := agrees_nextWith hinside base hi
      rw [hnext] at hagrees
      rw [readAll_none hagrees.eq_ok]
      rfl
  | case3 i halt next hnext =>
      have hagrees := agrees_nextWith hinside base hi
      rw [hnext] at hagrees
      obtain ⟨e, rfl, herror⟩ := hagrees.eq_error
      rw [readAll_error herror]
      rfl

end Brackets

-- What a lexer with which so many brackets may still be nested reads in a bracket.
def contentOf : Nat → Cursor → Except LexError (List Token)
  | 0 => fun body => .error ⟨.nestedTooDeeply, some body.offset⟩
  | levels + 1 => lexWithin levels

theorem lexWithin_eq (levels : Nat) : lexWithin levels = Token.readAll (contentOf levels) := by
  cases levels <;> rfl

theorem content_eq (levels : Nat) (inner : List Char) (start : Nat) :
    content levels inner start = embed (contentOf levels ⟨inner, start⟩) := by
  induction levels generalizing inner start with
  | zero => rfl
  | succ levels ih =>
      rw [content, contentOf, lexWithin_eq, readAll_eq ih start (Nat.zero_le _), cursorAt]
      simp

end FlowExpr.Token.Indexed
