import FlowExpr.Proofs.Blank
import FlowExpr.Outcome
import FlowExpr.Proofs.Quoting

namespace FlowExpr.Path

open Text (Cursor)

-- What a key stands for that is written between quotes: a backslash keeps the character after it.
def unescape : List Char → List Char
  | '\\' :: c :: rest => c :: unescape rest
  | c :: rest => c :: unescape rest
  | [] => []

-- The text has the name between quotes, with at least one backslash in it.
def IsEscapedIn (text name : List Char) : Prop :=
  ∃ quote ∈ ['"', '\''], ∃ written,
    quote :: (written ++ [quote]) <:+: text ∧ '\\' ∈ written ∧ unescape written = name

-- How a segment stands in the text of a path. Only a backslash keeps a name from being there as it
-- is.
def IsWrittenIn (text : List Char) : Segment → Prop
  | .property name => name.toList <:+: text ∨ IsEscapedIn text name.toList
  | .index _ => True
  | .computed key => key.toList <:+: text

-- A segment is read at the front of the text, and stands there.
def IsReadAt (c : Cursor) (segment : Segment) (after : Cursor) : Prop :=
  after.rest <:+ c.rest ∧ IsWrittenIn c.rest segment

variable {c after : Cursor} {segment : Segment} {text more : List Char}

theorem unescape_eq_self (h : '\\' ∉ text) : unescape text = text := by
  fun_induction unescape text with
  | case1 => simp at h
  | case2 c rest _ ih => rw [ih fun hmem => h (List.mem_cons_of_mem c hmem)]
  | case3 => rfl

theorem unescape_eq_decode (text : List Char) : unescape text = Text.decode id text := by
  fun_induction unescape text with
  | case1 c rest ih => simp [Text.decode, ih]
  | case2 c rest hplain ih => simp [Text.decode, ih]
  | case3 => rfl

theorem IsWrittenIn.of_isInfix (h : IsWrittenIn text segment) (hmore : text <:+: more) :
    IsWrittenIn more segment := by
  cases segment with
  | property name =>
      rcases h with hname | ⟨quote, hquote, written, hwritten, hescaped⟩
      · exact .inl (hname.trans hmore)
      · exact .inr ⟨quote, hquote, written, hwritten.trans hmore, hescaped⟩
  | index i => trivial
  | computed key => exact List.IsInfix.trans h hmore

theorem skipWhile_suffix (c : Cursor) (p : Char → Bool) : (c.skipWhile p).rest <:+ c.rest :=
  List.dropWhile_suffix p

theorem advance_suffix (c : Cursor) (n : Nat) : (c.advance n).rest <:+ c.rest :=
  List.drop_suffix n c.rest

theorem isReadAt_of_readName (h : readName c = .ok (segment, after)) :
    IsReadAt c segment after := by
  unfold readName at h
  dsimp only at h
  split at h
  · simp at h
  · simp only [Except.ok.injEq, Prod.mk.injEq] at h
    obtain ⟨rfl, rfl⟩ := h
    refine ⟨skipWhile_suffix c _, .inl ?_⟩
    rw [String.toList_ofList]
    exact (Text.trim_infix _).trans (List.takeWhile_prefix _).isInfix

theorem isReadAt_of_readQuoted {quote : Char} (hquote : quote ∈ ['"', '\''])
    (hopen : c.rest.head? = some quote) (h : readQuoted quote c = .ok (segment, after)) :
    IsReadAt c segment after := by
  obtain ⟨text, hc⟩ := List.head?_eq_some_iff.mp hopen
  unfold readQuoted at h
  split at h
  · simp at h
  · rename_i key written rest hkey
    dsimp only at h
    split at h
    · simp only [Except.ok.injEq, Prod.mk.injEq] at h
      obtain ⟨rfl, rfl⟩ := h
      obtain ⟨inner, -, htail, rfl, rfl⟩ := exists_of_quotedKey hkey
      have htext : c.rest = quote :: (inner ++ [quote] ++ rest) := by
        rw [hc, List.drop_one, List.tail_cons] at htail
        rw [hc, htail, List.append_assoc]
        rfl
      have hskip := skipWhile_suffix (c.past (quote :: (inner ++ [quote])) rest) Text.isBlank
      have hrest : rest <:+ c.rest := ⟨quote :: (inner ++ [quote]), by rw [htext]; rfl⟩
      have hwritten : quote :: (inner ++ [quote]) <:+: c.rest := ⟨[], rest, by rw [htext]; rfl⟩
      refine ⟨(advance_suffix _ 1).trans (hskip.trans hrest), ?_⟩
      simp only [IsWrittenIn, String.toList_ofList, ← unescape_eq_decode]
      by_cases hescape : '\\' ∈ inner
      · exact .inr ⟨quote, hquote, inner, hwritten, hescape, rfl⟩
      · rw [unescape_eq_self hescape]
        exact .inl (List.IsInfix.trans ⟨[quote], [quote], rfl⟩ hwritten)
    · simp at h

theorem eq_of_ofBracketText {opening start : Nat} {inner : List Char}
    (h : ofBracketText opening start inner = .ok segment) :
    (∃ i, segment = .index i) ∨ segment = .computed (String.ofList (Text.trim inner)) := by
  unfold ofBracketText at h
  dsimp only at h
  split at h
  · simp at h
  split at h
  · split at h
    · rename_i i _
      exact .inl ⟨i, (Except.ok.inj h).symm⟩
    · simp at h
  · exact .inr (Except.ok.inj h).symm

theorem isReadAt_of_readUnquoted {opening : Nat}
    (h : readUnquoted opening c = .ok (segment, after)) : IsReadAt c segment after := by
  unfold readUnquoted at h
  split at h
  · simp at h
  · simp at h
  · rename_i inner rest hbody
    obtain ⟨segment', hsegment, hpair⟩ := Outcome.map_eq_ok_iff.mp h
    obtain ⟨rfl, rfl⟩ := Prod.mk.inj hpair
    have hrest : c.rest = inner ++ rest := eq_of_bracketBody hbody
    refine ⟨(advance_suffix _ 1).trans (hrest ▸ List.suffix_append inner rest), ?_⟩
    obtain ⟨i, rfl⟩ | rfl := eq_of_ofBracketText hsegment
    · trivial
    · rw [IsWrittenIn, String.toList_ofList, hrest]
      exact (Text.trim_infix inner).trans List.infix_append_left

theorem IsReadAt.of_suffix {start : Cursor} (h : IsReadAt start segment after)
    (hstart : start.rest <:+ c.rest) : IsReadAt c segment after :=
  ⟨h.1.trans hstart, h.2.of_isInfix hstart.isInfix⟩

theorem isReadAt_of_readBracket (h : readBracket c = .ok (segment, after)) :
    IsReadAt c segment after := by
  have hstart : ((c.advance 1).skipWhile Text.isBlank).rest <:+ c.rest :=
    (skipWhile_suffix _ _).trans (advance_suffix c 1)
  unfold readBracket at h
  dsimp only at h
  split at h
  · simp at h
  split at h
  · rename_i hopen
    exact (isReadAt_of_readQuoted (by simp) (by rw [hopen]; rfl) h).of_suffix hstart
  · rename_i hopen
    exact (isReadAt_of_readQuoted (by simp) (by rw [hopen]; rfl) h).of_suffix hstart
  · exact (isReadAt_of_readUnquoted h).of_suffix hstart

-- A segment that is read, and those of the rest, stand in the text.
private theorem isWrittenIn_of_isReadAt {first : Segment} {segments : Path}
    (hfirst : IsReadAt c first after)
    (hrest : ∀ segment ∈ segments, IsWrittenIn after.rest segment)
    (hsegment : segment ∈ first :: segments) : IsWrittenIn c.rest segment := by
  rcases List.mem_cons.mp hsegment with rfl | hsegment
  · exact hfirst.2
  · exact (hrest segment hsegment).of_isInfix hfirst.1.isInfix

theorem isWrittenIn_of_readRest {segments : Path} (h : readRest c = .ok segments) :
    ∀ segment ∈ segments, IsWrittenIn c.rest segment := by
  fun_induction readRest c generalizing segments with
  | case1 =>
      simp only [Except.ok.injEq] at h
      simp [← h]
  | case2 | case4 | case6 | case7 => simp at h
  | case3 c tail segment after hread _ ih =>
      obtain ⟨more, hmore, rfl⟩ := Outcome.map_eq_ok_iff.mp h
      have hfirst : IsReadAt c segment after :=
        (isReadAt_of_readName hread).of_suffix (advance_suffix c 1)
      exact fun _ => isWrittenIn_of_isReadAt hfirst (ih hmore)
  | case5 c tail segment after hread _ _ ih =>
      obtain ⟨more, hmore, rfl⟩ := Outcome.map_eq_ok_iff.mp h
      exact fun _ => isWrittenIn_of_isReadAt (isReadAt_of_readBracket hread) (ih hmore)

-- Every segment of a path stands in the path's text.
theorem isWrittenIn_of_read {path : String} {segments : Path} (h : read path = .ok segments) :
    ∀ segment ∈ segments, IsWrittenIn path.toList segment := by
  unfold read at h
  split at h
  · rename_i segments' hread
    simp only [Except.ok.injEq] at h
    obtain rfl := h
    unfold readSegments at hread
    split at hread
    · simp at hread
    · exact isWrittenIn_of_readRest hread
    · split at hread
      · simp at hread
      · rename_i segment after hname
        obtain ⟨more, hmore, rfl⟩ := Outcome.map_eq_ok_iff.mp hread
        exact fun _ => isWrittenIn_of_isReadAt (isReadAt_of_readName hname)
          (isWrittenIn_of_readRest hmore)
  · simp at h

theorem readRest_nil {c : Cursor} (hc : c.rest = []) : readRest c = .ok [] := by
  rw [readRest]
  split <;> simp_all

theorem readRest_dot {after : Cursor} {rest : List Char} {segment : Segment} {offset : Nat}
    (h : readName ⟨rest, offset + 1⟩ = .ok (segment, after)) :
    readRest ⟨'.' :: rest, offset⟩ = (readRest after).map (segment :: ·) := by
  have hname : readName ((Cursor.mk ('.' :: rest) offset).advance 1) = .ok (segment, after) := h
  rw [readRest]
  simp only [if_true]
  split
  · simp_all
  · simp_all

theorem readRest_bracket {c after : Cursor} {rest : List Char} {segment : Segment}
    (hc : c.rest = '[' :: rest) (h : readBracket c = .ok (segment, after)) :
    readRest c = (readRest after).map (segment :: ·) := by
  rw [readRest]
  split
  · simp_all
  · rename_i x tail hcons
    obtain ⟨rfl, rfl⟩ := List.cons.inj (hc.symm.trans hcons)
    simp only [Char.reduceEq, if_false, if_true]
    split <;> simp_all

end FlowExpr.Path
