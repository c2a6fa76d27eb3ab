import FlowExpr.Proofs.Indexing
import FlowExpr.Proofs.Reading

namespace FlowExpr.Token.Indexed

variable {input : List Char} {i j : Nat} {x quote : Char} {run rest : List Char}

theorem drop_of_getElem? (h : input[i]? = some x) : input.drop i = x :: input.drop (i + 1) := by
  obtain ⟨hlt, rfl⟩ := List.getElem?_eq_some_iff.mp h
  exact List.drop_eq_getElem_cons hlt

theorem drop_of_getElem?_none (h : input[i]? = none) : input.drop i = [] :=
  List.drop_eq_nil_of_le (List.getElem?_eq_none_iff.mp h)

-- A run that stands at a position is the slice up to the position behind it.
theorem slice_of_drop (h : input.drop i = run ++ rest) (hi : i ≤ input.length) :
    slice input i (i + run.length) = .ok run := by
  have hlength := congrArg List.length h
  rw [List.length_drop, List.length_append] at hlength
  rw [slice, if_pos ⟨Nat.le_add_right _ _, by omega⟩, List.drop_take, h, Nat.add_sub_cancel_left,
    List.take_left]

theorem drop_of_drop (h : input.drop i = run ++ rest) : input.drop (i + run.length) = rest := by
  rw [← List.drop_drop, h, List.drop_left]

theorem scanWhile_eq (p : Char → Bool) (i : Nat) :
    scanWhile input (fun _ => p) i = i + ((input.drop i).takeWhile p).length := by
  fun_induction scanWhile input (fun _ => p) i with
  | case1 i x h hx ih =>
      rw [ih, drop_of_getElem? h, List.takeWhile_cons_of_pos hx, List.length_cons]
      omega
  | case2 i x h hx =>
      rw [drop_of_getElem? h, List.takeWhile_cons_of_neg hx, List.length_nil, Nat.add_zero]
  | case3 i h => rw [drop_of_getElem?_none h, List.takeWhile_nil, List.length_nil, Nat.add_zero]

theorem drop_scanWhile (p : Char → Bool) (i : Nat) :
    input.drop (scanWhile input (fun _ => p) i) = (input.drop i).dropWhile p := by
  rw [scanWhile_eq]
  exact drop_of_drop List.takeWhile_append_dropWhile.symm

theorem opensReference_drop (h : input[i]? = some x) :
    opensReference (input.drop i) = (x == '$' && input[i + 1]? == some '{') := by
  rw [drop_of_getElem? h, opensReference_cons, List.head?_drop]

theorem identifierEnd_eq (i : Nat) :
    identifierEnd input i = i + (identifierRun (input.drop i)).1.length := by
  unfold identifierEnd
  fun_induction scanWhile input _ i with
  | case1 i x h hx ih =>
      rw [← opensReference_drop h, drop_of_getElem? h] at hx
      rw [ih, drop_of_getElem? h, identifierRun, if_pos hx, List.length_cons]
      omega
  | case2 i x h hx =>
      rw [← opensReference_drop h, drop_of_getElem? h] at hx
      rw [drop_of_getElem? h, identifierRun, if_neg hx, List.length_nil, Nat.add_zero]
  | case3 i h => rw [drop_of_getElem?_none h, identifierRun, List.length_nil, Nat.add_zero]

theorem isEmpty_splitDigits (text : List Char) :
    (Decimal.splitDigits text).1.isEmpty = !text.head?.any Char.isDigit := by
  cases text with
  | nil => rfl
  | cons x rest => cases hx : x.isDigit <;> simp [Decimal.splitDigits, hx]

theorem fst_numberRun (text : List Char) :
    (numberRun text).1 =
      if (Decimal.splitDigits text).2.head? == some '.' &&
          ((Decimal.splitDigits text).2.drop 1).head?.any Char.isDigit then
        (Decimal.splitDigits text).1 ++
          '.' :: (Decimal.splitDigits ((Decimal.splitDigits text).2.drop 1)).1
      else (Decimal.splitDigits text).1 := by
  unfold numberRun
  dsimp only
  split
  · rename_i more hrest
    have hempty := isEmpty_splitDigits more
    cases hany : more.head?.any Char.isDigit with
    | true => simp [hrest, hempty, hany]
    | false => simp [hrest, hempty, hany]
  · rename_i hdot
    cases hrest : (Decimal.splitDigits text).2 with
    | nil => simp
    | cons x more =>
        have hx : x ≠ '.' := fun hx => hdot more (by rw [hrest, hx])
        simp [hx]

theorem numberEnd_eq (i : Nat) :
    numberEnd input i = i + (numberRun (input.drop i)).1.length := by
  have hwhole (i : Nat) : scanWhile input (fun _ => Char.isDigit) i =
      i + (Decimal.splitDigits (input.drop i)).1.length := scanWhile_eq Char.isDigit i
  have hrest : input.drop (scanWhile input (fun _ => Char.isDigit) i) =
      (Decimal.splitDigits (input.drop i)).2 := drop_scanWhile Char.isDigit i
  unfold numberEnd
  dsimp only
  rw [← List.head?_drop, ← List.head?_drop, hwhole (_ + 1), ← List.drop_drop, hrest, hwhole,
    fst_numberRun]
  split
  · rw [List.length_append, List.length_cons]
    omega
  · rfl

theorem operatorAt?_eq (i : Nat) : operatorAt? input i = Token.operatorAt? (input.drop i) := by
  have hmatches (op : Operator) :
      (op.symbol.toList.zipIdx.all fun p => input[i + p.2]? == some p.1) =
        op.symbol.toList.isPrefixOf (input.drop i) := by
    rw [Bool.eq_iff_iff, List.all_eq_true, List.isPrefixOf_iff_prefix, List.prefix_iff_getElem?]
    simp only [List.getElem?_drop, beq_iff_eq, Prod.forall, List.mem_zipIdx_iff_getElem?]
    constructor
    · exact fun h k hk => h _ k (List.getElem?_eq_getElem hk)
    · intro h x k hx
      obtain ⟨hk, rfl⟩ := List.getElem?_eq_some_iff.mp hx
      exact h k hk
  simp only [operatorAt?, Token.operatorAt?, hmatches]

theorem stringBody_quote (quote : Char) (rest : List Char) :
    stringBody quote (quote :: rest) = some ([], [quote], rest) := by
  rw [stringBody.eq_def]
  exact if_pos rfl

theorem stringBody_char (hquote : x ≠ quote) (hescape : x ≠ '\\') (rest : List Char) :
    stringBody quote (x :: rest) = (stringBody quote rest).map fun (content, written, after) =>
      (x :: content, x :: written, after) := by
  rw [stringBody.eq_def]
  dsimp only
  rw [if_neg hquote, if_neg hescape]

-- The end of a string is found where its content is read, and otherwise at the end of the text.
theorem stringEnd_eq (quote : Char) (hi : i ≤ input.length) :
    stringEnd input quote i =
      match stringBody quote (input.drop i) with
      | some (content, written, _) => (some content, i + written.length)
      | none => (none, input.length) := by
  fun_induction stringEnd input quote i with
  | case1 i h =>
      have hle := List.getElem?_eq_none_iff.mp h
      rw [drop_of_getElem?_none h, stringBody]
      congr 1
      omega
  | case2 i h =>
      rw [drop_of_getElem? h, stringBody_quote]
      rfl
  | case3 i he h hquote =>
      have hlt := lt_length_of_getElem? h
      have hle := List.getElem?_eq_none_iff.mp he
      rw [drop_of_getElem? h, drop_of_getElem?_none he, stringBody, if_neg hquote, if_pos rfl]
      congr 1
      omega
  | case4 i e he content stop hstop h hquote ih =>
      have hend := hstop.symm.trans (ih (lt_length_of_getElem? he))
      rw [drop_of_getElem? h, drop_of_getElem? he, stringBody, if_neg hquote, if_pos rfl]
      cases hbody : stringBody quote (input.drop (i + 2)) with
      | none => simp_all
      | some body =>
          simp_all
          omega
  | case5 i x h hquote hescape content stop hstop ih =>
      have hend := hstop.symm.trans (ih (lt_length_of_getElem? h))
      rw [drop_of_getElem? h, stringBody_char hquote hescape]
      cases hbody : stringBody quote (input.drop (i + 1)) with
      | none => simp_all
      | some body =>
          simp_all
          omega

-- The end that is found from a position on is that of the run that stands there. A quote that is
-- never closed may take the position one place past the text.
def Ends (input : List Char) (base i : Nat) (found : Extent) (e : End × Nat) : Prop :=
  match found with
  | .closed inner _ => e = (.closed, i + inner.length)
  | .openQuote position => ∃ quote stop, e = (.openQuote quote, stop) ∧ position = base + quote ∧
      input.length ≤ stop ∧ stop ≤ input.length + 1
  | .unclosed => e = (.unclosed, input.length)

variable {d : Delimiters} {depth base start next : Nat} {found : Extent} {e : End × Nat}

theorem Ends.cons (h : Ends input base (i + 1) found e) (x : Char) :
    Ends input base i (found.cons x) e := by
  cases found with
  | closed inner rest =>
      obtain rfl := h
      simp only [Ends, Extent.cons, List.length_cons]
      congr 1
      omega
  | openQuote position => exact h
  | unclosed => exact h

theorem extent_char (hescape : x ≠ '\\') (position : Nat) (rest : List Char) :
    extent d depth (some (quote, start)) position (x :: rest) =
      (extent d depth (if x = quote then none else some (quote, start)) (position + 1) rest).cons
        x := by
  rw [extent.eq_def]
  dsimp only
  rw [if_neg hescape]

theorem skipQuoted_end (h : input.length ≤ i) : skipQuoted input quote i = (false, i) := by
  rw [skipQuoted]
  split
  · rfl
  · rename_i x hx
    have hlt := lt_length_of_getElem? hx
    omega

-- A quoted run that is passed is part of the bracketed one.
theorem Ends.of_skipQuoted (h : skipQuoted input quote i = (true, next))
    (hnext : Ends input base next (extent d depth none (base + next) (input.drop next)) e) :
    Ends input base i (extent d depth (some (quote, start)) (base + i) (input.drop i)) e := by
  fun_induction skipQuoted input quote i with
  | case1 => simp at h
  | case2 i hx ih =>
      cases he : input[i + 1]? with
      | none =>
          have hle := List.getElem?_eq_none_iff.mp he
          rw [skipQuoted_end (Nat.le_succ_of_le hle)] at h
          simp at h
      | some y =>
          rw [drop_of_getElem? hx, drop_of_getElem? he]
          exact ((ih h).cons y).cons '\\'
  | case3 i hx hescape =>
      obtain rfl := (Prod.mk.inj h).2
      rw [drop_of_getElem? hx, extent_char hescape, if_pos rfl]
      exact hnext.cons quote
  | case4 i x hx hescape hquote ih =>
      rw [drop_of_getElem? hx, extent_char hescape, if_neg hquote]
      exact (ih h).cons x

-- A quoted run that is open at the end of the text.
theorem extent_of_skipQuoted (h : skipQuoted input quote i = (false, next))
    (hi : i ≤ input.length + 1) (position : Nat) :
    extent d depth (some (quote, start)) position (input.drop i) = .openQuote start ∧
      input.length ≤ next ∧ next ≤ input.length + 1 := by
  fun_induction skipQuoted input quote i generalizing position with
  | case1 i hx =>
      obtain rfl := (Prod.mk.inj h).2
      have hle := List.getElem?_eq_none_iff.mp hx
      rw [drop_of_getElem?_none hx]
      exact ⟨rfl, hle, hi⟩
  | case2 i hx ih =>
      have hlt := lt_length_of_getElem? hx
      rw [drop_of_getElem? hx]
      cases he : input[i + 1]? with
      | none =>
          rw [drop_of_getElem?_none he]
          exact ⟨rfl, (ih h (by omega) position).2⟩
      | some y =>
          obtain ⟨hextent, hnext⟩ := ih h (by omega) (position + 2)
          rw [drop_of_getElem? he]
          refine ⟨?_, hnext⟩
          simp only [extent, if_true, hextent, Extent.cons]
  | case3 => simp at h
  | case4 i x hx hescape hquote ih =>
      have hlt := lt_length_of_getElem? hx
      obtain ⟨hextent, hnext⟩ := ih h (by omega) (position + 1)
      rw [drop_of_getElem? hx, extent_char hescape, if_neg hquote, hextent]
      exact ⟨rfl, hnext⟩

theorem le_of_skipQuoted (h : skipQuoted input quote i = (true, next)) :
    next ≤ input.length := by
  fun_induction skipQuoted input quote i with
  | case1 => simp at h
  | case3 i hx hescape =>
      obtain rfl := (Prod.mk.inj h).2
      exact lt_length_of_getElem? hx
  | case2 | case4 =>
      rename_i ih
      exact ih h

-- The run that stands at a position ends where it is said to.
theorem ends_bracketEnd (base : Nat) (hi : i ≤ input.length) :
    Ends input base i (extent d depth none (base + i) (input.drop i))
      (bracketEnd input d depth i) := by
  fun_induction bracketEnd input d depth i with
  | case1 depth i h =>
      have hle := List.getElem?_eq_none_iff.mp h
      rw [drop_of_getElem?_none h]
      exact congrArg (Prod.mk End.unclosed) (Nat.le_antisymm hi hle)
  | case2 depth i x hx hquote next hskip ih =>
      rw [drop_of_getElem? hx, extent.eq_def]
      simp only [if_pos hquote]
      exact ((ih (le_of_skipQuoted hskip)).of_skipQuoted hskip).cons x
  | case3 depth i x hx hquote next hskip =>
      have hlt := lt_length_of_getElem? hx
      have hopen : extent d depth (some (x, base + i)) (base + i + 1) (input.drop (i + 1)) =
          .openQuote (base + i) ∧ input.length ≤ next ∧ next ≤ input.length + 1 :=
        extent_of_skipQuoted hskip (by omega) (base + i + 1)
      rw [drop_of_getElem? hx, extent.eq_def]
      simp only [if_pos hquote, hopen.1]
      exact ⟨i, next, rfl, rfl, hopen.2⟩
  | case4 depth i hx hquote ih =>
      rw [drop_of_getElem? hx, extent.eq_def]
      simp only [if_neg hquote, if_true]
      exact (ih (lt_length_of_getElem? hx)).cons _
  | case5 i hx hquote hopening =>
      rw [drop_of_getElem? hx, extent.eq_def]
      simp only [if_neg hquote, if_neg hopening, if_true]
      rfl
  | case6 i depth hx hquote hopening ih =>
      rw [drop_of_getElem? hx, extent.eq_def]
      simp only [if_neg hquote, if_neg hopening, if_true]
      exact (ih (lt_length_of_getElem? hx)).cons _
  | case7 depth i x hx hquote hopening hclosing ih =>
      rw [drop_of_getElem? hx, extent.eq_def]
      simp only [if_neg hquote, if_neg hopening, if_neg hclosing]
      exact (ih (lt_length_of_getElem? hx)).cons _

end FlowExpr.Token.Indexed
