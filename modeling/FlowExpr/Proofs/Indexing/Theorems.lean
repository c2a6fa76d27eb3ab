import FlowExpr.Proofs.Indexing.Readers
import Mathlib.Order.Monotone.Basic

namespace FlowExpr.Token.Indexed

open Text (Cursor)

variable {input : List Char} {base levels start i : Nat}
  {inside : List Char → Nat → Except Halt (List Token)}

-- The place of the lexer that reads what is left of the text, after so many calls.
def cursorAfter (levels : Nat) (c : Cursor) : Nat → Cursor
  | 0 => c
  | calls + 1 => (Token.nextWith (contentOf levels) (cursorAfter levels c calls)).after

-- Nothing is read at the end of the text.
theorem nextWith_end (h : input.length ≤ i) : nextWith input base inside i = ⟨.ok none, i⟩ := by
  have hnone : input[i]? = none := List.getElem?_eq_none_iff.mpr h
  have hscan : scanWhile input (fun _ => Text.isBlank) i = i := by
    rw [scanWhile_eq, List.drop_eq_nil_of_le h]
    rfl
  unfold nextWith
  dsimp only
  rw [hscan, hnone]

theorem le_of_nextWith_none (h : (nextWith input base inside i).result = .ok none) :
    input.length ≤ (nextWith input base inside i).position := by
  unfold nextWith at h ⊢
  dsimp only at h ⊢
  cases hx : input[scanWhile input (fun _ => Text.isBlank) i]? with
  | none => exact List.getElem?_eq_none_iff.mp hx
  | some x =>
      rw [hx] at h
      obtain ⟨_, _, hsome⟩ := Outcome.map_eq_ok_iff.mp h
      cases hsome

theorem embed_ne_outOfRange {α : Type} (result : Except LexError α) (first last : Nat) :
    embed result ≠ .error (.outOfRange first last) := by
  cases result <;> simp [embed, Except.mapError]

theorem positionAfter_le (hstart : start ≤ input.length + 1) (calls : Nat) :
    positionAfter input base levels start calls ≤ input.length + 1 := by
  induction calls with
  | zero => exact hstart
  | succ calls ih => exact (agrees_nextWith (content_eq levels) base ih).position_le

theorem cursorAfter_eq (hstart : start ≤ input.length + 1) (calls : Nat) :
    cursorAfter levels (cursorAt input base start) calls =
      cursorAt input base (positionAfter input base levels start calls) := by
  induction calls with
  | zero => rfl
  | succ calls ih =>
      rw [cursorAfter, ih]
      exact (agrees_nextWith (content_eq levels) base (positionAfter_le hstart calls)).after

theorem resultAfter_eq (hstart : start ≤ input.length + 1) (calls : Nat) :
    resultAfter input base levels start calls = embed (Token.nextWith (contentOf levels)
      (cursorAfter levels (cursorAt input base start) calls)).result := by
  rw [cursorAfter_eq hstart]
  exact (agrees_nextWith (content_eq levels) base (positionAfter_le hstart calls)).result

theorem positionAfter_mono (input : List Char) (base levels start : Nat) :
    Monotone (positionAfter input base levels start) :=
  monotone_nat_of_le_succ fun _ => le_nextWith input base (content levels) _

-- After a call at the end of the text, no call finds anything there.
theorem resultAfter_end {k later : Nat} (h : resultAfter input base levels start k = .ok none)
    (hlater : k ≤ later) : resultAfter input base levels start later = .ok none := by
  rcases Nat.eq_or_lt_of_le hlater with rfl | hlt
  · exact h
  · have hreached : input.length ≤ positionAfter input base levels start (k + 1) :=
      le_of_nextWith_none h
    have hend := Nat.le_trans hreached (positionAfter_mono input base levels start hlt)
    rw [resultAfter, nextWith_end hend]

-- Each token takes the position further, and the last one is read off the text.
theorem tokens_le_length {calls : Nat}
    (h : ∀ k < calls, ∃ t, resultAfter input base levels start k = .ok (some t)) :
    calls ≤ input.length := by
  have hle (k : Nat) (hk : k ≤ calls) : start + k ≤ positionAfter input base levels start k := by
    induction k with
    | zero => exact Nat.le_refl _
    | succ k ih =>
        obtain ⟨t, ht⟩ := h k hk
        have hlt := (lt_nextWith input base (content levels) ht).2
        have hprevious := ih (Nat.le_of_succ_le hk)
        rw [positionAfter]
        omega
  cases calls with
  | zero => exact Nat.zero_le _
  | succ k =>
      obtain ⟨t, ht⟩ := h k (Nat.lt_succ_self k)
      have hlt := (lt_nextWith input base (content levels) ht).1
      have hprevious := hle k (Nat.le_succ k)
      omega

theorem positionAfter_succ (k : Nat) :
    positionAfter input base levels start (k + 1) = positionAfter input base levels
      (nextWith input base (content levels) start).position k := by
  induction k with
  | zero => rfl
  | succ k ih => rw [positionAfter, ih, positionAfter]

theorem resultAfter_succ (k : Nat) :
    resultAfter input base levels start (k + 1) = resultAfter input base levels
      (nextWith input base (content levels) start).position k := by
  rw [resultAfter, positionAfter_succ, resultAfter]

-- The tokens of a text are those that call after call returns, up to the first that returns none.
theorem exists_calls_readAll (input : List Char) (base levels start : Nat) :
    ∃ tokens : List Token,
      (∀ k t, tokens[k]? = some t → resultAfter input base levels start k = .ok (some t)) ∧
      (resultAfter input base levels start tokens.length = .ok none ∧
          readAll input base (content levels) start = .ok tokens ∨
        ∃ halt, resultAfter input base levels start tokens.length = .error halt ∧
          readAll input base (content levels) start = .error halt) := by
  fun_induction readAll input base (content levels) start with
  | case1 start t next hnext ih =>
      obtain ⟨tokens, htokens, hlast⟩ := ih
      have hsucc (k : Nat) : resultAfter input base levels start (k + 1) =
          resultAfter input base levels next k := by
        rw [resultAfter_succ, hnext]
      refine ⟨t :: tokens, ?_, ?_⟩
      · intro k t' hk
        cases k with
        | zero =>
            obtain rfl := Option.some.inj hk
            exact congrArg Reading.result hnext
        | succ k =>
            rw [hsucc]
            exact htokens k t' hk
      · rw [List.length_cons, hsucc]
        obtain ⟨hend, hall⟩ | ⟨halt, hhalt, hall⟩ := hlast
        · exact .inl ⟨hend, by rw [hall]; rfl⟩
        · exact .inr ⟨halt, hhalt, by rw [hall]; rfl⟩
  | case2 start next hnext =>
      exact ⟨[], by simp, .inl ⟨congrArg Reading.result hnext, rfl⟩⟩
  | case3 start halt next hnext =>
      exact ⟨[], by simp, .inr ⟨halt, congrArg Reading.result hnext, rfl⟩⟩

-- A lexer may be called again whatever the call before it returned: its position only grows and
-- stays at most one place past the text, and no call takes a slice that the text does not have.
-- A call that returns a token goes on, and after the end of the text no call returns anything else.
-- So reading all tokens comes to an end, and what is read by position is what is read of the rest
-- of the text.
theorem calls_in_range (input : List Char) (base levels : Nat)
    (hstart : start ≤ input.length + 1) :
    (∀ k, positionAfter input base levels start k ≤ positionAfter input base levels start (k + 1) ∧
      positionAfter input base levels start k ≤ input.length + 1) ∧
    (∀ k first last,
      resultAfter input base levels start k ≠ .error (.outOfRange first last)) ∧
    (∀ k t, resultAfter input base levels start k = .ok (some t) →
      positionAfter input base levels start k < positionAfter input base levels start (k + 1)) ∧
    (∀ k later, resultAfter input base levels start k = .ok none → k ≤ later →
      resultAfter input base levels start later = .ok none) ∧
    (∀ k, resultAfter input base levels start k = embed (Token.nextWith (contentOf levels)
      (cursorAfter levels (cursorAt input base start) k)).result) ∧
    (∃ tokens : List Token, tokens.length ≤ input.length ∧
      (∀ k t, tokens[k]? = some t → resultAfter input base levels start k = .ok (some t)) ∧
      (resultAfter input base levels start tokens.length = .ok none ∧
          readAll input base (content levels) start = .ok tokens ∨
        ∃ e, resultAfter input base levels start tokens.length = .error (.fault e) ∧
          readAll input base (content levels) start = .error (.fault e))) ∧
    readAll input base (content levels) start =
      embed (lexWithin levels (cursorAt input base start)) := by
  have hrange (k first last : Nat) :
      resultAfter input base levels start k ≠ .error (.outOfRange first last) := by
    rw [resultAfter_eq hstart]
    exact embed_ne_outOfRange _ first last
  refine ⟨?_, hrange, ?_, ?_, resultAfter_eq hstart, ?_, ?_⟩
  · intro k
    exact ⟨positionAfter_mono input base levels start (Nat.le_succ k), positionAfter_le hstart k⟩
  · intro k t h
    exact (lt_nextWith input base (content levels) h).2
  · intro k later h hlater
    exact resultAfter_end h hlater
  · obtain ⟨tokens, htokens, hlast⟩ := exists_calls_readAll input base levels start
    refine ⟨tokens, ?_, htokens, ?_⟩
    · exact tokens_le_length fun k hk => ⟨_, htokens k _ (List.getElem?_eq_getElem hk)⟩
    · obtain hend | ⟨halt, hhalt, hall⟩ := hlast
      · exact .inl hend
      · cases halt with
        | fault e => exact .inr ⟨e, hhalt, hall⟩
        | outOfRange first last => exact absurd hhalt (hrange _ first last)
  · rw [lexWithin_eq]
    exact readAll_eq (content_eq levels) base hstart

theorem bracketEnd_openQuote {d : Delimiters} {depth next : Nat} {x : Char}
    (h : input[i]? = some x) (hx : x ∈ d.quotes)
    (hskip : skipQuoted input x (i + 1) = (false, next)) :
    bracketEnd input d depth i = (.openQuote i, next) := by
  rw [bracketEnd.eq_def]
  split
  · simp_all
  · rename_i y hy
    obtain rfl := Option.some.inj (h.symm.trans hy)
    rw [if_pos hx]
    split
    · simp_all
    · simp_all

-- The backslash of `['\` takes the first call one place past the text, where all later calls stay.
theorem calls_in_range_backslash :
    0 ≤ ['[', '\'', '\\'].length + 1 ∧
      resultAfter ['[', '\'', '\\'] 0 maxNesting 0 0 = halted .openString 1 ∧
      ∀ k, resultAfter ['[', '\'', '\\'] 0 maxNesting 0 (k + 1) = .ok none ∧
        positionAfter ['[', '\'', '\\'] 0 maxNesting 0 (k + 1) = 4 := by
  have hblank : scanWhile ['[', '\'', '\\'] (fun _ => Text.isBlank) 0 = 0 := scanWhile_eq _ 0
  have hquote : skipQuoted ['[', '\'', '\\'] '\'' 2 = (false, 4) := by
    rw [skipQuoted]
    exact skipQuoted_end (by decide)
  have hbracket : bracketEnd ['[', '\'', '\\'] arrayDelimiters 0 1 = (.openQuote 1, 4) :=
    bracketEnd_openQuote rfl (by decide) hquote
  have hcontainer : readContainer ['[', '\'', '\\'] 0 (content maxNesting) .array arrayDelimiters
      .openArray 0 = ⟨halted .openString 1, 4⟩ := by
    rw [readContainer, hbracket]
  have hfirst : nextWith ['[', '\'', '\\'] 0 (content maxNesting) 0 =
      ⟨halted .openString 1, 4⟩ := by
    rw [nextWith, hblank]
    exact congrArg (Reading.map some) hcontainer
  have hsecond : resultAfter ['[', '\'', '\\'] 0 maxNesting 0 1 = .ok none := by
    rw [resultAfter, positionAfter, positionAfter, hfirst, nextWith_end (by decide)]
  obtain ⟨hposition, -, -, hend, -⟩ :=
    calls_in_range ['[', '\'', '\\'] 0 maxNesting (Nat.zero_le _)
  refine ⟨Nat.zero_le _, congrArg Reading.result hfirst, fun k => ?_⟩
  refine ⟨hend 1 (k + 1) hsecond (Nat.le_add_left 1 k), ?_⟩
  induction k with
  | zero => exact congrArg Reading.position hfirst
  | succ k ih => exact Nat.le_antisymm (hposition _).2 (ih ▸ (hposition _).1)

end FlowExpr.Token.Indexed
