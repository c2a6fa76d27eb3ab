namespace FlowExpr.Token

-- How a bracketed run is delimited: its brackets, and the quotes inside which no bracket counts.
structure Delimiters where
  opening : Char
  closing : Char
  quotes : List Char
deriving DecidableEq, Repr

-- The extent of a bracketed run: its content and what follows its closing bracket, or a quote or
-- the bracket itself that is never closed.
inductive Extent where
  | closed (inner rest : List Char)
  | openQuote (position : Nat)
  | unclosed
deriving DecidableEq, Repr

namespace Extent

def cons (c : Char) : Extent → Extent
  | closed inner rest => closed (c :: inner) rest
  | openQuote position => openQuote position
  | unclosed => unclosed

end Extent

-- Finds the closing bracket of a run whose opening bracket has been read. `depth` counts the
-- further brackets of the same kind that are open, `quote` is the open quote with its position.
def extent (d : Delimiters) (depth : Nat) (quote : Option (Char × Nat)) (position : Nat) :
    List Char → Extent
  | [] =>
    match quote with
    | some (_, start) => .openQuote start
    | none => .unclosed
  | c :: rest =>
    match quote with
    | some (q, start) =>
      if c = '\\' then
        match rest with
        | [] => .openQuote start
        | e :: rest => ((extent d depth quote (position + 2) rest).cons e).cons c
      else (extent d depth (if c = q then none else quote) (position + 1) rest).cons c
    | none =>
      if c ∈ d.quotes then (extent d depth (some (c, position)) (position + 1) rest).cons c
      else if c = d.opening then (extent d (depth + 1) none (position + 1) rest).cons c
      else if c = d.closing then
        match depth with
        | 0 => .closed [] rest
        | depth + 1 => (extent d depth none (position + 1) rest).cons c
      else (extent d depth none (position + 1) rest).cons c

theorem Extent.eq_closed_of_cons {c : Char} {e : Extent} {inner rest : List Char}
    (h : e.cons c = closed inner rest) : ∃ tail, inner = c :: tail ∧ e = closed tail rest := by
  cases e with
  | closed tail after =>
    simp only [cons, closed.injEq] at h
    exact ⟨tail, h.1.symm, by rw [h.2]⟩
  | openQuote => simp [cons] at h
  | unclosed => simp [cons] at h

-- The content, the closing bracket and the rest are the text again.
theorem eq_of_extent_closed {d : Delimiters} {depth : Nat} {quote : Option (Char × Nat)}
    {position : Nat} {text inner rest : List Char}
    (h : extent d depth quote position text = .closed inner rest) :
    text = inner ++ d.closing :: rest := by
  fun_induction extent d depth quote position text generalizing inner with
  | case1 => simp at h
  | case2 => simp at h
  | case3 => simp at h
  | case4 =>
    rename_i ih
    obtain ⟨_, rfl, hnext⟩ := Extent.eq_closed_of_cons h
    obtain ⟨_, rfl, hlast⟩ := Extent.eq_closed_of_cons hnext
    rw [ih hlast]
    rfl
  | case8 =>
    simp only [Extent.closed.injEq] at h
    simp [← h.1, h.2]
  | case5 | case6 | case7 | case9 | case10 =>
    rename_i ih
    obtain ⟨_, rfl, hnext⟩ := Extent.eq_closed_of_cons h
    rw [ih hnext]
    rfl

end FlowExpr.Token
