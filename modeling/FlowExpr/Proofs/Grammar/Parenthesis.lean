import FlowExpr.Tree.Parser

namespace FlowExpr.Tree

def IsOpening (t : Token) : Prop :=
  t.isPunctuation "(" = true

def IsClosing (t : Token) : Prop :=
  t.isPunctuation ")" = true

-- Neither of the two parentheses.
def IsPlain (t : Token) : Prop :=
  t.isPunctuation "(" = false ∧ t.isPunctuation ")" = false

-- The number of parentheses that are open behind a run, or none if one is closed that is not open.
def openAfter (depth : Nat) : List Token → Option Nat
  | [] => some depth
  | t :: rest =>
    if t.isPunctuation "(" then openAfter (depth + 1) rest
    else if t.isPunctuation ")" then
      if depth = 0 then none else openAfter (depth - 1) rest
    else openAfter depth rest

-- Every parenthesis of the run has its partner in the run.
def IsBalanced (run : List Token) : Prop :=
  openAfter 0 run = some 0

def operator? (t : Token) : Option Operator :=
  if t.kind = .operator then Operator.ofSymbol? t.raw else none

-- The operators of a run that stand outside all parentheses, from left to right, where so many
-- parentheses are open before it. The parentheses of a call count as any other.
def outerOperators (depth : Nat) : List Token → List Operator
  | [] => []
  | t :: rest =>
    if t.isPunctuation "(" then outerOperators (depth + 1) rest
    else if t.isPunctuation ")" then outerOperators (depth - 1) rest
    else if depth = 0 then (operator? t).toList ++ outerOperators depth rest
    else outerOperators depth rest

variable {opening closing t : Token} {run inner : List Token}

theorem isPunctuation_iff {symbol : String} :
    t.isPunctuation symbol = true ↔ t.kind = .punctuation ∧ t.raw = symbol := by
  simp [Token.isPunctuation]

theorem IsOpening.opens (h : IsOpening t) : t.isPunctuation "(" = true :=
  h

theorem IsClosing.closes (h : IsClosing t) : t.isPunctuation ")" = true :=
  h

theorem IsOpening.kind (h : IsOpening t) : t.kind = .punctuation :=
  (isPunctuation_iff.mp h).1

theorem IsOpening.raw (h : IsOpening t) : t.raw = "(" :=
  (isPunctuation_iff.mp h).2

theorem IsClosing.kind (h : IsClosing t) : t.kind = .punctuation :=
  (isPunctuation_iff.mp h).1

theorem IsClosing.raw (h : IsClosing t) : t.raw = ")" :=
  (isPunctuation_iff.mp h).2

theorem IsClosing.not_opening (h : IsClosing t) : t.isPunctuation "(" = false := by
  simp [Token.isPunctuation, h.raw]

theorem isPlain_of_kind (h : t.kind ≠ .punctuation) : IsPlain t := by
  simp [IsPlain, Token.isPunctuation, h]

theorem parenthesis_cases (t : Token) : IsOpening t ∨ IsClosing t ∨ IsPlain t := by
  unfold IsOpening IsClosing IsPlain
  cases t.isPunctuation "(" <;> cases t.isPunctuation ")" <;> simp

theorem kind_of_operator? {op : Operator} (h : operator? t = some op) :
    t.kind = .operator ∧ Operator.ofSymbol? t.raw = some op := by
  unfold operator? at h
  split at h
  · exact ⟨‹_›, h⟩
  · simp at h

theorem openAfter_opening (h : IsOpening t) (depth : Nat) (run : List Token) :
    openAfter depth (t :: run) = openAfter (depth + 1) run := by
  rw [openAfter, if_pos h.opens]

theorem openAfter_closing (h : IsClosing t) (depth : Nat) (run : List Token) :
    openAfter (depth + 1) (t :: run) = openAfter depth run := by
  simp [openAfter, h.not_opening, h.closes]

theorem openAfter_zero_closing (h : IsClosing t) (run : List Token) :
    openAfter 0 (t :: run) = none := by
  simp [openAfter, h.not_opening, h.closes]

theorem openAfter_plain (h : IsPlain t) (depth : Nat) (run : List Token) :
    openAfter depth (t :: run) = openAfter depth run := by
  simp [openAfter, h.1, h.2]

theorem outerOperators_opening (h : IsOpening t) (depth : Nat) (run : List Token) :
    outerOperators depth (t :: run) = outerOperators (depth + 1) run := by
  rw [outerOperators, if_pos h.opens]

theorem outerOperators_closing (h : IsClosing t) (depth : Nat) (run : List Token) :
    outerOperators (depth + 1) (t :: run) = outerOperators depth run := by
  simp [outerOperators, h.not_opening, h.closes]

theorem outerOperators_plain (h : IsPlain t) (run : List Token) :
    outerOperators 0 (t :: run) = (operator? t).toList ++ outerOperators 0 run := by
  simp [outerOperators, h.1, h.2]

theorem outerOperators_plain_inside (h : IsPlain t) (depth : Nat) (run : List Token) :
    outerOperators (depth + 1) (t :: run) = outerOperators (depth + 1) run := by
  simp [outerOperators, h.1, h.2]

theorem openAfter_append (depth : Nat) (run more : List Token) :
    openAfter depth (run ++ more) = (openAfter depth run).bind (openAfter · more) := by
  induction run generalizing depth with
  | nil => rfl
  | cons t rest ih =>
      rw [List.cons_append]
      rcases parenthesis_cases t with ho | hc | hp
      · rw [openAfter_opening ho, openAfter_opening ho, ih]
      · cases depth with
        | zero => rw [openAfter_zero_closing hc, openAfter_zero_closing hc]; rfl
        | succ depth => rw [openAfter_closing hc, openAfter_closing hc, ih]
      · rw [openAfter_plain hp, openAfter_plain hp, ih]

-- Parentheses that are open before a run are still open behind it.
theorem openAfter_add {depth after : Nat} (h : openAfter depth run = some after) (more : Nat) :
    openAfter (depth + more) run = some (after + more) := by
  induction run generalizing depth with
  | nil =>
      simp only [openAfter, Option.some.injEq] at h ⊢
      omega
  | cons t rest ih =>
      rcases parenthesis_cases t with ho | hc | hp
      · rw [openAfter_opening ho] at h ⊢
        rw [Nat.add_right_comm]
        exact ih h
      · cases depth with
        | zero => simp [openAfter_zero_closing hc] at h
        | succ depth =>
            rw [openAfter_closing hc] at h
            rw [Nat.add_right_comm, openAfter_closing hc]
            exact ih h
      · rw [openAfter_plain hp] at h ⊢
        exact ih h

theorem outerOperators_append {depth after : Nat} (h : openAfter depth run = some after)
    (more : List Token) :
    outerOperators depth (run ++ more) = outerOperators depth run ++ outerOperators after more := by
  induction run generalizing depth with
  | nil =>
      simp only [openAfter, Option.some.injEq] at h
      simp [outerOperators, h]
  | cons t rest ih =>
      rw [List.cons_append]
      rcases parenthesis_cases t with ho | hc | hp
      · rw [openAfter_opening ho] at h
        rw [outerOperators_opening ho, outerOperators_opening ho, ih h]
      · cases depth with
        | zero => simp [openAfter_zero_closing hc] at h
        | succ depth =>
            rw [openAfter_closing hc] at h
            rw [outerOperators_closing hc, outerOperators_closing hc, ih h]
      · rw [openAfter_plain hp] at h
        cases depth with
        | zero => rw [outerOperators_plain hp, outerOperators_plain hp, ih h, List.append_assoc]
        | succ depth =>
            rw [outerOperators_plain_inside hp, outerOperators_plain_inside hp, ih h]

-- A run has no outer operator inside a parenthesis that it does not close.
theorem outerOperators_inside {depth after : Nat} (h : openAfter depth run = some after)
    (more : Nat) : outerOperators (depth + more + 1) run = [] := by
  induction run generalizing depth with
  | nil => rfl
  | cons t rest ih =>
      rcases parenthesis_cases t with ho | hc | hp
      · rw [openAfter_opening ho] at h
        rw [outerOperators_opening ho, Nat.add_right_comm depth more 1]
        exact ih h
      · cases depth with
        | zero => simp [openAfter_zero_closing hc] at h
        | succ depth =>
            rw [openAfter_closing hc] at h
            rw [outerOperators_closing hc, Nat.add_right_comm]
            exact ih h
      · rw [openAfter_plain hp] at h
        rw [outerOperators_plain_inside hp]
        exact ih h

theorem IsBalanced.append (h : IsBalanced run) {more : List Token} (hmore : IsBalanced more) :
    IsBalanced (run ++ more) := by
  unfold IsBalanced at *
  rw [openAfter_append, h]
  exact hmore

theorem IsBalanced.cons (ht : IsPlain t) (h : IsBalanced run) : IsBalanced (t :: run) := by
  unfold IsBalanced at *
  rwa [openAfter_plain ht]

theorem IsBalanced.enclosed (ho : IsOpening opening) (h : IsBalanced inner)
    (hc : IsClosing closing) : IsBalanced (opening :: inner ++ [closing]) := by
  unfold IsBalanced at *
  rw [List.cons_append, openAfter_opening ho, openAfter_append, openAfter_add h]
  exact openAfter_closing hc 0 []

theorem outerOperators_enclosed (ho : IsOpening opening) (h : IsBalanced inner)
    (hc : IsClosing closing) : outerOperators 0 (opening :: inner ++ [closing]) = [] := by
  have hinner : outerOperators 1 inner = [] := outerOperators_inside h 0
  rw [List.cons_append, outerOperators_opening ho, outerOperators_append (openAfter_add h 1),
    hinner, outerOperators_closing hc]
  rfl

-- The parenthesis that ends a call is the partner of the one that starts it.
theorem splitCall_append {depth : Nat} (h : openAfter depth inner = some 0)
    (hc : IsClosing closing) (after : List Token) :
    splitCall depth (inner ++ closing :: after) = some (inner, after) := by
  induction inner generalizing depth with
  | nil =>
      simp only [openAfter, Option.some.injEq] at h
      simp [splitCall, h, hc.not_opening, hc.closes]
  | cons t rest ih =>
      rw [List.cons_append, splitCall.eq_def]
      rcases parenthesis_cases t with ho | hc' | hp
      · rw [openAfter_opening ho] at h
        simp [ho.opens, ih h]
      · cases depth with
        | zero => simp [openAfter_zero_closing hc'] at h
        | succ depth =>
            rw [openAfter_closing hc'] at h
            simp [hc'.not_opening, hc'.closes, ih h]
      · rw [openAfter_plain hp] at h
        simp [hp.1, hp.2, ih h]

theorem exists_of_splitCall {depth : Nat} {tokens after : List Token}
    (h : splitCall depth tokens = some (inner, after)) :
    ∃ closing, IsClosing closing ∧ tokens = inner ++ closing :: after ∧
      openAfter depth inner = some 0 := by
  fun_induction splitCall depth tokens generalizing inner with
  | case1 => simp at h
  | case3 t rest hopen hclose =>
      simp only [Option.some.injEq, Prod.mk.injEq] at h
      exact ⟨t, hclose, by rw [← h.1, ← h.2]; rfl, by rw [← h.1]; rfl⟩
  | case2 | case4 | case5 =>
      rename_i ih
      simp only [Option.map_eq_some_iff, Prod.mk.injEq, Prod.exists] at h
      obtain ⟨_, _, hrest, rfl, rfl⟩ := h
      obtain ⟨closing, hc, rfl, hopen⟩ := ih hrest
      exact ⟨closing, hc, rfl, by simp_all [openAfter]⟩

end FlowExpr.Tree
