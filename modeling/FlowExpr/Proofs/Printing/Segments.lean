import FlowExpr.Proofs.Grammar.Lemmas
import FlowExpr.Proofs.Printing

namespace FlowExpr.Element

open FlowExpr.Tree (IsBalanced IsClosing IsOpening IsPlain Reads openAfter)

variable {t : Token} {run : List Token}

-- Every comma of the run stands in parentheses that the run opens and closes, so that a split at
-- commas leaves the run in one piece.
def IsUndivided (run : List Token) : Prop :=
  ∀ rest, splitCommas 0 (run ++ rest) = run.foldr consHead (splitCommas 0 rest)

theorem foldr_consHead (run segment : List Token) (rest : List (List Token)) :
    run.foldr consHead (segment :: rest) = (run ++ segment) :: rest := by
  induction run with
  | nil => rfl
  | cons t run ih => rw [List.foldr_cons, ih, consHead, List.cons_append]

theorem splitCommas_opening (h : IsOpening t) (depth : Int) (rest : List Token) :
    splitCommas depth (t :: rest) = consHead t (splitCommas (depth + 1) rest) := by
  rw [splitCommas, if_pos h.opens]

theorem splitCommas_closing (h : IsClosing t) (depth : Int) (rest : List Token) :
    splitCommas depth (t :: rest) = consHead t (splitCommas (depth - 1) rest) := by
  simp [splitCommas, h.not_opening, h.closes]

theorem splitCommas_plain (h : IsPlain t) {depth : Int}
    (hcomma : depth ≠ 0 ∨ t.isPunctuation "," = false) (rest : List Token) :
    splitCommas depth (t :: rest) = consHead t (splitCommas depth rest) := by
  have hnone : ¬(depth = 0 ∧ t.isPunctuation "," = true) := by
    rintro ⟨hdepth, htrue⟩
    rcases hcomma with hne | hfalse
    · exact hne hdepth
    · simp [htrue] at hfalse
  rw [splitCommas, if_neg (by simp [h.1]), if_neg (by simp [h.2]), if_neg hnone]

-- Inside a parenthesis that is not closed yet no comma divides anything.
theorem splitCommas_inside {depth after : Nat} (h : openAfter depth run = some after)
    (rest : List Token) : splitCommas (depth + 1) (run ++ rest) =
      run.foldr consHead (splitCommas (after + 1) rest) := by
  induction run generalizing depth with
  | nil =>
      simp only [openAfter, Option.some.injEq] at h
      rw [h]
      rfl
  | cons t run ih =>
      rw [List.cons_append, List.foldr_cons]
      rcases Tree.parenthesis_cases t with ho | hc | hp
      · rw [Tree.openAfter_opening ho] at h
        have hrun := ih h
        rw [splitCommas_opening ho]
        exact congrArg (consHead t) hrun
      · cases depth with
        | zero => simp [Tree.openAfter_zero_closing hc] at h
        | succ depth =>
            rw [Tree.openAfter_closing hc] at h
            have hrun := ih h
            have hdepth : ((depth + 1 : Nat) : Int) + 1 - 1 = depth + 1 := by omega
            rw [splitCommas_closing hc, hdepth, hrun]
      · rw [Tree.openAfter_plain hp] at h
        have hdepth : (depth : Int) + 1 ≠ 0 := by omega
        rw [splitCommas_plain hp (.inl hdepth), ih h]

theorem IsUndivided.append {more : List Token} (h : IsUndivided run) (hmore : IsUndivided more) :
    IsUndivided (run ++ more) := by
  intro rest
  rw [List.append_assoc, h, hmore, List.foldr_append]

theorem IsUndivided.cons (ht : IsPlain t) (hcomma : t.isPunctuation "," = false)
    (h : IsUndivided run) : IsUndivided (t :: run) := by
  intro rest
  rw [List.cons_append, splitCommas_plain ht (.inr hcomma), h, List.foldr_cons]

theorem IsUndivided.cons_of_kind (ht : t.kind ≠ .punctuation) (h : IsUndivided run) :
    IsUndivided (t :: run) :=
  h.cons (Tree.isPlain_of_kind ht) (by simp [Token.isPunctuation, ht])

theorem isUndivided_nil : IsUndivided [] :=
  fun _ => rfl

theorem isUndivided_enclosed {opening closing : Token} {inner : List Token}
    (ho : IsOpening opening) (h : IsBalanced inner) (hc : IsClosing closing) :
    IsUndivided (opening :: inner ++ [closing]) := by
  intro rest
  have hinner := splitCommas_inside h (closing :: rest)
  have hout : ((0 : Nat) : Int) + 1 - 1 = 0 := rfl
  rw [splitCommas_closing hc, hout] at hinner
  rw [List.cons_append, List.cons_append, splitCommas_opening ho, List.append_assoc,
    List.singleton_append, List.foldr_cons, List.foldr_append]
  exact congrArg (consHead opening) hinner

-- An expression has commas in parentheses only.
theorem isUndivided_of_reads {tree : Tree} (h : Reads run tree) : IsUndivided run := by
  induction h with
  | leaf h => exact isUndivided_nil.cons_of_kind (Tree.kind_of_leafTree? h).2
  | object hkind | array hkind => exact isUndivided_nil.cons_of_kind (by simp [hkind])
  | call hkind ho hinner hc =>
      exact (isUndivided_enclosed ho hinner hc).cons_of_kind (by simp [hkind])
  | enclosed ho hrun hc => exact isUndivided_enclosed ho hrun.balanced hc
  | operation ht _ _ _ _ ihleft ihright =>
      have hkind := (Tree.kind_of_operator? ht).1
      exact ihleft.append (ihright.cons_of_kind (by simp [hkind]))

-- A split at commas takes apart what was joined with commas.
theorem splitCommas_commaSeparated {runs : List (List Token)} (hne : runs ≠ [])
    (h : ∀ run ∈ runs, IsUndivided run) :
    splitCommas 0 (Token.commaSeparated runs) = runs := by
  induction runs with
  | nil => exact absurd rfl hne
  | cons run more ih =>
      have hrun : IsUndivided run := h run (by simp)
      cases more with
      | nil =>
          have hlast := hrun []
          rw [List.append_nil] at hlast
          rw [Token.commaSeparated, List.intercalate_singleton, hlast, splitCommas, foldr_consHead,
            List.append_nil]
      | cons next more =>
          have hmore := ih (by simp) fun run' hrun' => h run' (List.mem_cons_of_mem _ hrun')
          rw [Token.commaSeparated, List.intercalate_cons_cons, List.append_assoc, hrun]
          have hcomma (rest : List Token) :
              splitCommas 0 (Token.comma :: rest) = [] :: splitCommas 0 rest := rfl
          rw [List.singleton_append, hcomma, foldr_consHead, List.append_nil]
          exact congrArg (run :: ·) hmore

theorem segments_commaSeparated {runs : List (List Token)} (hne : ∀ run ∈ runs, run ≠ [])
    (h : ∀ run ∈ runs, IsUndivided run) : segments (Token.commaSeparated runs) = runs := by
  by_cases hnil : runs = []
  · rw [hnil]
    rfl
  · have hlast : (runs.getLast?.any List.isEmpty) = false := by
      rw [List.getLast?_eq_some_getLast hnil, Option.any_some, List.isEmpty_eq_false_iff]
      exact hne _ (List.getLast_mem hnil)
    rw [segments, splitCommas_commaSeparated hnil h]
    simp [hlast]

section Elements

variable {α : Type} {xs : List α} {written : α → List Token} {element : α → Element}
  {group : Group}

theorem ofSegments_map (h : ∀ x ∈ xs, ofSegment group (written x) = .ok (element x)) :
    ofSegments group (xs.map written) = .ok (xs.map element) := by
  induction xs with
  | nil => rfl
  | cons x rest ih =>
      have hx := h x (by simp)
      have hrest := ih fun y hy => h y (List.mem_cons_of_mem x hy)
      rw [List.map_cons, ofSegments, hx, hrest]
      rfl

-- A group is split into the elements that it was written from.
theorem split_commaSeparated (hundivided : ∀ x ∈ xs, IsUndivided (written x))
    (h : ∀ x ∈ xs, ofSegment group (written x) = .ok (element x)) :
    split group (Token.commaSeparated (xs.map written)) = .ok (xs.map element) := by
  have hne : ∀ run ∈ xs.map written, run ≠ [] := by
    intro run hrun hnil
    obtain ⟨x, hx, rfl⟩ := List.mem_map.mp hrun
    have hsegment := h x hx
    simp [hnil, ofSegment] at hsegment
  have hruns : ∀ run ∈ xs.map written, IsUndivided run := by
    intro run hrun
    obtain ⟨x, hx, rfl⟩ := List.mem_map.mp hrun
    exact hundivided x hx
  rw [split, segments_commaSeparated hne hruns, ofSegments_map h]

end Elements

end FlowExpr.Element
