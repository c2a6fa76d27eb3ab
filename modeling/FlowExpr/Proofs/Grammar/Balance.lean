import FlowExpr.Proofs.Grammar.Elements
import FlowExpr.Proofs.Grammar.Parenthesis

namespace FlowExpr.Element

open FlowExpr.Tree (IsBalanced IsOpening IsClosing IsPlain openAfter)

variable {t : Token} {tokens : List Token}

-- Commas outside parentheses leave every parenthesis with its partner. The first segment closes the
-- parentheses that are open before it.
theorem exists_of_splitCommas {depth : Nat} (h : openAfter depth tokens = some 0) :
    ∃ first rest, splitCommas depth tokens = first :: rest ∧ openAfter depth first = some 0 ∧
      ∀ run ∈ rest, IsBalanced run := by
  induction tokens generalizing depth with
  | nil => exact ⟨[], [], rfl, h, by simp⟩
  | cons t tail ih =>
      rcases Tree.parenthesis_cases t with ho | hc | hp
      · rw [Tree.openAfter_opening ho] at h
        obtain ⟨first, rest, hsplit, hfirst, hrest⟩ := ih h
        refine ⟨t :: first, rest, ?_, ?_, hrest⟩
        · rw [splitCommas, if_pos ho.opens]
          exact congrArg (consHead t) hsplit
        · rwa [Tree.openAfter_opening ho]
      · cases depth with
        | zero => simp [Tree.openAfter_zero_closing hc] at h
        | succ depth =>
            rw [Tree.openAfter_closing hc] at h
            obtain ⟨first, rest, hsplit, hfirst, hrest⟩ := ih h
            refine ⟨t :: first, rest, ?_, ?_, hrest⟩
            · have hdepth : ((depth + 1 : Nat) : Int) - 1 = depth := by omega
              rw [splitCommas, if_neg (by simp [hc.not_opening]), if_pos hc.closes, hdepth, hsplit,
                consHead]
            · rwa [Tree.openAfter_closing hc]
      · rw [Tree.openAfter_plain hp] at h
        obtain ⟨first, rest, hsplit, hfirst, hrest⟩ := ih h
        rw [splitCommas, if_neg (by simp [hp.1]), if_neg (by simp [hp.2]), hsplit]
        split
        · rename_i hcomma
          obtain rfl : depth = 0 := by omega
          refine ⟨[], first :: rest, rfl, rfl, fun run hrun => ?_⟩
          rcases List.mem_cons.mp hrun with rfl | hrun
          · exact hfirst
          · exact hrest run hrun
        · refine ⟨t :: first, rest, rfl, ?_, hrest⟩
          rwa [Tree.openAfter_plain hp]

theorem isBalanced_of_splitColon {depth : Nat} {key value : List Token}
    (h : splitColon depth tokens = some (key, value)) (hopen : openAfter depth tokens = some 0) :
    IsBalanced value := by
  induction tokens generalizing depth key with
  | nil => simp [splitColon] at h
  | cons t tail ih =>
      rw [splitColon] at h
      rcases Tree.parenthesis_cases t with ho | hc | hp
      · rw [Tree.openAfter_opening ho] at hopen
        rw [if_pos ho.opens] at h
        obtain ⟨⟨_, _⟩, hrest, heq⟩ := Option.map_eq_some_iff.mp h
        obtain ⟨-, rfl⟩ := Prod.mk.inj heq
        exact ih hrest hopen
      · cases depth with
        | zero => simp [Tree.openAfter_zero_closing hc] at hopen
        | succ depth =>
            rw [Tree.openAfter_closing hc] at hopen
            have hdepth : ((depth + 1 : Nat) : Int) - 1 = depth := by omega
            rw [if_neg (by simp [hc.not_opening]), if_pos hc.closes, hdepth] at h
            obtain ⟨⟨_, _⟩, hrest, heq⟩ := Option.map_eq_some_iff.mp h
            obtain ⟨-, rfl⟩ := Prod.mk.inj heq
            exact ih hrest hopen
      · rw [Tree.openAfter_plain hp] at hopen
        rw [if_neg (by simp [hp.1]), if_neg (by simp [hp.2])] at h
        split at h
        · rename_i hcolon
          obtain rfl : depth = 0 := by omega
          obtain ⟨-, rfl⟩ := Prod.mk.inj (Option.some.inj h)
          exact hopen
        · obtain ⟨⟨_, _⟩, hrest, heq⟩ := Option.map_eq_some_iff.mp h
          obtain ⟨-, rfl⟩ := Prod.mk.inj heq
          exact ih hrest hopen

theorem isBalanced_of_mem_segments {run : List Token} (h : IsBalanced tokens)
    (hrun : run ∈ segments tokens) : IsBalanced run := by
  obtain ⟨first, rest, hsplit, hfirst, hrest⟩ := exists_of_splitCommas h
  have hmem := mem_splitCommas_of_segments hrun
  rw [show (0 : Int) = ((0 : Nat) : Int) from rfl, hsplit] at hmem
  rcases List.mem_cons.mp hmem with rfl | hmem
  · exact hfirst
  · exact hrest run hmem

-- What is parsed of an element of a balanced run is balanced again, and is not empty.
theorem isBalanced_of_split {group : Group} {elements : List Element} {e : Element}
    (h : IsBalanced tokens) (hsplit : split group tokens = .ok elements) (he : e ∈ elements) :
    e.run ≠ [] ∧ IsBalanced e.run := by
  obtain ⟨segment, hsegment, hof⟩ := exists_of_ofSegments hsplit he
  have hbalanced := isBalanced_of_mem_segments h hsegment
  rcases ofSegment_cases hof with ⟨dots, value, rfl, hdots, hne, rfl⟩ |
    ⟨_, key, name, value, _, hcolon, hne, rfl⟩ | ⟨_, hne, rfl⟩
  · have hplain : IsPlain dots := by
      rw [Tree.isPunctuation_iff] at hdots
      simp [IsPlain, Token.isPunctuation, hdots.2]
    rw [IsBalanced, Tree.openAfter_plain hplain] at hbalanced
    exact ⟨hne, hbalanced⟩
  · exact ⟨hne, isBalanced_of_splitColon hcolon hbalanced⟩
  · exact ⟨hne, hbalanced⟩

end FlowExpr.Element
