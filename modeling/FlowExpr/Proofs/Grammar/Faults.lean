import FlowExpr.Proofs.Grammar.Limit

namespace FlowExpr

-- What is wrong with one token, one element of a group, or the height of a tree.
def SyntaxFault.isLocal : SyntaxFault → Bool
  | unexpected _ _ => true
  | invalidKey => true
  | missingKey => true
  | missingValue _ => true
  | emptyElement _ => true
  | missingSpreadValue => true
  | spreadInCall _ => true
  | tooDeep => true
  | _ => false

namespace Tree

open Outcome (Avoids avoids_ok avoids_error)

variable {limit : Option Nat} {depth : Nat} {t : Token} {p : SyntaxFault → Bool}

theorem avoids_parseRuns {runs : List (List Token)}
    (h : ∀ run ∈ runs, Avoids p (parseRun limit depth run)) :
    Avoids p (parseRuns limit depth runs) := by
  induction runs with
  | nil =>
      rw [parseRuns]
      exact avoids_ok _
  | cons run rest ih =>
      rw [parseRuns_cons]
      have hrest := ih fun other hother => h other (List.mem_cons_of_mem run hother)
      exact (h run (by simp)).bind fun value _ => hrest.map _

section Local

-- What follows is said of any kind of faults that has no local fault in it.
variable (hp : ∀ fault, fault.isLocal = true → p fault = false)
include hp

theorem avoids_branch (tree : Tree) (tallest : Nat) :
    Avoids p (Parsed.branch limit tree tallest) := by
  unfold Parsed.branch
  split
  · exact avoids_error (hp _ rfl)
  · exact avoids_ok _

theorem avoids_joinParts (before : Parsed) (parts : List Token) :
    Avoids p (joinParts limit before parts) := by
  induction parts generalizing before with
  | nil => exact avoids_ok _
  | cons part rest ih =>
      rw [joinParts_cons]
      exact (avoids_branch hp _ _).bind fun joined _ => ih joined

theorem avoids_ofTemplate (parts : List Token) : Avoids p (ofTemplate limit parts) := by
  cases parts with
  | nil => exact avoids_ok _
  | cons first rest =>
      rw [ofTemplate]
      split
      · exact avoids_joinParts hp _ _
      · exact avoids_joinParts hp _ _

theorem avoids_callOf (name : String) (elements : List Element) (values : List Parsed) :
    Avoids p (callOf limit name elements values) := by
  unfold callOf
  split
  · exact avoids_error (hp _ rfl)
  · exact avoids_branch hp _ _

theorem avoids_keyOf (t : Token) : Avoids p (Element.keyOf t) := by
  unfold Element.keyOf
  split
  · exact avoids_ok _
  · exact avoids_ok _
  · exact avoids_ok _
  · exact avoids_error (hp _ rfl)

theorem avoids_ofKeyed (segment : List Token) : Avoids p (Element.ofKeyed segment) := by
  unfold Element.ofKeyed
  split
  · exact avoids_error (hp _ rfl)
  · split
    · rename_i fault hfault
      exact avoids_error (avoids_keyOf hp _ fault hfault)
    · split
      · exact avoids_error (hp _ rfl)
      · exact avoids_ok _
  · exact avoids_error (hp _ rfl)

theorem avoids_ofSegment (group : Group) (segment : List Token) :
    Avoids p (Element.ofSegment group segment) := by
  unfold Element.ofSegment
  split
  · exact avoids_error (hp _ rfl)
  split
  · split
    · exact avoids_error (hp _ rfl)
    · exact avoids_ok _
  split
  · exact avoids_ofKeyed hp _
  · exact avoids_ok _

theorem avoids_split (group : Group) (tokens : List Token) :
    Avoids p (Element.split group tokens) := by
  unfold Element.split
  induction Element.segments tokens with
  | nil => exact avoids_ok _
  | cons segment rest ih =>
      have hsegment := avoids_ofSegment hp group segment
      unfold Element.ofSegments
      split
      · rename_i fault hfault
        exact avoids_error (hsegment fault hfault)
      · exact ih.map _

-- An operand of one token leads to the faults of the number that it is, and of the runs in it.
theorem avoids_parseOperand_of (hnumber : t.kind = .number → Avoids p (numberValue t.raw))
    (hobject : t.kind = .object → ∀ elements, Element.split .object t.children = .ok elements →
      ∀ e ∈ elements, Avoids p (parseRun limit (depth + 1) e.run))
    (harray : t.kind = .array → ∀ elements, Element.split .array t.children = .ok elements →
      ∀ e ∈ elements, Avoids p (parseRun limit (depth + 1) e.run)) :
    Avoids p (parseOperand limit depth t) := by
  have hruns {elements : List Element}
      (h : ∀ e ∈ elements, Avoids p (parseRun limit (depth + 1) e.run)) :
      Avoids p (parseRuns limit (depth + 1) (elements.map Element.run)) := by
    apply avoids_parseRuns
    intro run hrun
    obtain ⟨e, he, rfl⟩ := List.mem_map.mp hrun
    exact h e he
  cases hkind : t.kind
  case object =>
    rw [parseOperand_object hkind]
    exact (avoids_split hp _ _).bind fun elements hsplit =>
      (hruns (hobject hkind elements hsplit)).bind fun values _ => avoids_branch hp _ _
  case array =>
    rw [parseOperand_array hkind]
    exact (avoids_split hp _ _).bind fun elements hsplit =>
      (hruns (harray hkind elements hsplit)).bind fun values _ => avoids_branch hp _ _
  case number =>
    rw [parseOperand]
    simp only [hkind]
    exact (hnumber hkind).map _
  case template =>
    rw [parseOperand]
    simp only [hkind]
    exact avoids_ofTemplate hp _
  case operator | punctuation =>
    rw [parseOperand]
    simp only [hkind]
    exact avoids_error (hp _ rfl)
  all_goals
    rw [parseOperand]
    simp only [hkind]
    exact avoids_ok _

end Local

end Tree

end FlowExpr
