import FlowExpr.Guard
import FlowExpr.Proofs.Blank

namespace FlowExpr.Guard

-- No forbidden pattern stands in the text.
def IsClean (text : List Char) : Prop :=
  ∀ pattern ∈ forbiddenPatterns, ¬pattern.toList <:+: text

-- The text has a reference with nothing but blanks in its braces.
def HasEmptySlot (text : List Char) : Prop :=
  ∃ blank, Text.isBlankText blank = true ∧ '$' :: '{' :: (blank ++ ['}']) <:+: text

variable {text more pattern : List Char}

theorem contains_iff : contains text pattern = true ↔ pattern <:+: text := by
  induction text with
  | nil => simp [contains]
  | cons c rest ih =>
      rw [contains, Bool.or_eq_true, ih, List.isPrefixOf_iff_prefix, List.infix_cons_iff]

theorem IsClean.of_isInfix (h : IsClean text) (hmore : more <:+: text) : IsClean more :=
  fun pattern hpattern hwithin => h pattern hpattern (hwithin.trans hmore)

theorem find?_forbiddenPatterns_eq_none :
    (forbiddenPatterns.find? fun pattern => contains text pattern.toList) = none ↔
      IsClean text := by
  simp only [List.find?_eq_none, contains_iff, IsClean]

theorem startsEmptySlot_iff : startsEmptySlot text = true ↔
    ∃ blank, Text.isBlankText blank = true ∧ '$' :: '{' :: (blank ++ ['}']) <+: text := by
  constructor
  · intro h
    unfold startsEmptySlot at h
    split at h
    · rename_i rest
      obtain ⟨tail, htail⟩ := List.head?_eq_some_iff.mp (beq_iff_eq.mp h)
      refine ⟨rest.takeWhile Text.isBlank, Text.isBlankText_takeWhile rest, tail, ?_⟩
      have hrest : rest = rest.takeWhile Text.isBlank ++ ('}' :: tail) := by
        rw [← htail]
        exact List.takeWhile_append_dropWhile.symm
      simp [← hrest]
    · simp at h
  · rintro ⟨blank, hblank, tail, rfl⟩
    have hstart : Text.trimStart (blank ++ ('}' :: tail)) = '}' :: tail := by
      rw [Text.trimStart_append hblank]
      rfl
    simp [startsEmptySlot, hstart]

theorem hasEmptySlot_iff : hasEmptySlot text = true ↔ HasEmptySlot text := by
  induction text with
  | nil => simp [hasEmptySlot, HasEmptySlot]
  | cons c rest ih =>
      rw [hasEmptySlot, Bool.or_eq_true, ih, startsEmptySlot_iff]
      simp only [HasEmptySlot, List.infix_cons_iff, and_or_left, exists_or]

-- What it takes for a text to pass the guard.
theorem check_eq_ok_iff {expression : String} {maxLength : Nat} :
    check expression maxLength = .ok () ↔
      Text.isBlankText expression.toList = false ∧ expression.toList.length ≤ maxLength ∧
        IsClean expression.toList ∧ ¬HasEmptySlot expression.toList ∧
          isBalanced [] none expression.toList = true := by
  rw [← find?_forbiddenPatterns_eq_none, ← hasEmptySlot_iff, check]
  cases hblank : Text.isBlankText expression.toList with
  | true => simp
  | false =>
      by_cases hlength : maxLength < expression.toList.length
      · simp [hlength, Nat.not_le.mpr hlength]
      cases hpattern : forbiddenPatterns.find? fun pattern =>
          contains expression.toList pattern.toList with
      | some pattern => simp [hlength]
      | none =>
          cases hslot : hasEmptySlot expression.toList with
          | true => simp [hlength]
          | false =>
              cases isBalanced [] none expression.toList <;> simp [hlength, Nat.not_lt.mp hlength]

end FlowExpr.Guard
