import FlowExpr.Environment
import FlowExpr.Proofs.PathText.Reading

namespace FlowExpr

namespace Text

variable {text more : List Char}

-- Blanks are taken off the end of the last part that has more than blanks in it.
theorem trimEnd_append (h : trimEnd more ≠ []) : trimEnd (text ++ more) = text ++ trimEnd more := by
  have hne : more.reverse.dropWhile isBlank ≠ [] := by simpa [trimEnd] using h
  rw [trimEnd, List.reverse_append, List.dropWhile_append]
  simp [hne, trimEnd]

theorem trimEnd_cons {c : Char} (h : isBlank c = false) (text : List Char) :
    trimEnd (c :: text) = c :: trimEnd text := by
  rw [trimEnd, List.reverse_cons, List.dropWhile_append]
  split
  · rename_i hnil
    simp_all [trimEnd]
  · simp [trimEnd]

theorem trimStart_append_of_ne (h : trimStart text ≠ []) (more : List Char) :
    trimStart (text ++ more) = trimStart text ++ more := by
  rw [trimStart, List.dropWhile_append, if_neg (by simpa [trimStart] using h)]
  rfl

end Text

namespace Path

variable {text name rest : List Char} {segments : Path}

-- Blanks around a name do not belong to it.
theorem IsNameText.of_append {whole before behind : List Char} (h : IsNameText whole)
    (hwhole : whole = before ++ (name ++ behind)) (hbefore : Text.isBlankText before = true)
    (hbehind : Text.isBlankText behind = true) :
    IsNameText name ∧ Text.trim name = Text.trim whole := by
  have htrim : Text.trim whole = Text.trim name := hwhole ▸ Text.trim_append hbefore hbehind name
  refine ⟨⟨?_, fun c hc => h.2 c (by simp [hwhole, hc])⟩, htrim.symm⟩
  rw [← htrim]
  exact h.1

-- A name in front keeps its blanks, unless nothing follows it.
theorem exists_trimEnd_name (hname : IsNameText name) (hrest : SpellsRest rest segments) :
    ∃ shorter, IsNameText shorter ∧ Text.trim shorter = Text.trim name ∧
      Text.trimEnd (name ++ rest) = shorter ++ Text.trimEnd rest := by
  cases hrest with
  | nil =>
      obtain ⟨behind, htext, hbehind⟩ := Text.exists_of_trimEnd name
      have hwhole : name = [] ++ (Text.trimEnd name ++ behind) := htext
      obtain ⟨hshorter, htrim⟩ := hname.of_append hwhole rfl hbehind
      exact ⟨_, hshorter, htrim, by simp [Text.trimEnd]⟩
  | name | bracket =>
      refine ⟨name, hname, rfl, Text.trimEnd_append ?_⟩
      rw [Text.trimEnd_cons rfl]
      simp

theorem SpellsRest.trimEnd (h : SpellsRest text segments) :
    SpellsRest (Text.trimEnd text) segments := by
  induction h with
  | nil => exact .nil
  | @name name rest segments hname hrest ih =>
      obtain ⟨shorter, hshorter, htrim, htext⟩ := exists_trimEnd_name hname hrest
      rw [Text.trimEnd_cons rfl, htext, ← htrim]
      exact .name hshorter ih
  | @bracket body rest segment segments hbody hrest ih =>
      have hclosing : Text.trimEnd (']' :: rest) = ']' :: Text.trimEnd rest :=
        Text.trimEnd_cons rfl rest
      rw [Text.trimEnd_cons rfl, Text.trimEnd_append (by simp [hclosing]), hclosing]
      exact .bracket hbody ih

theorem SpellsRest.spells (h : SpellsRest ('[' :: text) segments) :
    Spells ('[' :: text) segments := by
  cases h with
  | bracket hbody hrest => exact .bracket hbody hrest

-- Blanks around a path do not belong to it.
theorem Spells.trim (h : Spells text segments) : Spells (Text.trim text) segments := by
  cases h with
  | @name name rest segments hname hrest =>
      have hne : Text.trimStart name ≠ [] := by
        intro hnil
        apply hname.1
        rw [Text.trim, hnil]
        rfl
      have htext : name = name.takeWhile Text.isBlank ++ (Text.trimStart name ++ []) := by
        rw [List.append_nil]
        exact List.takeWhile_append_dropWhile.symm
      obtain ⟨hstart, htrim⟩ := hname.of_append htext (Text.isBlankText_takeWhile name) rfl
      obtain ⟨shorter, hshorter, htrim', hend⟩ := exists_trimEnd_name hstart hrest
      rw [Text.trim, Text.trimStart_append_of_ne hne, hend, ← htrim, ← htrim']
      exact .name hshorter hrest.trimEnd
  | bracket hbody hrest =>
      have hend := (SpellsRest.bracket hbody hrest).trimEnd
      rw [Text.trimEnd_cons rfl] at hend
      have htrim {text : List Char} : Text.trim ('[' :: text) = '[' :: Text.trimEnd text :=
        Text.trimEnd_cons rfl text
      rw [htrim]
      exact hend.spells

theorem isNameEnd_of_isRootEnd {c : Char} (h : Environment.isRootEnd c = true) :
    isNameEnd c = true := by
  rw [isNameEnd, Bool.or_eq_true]
  exact .inl h

-- The root that a path is looked up by is its first segment. It is the whole path if nothing in the
-- text ends a root.
theorem Spells.root (h : Spells text segments) (hroot : Environment.rootText text ≠ []) :
    ∃ rest, segments = .property (String.ofList (Environment.rootText text)) :: rest ∧
      ((text.all fun c => !Environment.isRootEnd c) = true ↔ rest = []) := by
  cases h with
  | bracket => exact absurd rfl hroot
  | @name name more segments hname hrest =>
      have hchars : ∀ c ∈ name, (!Environment.isRootEnd c) = true := by
        intro c hc
        cases hend : Environment.isRootEnd c with
        | false => rfl
        | true =>
            have hnot := hname.2 c hc
            rw [isNameEnd_of_isRootEnd hend] at hnot
            simp at hnot
      have htake : (name ++ more).takeWhile (fun c => !Environment.isRootEnd c) = name := by
        rw [List.takeWhile_append_of_pos hchars]
        cases hrest with
        | nil => simp
        | name | bracket => simp [Environment.isRootEnd]
      have hroot' : Environment.rootText (name ++ more) = Text.trim name := by
        rw [Environment.rootText, htake]
      refine ⟨segments, by rw [hroot'], ?_⟩
      rw [List.all_append, List.all_eq_true.mpr hchars, Bool.true_and]
      cases hrest with
      | nil => simp
      | name | bracket => simp [Environment.isRootEnd]

end Path

end FlowExpr
