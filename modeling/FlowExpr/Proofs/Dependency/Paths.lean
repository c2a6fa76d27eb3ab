import FlowExpr.Proofs.Dependency
import FlowExpr.Proofs.Dependency.Marks
import FlowExpr.Proofs.Segments

namespace FlowExpr

namespace Environment

open Dependency (EndsName MarksName)

variable {whole text : List Char} {behindMark : Bool}

-- The text is part of a whole. If it is behind a mark, the whole has it in the braces of a
-- reference.
def StandsIn (whole : List Char) (behindMark : Bool) (text : List Char) : Prop :=
  text <:+: whole ∧ (behindMark = true → ∃ before after, Text.isBlankText before = true ∧
    Text.isBlankText after = true ∧
      '$' :: '{' :: (before ++ (text ++ (after ++ ['}']))) <:+: whole)

theorem standsIn_keyPath {key : List Char} (h : key <:+: whole) :
    StandsIn whole (isBraced key) (keyPath key) := by
  have hbare (hkey : keyPath key = key) : StandsIn whole (isBraced key) (keyPath key) := by
    refine ⟨by rwa [hkey], ?_⟩
    intro hbraced
    simp [isBraced, hkey] at hbraced
  unfold keyPath at hbare ⊢
  split at hbare
  · rename_i rest
    by_cases hclosed : rest.getLast? = some '}'
    · simp only [hclosed, if_true]
      have hrest : rest = rest.dropLast ++ ['}'] := by
        obtain ⟨front, hfront⟩ := List.getLast?_eq_some_iff.mp hclosed
        rw [hfront, List.dropLast_concat]
      have hwhole : '$' :: '{' :: (rest.dropLast ++ ['}']) <:+: whole := hrest ▸ h
      refine ⟨?_, fun _ => ⟨[], [], rfl, rfl, hwhole⟩⟩
      exact List.IsInfix.trans ⟨['$', '{'], ['}'], by simp⟩ hwhole
    · simp only [hclosed, if_false] at hbare ⊢
      exact hbare trivial
  · exact hbare rfl

theorem isRootEnd_of_isBlank {c : Char} (h : Text.isBlank c = true) :
    Dependency.isRootEnd c = true := by
  simp [Dependency.isRootEnd, h]

theorem isRootEnd_of_isRootEnd {c : Char} (h : isRootEnd c = true) :
    Dependency.isRootEnd c = true := by
  simp only [isRootEnd, Bool.or_eq_true] at h
  simp only [Dependency.isRootEnd, Bool.or_eq_true]
  exact .inl h

-- Only blanks stand before the root of a path, and behind it only what ends a root.
theorem exists_of_rootText (text : List Char) : ∃ before after,
    text = before ++ (rootText (Text.trim text) ++ after) ∧ Text.isBlankText before = true ∧
      ∀ c ∈ after.head?, Dependency.isRootEnd c = true := by
  obtain ⟨before, after, htext, hbefore, hafter⟩ := Text.exists_of_trim text
  let front := (Text.trim text).takeWhile fun c => !isRootEnd c
  let back := (Text.trim text).dropWhile fun c => !isRootEnd c
  have hpath : Text.trim text = front ++ back := List.takeWhile_append_dropWhile.symm
  obtain ⟨start, stop, hfront, hstart, hstop⟩ := Text.exists_of_trim front
  have hroot : rootText (Text.trim text) = Text.trim front := rfl
  refine ⟨before ++ start, stop ++ (back ++ after), ?_, Text.isBlankText_append hbefore hstart, ?_⟩
  · rw [hroot]
    calc
      text = before ++ (Text.trim text ++ after) := htext
      _ = before ++ ((front ++ back) ++ after) := by rw [← hpath]
      _ = before ++ ((start ++ (Text.trim front ++ stop) ++ back) ++ after) := by rw [← hfront]
      _ = before ++ start ++ (Text.trim front ++ (stop ++ (back ++ after))) := by
        simp only [List.append_assoc]
  · have hblank {blank : List Char} (hall : Text.isBlankText blank = true) :
        ∀ c ∈ blank.head?, Dependency.isRootEnd c = true := by
      intro c hc
      exact isRootEnd_of_isBlank (List.all_eq_true.mp hall c (List.mem_of_mem_head? hc))
    have hback : ∀ c ∈ back.head?, Dependency.isRootEnd c = true := by
      intro c hc
      have hend := List.head?_dropWhile_not (fun c => !isRootEnd c) (Text.trim text)
      rw [Option.mem_def.mp hc] at hend
      exact isRootEnd_of_isRootEnd (by simpa using hend)
    intro c hc
    rw [List.head?_append, List.head?_append] at hc
    cases hstop' : stop.head? with
    | some d =>
        rw [hstop', Option.some_or] at hc
        exact hblank hstop c (hstop'.trans hc)
    | none =>
        rw [hstop', Option.none_or] at hc
        cases hback' : back.head? with
        | some d =>
            rw [hback', Option.some_or] at hc
            exact hback c (hback'.trans hc)
        | none =>
            rw [hback', Option.none_or] at hc
            exact hblank hafter c hc

-- The root of a path in the braces of a reference is a name that stands behind a mark.
theorem marksName_rootText (h : StandsIn whole true text) :
    MarksName whole (rootText (Text.trim text)) := by
  obtain ⟨before, after, hbefore, hafter, hwhole⟩ := h.2 rfl
  obtain ⟨start, stop, htext, hstart, hstop⟩ := exists_of_rootText text
  obtain ⟨c, more, hc, hend⟩ : ∃ c more, stop ++ (after ++ ['}']) = c :: more ∧ EndsName c := by
    cases stop with
    | cons c stop => exact ⟨c, _, rfl, .inl (hstop c rfl)⟩
    | nil =>
        cases after with
        | cons c after =>
            have hc : Text.isBlank c = true := List.all_eq_true.mp hafter c (by simp)
            exact ⟨c, _, rfl, .inl (isRootEnd_of_isBlank hc)⟩
        | nil => exact ⟨'}', [], rfl, .inr rfl⟩
  refine ⟨before ++ start, c, Text.isBlankText_append hbefore hstart, hend, ?_⟩
  refine List.IsInfix.trans ⟨[], more, ?_⟩ hwhole
  have hbody : before ++ (text ++ (after ++ ['}'])) =
      before ++ (start ++ (rootText (Text.trim text) ++ (c :: more))) := by
    rw [← hc, ← List.append_assoc _ stop, ← List.append_assoc start, ← htext]
  rw [hbody]
  simp

-- Every marked name that a path looks up stands behind a mark in the whole text.
theorem marksName_of_mem_pathRoots {levels : Nat} (h : StandsIn whole behindMark text)
    {root : Root} (hroot : root ∈ pathRoots levels behindMark text)
    (hmarked : root.marked = true) : root.name.toList ≠ [] ∧
      root.name.toList.all Text.isNameChar = true ∧ MarksName whole root.name.toList := by
  induction levels generalizing behindMark text with
  | zero => simp [pathRoots] at hroot
  | succ levels ih =>
      rw [pathRoots] at hroot
      by_cases hempty : (rootText (Text.trim text)).isEmpty = true
      · simp [hempty] at hroot
      simp only [hempty, Bool.false_eq_true, if_false] at hroot
      rcases List.mem_cons.mp hroot with rfl | hroot
      · rw [Bool.and_eq_true] at hmarked
        obtain ⟨rfl, hname⟩ := hmarked
        rw [String.toList_ofList]
        exact ⟨by simpa using hempty, hname, marksName_rootText h⟩
      · cases hread : Path.read (String.ofList (Text.trim text)) with
        | error e => simp [hread] at hroot
        | ok segments =>
            simp only [hread] at hroot
            obtain ⟨segment, hsegment, hmem⟩ := List.mem_flatMap.mp hroot
            cases segment with
            | property name | index i => simp [keyRoots] at hmem
            | computed key =>
                have hkey : key.toList <:+: (String.ofList (Text.trim text)).toList :=
                  Path.isWrittenIn_of_read hread _ (List.mem_of_mem_tail hsegment)
                rw [String.toList_ofList] at hkey
                have hwhole := (hkey.trans (Text.trim_infix text)).trans h.1
                exact ih (standsIn_keyPath hwhole) hmem

end Environment

end FlowExpr
