import FlowExpr.Proofs.Dependency.Occurrences

namespace FlowExpr.Dependency

variable {text body after rest : List Char} {c : Char} {levels : Nat} {roots : List String}

-- Every reference of the text is closed, and stands in fewer than so many others.
def IsWithin (levels : Nat) (text : List Char) : Prop :=
  ∀ o ∈ occurrences text, o.1 ≠ none ∧ o.2 < levels

-- The roots of all references of the text, from left to right.
def rootsOf (text : List Char) : List String :=
  (occurrences text).filterMap fun o => o.1.bind rootName?

theorem isMark_iff : isMark (c :: rest) = true ↔ c = '$' ∧ rest.head? = some '{' := by
  cases rest <;> simp [isMark]

theorem mem_marks_zero (h : isMark (c :: rest) = true) : 0 ∈ marks (c :: rest) := by
  rw [marks_cons, h]
  exact List.mem_cons_self

theorem isWithin_zero_iff : IsWithin 0 text ↔ occurrences text = [] := by
  constructor
  · intro h
    exact List.eq_nil_iff_forall_not_mem.mpr fun o ho => Nat.not_lt_zero o.2 (h o ho).2
  · intro h
    simp [IsWithin, h]

theorem hasReference_eq_false_iff : hasReference text = false ↔ occurrences text = [] := by
  induction text with
  | nil => simp [hasReference, occurrences, marks]
  | cons c rest ih =>
      have hmark : (c == '$' && rest.head? == some '{') = isMark (c :: rest) := by
        cases rest <;> simp [isMark]
      rw [hasReference, hmark, Bool.or_eq_false_iff]
      by_cases h : isMark (c :: rest) = true
      · have hne : occurrences (c :: rest) ≠ [] :=
          List.ne_nil_of_mem (List.mem_map_of_mem (mem_marks_zero h))
        simp [h, hne]
      · rw [Bool.not_eq_true] at h
        rw [occurrences_cons h, ← ih]
        simp [h]

theorem not_isWithin_of_span (h : span 0 text = none) : ¬IsWithin levels ('$' :: '{' :: text) := by
  intro hwithin
  have hbody : bodyAt? ('$' :: '{' :: text) 0 = none := by
    rw [bodyAt?_eq, List.drop_succ_cons, List.drop_succ_cons, List.drop_zero, h]
    rfl
  have hmem : (bodyAt? ('$' :: '{' :: text) 0, enclosing ('$' :: '{' :: text) 0) ∈
      occurrences ('$' :: '{' :: text) := List.mem_map_of_mem (mem_marks_zero rfl)
  exact (hwithin _ hmem).1 hbody

theorem isWithin_mark_iff (h : span 0 text = some (body, after)) :
    IsWithin (levels + 1) ('$' :: '{' :: text) ↔
      IsWithin levels body ∧ IsWithin (levels + 1) after := by
  rw [IsWithin, occurrences_mark h, List.forall_mem_cons, List.forall_mem_append,
    List.forall_mem_map]
  simp [IsWithin]

theorem rootsOf_mark (h : span 0 text = some (body, after)) : rootsOf ('$' :: '{' :: text) =
    (rootName? body).toList ++ rootsOf body ++ rootsOf after := by
  rw [rootsOf, occurrences_mark h, List.filterMap_cons, List.filterMap_append, List.filterMap_map]
  have hinside : (fun o => o.1.bind rootName?) ∘ (fun o : Option (List Char) × Nat =>
      (o.1, o.2 + 1)) = fun o => o.1.bind rootName? := rfl
  rw [hinside]
  cases hroot : rootName? body with
  | none => simp [hroot, rootsOf]
  | some name => simp [hroot, rootsOf]

-- One level more: a scan whose scan of the bodies is exact is exact itself.
theorem rootsWith_eq_some_iff {inside : List Char → Option (List String)}
    (hinside : ∀ body nested,
      inside body = some nested ↔ IsWithin levels body ∧ nested = rootsOf body) :
    rootsWith inside text = some roots ↔ IsWithin (levels + 1) text ∧ roots = rootsOf text := by
  fun_induction rootsWith inside text generalizing roots with
  | case1 => simp [IsWithin, rootsOf, occurrences, marks, eq_comm]
  | case2 c rest hmark hspan =>
      obtain ⟨rfl, hbrace⟩ := hmark
      obtain ⟨tail, rfl⟩ := List.head?_eq_some_iff.mp hbrace
      rw [List.tail_cons] at hspan
      simp [not_isWithin_of_span hspan]
  | case3 c rest hmark body after hspan nested more hmore hnested ih =>
      obtain ⟨rfl, hbrace⟩ := hmark
      obtain ⟨tail, rfl⟩ := List.head?_eq_some_iff.mp hbrace
      rw [List.tail_cons] at hspan
      obtain ⟨hbody, rfl⟩ := (hinside body nested).mp hnested
      obtain ⟨hafter, rfl⟩ := ih.mp hmore
      rw [isWithin_mark_iff hspan, rootsOf_mark hspan, Option.some.injEq]
      simp [hbody, hafter, eq_comm]
  | case4 c rest hmark body after hspan hnone ih =>
      obtain ⟨rfl, hbrace⟩ := hmark
      obtain ⟨tail, rfl⟩ := List.head?_eq_some_iff.mp hbrace
      rw [List.tail_cons] at hspan
      rw [isWithin_mark_iff hspan]
      constructor
      · simp
      · rintro ⟨⟨hbody, hafter⟩, -⟩
        have hnested := (hinside body (rootsOf body)).mpr ⟨hbody, rfl⟩
        exact (hnone _ _ hnested (ih.mpr ⟨hafter, rfl⟩)).elim
  | case5 c rest hmark ih =>
      have hnone : isMark (c :: rest) = false := Bool.eq_false_iff.mpr (mt isMark_iff.mp hmark)
      rw [ih, IsWithin, IsWithin, rootsOf, rootsOf, occurrences_cons hnone]

-- The scan gives up if a reference is not closed or has too many around it, and finds the roots of
-- all references if not.
theorem rootsWithin_eq_some_iff :
    rootsWithin levels text = some roots ↔ IsWithin levels text ∧ roots = rootsOf text := by
  induction levels generalizing text roots with
  | zero =>
      rw [rootsWithin, isWithin_zero_iff, ← hasReference_eq_false_iff]
      cases hnone : hasReference text with
      | true => simp
      | false =>
          have hroots : rootsOf text = [] := by
            rw [rootsOf, hasReference_eq_false_iff.mp hnone]
            rfl
          simp [hroots, eq_comm]
  | succ levels ih => exact rootsWith_eq_some_iff fun body nested => ih

theorem pairwise_insertName {names : List String} (h : names.Pairwise (· < ·)) (name : String) :
    (insertName name names).Pairwise (· < ·) := by
  induction names with
  | nil => simp [insertName]
  | cons other rest ih =>
      obtain ⟨hother, hrest⟩ := List.pairwise_cons.mp h
      rw [insertName]
      by_cases hlt : name < other
      · rw [if_pos hlt]
        refine List.pairwise_cons.mpr ⟨?_, h⟩
        intro next hnext
        rcases List.mem_cons.mp hnext with rfl | hnext
        · exact hlt
        · exact String.lt_trans hlt (hother next hnext)
      rw [if_neg hlt]
      by_cases heq : name = other
      · rw [if_pos heq]
        exact h
      rw [if_neg heq]
      refine List.pairwise_cons.mpr ⟨?_, ih hrest⟩
      intro next hnext
      rcases mem_insertName.mp hnext with rfl | hnext
      · rw [← String.not_le]
        exact fun hle => heq (String.le_antisymm hle (String.not_lt.mp hlt))
      · exact hother next hnext

theorem pairwise_foldr_insertName (names : List String) :
    (names.foldr insertName []).Pairwise (· < ·) := by
  induction names with
  | nil => exact .nil
  | cons name rest ih => exact pairwise_insertName ih name

theorem pairwise_names (ignored : List String) (expression : String) :
    (names ignored expression).Pairwise (· < ·) := by
  rw [names]
  split
  · exact .nil
  · exact pairwise_foldr_insertName _

theorem isWithin_iff : IsWithin levels text ↔
    ∀ j ∈ marks text, bodyAt? text j ≠ none ∧ enclosing text j < levels :=
  List.forall_mem_map

theorem mem_rootsOf {name : String} : name ∈ rootsOf text ↔
    ∃ j ∈ marks text, ∃ body, bodyAt? text j = some body ∧ rootName? body = some name := by
  rw [rootsOf, occurrences, List.filterMap_map, List.mem_filterMap]
  simp only [Function.comp, Option.bind_eq_some_iff]

-- The names of an expression are the roots of all its references, in increasing order, without the
-- ignored ones. A reference that is not closed or has too many around it leaves none.
theorem names_eq_references (ignored : List String) (expression : String) :
    let text := expression.toList
    ((∃ j ∈ marks text, bodyAt? text j = none ∨ maxNesting ≤ enclosing text j) →
      names ignored expression = []) ∧
    ((∀ j ∈ marks text, bodyAt? text j ≠ none ∧ enclosing text j < maxNesting) →
      (names ignored expression).Pairwise (· < ·) ∧ ∀ name, name ∈ names ignored expression ↔
        name ∉ ignored ∧ ∃ j ∈ marks text, ∃ body,
          bodyAt? text j = some body ∧ rootName? body = some name) := by
  intro text
  constructor
  · rintro ⟨j, hj, hbad⟩
    have hnone : rootsWithin maxNesting text = none := by
      refine Option.eq_none_iff_forall_ne_some.mpr fun roots hroots => ?_
      obtain ⟨hbody, hlt⟩ := isWithin_iff.mp (rootsWithin_eq_some_iff.mp hroots).1 j hj
      rcases hbad with hopen | hdeep
      · exact hbody hopen
      · omega
    rw [names, hnone]
  · intro hall
    have hroots := rootsWithin_eq_some_iff.mpr ⟨isWithin_iff.mpr hall, rfl⟩
    refine ⟨pairwise_names ignored expression, fun name => ?_⟩
    rw [mem_names hroots, mem_rootsOf, and_comm]

end FlowExpr.Dependency
