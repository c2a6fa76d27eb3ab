import FlowExpr.Dependency

namespace FlowExpr.Dependency

-- Every `${` of the text has its closing brace, and the list has the names that stand behind them.
def Lists (text : List Char) (roots : List String) : Prop :=
  ∀ before after, text = before ++ '$' :: '{' :: after →
    ∃ body rest, span 0 after = some (body, rest) ∧ ∀ name ∈ rootName? body, name ∈ roots

theorem span_opening (depth : Nat) (rest : List Char) :
    span depth ('{' :: rest) =
      (span (depth + 1) rest).map fun (body, after) => ('{' :: body, after) :=
  rfl

theorem span_closing (depth : Nat) (rest : List Char) :
    span (depth + 1) ('}' :: rest) =
      (span depth rest).map fun (body, after) => ('}' :: body, after) :=
  rfl

theorem span_other {c : Char} (hopen : c ≠ '{') (hclose : c ≠ '}') (depth : Nat)
    (rest : List Char) :
    span depth (c :: rest) = (span depth rest).map fun (body, after) => (c :: body, after) := by
  rw [span.eq_def]
  simp [hopen, hclose]

theorem span_append {depth : Nat} {text body rest : List Char}
    (h : span depth text = some (body, rest)) (more : List Char) :
    span depth (text ++ more) = some (body, rest ++ more) := by
  fun_induction span depth text generalizing body with
  | case1 => simp at h
  | case3 =>
      simp only [Option.some.injEq, Prod.mk.injEq] at h
      simp [span, ← h.1, ← h.2]
  | case2 | case4 | case5 =>
      rename_i ih
      simp only [Option.map_eq_some_iff, Prod.mk.injEq, Prod.exists] at h
      obtain ⟨_, _, hspan, rfl, rfl⟩ := h
      simp_all [span]

theorem eq_of_span {depth : Nat} {text body rest : List Char}
    (h : span depth text = some (body, rest)) : text = body ++ '}' :: rest := by
  fun_induction span depth text generalizing body with
  | case1 => simp at h
  | case3 =>
      simp only [Option.some.injEq, Prod.mk.injEq] at h
      simp [← h.1, ← h.2]
  | case2 | case4 | case5 =>
      rename_i ih
      simp only [Option.map_eq_some_iff, Prod.mk.injEq, Prod.exists] at h
      obtain ⟨_, _, hspan, rfl, rfl⟩ := h
      rw [ih hspan]
      rfl

-- The two characters of a `${` do not lie on different sides of a closing brace.
theorem mark_inside_or_behind {body rest before after : List Char}
    (h : body ++ '}' :: rest = before ++ '$' :: '{' :: after) :
    (∃ tail, body = before ++ '$' :: '{' :: tail ∧ after = tail ++ '}' :: rest) ∨
      ∃ start, rest = start ++ '$' :: '{' :: after := by
  rcases List.append_eq_append_iff.mp h with ⟨start, -, hrest⟩ | ⟨tail, hbody, hafter⟩
  · right
    cases start with
    | nil => simp at hrest
    | cons c start => exact ⟨start, (List.cons.inj hrest).2⟩
  · left
    cases tail with
    | nil => simp at hafter
    | cons c tail =>
        cases tail with
        | nil => simp at hafter
        | cons d tail =>
            simp only [List.cons_append, List.cons.injEq] at hafter
            obtain ⟨rfl, rfl, rfl⟩ := hafter
            exact ⟨tail, hbody, rfl⟩

theorem lists_of_rootsWith {inside : List Char → Option (List String)} {text : List Char}
    {roots : List String}
    (hinside : ∀ body nested, inside body = some nested → Lists body nested)
    (h : rootsWith inside text = some roots) : Lists text roots := by
  fun_induction rootsWith inside text generalizing roots with
  | case1 =>
      intro before after heq
      simp at heq
  | case2 => simp at h
  | case3 c rest hmark body after' hspan nested more hmore hnested ih =>
      simp only [Option.some.injEq] at h
      obtain ⟨rfl, hbrace⟩ := hmark
      obtain ⟨tail, rfl⟩ : ∃ tail, rest = '{' :: tail := List.head?_eq_some_iff.mp hbrace
      rw [List.tail_cons] at hspan
      intro before after heq
      cases before with
      | nil =>
          -- the mark that the scan has just found
          obtain rfl : tail = after := by simpa using heq
          refine ⟨body, after', hspan, ?_⟩
          intro name hname
          rw [← h, List.append_assoc]
          exact List.mem_append_left _ (Option.mem_toList.mpr hname)
      | cons c before =>
          cases before with
          | nil => simp at heq
          | cons d before =>
              have htail : tail = before ++ '$' :: '{' :: after := by
                simp only [List.cons_append, List.cons.injEq] at heq
                exact heq.2.2
              rw [eq_of_span hspan] at htail
              rcases mark_inside_or_behind htail with ⟨inner, hbody, rfl⟩ | ⟨start, hafter⟩
              · obtain ⟨body', rest', hspan', hnames⟩ := hinside body nested hnested _ _ hbody
                refine ⟨body', _, span_append hspan' _, ?_⟩
                intro name hname
                simp [← h, hnames name hname]
              · obtain ⟨body', rest', hspan', hnames⟩ := ih hmore _ _ hafter
                refine ⟨body', rest', hspan', ?_⟩
                intro name hname
                simp [← h, hnames name hname]
  | case4 => simp at h
  | case5 c rest hmark ih =>
      intro before after heq
      cases before with
      | nil =>
          obtain ⟨rfl, rfl⟩ := List.cons.inj heq
          simp at hmark
      | cons d before =>
          obtain ⟨rfl, hrest⟩ := List.cons.inj heq
          exact ih h before after hrest

-- How a scan goes on without a mark, and behind one.
theorem rootsWith_of_not_mem {inside : List Char → Option (List String)} {text : List Char}
    (h : '$' ∉ text) : rootsWith inside text = some [] := by
  induction text with
  | nil => rw [rootsWith]
  | cons c rest ih =>
      rw [List.mem_cons, not_or] at h
      rw [rootsWith, if_neg fun hmark => h.1 hmark.1.symm]
      exact ih h.2

theorem rootsWith_mark {inside : List Char → Option (List String)}
    {text body rest : List Char} {nested more : List String}
    (hspan : span 0 text = some (body, rest)) (hnested : inside body = some nested)
    (hmore : rootsWith inside rest = some more) :
    rootsWith inside ('$' :: '{' :: text) = some ((rootName? body).toList ++ nested ++ more) := by
  rw [rootsWith]
  simp only [List.head?_cons, and_self, if_true, List.tail_cons]
  split
  · simp_all
  · simp_all

theorem hasReference_append (before after : List Char) :
    hasReference (before ++ '$' :: '{' :: after) = true := by
  induction before with
  | nil => simp [hasReference]
  | cons c before ih => simp [hasReference, ih]

-- A scan that does not give up misses no name behind a `${`, at whatever depth.
theorem lists_of_rootsWithin {levels : Nat} {text : List Char} {roots : List String}
    (h : rootsWithin levels text = some roots) : Lists text roots := by
  induction levels generalizing text roots with
  | zero =>
      intro before after heq
      simp [rootsWithin, heq, hasReference_append] at h
  | succ levels ih => exact lists_of_rootsWith (fun _ _ hnested => ih hnested) h

theorem mem_insertName {name other : String} {names : List String} :
    name ∈ insertName other names ↔ name = other ∨ name ∈ names := by
  induction names with
  | nil => simp [insertName]
  | cons first rest ih =>
      rw [insertName]
      by_cases hlt : other < first
      · simp [hlt]
      by_cases heq : other = first
      · simp [heq]
      · rw [if_neg hlt, if_neg heq, List.mem_cons, ih, List.mem_cons, or_left_comm]

theorem mem_foldr_insertName {name : String} {names : List String} :
    name ∈ names.foldr insertName [] ↔ name ∈ names := by
  induction names with
  | nil => rfl
  | cons first rest ih => rw [List.foldr_cons, mem_insertName, ih, List.mem_cons]

-- Every root that the scan finds is listed, unless it is to be ignored.
theorem mem_names {ignored : List String} {expression name : String} {roots : List String}
    (h : rootsWithin maxNesting expression.toList = some roots) :
    name ∈ names ignored expression ↔ name ∈ roots ∧ name ∉ ignored := by
  rw [names, h]
  simp only [mem_foldr_insertName, List.mem_filter, Bool.not_eq_true', List.contains_eq_mem,
    decide_eq_false_iff_not]

end FlowExpr.Dependency
