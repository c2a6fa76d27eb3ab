import FlowExpr.Proofs.Dependency.Completeness
import FlowExpr.Proofs.Guard.Balance

namespace FlowExpr.Dependency

-- Every `${` of the text has its closing brace, where braces in quotes count like all others.
def IsClosed (text : List Char) : Prop :=
  ∀ j ∈ marks text, bodyAt? text j ≠ none

def isBrace (c : Char) : Bool :=
  c == '{' || c == '}'

-- Whether a `${` of the text stands in too many others for the scan.
def isTooDeep (text : List Char) : Bool :=
  (marks text).any fun j => maxNesting ≤ enclosing text j

-- Whether a brace stands in quotes, where the guard passes over it and the scan does not.
def hasQuotedBrace (quote : Option Char) : List Char → Bool
  | [] => false
  | c :: rest =>
    match quote with
    | none => hasQuotedBrace (if c = '"' ∨ c = '\'' then some c else none) rest
    | some q =>
      isBrace c ||
        if c = '\\' then
          match rest with
          | [] => false
          | d :: rest => isBrace d || hasQuotedBrace quote rest
        else hasQuotedBrace (if c = q then none else quote) rest

-- A brace that is open before the text, with so many others opened behind it, is closed in it.
def Closes (depth : Nat) (text : List Char) : Prop :=
  (span depth text).isSome = true

-- The references that are open before the text are closed in it, and so are those in it. The latest
-- open brace comes first.
structure ClosesAll (opened : List Bool) (text : List Char) : Prop where
  before : ∀ depth, opened[depth]? = some true → Closes depth text
  inside : ∀ inner, '$' :: '{' :: inner <:+ text → Closes 0 inner

variable {opened : List Bool} {flag : Bool} {quote : Option Char} {q c : Char} {text : List Char}
  {depth : Nat}

theorem closes_other (h : isBrace c = false) : Closes depth (c :: text) ↔ Closes depth text := by
  simp only [isBrace, Bool.or_eq_false_iff, beq_eq_false_iff_ne] at h
  rw [Closes, span_other h.1 h.2, Option.isSome_map, Closes]

theorem closes_opening : Closes depth ('{' :: text) ↔ Closes (depth + 1) text := by
  rw [Closes, span_opening, Option.isSome_map, Closes]

theorem closes_closing : Closes (depth + 1) ('}' :: text) ↔ Closes depth text := by
  rw [Closes, span_closing, Option.isSome_map, Closes]

namespace ClosesAll

theorem nil (h : true ∉ opened) : ClosesAll opened [] where
  before _ hdepth := absurd (List.mem_of_getElem? hdepth) h
  inside _ hinner := by simp at hinner

theorem other (h : ClosesAll opened text) (hc : isBrace c = false)
    (hmark : c = '$' → text.head? ≠ some '{') : ClosesAll opened (c :: text) where
  before depth hdepth := (closes_other hc).mpr (h.before depth hdepth)
  inside inner hinner := by
    rcases List.suffix_cons_iff.mp hinner with heq | hsuffix
    · obtain ⟨rfl, rfl⟩ := List.cons.inj heq
      exact absurd rfl (hmark rfl)
    · exact h.inside inner hsuffix

theorem plain (h : ClosesAll opened text) (hc : isBrace c = false) (hdollar : c ≠ '$') :
    ClosesAll opened (c :: text) :=
  h.other hc fun heq => absurd heq hdollar

theorem opening (h : ClosesAll (flag :: opened) text) : ClosesAll opened ('{' :: text) where
  before depth hdepth := closes_opening.mpr (h.before (depth + 1) hdepth)
  inside inner hinner := by
    rcases List.suffix_cons_iff.mp hinner with heq | hsuffix
    · simp at heq
    · exact h.inside inner hsuffix

theorem reference (h : ClosesAll (true :: opened) text) :
    ClosesAll opened ('$' :: '{' :: text) where
  before depth hdepth := (closes_other (by decide)).mpr (h.opening.before depth hdepth)
  inside inner hinner := by
    rcases List.suffix_cons_iff.mp hinner with heq | hsuffix
    · obtain rfl : inner = text := by simpa using heq
      exact h.before 0 rfl
    · exact h.opening.inside inner hsuffix

theorem closing (h : ClosesAll opened.tail text) : ClosesAll opened ('}' :: text) where
  before depth hdepth := by
    cases depth with
    | zero => rfl
    | succ depth => exact closes_closing.mpr (h.before depth (by simpa using hdepth))
  inside inner hinner := by
    rcases List.suffix_cons_iff.mp hinner with heq | hsuffix
    · simp at heq
    · exact h.inside inner hsuffix

end ClosesAll

theorem hasQuotedBrace_char (h : c ≠ '\\') : hasQuotedBrace (some q) (c :: text) =
    (isBrace c || hasQuotedBrace (if c = q then none else some q) text) := by
  rw [hasQuotedBrace.eq_def]
  simp [h]

theorem hasQuotedBrace_escape : hasQuotedBrace (some q) ('\\' :: c :: text) =
    (isBrace c || hasQuotedBrace (some q) text) := by
  rw [hasQuotedBrace.eq_def]
  simp [isBrace]

theorem hasQuotedBrace_quote (h : c = '"' ∨ c = '\'') : hasQuotedBrace none (c :: text) =
    hasQuotedBrace (some c) text := by
  rw [hasQuotedBrace.eq_def]
  simp only [if_pos h]

theorem hasQuotedBrace_bare (h : ¬(c = '"' ∨ c = '\'')) : hasQuotedBrace none (c :: text) =
    hasQuotedBrace none text := by
  rw [hasQuotedBrace.eq_def]
  simp only [if_neg h]

theorem head?_ne_of_hasQuotedBrace (h : hasQuotedBrace (some q) text = false) :
    text.head? ≠ some '{' := by
  intro hhead
  obtain ⟨tail, rfl⟩ := List.head?_eq_some_iff.mp hhead
  rw [hasQuotedBrace_char (by decide)] at h
  simp [isBrace] at h

-- The guard follows the open braces with a stack where the scan counts them. The two differ in
-- quotes only.
theorem closesAll_of_isBalanced (hquote : ∀ q ∈ quote, q = '"' ∨ q = '\'')
    (hbraces : hasQuotedBrace quote text = false) (h : Guard.isBalanced opened quote text = true) :
    ClosesAll opened text := by
  have hnone : ∀ q ∈ (none : Option Char), q = '"' ∨ q = '\'' := by simp
  fun_induction Guard.isBalanced opened quote text with
  | case1 opened quote => exact .nil (by simpa using h)
  | case2 opened q => exact (ClosesAll.nil (by simpa using h)).plain (by decide) (by decide)
  | case3 opened q c tail ih =>
      rw [hasQuotedBrace_escape, Bool.or_eq_false_iff] at hbraces
      have htail := ih hquote hbraces.2 h
      have hinner := htail.other hbraces.1 fun _ => head?_ne_of_hasQuotedBrace hbraces.2
      exact hinner.plain (by decide) (by decide)
  | case4 opened c tail q hescape ih =>
      rw [hasQuotedBrace_char hescape, Bool.or_eq_false_iff] at hbraces
      by_cases hend : c = q
      · rw [if_pos hend] at hbraces ih h
        refine (ih hnone hbraces.2 h).other hbraces.1 fun hdollar => ?_
        rcases hquote q rfl with rfl | rfl <;> simp [hdollar] at hend
      · rw [if_neg hend] at hbraces ih h
        exact (ih hquote hbraces.2 h).other hbraces.1 fun _ =>
          head?_ne_of_hasQuotedBrace hbraces.2
  | case5 opened c tail hc ih =>
      rw [hasQuotedBrace_quote hc] at hbraces
      have htail := ih (by simpa using hc) hbraces h
      rcases hc with rfl | rfl
      · exact htail.plain (by decide) (by decide)
      · exact htail.plain (by decide) (by decide)
  | case6 opened tail hc ih =>
      rw [hasQuotedBrace_bare hc, hasQuotedBrace_bare (by decide)] at hbraces
      exact (ih hnone hbraces h).reference
  | case7 opened tail hbare hc ih =>
      rw [hasQuotedBrace_bare hc] at hbraces
      refine (ih hnone hbraces h).other (by decide) fun _ hhead => ?_
      obtain ⟨rest, rfl⟩ := List.head?_eq_some_iff.mp hhead
      exact hbare rest rfl
  | case8 opened tail hc _ ih =>
      rw [hasQuotedBrace_bare hc] at hbraces
      exact (ih hnone hbraces h).opening
  | case9 opened tail hc _ _ ih =>
      rw [hasQuotedBrace_bare hc] at hbraces
      exact (ih hnone hbraces h).closing
  | case10 opened c tail hc hdollar hopen hclose ih =>
      rw [hasQuotedBrace_bare hc] at hbraces
      exact (ih hnone hbraces h).plain (by simp [isBrace, hopen, hclose]) hdollar

-- Only a brace in quotes can keep a reference open for the scan in a text that the guard lets pass.
theorem isClosed_of_check {expression : String} {maxLength : Nat}
    (h : Guard.check expression maxLength = .ok ())
    (hbraces : hasQuotedBrace none expression.toList = false) : IsClosed expression.toList := by
  obtain ⟨-, -, -, -, hbalanced⟩ := Guard.check_eq_ok_iff.mp h
  have hcloses := closesAll_of_isBalanced (by simp) hbraces hbalanced
  intro j hj
  obtain ⟨inner, hinner⟩ := exists_of_mem_marks hj
  have hspan := hcloses.inside inner (hinner ▸ List.drop_suffix j _)
  have hdrop : expression.toList.drop (j + 2) = inner := by
    rw [← List.drop_drop, hinner]
    rfl
  rw [bodyAt?_eq, hdrop]
  simpa [Closes, Option.isSome_iff_ne_none] using hspan

-- The scan gives up for no other reason than a reference that is open or nested too deeply.
theorem exists_of_isClosed {text : List Char} (hclosed : IsClosed text)
    (hdeep : isTooDeep text = false) : ∃ roots, rootsWithin maxNesting text = some roots := by
  refine ⟨rootsOf text, rootsWithin_eq_some_iff.mpr ⟨isWithin_iff.mpr fun j hj => ?_, rfl⟩⟩
  have hlt : ¬maxNesting ≤ enclosing text j := by
    simpa using List.any_eq_false.mp hdeep j hj
  exact ⟨hclosed j hj, Nat.lt_of_not_le hlt⟩

end FlowExpr.Dependency
