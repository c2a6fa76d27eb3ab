import FlowExpr.Proofs.Blank
import FlowExpr.Proofs.Dependency.Scan

namespace FlowExpr.Dependency

-- What stands right behind a root.
def EndsName (c : Char) : Prop :=
  isRootEnd c = true ∨ c = '}'

-- The name stands behind a `${` with only blanks between the two, and ends where a root ends.
def MarksName (whole name : List Char) : Prop :=
  ∃ blank c, Text.isBlankText blank = true ∧ EndsName c ∧
    '$' :: '{' :: (blank ++ (name ++ [c])) <:+: whole

variable {blank name : List Char} {c : Char}

theorem not_brace_of_isNameChar (h : Text.isNameChar c = true) : c ≠ '{' ∧ c ≠ '}' := by
  constructor
  · rintro rfl
    have hbrace : Text.isNameChar '{' = false := by decide +kernel
    simp [hbrace] at h
  · rintro rfl
    have hbrace : Text.isNameChar '}' = false := by decide +kernel
    simp [hbrace] at h

theorem not_isRootEnd_of_isNameChar (h : Text.isNameChar c = true) : isRootEnd c = false := by
  have hdot : Text.isNameChar '.' = false := by decide +kernel
  have hbracket : Text.isNameChar '[' = false := by decide +kernel
  have hblank : Text.isBlank c = false := by
    rw [Bool.eq_false_iff]
    intro htrue
    simp [Text.isNameChar_of_isBlank htrue] at h
  have hne : c ≠ '.' ∧ c ≠ '[' := by
    constructor <;> rintro rfl <;> simp_all
  simp [isRootEnd, hne.1, hne.2, hblank]

theorem not_brace_of_isBlank (h : Text.isBlank c = true) : c ≠ '{' ∧ c ≠ '}' := by
  constructor <;> rintro rfl <;> simp [Text.isBlank, Text.blankRanges, Text.inRanges] at h

-- The scan for a closing brace passes over what has no braces.
theorem exists_of_span_append {depth : Nat} {run text body rest : List Char}
    (hrun : ∀ c ∈ run, c ≠ '{' ∧ c ≠ '}') (h : span depth (run ++ text) = some (body, rest)) :
    ∃ more, body = run ++ more ∧ span depth text = some (more, rest) := by
  induction run generalizing body with
  | nil => exact ⟨body, rfl, h⟩
  | cons c run ih =>
      obtain ⟨hopen, hclose⟩ := hrun c (by simp)
      rw [List.cons_append, span_other hopen hclose] at h
      obtain ⟨⟨body', rest'⟩, hspan, heq⟩ := Option.map_eq_some_iff.mp h
      obtain ⟨rfl, rfl⟩ := Prod.mk.inj heq
      obtain ⟨more, rfl, hmore⟩ := ih (fun d hd => hrun d (List.mem_cons_of_mem c hd)) hspan
      exact ⟨more, rfl, hmore⟩

theorem takeWhile_root {more : List Char} (hname : name.all Text.isNameChar = true)
    (hmore : ∀ d ∈ more.head?, isRootEnd d = true) :
    (name ++ more).takeWhile (fun d => !isRootEnd d) = name := by
  have hinside : ∀ d ∈ name, (!isRootEnd d) = true := by
    intro d hd
    rw [not_isRootEnd_of_isNameChar (List.all_eq_true.mp hname d hd)]
    rfl
  rw [List.takeWhile_append_of_pos hinside]
  cases more with
  | nil => simp
  | cons d more =>
      have hd := hmore d (by simp)
      simp [hd]

-- The root that the scan sees is the name, wherever the scan ends the body.
theorem rootName?_of_span {more body rest : List Char} (hblank : Text.isBlankText blank = true)
    (hne : name ≠ []) (hname : name.all Text.isNameChar = true) (hc : EndsName c)
    (h : span 0 (blank ++ (name ++ c :: more)) = some (body, rest)) :
    rootName? body = some (String.ofList name) := by
  have hrun : ∀ d ∈ blank ++ name, d ≠ '{' ∧ d ≠ '}' := by
    intro d hd
    rcases List.mem_append.mp hd with hd | hd
    · exact not_brace_of_isBlank (List.all_eq_true.mp hblank d hd)
    · exact not_brace_of_isNameChar (List.all_eq_true.mp hname d hd)
  rw [← List.append_assoc] at h
  obtain ⟨tail, rfl, htail⟩ := exists_of_span_append hrun h
  have hend : ∀ d ∈ tail.head?, isRootEnd d = true := by
    intro d hd
    rcases hc with hc | rfl
    · have hc' : c ≠ '{' ∧ c ≠ '}' := by
        constructor <;> rintro rfl <;> simp [isRootEnd, Text.isBlank, Text.blankRanges,
          Text.inRanges] at hc
      rw [span_other hc'.1 hc'.2] at htail
      obtain ⟨⟨body', rest'⟩, _, heq⟩ := Option.map_eq_some_iff.mp htail
      obtain ⟨rfl, rfl⟩ := Prod.mk.inj heq
      obtain rfl : c = d := by simpa using hd
      exact hc
    · have hclosed : span 0 ('}' :: more) = some ([], more) := rfl
      rw [hclosed, Option.some.injEq, Prod.mk.injEq] at htail
      simp [← htail.1] at hd
  have hstart : Text.trimStart (name ++ tail) = name ++ tail := by
    cases name with
    | nil => exact absurd rfl hne
    | cons d name =>
        have hd : Text.isBlank d = false := by
          have hroot := not_isRootEnd_of_isNameChar (List.all_eq_true.mp hname d (by simp))
          simp only [isRootEnd, Bool.or_eq_false_iff] at hroot
          exact hroot.2
        simp [Text.trimStart, hd]
  have hroot : (Text.trimStart (blank ++ name ++ tail)).takeWhile (fun d => !isRootEnd d) =
      name := by
    rw [List.append_assoc, Text.trimStart_append hblank, hstart, takeWhile_root hname hend]
  rw [rootName?, hroot]
  simp [hname, hne]

-- A marked name is on the list of the scan.
theorem mem_of_marksName {whole : List Char} {roots : List String} (hlists : Lists whole roots)
    (hne : name ≠ []) (hname : name.all Text.isNameChar = true) (h : MarksName whole name) :
    String.ofList name ∈ roots := by
  obtain ⟨blank, c, hblank, hc, before, after, hwhole⟩ := h
  have hsplit : whole = before ++ '$' :: '{' :: (blank ++ (name ++ c :: after)) := by
    simp [← hwhole]
  obtain ⟨body, rest, hspan, hnames⟩ := hlists _ _ hsplit
  exact hnames _ (rootName?_of_span hblank hne hname hc hspan)

end FlowExpr.Dependency
