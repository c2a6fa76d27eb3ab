import FlowExpr.Proofs.Grammar.Elements
import FlowExpr.Proofs.Grammar.Steps
import FlowExpr.Proofs.Nesting
import Mathlib.Data.List.Induction

namespace FlowExpr.Bracket

open FlowExpr.Element (IsUndivided)
open FlowExpr.Token (IsElement)
open FlowExpr.Tree (Fits IsBalanced parse parseRun parseRuns)

variable {limit : Option Nat} {depth : Nat} {brackets : List Bracket} {run : List Token}
  {fault : SyntaxFault}

theorem isElement_single {t : Token} (h : t.kind ≠ .punctuation) : IsElement [t] :=
  ⟨⟨t, [], rfl, h⟩, .single (Tree.isPlain_of_kind h), Element.isUndivided_nil.cons_of_kind h⟩

-- Every bracket makes one element of its content.
theorem isElement_enclose (b : Bracket) (h : IsBalanced run) : IsElement (b.enclose run) := by
  cases b with
  | array raw => exact isElement_single (by simp [Token.kind])
  | object raw key colon => exact isElement_single (by simp [Token.kind])
  | call function opening closing hfunction ho hc =>
      have hkind : function.kind ≠ .punctuation := by simp [hfunction]
      refine ⟨⟨function, _, rfl, hkind⟩, ?_, ?_⟩
      · exact (h.enclosed ho hc).cons (Tree.isPlain_of_kind hkind)
      · exact (Element.isUndivided_enclosed ho h hc).cons_of_kind hkind

theorem isBalanced_encloseAll (brackets : List Bracket) (h : IsBalanced run) :
    IsBalanced (encloseAll brackets run) := by
  induction brackets with
  | nil => exact h
  | cons b rest ih => exact (isElement_enclose b ih).balanced

theorem isElement_encloseAll (hne : brackets ≠ []) (h : IsBalanced run) :
    IsElement (encloseAll brackets run) := by
  cases brackets with
  | nil => exact absurd rfl hne
  | cons b rest => exact isElement_enclose b (isBalanced_encloseAll rest h)

-- A run that no comma divides is split into one element at most.
theorem split_undivided {group : Group} {element : Element} (hne : run ≠ [])
    (hundivided : IsUndivided run) (h : Element.ofSegment group run = .ok element) :
    Element.split group run = .ok [element] := by
  have hsegments : Element.segments (Token.commaSeparated [run]) = [run] :=
    Element.segments_commaSeparated (by simpa using hne) (by simpa using hundivided)
  rw [Token.commaSeparated, List.intercalate_singleton] at hsegments
  rw [Element.split, hsegments, Element.ofSegments, h]
  rfl

-- An array and a call take their content as their one element, and an object takes it behind a key.
theorem split_element {group : Group} (h : IsElement run) (hgroup : group ≠ .object) :
    Element.split group run = .ok [.single run] := by
  obtain ⟨t, rest, rfl, hkind⟩ := h.starts
  apply split_undivided (by simp) h.undivided
  simp [Element.ofSegment, Token.isPunctuation, hkind, hgroup]

theorem splitColon_keyed {key colon : Token} (hkey : key.kind ≠ .punctuation)
    (hcolon : colon.isPunctuation ":" = true) (run : List Token) :
    Element.splitColon 0 (key :: colon :: run) = some ([key], run) := by
  obtain ⟨hkind, hraw⟩ := Tree.isPunctuation_iff.mp hcolon
  simp [Element.splitColon, Token.isPunctuation, hkey, hkind, hraw]

theorem isUndivided_keyed {key colon : Token} (hkey : key.kind ≠ .punctuation)
    (hcolon : colon.isPunctuation ":" = true) (h : IsUndivided run) :
    IsUndivided (key :: colon :: run) := by
  have hraw : colon.raw = ":" := (Tree.isPunctuation_iff.mp hcolon).2
  apply IsUndivided.cons_of_kind hkey
  apply h.cons
  · simp [Tree.IsPlain, Token.isPunctuation, hraw]
  · simp [Token.isPunctuation, hraw]

theorem split_keyed {key colon : Token} {name : String} (h : IsElement run)
    (hkey : Element.keyOf key = .ok name) (hcolon : colon.isPunctuation ":" = true) :
    Element.split .object (key :: colon :: run) = .ok [.keyed name run] := by
  have hkind := Element.kind_of_keyOf hkey
  apply split_undivided (by simp) (isUndivided_keyed hkind hcolon h.undivided)
  obtain ⟨t, rest, rfl, _⟩ := h.starts
  simp [Element.ofSegment, Element.ofKeyed, Token.isPunctuation, hkind,
    splitColon_keyed hkind hcolon, hkey]

theorem not_over (h : Fits limit depth) : ¬limit.any (· < depth) = true := by
  simp [Tree.any_lt_eq_false_iff.mpr h]

-- One element is parsed by itself, and its height alone counts.
theorem parseRuns_single (run : List Token) :
    parseRuns limit depth [run] = (parseRun limit depth run).map ([·]) := by
  rw [parseRuns]
  cases parseRun limit depth run with
  | error fault => rfl
  | ok value =>
      rw [parseRuns]
      rfl

theorem tallest_single (value : Parsed) : Tree.tallest [value] = value.height :=
  Nat.max_zero value.height

theorem parseOperand_array_enclose {raw : String} (h : IsElement run) :
    Tree.parseOperand limit depth (.group .array raw run) =
      (parseRun limit (depth + 1) run).bind fun value =>
        Parsed.branch limit (.array [.single value.tree]) value.height := by
  have hsplit := split_element h (show Group.array ≠ .object by simp)
  rw [Tree.parseOperand_array rfl, Token.children, hsplit]
  change (parseRuns limit (depth + 1) [run]).bind _ = _
  rw [parseRuns_single]
  cases parseRun limit (depth + 1) run with
  | error fault => rfl
  | ok value => exact congrArg (Parsed.branch limit _) (tallest_single value)

theorem parseOperand_object_enclose {raw name : String} {key colon : Token} (h : IsElement run)
    (hkey : Element.keyOf key = .ok name) (hcolon : colon.isPunctuation ":" = true) :
    Tree.parseOperand limit depth (.group .object raw (key :: colon :: run)) =
      (parseRun limit (depth + 1) run).bind fun value =>
        Parsed.branch limit (.object [.keyed name value.tree]) value.height := by
  rw [Tree.parseOperand_object rfl, Token.children, split_keyed h hkey hcolon]
  change (parseRuns limit (depth + 1) [run]).bind _ = _
  rw [parseRuns_single]
  cases parseRun limit (depth + 1) run with
  | error fault => rfl
  | ok value => exact congrArg (Parsed.branch limit _) (tallest_single value)

theorem parseInfix_enclose {function opening closing : Token} (h : IsElement run)
    (hfunction : function.kind = .identifier) (ho : Tree.IsOpening opening)
    (hc : Tree.IsClosing closing) :
    Tree.parseInfix limit depth .empty (function :: opening :: (run ++ [closing])) =
      (parseRun limit 0 run).bind fun value =>
        Parsed.branch limit (.call function.raw [value.tree]) value.height := by
  have hsplit := split_element h (show Group.call ≠ .object by simp)
  rw [Tree.parseInfix_call hfunction ho h.balanced hc rfl, hsplit]
  change (parseRuns limit 0 [run]).bind _ = _
  rw [parseRuns_single]
  cases parseRun limit 0 run with
  | error fault => rfl
  | ok value =>
      change (Parsed.branch limit (.call function.raw [value.tree]) (Tree.tallest [value])).bind _ =
        Parsed.branch limit (.call function.raw [value.tree]) value.height
      rw [tallest_single]
      cases Parsed.branch limit (.call function.raw [value.tree]) value.height with
      | error fault => rfl
      | ok node => exact Tree.parseInfix_nil

-- What the parser makes of a bracket: it parses the content at the depth that is counted there and
-- puts the node of the bracket over the result.
theorem parseRun_enclose (b : Bracket) (h : IsElement run) (hdepth : Fits limit depth) :
    parseRun limit depth (b.enclose run) = (parseRun limit (b.innerDepth depth) run).bind
      fun value => Parsed.branch limit (b.node value.tree) value.height := by
  rw [parseRun.eq_def, if_neg (not_over hdepth)]
  cases b with
  | array raw => exact parseOperand_array_enclose h
  | object raw key colon name hkey hcolon => exact parseOperand_object_enclose h hkey hcolon
  | call function opening closing hfunction ho hc => exact parseInfix_enclose h hfunction ho hc

-- A fault of the innermost run is the fault of the whole, unless the limit cuts off on the way.
theorem parseRun_encloseAll_error (h : IsElement run)
    (hdepth : ∀ outer b inner, brackets = outer ++ b :: inner →
      Fits limit (depthInside depth outer))
    (hrun : parseRun limit (depthInside depth brackets) run = .error fault) :
    parseRun limit depth (encloseAll brackets run) = .error fault := by
  induction brackets generalizing depth with
  | nil => exact hrun
  | cons b rest ih =>
      have hfits : Fits limit depth := hdepth [] b rest rfl
      have hrest : parseRun limit (b.innerDepth depth) (encloseAll rest run) = .error fault := by
        refine ih ?_ hrun
        intro outer b' inner heq
        exact hdepth (b :: outer) b' inner (congrArg (b :: ·) heq)
      have helement : IsElement (encloseAll rest run) := by
        by_cases hnil : rest = []
        · rw [hnil]
          exact h
        · exact isElement_encloseAll hnil h.balanced
      change parseRun limit depth (b.enclose (encloseAll rest run)) = .error fault
      rw [parseRun_enclose b helement hfits, hrest]
      rfl

-- A bracket that is counted too deep hides its content.
theorem parseRun_encloseAll_tooDeep {most : Nat} {outer inner : List Bracket} {b : Bracket}
    (h : IsBalanced run) (hdepth : most < depthInside depth outer) :
    parseRun (some most) depth (encloseAll (outer ++ b :: inner) run) = .error .tooDeep := by
  have hcut {depth : Nat} (hover : most < depth) (run : List Token) :
      parseRun (some most) depth run = .error .tooDeep := by
    rw [parseRun.eq_def, if_pos (by simpa using hover)]
  induction outer generalizing depth with
  | nil => exact hcut hdepth _
  | cons next outer ih =>
      by_cases hover : most < depth
      · exact hcut hover _
      · have hfits : Fits (some most) depth := by
          simp only [Fits, Option.mem_def, Option.some.injEq]
          omega
        have hinner := ih hdepth
        have helement : IsElement (encloseAll (outer ++ b :: inner) run) :=
          isElement_encloseAll (by simp) h
        change parseRun (some most) depth (next.enclose (encloseAll (outer ++ b :: inner) run)) = _
        rw [parseRun_enclose next helement hfits, hinner]
        rfl

-- A lone comma is an element of nothing, and that is the fault of a bracket around it.
theorem exists_fault_comma (b : Bracket) (hdepth : Fits limit depth) :
    ∃ fault, fault ≠ .tooDeep ∧ parseRun limit depth (b.enclose [Token.comma]) = .error fault := by
  rw [parseRun.eq_def, if_neg (not_over hdepth)]
  cases b with
  | array raw =>
      refine ⟨.emptyElement "array", by simp, ?_⟩
      exact Tree.parseOperand_array rfl
  | object raw key colon name hkey hcolon =>
      refine ⟨.missingValue name, by simp, ?_⟩
      change Tree.parseOperand limit depth _ = _
      have hkind := Element.kind_of_keyOf hkey
      have hcommas : Element.splitCommas 0 [key, colon, Token.comma] = [[key, colon], []] :=
        isUndivided_keyed hkind hcolon Element.isUndivided_nil [Token.comma]
      have hsplit : Element.split .object [key, colon, Token.comma] =
          .error (.missingValue name) := by
        simp [Element.split, Element.segments, hcommas, Element.ofSegments, Element.ofSegment,
          Element.ofKeyed, Token.isPunctuation, hkind, splitColon_keyed hkind hcolon, hkey]
      rw [Tree.parseOperand_object rfl, Token.children, hsplit]
      rfl
  | call function opening closing hfunction ho hc =>
      refine ⟨.emptyElement "argument", by simp, ?_⟩
      have hcomma : IsBalanced [Token.comma] := rfl
      exact Tree.parseInfix_call hfunction ho hcomma hc rfl

theorem depthInside_append (outer inner : List Bracket) :
    depthInside depth (outer ++ inner) = depthInside (depthInside depth outer) inner :=
  List.foldl_append

theorem depthInside_containers (h : ∀ c ∈ brackets, c.isContainer = true) :
    depthInside depth brackets = depth + brackets.length := by
  induction brackets generalizing depth with
  | nil => rfl
  | cons c rest ih =>
      have hc : c.innerDepth depth = depth + 1 := if_pos (h c (by simp))
      have hcontainers : ∀ other ∈ rest, other.isContainer = true :=
        fun other hother => h other (List.mem_cons_of_mem c hother)
      have hrest : depthInside (depth + 1) rest = depth + 1 + rest.length := ih hcontainers
      simp only [depthInside, List.foldl_cons, hc, List.length_cons] at hrest ⊢
      omega

-- The depth counts the containers since the last call.
theorem le_depthInside_iff {count : Nat} :
    count ≤ depthInside 0 brackets ↔ ∃ outer stretch, brackets = outer ++ stretch ∧
      stretch.length = count ∧ ∀ c ∈ stretch, c.isContainer = true := by
  constructor
  · intro h
    induction brackets using List.reverseRecOn generalizing count with
    | nil =>
        have hzero : count = 0 := Nat.le_zero.mp h
        exact ⟨[], [], rfl, hzero.symm, by simp⟩
    | append_singleton before b ih =>
        have hlast : depthInside 0 (before ++ [b]) = b.innerDepth (depthInside 0 before) :=
          depthInside_append before [b]
        rw [hlast] at h
        cases count with
        | zero => exact ⟨before ++ [b], [], by simp, rfl, by simp⟩
        | succ count =>
            by_cases hcontainer : b.isContainer = true
            · rw [innerDepth, if_pos hcontainer] at h
              obtain ⟨outer, stretch, rfl, hlength, hall⟩ := ih (Nat.le_of_succ_le_succ h)
              refine ⟨outer, stretch ++ [b], List.append_assoc _ _ _, by simp [hlength], ?_⟩
              intro c hc
              rcases List.mem_append.mp hc with hc | hc
              · exact hall c hc
              · rwa [List.mem_singleton.mp hc]
            · rw [innerDepth, if_neg hcontainer] at h
              omega
  · rintro ⟨outer, stretch, rfl, rfl, hall⟩
    rw [depthInside_append, depthInside_containers hall]
    exact Nat.le_add_left _ _

-- A lone operator or punctuation mark is no expression.
theorem parseRun_unexpected {t : Token} (hdepth : Fits limit depth)
    (h : t.kind = .operator ∨ t.kind = .punctuation) :
    parseRun limit depth [t] = .error (Yard.unexpected t) := by
  rw [parseRun.eq_def, if_neg (not_over hdepth)]
  change Tree.parseOperand limit depth t = _
  rw [Tree.parseOperand]
  rcases h with hkind | hkind
  · simp only [hkind]
  · simp only [hkind]

theorem parse_eq_error (h : parseRun (some maxNesting) 0 run = .error fault) :
    parse run = .error fault := by
  rw [parse, Tree.parseWithin, h]
  rfl

-- Brackets of which none is counted too deep show their content: a comma in them is found.
theorem exists_fault_encloseAll_comma (h : ∀ outer b inner, brackets = outer ++ b :: inner →
    Fits (some maxNesting) (depthInside 0 outer)) :
    ∃ fault, fault ≠ .tooDeep ∧ parse (encloseAll brackets [Token.comma]) = .error fault := by
  rcases List.eq_nil_or_concat brackets with rfl | ⟨before, b, rfl⟩
  · refine ⟨Yard.unexpected Token.comma, by simp [Yard.unexpected], parse_eq_error ?_⟩
    exact parseRun_unexpected (by simp [Fits]) (.inr rfl)
  · have hlast : Fits (some maxNesting) (depthInside 0 before) := by
      apply h before b []
      simp
    obtain ⟨fault, hne, hfault⟩ := exists_fault_comma b hlast
    refine ⟨fault, hne, parse_eq_error ?_⟩
    rw [encloseAll, List.concat_eq_append, List.foldr_append]
    refine parseRun_encloseAll_error (isElement_enclose b rfl) ?_ hfault
    rintro outer b' inner rfl
    apply h outer b' (inner ++ [b])
    simp

-- Content is hidden from the parser, whatever it is, just if it stands in a bracket below one more
-- containers than the limit with no call between them.
theorem parse_encloseAll_tooDeep_iff (brackets : List Bracket) :
    (∀ run, IsBalanced run → parse (encloseAll brackets run) = .error .tooDeep) ↔
      ∃ outer stretch b inner, brackets = outer ++ stretch ++ b :: inner ∧
        stretch.length = maxNesting + 1 ∧ ∀ c ∈ stretch, c.isContainer = true := by
  constructor
  · intro h
    by_contra hnone
    have hdepth : ∀ outer b inner, brackets = outer ++ b :: inner →
        Fits (some maxNesting) (depthInside 0 outer) := by
      rintro outer b inner rfl most ⟨⟩
      by_contra hover
      obtain ⟨before, stretch, rfl, hlength, hall⟩ := le_depthInside_iff.mp (Nat.not_le.mp hover)
      exact hnone ⟨before, stretch, b, inner, rfl, hlength, hall⟩
    obtain ⟨fault, hne, hfault⟩ := exists_fault_encloseAll_comma hdepth
    have htooDeep := h [Token.comma] rfl
    rw [hfault, Except.error.injEq] at htooDeep
    exact hne htooDeep
  · rintro ⟨outer, stretch, b, inner, rfl, hlength, hall⟩ run hrun
    have hdepth : maxNesting < depthInside 0 (outer ++ stretch) :=
      le_depthInside_iff.mpr ⟨outer, stretch, rfl, hlength, hall⟩
    exact parse_eq_error (parseRun_encloseAll_tooDeep hrun hdepth)

-- Calls in one another hide nothing, however many they are.
theorem not_parse_calls_tooDeep :
    ¬∀ (brackets : List Bracket) (run : List Token), maxNesting + 2 ≤ brackets.length →
      IsBalanced run → parse (encloseAll brackets run) = .error .tooDeep := by
  intro h
  let call : Bracket := .call (.plain .identifier "f") (.plain .punctuation "(")
    (.plain .punctuation ")") rfl rfl rfl
  let plus : Token := .plain .operator "+"
  have hdepth (count : Nat) : depthInside 0 (List.replicate count call) = 0 := by
    induction count with
    | zero => rfl
    | succ count ih => exact ih
  have hshown : parse (encloseAll (List.replicate (maxNesting + 2) call) [plus]) =
      .error (Yard.unexpected plus) := by
    apply parse_eq_error
    refine parseRun_encloseAll_error (isElement_single (by decide)) ?_ ?_
    · intro outer b inner heq
      obtain ⟨_, houter, _⟩ := List.append_eq_replicate_iff.mp heq.symm
      rw [houter, hdepth]
      simp [Fits]
    · rw [hdepth]
      exact parseRun_unexpected (by simp [Fits]) (.inl rfl)
  have htooDeep := h (List.replicate (maxNesting + 2) call) [plus] (by simp) rfl
  rw [hshown] at htooDeep
  simp [Yard.unexpected] at htooDeep

end FlowExpr.Bracket
