import FlowExpr.Proofs.Grammar
import Mathlib.Data.List.TakeWhile

namespace FlowExpr

def Parsed.ofTree (tree : Tree) : Parsed :=
  ⟨tree, tree.height⟩

namespace Tree

variable {limit : Option Nat} {depth : Nat} {t : Token} {rest : List Token} {y : Yard} {p : Parsed}

-- A height or a depth is within the limit, if there is one.
def Fits (limit : Option Nat) (height : Nat) : Prop :=
  ∀ most ∈ limit, height ≤ most

-- Every outer operator of the run binds tighter than the operator that waits for the run.
def BindsTighter (held : List Held) (run : List Token) : Prop :=
  ∀ op, held.head? = some (.operator op) →
    ∀ p ∈ outerOperators 0 run, op.precedence < p.precedence

theorem any_lt_eq_false_iff {height : Nat} :
    limit.any (· < height) = false ↔ Fits limit height := by
  cases limit <;> simp [Fits]

theorem Fits.mono {height lower : Nat} (h : Fits limit height) (hle : lower ≤ height) :
    Fits limit lower :=
  fun most hmost => Nat.le_trans hle (h most hmost)

theorem branch_eq_ok_iff {tree : Tree} {tallest : Nat} :
    Parsed.branch limit tree tallest = .ok p ↔
      Fits limit (tallest + 1) ∧ p = ⟨tree, tallest + 1⟩ := by
  rw [← any_lt_eq_false_iff, Parsed.branch]
  by_cases h : limit.any (· < tallest + 1) = true
  · rw [if_pos h]
    exact iff_of_false nofun fun hok => Bool.noConfusion (h.symm.trans hok.1)
  · rw [if_neg h, Except.ok.injEq, and_iff_right (Bool.eq_false_iff.mpr h)]
    exact eq_comm

theorem height_pos (tree : Tree) : 0 < tree.height := by
  cases tree <;> simp [height]

-- How a loop over operands and operators goes on.
theorem parseInfix_nil : parseInfix limit depth y [] = y.finish limit := by
  rw [parseInfix]

theorem parseInfix_operator (hkind : t.kind = .operator) :
    parseInfix limit depth y (t :: rest) =
      (y.pushOperator limit t).bind (parseInfix limit depth · rest) := by
  rw [parseInfix]
  simp only [hkind]
  cases y.pushOperator limit t <;> rfl

theorem parseInfix_punctuation (hkind : t.kind = .punctuation) :
    parseInfix limit depth y (t :: rest) =
      (y.pushPunctuation limit t).bind (parseInfix limit depth · rest) := by
  rw [parseInfix]
  simp only [hkind]
  cases y.pushPunctuation limit t <;> rfl

theorem parseInfix_expecting (hoperator : t.kind ≠ .operator) (hpunctuation : t.kind ≠ .punctuation)
    (hexpects : y.expectsOperator = true) :
    parseInfix limit depth y (t :: rest) = .error (Yard.unexpected t) := by
  rw [parseInfix]
  split <;> simp_all

theorem parseInfix_operand (hoperator : t.kind ≠ .operator) (hpunctuation : t.kind ≠ .punctuation)
    (hexpects : y.expectsOperator = false)
    (hcall : ¬(t.kind = .identifier ∧ rest.head?.any (·.isPunctuation "(") = true)) :
    parseInfix limit depth y (t :: rest) =
      (parseOperand limit depth t).bind fun p => parseInfix limit depth (y.pushOperand p) rest := by
  rw [parseInfix]
  split
  · contradiction
  · contradiction
  · simp only [hexpects, Bool.false_eq_true, if_false, if_neg hcall]
    cases parseOperand limit depth t <;> rfl

theorem parseInfix_call {opening closing : Token} {inner : List Token}
    (hkind : t.kind = .identifier) (ho : IsOpening opening) (hinner : IsBalanced inner)
    (hc : IsClosing closing) (hexpects : y.expectsOperator = false) :
    parseInfix limit depth y (t :: opening :: (inner ++ closing :: rest)) =
      (Element.split .call inner).bind fun elements =>
        (parseRuns limit 0 (plainRuns elements)).bind fun values =>
          (callOf limit t.raw elements values).bind fun node =>
            parseInfix limit depth (y.pushOperand node) rest := by
  rw [parseInfix]
  simp only [hkind, hexpects, List.head?_cons, Option.any_some, ho.opens, List.tail_cons,
    Bool.false_eq_true, and_self, if_true, if_false]
  split
  · rename_i hs
    simp [splitCall_append hinner hc] at hs
  · rename_i inner' after hs
    rw [splitCall_append hinner hc] at hs
    obtain ⟨rfl, rfl⟩ := Prod.mk.inj (Option.some.inj hs)
    cases Element.split .call inner with
    | error fault => rfl
    | ok elements =>
        simp only [Except.bind]
        cases parseRuns limit 0 (plainRuns elements) with
        | error fault => rfl
        | ok values =>
            simp only
            cases callOf limit t.raw elements values <;> rfl

theorem parseInfix_openCall (hkind : t.kind = .identifier) (hexpects : y.expectsOperator = false)
    (hcall : rest.head?.any (·.isPunctuation "(") = true) (hs : splitCall 0 rest.tail = none) :
    parseInfix limit depth y (t :: rest) = .error (.mismatchedCall t.raw) := by
  rw [parseInfix]
  simp only [hkind, hexpects, hcall, Bool.false_eq_true, and_self, if_true, if_false]
  split
  · rfl
  · rename_i hsome
    simp [hs] at hsome

theorem parseOperand_object (hkind : t.kind = .object) :
    parseOperand limit depth t = (Element.split .object t.children).bind fun elements =>
      (parseRuns limit (depth + 1) (elements.map Element.run)).bind (objectOf limit elements) := by
  rw [parseOperand]
  simp only [hkind]
  cases Element.split .object t.children with
  | error fault => rfl
  | ok elements =>
      simp only [Except.bind]
      cases parseRuns limit (depth + 1) (elements.map Element.run) <;> rfl

theorem parseOperand_array (hkind : t.kind = .array) :
    parseOperand limit depth t = (Element.split .array t.children).bind fun elements =>
      (parseRuns limit (depth + 1) (elements.map Element.run)).bind (arrayOf limit elements) := by
  rw [parseOperand]
  simp only [hkind]
  cases Element.split .array t.children with
  | error fault => rfl
  | ok elements =>
      simp only [Except.bind]
      cases parseRuns limit (depth + 1) (elements.map Element.run) <;> rfl

-- A lone operator or punctuation mark fails either way, and a lone operand leaves nothing to join.
theorem parseInfix_single :
    parseInfix limit depth .empty [t] = .ok p ↔ parseOperand limit depth t = .ok p := by
  by_cases hoperator : t.kind = .operator
  · rw [parseInfix_operator hoperator, parseOperand]
    simp [hoperator, Yard.pushOperator, Yard.empty, Except.bind]
  by_cases hpunctuation : t.kind = .punctuation
  · rw [parseInfix_punctuation hpunctuation, parseOperand]
    simp only [hpunctuation, Yard.pushPunctuation, Yard.openParenthesis, Yard.closeParenthesis,
      Yard.empty]
    split
    · simp [Except.bind, parseInfix_nil, Yard.finish, Yard.reduceAll]
    split <;> simp [Except.bind]
  · rw [parseInfix_operand hoperator hpunctuation rfl (by simp)]
    cases parseOperand limit depth t with
    | error fault => simp [Except.bind]
    | ok operand => simp [Except.bind, parseInfix_nil, Yard.finish, Yard.reduceAll, Yard.empty,
        Yard.pushOperand]

-- The short cut for a run of one token changes no result.
theorem parseRun_eq_ok_iff {run : List Token} :
    parseRun limit depth run = .ok p ↔
      Fits limit depth ∧ parseInfix limit depth .empty run = .ok p := by
  rw [← any_lt_eq_false_iff, parseRun.eq_def]
  by_cases hdepth : limit.any (· < depth) = true
  · simp [hdepth]
  simp only [hdepth, Bool.false_eq_true, if_false, true_and]
  cases run with
  | nil => simp [parseInfix_nil, Yard.finish, Yard.reduceAll, Yard.empty]
  | cons t rest =>
      cases rest with
      | nil => exact parseInfix_single.symm
      | cons next more => rfl

-- Every part that is joined makes a template one level higher.
theorem operation_partTree_height (first : Tree) (part : Token) :
    (Tree.operation .add first (partTree part)).height = first.height + 1 := by
  have hpos := first.height_pos
  have hpart : (partTree part).height = 1 := by
    unfold partTree
    split <;> rfl
  simp only [height, hpart]
  omega

theorem addParts_height (first : Tree) (parts : List Token) :
    (addParts first parts).height = first.height + parts.length := by
  unfold addParts
  induction parts generalizing first with
  | nil => rfl
  | cons part rest ih =>
      rw [List.foldl_cons, ih, operation_partTree_height, List.length_cons]
      omega

theorem addParts_height_le (first : Tree) (parts : List Token) :
    first.height ≤ (addParts first parts).height := by
  rw [addParts_height]
  exact Nat.le_add_right _ _

theorem joinParts_eq_ok_iff {first : Tree} {parts : List Token} (hfirst : Fits limit first.height) :
    joinParts limit (.ofTree first) parts = .ok p ↔
      Fits limit (addParts first parts).height ∧ p = .ofTree (addParts first parts) := by
  induction parts generalizing first with
  | nil => simp [joinParts, addParts, hfirst, eq_comm]
  | cons part rest ih =>
      have hheight := operation_partTree_height first part
      have hle := addParts_height_le (.operation .add first (partTree part)) rest
      rw [joinParts]
      by_cases hfits : Fits limit (first.height + 1)
      · have hbranch : Parsed.branch limit (.operation .add first (partTree part)) first.height =
            .ok (.ofTree (.operation .add first (partTree part))) :=
          branch_eq_ok_iff.mpr ⟨hfits, by rw [Parsed.ofTree, hheight]⟩
        simp only [Parsed.ofTree] at hbranch ⊢
        rw [hbranch]
        exact ih (hheight ▸ hfits)
      · have hbranch : Parsed.branch limit (.operation .add first (partTree part)) first.height =
            .error .tooDeep := by
          rw [← any_lt_eq_false_iff, Bool.not_eq_false] at hfits
          rw [Parsed.branch, if_pos hfits]
        simp only [Parsed.ofTree] at hbranch ⊢
        rw [hbranch]
        apply iff_of_false (by simp)
        intro h
        have hwhole : first.height + 1 ≤
            (addParts (.operation .add first (partTree part)) rest).height := by omega
        exact hfits (h.1.mono hwhole)

theorem ofTemplate_eq_ok_iff {parts : List Token} (hone : Fits limit 1) :
    ofTemplate limit parts = .ok p ↔
      Fits limit (templateTree parts).height ∧ p = .ofTree (templateTree parts) := by
  cases parts with
  | nil =>
      simp only [ofTemplate, templateTree, Except.ok.injEq]
      exact ⟨fun h => ⟨hone, h.symm⟩, fun h => h.2.symm⟩
  | cons first rest =>
      rw [ofTemplate, templateTree]
      have htext (s : String) : Fits limit (literal (.string s)).height := hone
      split
      · exact joinParts_eq_ok_iff (htext first.value)
      · exact joinParts_eq_ok_iff (htext "")

theorem parseOperand_leaf {tree : Tree} (hone : Fits limit 1) (h : leafTree? t = some tree) :
    parseOperand limit depth t = .ok p ↔ Fits limit tree.height ∧ p = .ofTree tree := by
  have hleaf {tree : Tree} (hheight : tree.height = 1) :
      .ok (.leaf tree) = (.ok p : Except SyntaxFault Parsed) ↔
        Fits limit tree.height ∧ p = .ofTree tree := by
    simp [Parsed.ofTree, Parsed.leaf, hheight, hone, eq_comm]
  rw [parseOperand]
  unfold leafTree? at h
  cases hkind : t.kind <;> simp only [hkind, Option.some.injEq, reduceCtorEq] at h ⊢
  case number =>
    cases hvalue : numberValue t.raw with
    | error fault => simp [hvalue, Except.toOption] at h
    | ok v =>
        simp only [hvalue, Except.toOption, Option.map_some, Option.some.injEq] at h
        rw [← h]
        exact hleaf rfl
  case template =>
    rw [← h]
    exact ofTemplate_eq_ok_iff hone
  all_goals
    rw [← h]
    exact hleaf rfl

theorem tallest_ofTree (values : List Tree) :
    tallest (values.map Parsed.ofTree) = argsHeight values := by
  unfold tallest
  induction values with
  | nil => rfl
  | cons v rest ih => simp only [List.map_cons, List.foldr_cons, argsHeight, ih, Parsed.ofTree]

theorem height_le_argsHeight {v : Tree} {values : List Tree} (h : v ∈ values) :
    v.height ≤ argsHeight values := by
  induction values with
  | nil => simp at h
  | cons first rest ih =>
      rw [argsHeight]
      rcases List.mem_cons.mp h with rfl | h
      · exact Nat.le_max_left _ _
      · exact Nat.le_trans (ih h) (Nat.le_max_right _ _)

theorem entriesHeight_zipWith {elements : List Element} {values : List Tree}
    (hlength : elements.length = values.length) :
    entriesHeight (List.zipWith Element.entry elements values) = argsHeight values := by
  induction elements generalizing values with
  | nil =>
      rw [List.eq_nil_of_length_eq_zero hlength.symm]
      rfl
  | cons e rest ih =>
      cases values with
      | nil => simp at hlength
      | cons v more =>
          have hv : entryHeight (e.entry v) = v.height := by cases e <;> rfl
          rw [List.zipWith_cons_cons, entriesHeight, argsHeight, hv, ih (by simpa using hlength)]

theorem itemsHeight_zipWith {elements : List Element} {values : List Tree}
    (hlength : elements.length = values.length) :
    itemsHeight (List.zipWith Element.item elements values) = argsHeight values := by
  induction elements generalizing values with
  | nil =>
      rw [List.eq_nil_of_length_eq_zero hlength.symm]
      rfl
  | cons e rest ih =>
      cases values with
      | nil => simp at hlength
      | cons v more =>
          have hv : itemHeight (e.item v) = v.height := by cases e <;> rfl
          rw [List.zipWith_cons_cons, itemsHeight, argsHeight, hv, ih (by simpa using hlength)]

section Groups

variable {elements : List Element} {values : List Tree}

theorem objectOf_eq_ok_iff (hlength : elements.length = values.length) :
    objectOf limit elements (values.map Parsed.ofTree) = .ok p ↔
      Fits limit (argsHeight values + 1) ∧
        p = .ofTree (.object (List.zipWith Element.entry elements values)) := by
  have hentries : List.zipWith entryOf elements (values.map Parsed.ofTree) =
      List.zipWith Element.entry elements values := by
    rw [List.zipWith_map_right]
    congr 1
    funext e v
    cases e <;> rfl
  rw [objectOf, branch_eq_ok_iff, hentries, tallest_ofTree, Parsed.ofTree, height,
    entriesHeight_zipWith hlength]

theorem arrayOf_eq_ok_iff (hlength : elements.length = values.length) :
    arrayOf limit elements (values.map Parsed.ofTree) = .ok p ↔
      Fits limit (argsHeight values + 1) ∧
        p = .ofTree (.array (List.zipWith Element.item elements values)) := by
  have hitems : List.zipWith itemOf elements (values.map Parsed.ofTree) =
      List.zipWith Element.item elements values := by
    rw [List.zipWith_map_right]
    congr 1
    funext e v
    cases e <;> rfl
  rw [arrayOf, branch_eq_ok_iff, hitems, tallest_ofTree, Parsed.ofTree, height,
    itemsHeight_zipWith hlength]

theorem callOf_eq_ok_iff {name : String} :
    callOf limit name elements (values.map Parsed.ofTree) = .ok p ↔
      (∀ e ∈ elements, e.isSpread = false) ∧ Fits limit (argsHeight values + 1) ∧
        p = .ofTree (.call name values) := by
  have hargs : (values.map Parsed.ofTree).map Parsed.tree = values := by
    rw [List.map_map]
    exact List.map_id values
  rw [callOf]
  by_cases h : elements.any Element.isSpread = true
  · simp only [h, if_true, reduceCtorEq, false_iff]
    obtain ⟨e, he, hspread⟩ := List.any_eq_true.mp h
    intro hall
    simp [hall.1 e he] at hspread
  · have hall : ∀ e ∈ elements, e.isSpread = false := by simpa using h
    simp only [h, Bool.false_eq_true, if_false, branch_eq_ok_iff, hargs, tallest_ofTree,
      Parsed.ofTree, height]
    exact (and_iff_right hall).symm

-- Without a spread argument all arguments are parsed.
theorem plainRuns_eq (h : ∀ e ∈ elements, e.isSpread = false) :
    plainRuns elements = elements.map Element.run := by
  unfold plainRuns
  congr 1
  rw [List.takeWhile_eq_self_iff]
  simpa using h

end Groups

end Tree

end FlowExpr
