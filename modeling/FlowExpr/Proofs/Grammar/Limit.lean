import FlowExpr.Proofs.Grammar.Theorems

namespace FlowExpr.Tree

open Outcome (CutsOff)

variable {limit : Option Nat} {depth free : Nat} {t : Token} {α : Type}

-- The limit has been passed on the way to this result.
def PassesLimit (result : Except SyntaxFault α) : Prop :=
  Outcome.Raises (· = .tooDeep) result

theorem cutsOff_branch (tree : Tree) (tallest : Nat) :
    CutsOff PassesLimit (Parsed.branch limit tree tallest) (Parsed.branch none tree tallest) := by
  by_cases h : limit.any (· < tallest + 1) = true
  · right
    exact ⟨.tooDeep, rfl, by rw [Parsed.branch, if_pos h]⟩
  · left
    rw [Parsed.branch, if_neg h]
    rfl

section Yard

variable (limit) (y : Yard) (held : List Held) (output : List Parsed)

theorem cutsOff_reduce (op : Operator) :
    CutsOff PassesLimit (Yard.reduce limit op output) (Yard.reduce none op output) := by
  unfold Yard.reduce
  split
  · exact (cutsOff_branch _ _).map _
  · exact .refl _

-- How joining goes on behind one join.
theorem reduceTo_operator {op : Operator} {precedence : Nat} (h : precedence ≤ op.precedence) :
    Yard.reduceTo limit precedence (.operator op :: held) output =
      (Yard.reduce limit op output).bind (Yard.reduceTo limit precedence held) := by
  rw [Yard.reduceTo, if_pos h]
  cases Yard.reduce limit op output <;> rfl

theorem reduceToParenthesis_operator (op : Operator) :
    Yard.reduceToParenthesis limit (.operator op :: held) output =
      (Yard.reduce limit op output).bind (Yard.reduceToParenthesis limit held) := by
  rw [Yard.reduceToParenthesis]
  cases Yard.reduce limit op output <;> rfl

theorem reduceAll_operator (op : Operator) :
    Yard.reduceAll limit (.operator op :: held) output =
      (Yard.reduce limit op output).bind (Yard.reduceAll limit held) := by
  rw [Yard.reduceAll]
  cases Yard.reduce limit op output <;> rfl

theorem cutsOff_reduceTo (precedence : Nat) :
    CutsOff PassesLimit (Yard.reduceTo limit precedence held output)
      (Yard.reduceTo none precedence held output) := by
  induction held generalizing output with
  | nil => exact .refl _
  | cons top held ih =>
      cases top with
      | parenthesis => exact .refl _
      | operator op =>
          by_cases htop : precedence ≤ op.precedence
          · rw [reduceTo_operator limit held output htop, reduceTo_operator none held output htop]
            exact (cutsOff_reduce limit output op).bind ih
          · rw [Yard.reduceTo, if_neg htop, Yard.reduceTo, if_neg htop]
            exact .refl _

theorem cutsOff_reduceToParenthesis :
    CutsOff PassesLimit (Yard.reduceToParenthesis limit held output)
      (Yard.reduceToParenthesis none held output) := by
  induction held generalizing output with
  | nil => exact .refl _
  | cons top held ih =>
      cases top with
      | parenthesis => exact .refl _
      | operator op =>
          rw [reduceToParenthesis_operator, reduceToParenthesis_operator]
          exact (cutsOff_reduce limit output op).bind ih

theorem cutsOff_reduceAll :
    CutsOff PassesLimit (Yard.reduceAll limit held output) (Yard.reduceAll none held output) := by
  induction held generalizing output with
  | nil => exact .refl _
  | cons top held ih =>
      cases top with
      | parenthesis => exact .refl _
      | operator op =>
          rw [reduceAll_operator, reduceAll_operator]
          exact (cutsOff_reduce limit output op).bind ih

theorem cutsOff_pushOperator (t : Token) :
    CutsOff PassesLimit (y.pushOperator limit t) (y.pushOperator none t) := by
  unfold Yard.pushOperator
  split
  · exact .refl _
  split
  · exact .refl _
  · exact (cutsOff_reduceTo limit _ _ _).map _

theorem cutsOff_pushPunctuation (t : Token) :
    CutsOff PassesLimit (y.pushPunctuation limit t) (y.pushPunctuation none t) := by
  unfold Yard.pushPunctuation
  split
  · exact .refl _
  split
  · unfold Yard.closeParenthesis
    split
    · exact .refl _
    · exact (cutsOff_reduceToParenthesis limit _ _).map _
  · exact .refl _

theorem cutsOff_finish : CutsOff PassesLimit (y.finish limit) (y.finish none) := by
  rcases cutsOff_reduceAll limit y.held y.output with heq | ⟨_, rfl, heq⟩
  · left
    rw [Yard.finish, heq, Yard.finish]
  · right
    exact ⟨.tooDeep, rfl, by rw [Yard.finish, heq]⟩

end Yard

theorem joinParts_cons (before : Parsed) (part : Token) (rest : List Token) :
    joinParts limit before (part :: rest) =
      (Parsed.branch limit (.operation .add before.tree (partTree part)) before.height).bind
        (joinParts limit · rest) := by
  rw [joinParts]
  cases Parsed.branch limit (.operation .add before.tree (partTree part)) before.height <;> rfl

theorem cutsOff_joinParts (before : Parsed) (parts : List Token) :
    CutsOff PassesLimit (joinParts limit before parts) (joinParts none before parts) := by
  induction parts generalizing before with
  | nil => exact .refl _
  | cons part rest ih =>
      rw [joinParts_cons, joinParts_cons]
      exact (cutsOff_branch _ _).bind ih

theorem cutsOff_ofTemplate (parts : List Token) :
    CutsOff PassesLimit (ofTemplate limit parts) (ofTemplate none parts) := by
  cases parts with
  | nil => exact .refl _
  | cons first rest =>
      rw [ofTemplate, ofTemplate]
      split
      · exact cutsOff_joinParts _ _
      · exact cutsOff_joinParts _ _

-- Wherever the run stands, the limit only cuts it off.
def IsCutOff (limit : Option Nat) (run : List Token) : Prop :=
  ∀ depth free, CutsOff PassesLimit (parseRun limit depth run) (parseRun none free run)

theorem parseRuns_cons (run : List Token) (rest : List (List Token)) :
    parseRuns limit depth (run :: rest) = (parseRun limit depth run).bind fun value =>
      (parseRuns limit depth rest).map (value :: ·) := by
  rw [parseRuns]
  cases parseRun limit depth run with
  | error fault => rfl
  | ok value => cases parseRuns limit depth rest <;> rfl

theorem cutsOff_parseRuns {runs : List (List Token)} (h : ∀ run ∈ runs, IsCutOff limit run) :
    CutsOff PassesLimit (parseRuns limit depth runs) (parseRuns none free runs) := by
  induction runs with
  | nil =>
      rw [parseRuns, parseRuns]
      exact .refl _
  | cons run rest ih =>
      rw [parseRuns_cons, parseRuns_cons]
      have hrest := ih fun other hother => h other (List.mem_cons_of_mem run hother)
      exact (h run (by simp) depth free).bind fun value => hrest.map _

theorem exists_of_mem_plainRuns {elements : List Element} {run : List Token}
    (h : run ∈ plainRuns elements) : ∃ e ∈ elements, e.run = run := by
  obtain ⟨e, he, hrun⟩ := List.mem_map.mp h
  exact ⟨e, (List.takeWhile_sublist _).mem he, hrun⟩

theorem cutsOff_parseOperand
    (h : ∀ run, Token.runWeight run < t.weight → IsCutOff limit run) :
    CutsOff PassesLimit (parseOperand limit depth t) (parseOperand none free t) := by
  have hruns {group : Group} {elements : List Element}
      (hsplit : Element.split group t.children = .ok elements) :
      CutsOff PassesLimit (parseRuns limit (depth + 1) (elements.map Element.run))
        (parseRuns none (free + 1) (elements.map Element.run)) := by
    apply cutsOff_parseRuns
    intro run hrun
    obtain ⟨e, he, rfl⟩ := List.mem_map.mp hrun
    exact h e.run (runWeight_lt_of_split hsplit he (Token.runWeight_children_lt t))
  cases hkind : t.kind
  case object =>
    rw [parseOperand_object hkind, parseOperand_object hkind]
    cases hsplit : Element.split .object t.children with
    | error fault => exact .refl _
    | ok elements => exact (hruns hsplit).bind fun values => cutsOff_branch _ _
  case array =>
    rw [parseOperand_array hkind, parseOperand_array hkind]
    cases hsplit : Element.split .array t.children with
    | error fault => exact .refl _
    | ok elements => exact (hruns hsplit).bind fun values => cutsOff_branch _ _
  case template =>
    rw [parseOperand, parseOperand]
    simp only [hkind]
    exact cutsOff_ofTemplate _
  all_goals
    rw [parseOperand, parseOperand]
    simp only [hkind]
    exact .refl _

theorem cutsOff_callOf (name : String) (elements : List Element) (values : List Parsed) :
    CutsOff PassesLimit (callOf limit name elements values) (callOf none name elements values) := by
  unfold callOf
  split
  · exact .refl _
  · exact cutsOff_branch _ _

-- A call is cut off at most, and so is what follows it.
theorem cutsOff_parseInfix_call {rest : List Token} {y : Yard} (hkind : t.kind = .identifier)
    (hexpects : y.expectsOperator = false)
    (hcall : rest.head?.any (·.isPunctuation "(") = true)
    (h : ∀ run, Token.runWeight run < Token.runWeight rest → IsCutOff limit run)
    (hafter : ∀ after, after.length < rest.length → Token.runWeight after ≤ Token.runWeight rest →
      ∀ next, CutsOff PassesLimit (parseInfix limit depth next after)
        (parseInfix none free next after)) :
    CutsOff PassesLimit (parseInfix limit depth y (t :: rest))
      (parseInfix none free y (t :: rest)) := by
  cases rest with
  | nil => simp at hcall
  | cons opening more =>
      have ho : IsOpening opening := by simpa [IsOpening] using hcall
      cases hs : splitCall 0 more with
      | none =>
          rw [parseInfix_openCall hkind hexpects hcall hs,
            parseInfix_openCall hkind hexpects hcall hs]
          exact .refl _
      | some pair =>
          obtain ⟨inner, after⟩ := pair
          have hlighter := splitCall_weight hs
          obtain ⟨closing, hc, rfl, hinner⟩ := exists_of_splitCall hs
          have hweight : Token.runWeight inner <
              Token.runWeight (opening :: (inner ++ closing :: after)) := by
            simp only [Token.runWeight]
            omega
          rw [parseInfix_call hkind ho hinner hc hexpects,
            parseInfix_call hkind ho hinner hc hexpects]
          cases hsplit : Element.split .call inner with
          | error fault => exact .refl _
          | ok elements =>
              have hruns : ∀ run ∈ plainRuns elements, IsCutOff limit run := by
                intro run hrun
                obtain ⟨e, he, rfl⟩ := exists_of_mem_plainRuns hrun
                exact h e.run (runWeight_lt_of_split hsplit he hweight)
              have hrest : ∀ next, CutsOff PassesLimit (parseInfix limit depth next after)
                  (parseInfix none free next after) := by
                apply hafter
                · simp only [List.length_cons, List.length_append]
                  omega
                · simp only [Token.runWeight]
                  omega
              exact (cutsOff_parseRuns hruns).bind fun values =>
                (cutsOff_callOf t.raw elements values).bind fun node => hrest _

-- Every turn of the loop is cut off at most, and so is the whole run.
theorem cutsOff_parseInfix {tokens : List Token}
    (h : ∀ run, Token.runWeight run < Token.runWeight tokens → IsCutOff limit run) (y : Yard) :
    CutsOff PassesLimit (parseInfix limit depth y tokens) (parseInfix none free y tokens) := by
  induction hn : tokens.length using Nat.strongRecOn generalizing tokens y with
  | ind n ih =>
  cases tokens with
  | nil =>
      rw [parseInfix_nil, parseInfix_nil]
      exact cutsOff_finish limit y
  | cons t rest =>
      have hweight : Token.runWeight (t :: rest) = t.weight + Token.runWeight rest := by
        rw [Token.runWeight]
      have hpos := t.weight_pos
      have hafter : ∀ after : List Token, after.length ≤ rest.length →
          Token.runWeight after ≤ Token.runWeight rest → ∀ next,
          CutsOff PassesLimit (parseInfix limit depth next after)
            (parseInfix none free next after) := by
        intro after hlength hlighter next
        rw [List.length_cons] at hn
        exact ih after.length (by omega) (fun run hrun => h run (by omega)) next rfl
      have hrest := hafter rest (Nat.le_refl _) (Nat.le_refl _)
      by_cases hoperator : t.kind = .operator
      · rw [parseInfix_operator hoperator, parseInfix_operator hoperator]
        exact (cutsOff_pushOperator limit y t).bind hrest
      by_cases hpunctuation : t.kind = .punctuation
      · rw [parseInfix_punctuation hpunctuation, parseInfix_punctuation hpunctuation]
        exact (cutsOff_pushPunctuation limit y t).bind hrest
      by_cases hexpects : y.expectsOperator = true
      · rw [parseInfix_expecting hoperator hpunctuation hexpects,
          parseInfix_expecting hoperator hpunctuation hexpects]
        exact .refl _
      rw [Bool.not_eq_true] at hexpects
      by_cases hcall : t.kind = .identifier ∧ rest.head?.any (·.isPunctuation "(") = true
      · exact cutsOff_parseInfix_call hcall.1 hexpects hcall.2 (fun run hrun => h run (by omega))
          fun after hlength => hafter after (Nat.le_of_lt hlength)
      · have hoperand :
            CutsOff PassesLimit (parseOperand limit depth t) (parseOperand none free t) :=
          cutsOff_parseOperand fun run hrun => h run (by omega)
        rw [parseInfix_operand hoperator hpunctuation hexpects hcall,
          parseInfix_operand hoperator hpunctuation hexpects hcall]
        exact hoperand.bind fun operand => hrest _

-- No run is read differently because of the limit.
theorem isCutOff (limit : Option Nat) (run : List Token) : IsCutOff limit run := by
  induction hn : Token.runWeight run using Nat.strongRecOn generalizing run with
  | ind n ih =>
  intro depth free
  have hinner : ∀ inner, Token.runWeight inner < Token.runWeight run → IsCutOff limit inner := by
    intro inner hlighter
    exact ih (Token.runWeight inner) (by omega) inner rfl
  by_cases hdepth : limit.any (· < depth) = true
  · right
    exact ⟨.tooDeep, rfl, by rw [parseRun.eq_def, if_pos hdepth]⟩
  · rw [parseRun.eq_def, if_neg hdepth, parseRun.eq_def, if_neg (by simp)]
    cases run with
    | nil => exact .refl _
    | cons t rest =>
        cases rest with
        | nil =>
            apply cutsOff_parseOperand
            intro inner hlighter
            exact hinner inner (by simpa only [Token.runWeight, Nat.add_zero] using hlighter)
        | cons next more => exact cutsOff_parseInfix hinner .empty

-- The limit replaces the trees that are too high by one fault and changes no other result.
theorem parse_limits_height (tokens : List Token) :
    (∀ tree, parseWithin none tokens = .ok tree →
      (tree.height ≤ maxNesting → parse tokens = .ok tree) ∧
        (maxNesting < tree.height → parse tokens = .error .tooDeep)) ∧
      ∀ tree, parse tokens = .ok tree →
        tree.height ≤ maxNesting ∧ parseWithin none tokens = .ok tree := by
  constructor
  · intro tree htree
    have hreads : Reads tokens tree := parseWithin_none_eq_ok_iff.mp htree
    constructor
    · intro hheight
      exact parse_eq_ok_iff.mpr ⟨hreads, hheight⟩
    · intro hheight
      have hcut := (isCutOff (some maxNesting) tokens 0 0).map Parsed.tree
      rcases hcut with hsame | ⟨_, rfl, htooDeep⟩
      · have hparse : parse tokens = .ok tree := hsame.trans htree
        have hle := (parse_eq_ok_iff.mp hparse).2
        omega
      · exact htooDeep
  · intro tree htree
    obtain ⟨hreads, hheight⟩ := parse_eq_ok_iff.mp htree
    exact ⟨hheight, parseWithin_none_eq_ok_iff.mpr hreads⟩

-- A template of so many texts is one level for each of them.
theorem templateTree_height_texts (count : Nat) (value : String) :
    (templateTree (List.replicate (count + 1) (.text .string "" value))).height = count + 1 := by
  have htext : (Token.text .string "" value).kind = .string := rfl
  rw [List.replicate_succ, templateTree, if_pos htext, addParts_height, List.length_replicate,
    height, Nat.add_comm]

theorem parse_limits_height_template :
    let template (count : Nat) : Token :=
      .group .template "" (List.replicate count (.text .string "" "a"))
    parse [template 256] = .ok (templateTree (template 256).children) ∧
      parse [template 257] = .error .tooDeep := by
  intro template
  have hreads (count : Nat) :
      parseWithin none [template count] = .ok (templateTree (template count).children) :=
    parseWithin_none_eq_ok_iff.mpr (.leaf rfl)
  have hheight (count : Nat) : (templateTree (template (count + 1)).children).height = count + 1 :=
    templateTree_height_texts count "a"
  constructor
  · exact ((parse_limits_height _).1 _ (hreads 256)).1 (hheight 255).le
  · exact ((parse_limits_height _).1 _ (hreads 257)).2 (hheight 256).ge

end FlowExpr.Tree
