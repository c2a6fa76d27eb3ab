import FlowExpr.Proofs.Grammar.Balance
import FlowExpr.Proofs.Printing.Segments

namespace FlowExpr.Element

open FlowExpr.Tree (IsBalanced IsPlain openAfter)

variable {t : Token} {run tokens segment : List Token} {group : Group} {e : Element}
  {elements : List Element}

-- Segments with a comma between any two of them.
inductive IsJoined : List (List Token) → List Token → Prop where
  | last (segment : List Token) : IsJoined [segment] segment
  | cons {comma : Token} {segment rest : List Token} {segments : List (List Token)}
      (hcomma : comma.isPunctuation "," = true) (hrest : IsJoined segments rest) :
      IsJoined (segment :: segments) (segment ++ comma :: rest)

-- An element as it stands in its group: a value behind three dots, a value behind its key and a
-- colon, or a value on its own. Only objects have keys, and all their other values are spread.
inductive IsWritten (group : Group) : Element → List Token → Prop where
  | spread {dots : Token} {run : List Token} (hdots : dots.isPunctuation "..." = true) :
      IsWritten group (.spread run) (dots :: run)
  | keyed {name colon : Token} {key : String} {run : List Token} (hgroup : group = .object)
      (hname : keyOf name = .ok key) (hcolon : colon.isPunctuation ":" = true) :
      IsWritten group (.keyed key run) (name :: colon :: run)
  | single {run : List Token} (hgroup : group ≠ .object) : IsWritten group (.single run) run

-- Elements as a group holds them, with a comma behind each but the last, which may have one too.
inductive IsGrouped (group : Group) : List Element → List Token → Prop where
  | nil : IsGrouped group [] []
  | last {e : Element} {segment : List Token} (he : IsWritten group e segment) :
      IsGrouped group [e] segment
  | cons {e : Element} {elements : List Element} {comma : Token} {segment rest : List Token}
      (he : IsWritten group e segment) (hcomma : comma.isPunctuation "," = true)
      (hrest : IsGrouped group elements rest) :
      IsGrouped group (e :: elements) (segment ++ comma :: rest)

-- A comma of the run stands outside all parentheses, where so many are open before it.
def HasOuterComma (depth : Nat) (run : List Token) : Prop :=
  ∃ before comma after, run = before ++ comma :: after ∧ comma.isPunctuation "," = true ∧
    openAfter depth before = some 0

theorem IsJoined.ne_nil {segments : List (List Token)} (h : IsJoined segments tokens) :
    segments ≠ [] := by
  cases h <;> simp

theorem IsJoined.consHead {segments : List (List Token)} (h : IsJoined segments tokens)
    (t : Token) : IsJoined (consHead t segments) (t :: tokens) := by
  cases h with
  | last => exact .last _
  | cons hcomma hrest => exact .cons hcomma hrest

-- A split at commas loses nothing but the commas, whatever parentheses stand around it.
theorem isJoined_splitCommas (depth : Int) (tokens : List Token) :
    IsJoined (splitCommas depth tokens) tokens := by
  fun_induction splitCommas depth tokens with
  | case1 => exact .last []
  | case2 | case3 | case5 =>
      rename_i ih
      exact ih.consHead _
  | case4 =>
      rename_i hcomma ih
      exact .cons hcomma.2 ih

theorem eq_of_splitColon {depth : Int} {key value : List Token}
    (h : splitColon depth tokens = some (key, value)) :
    ∃ colon, colon.isPunctuation ":" = true ∧ tokens = key ++ colon :: value := by
  fun_induction splitColon depth tokens generalizing key with
  | case1 => simp at h
  | case4 =>
      rename_i hcolon
      obtain ⟨rfl, rfl⟩ := Prod.mk.inj (Option.some.inj h)
      exact ⟨_, hcolon.2, rfl⟩
  | case2 | case3 | case5 =>
      rename_i ih
      simp only [Option.map_eq_some_iff, Prod.mk.injEq, Prod.exists] at h
      obtain ⟨_, _, hrest, rfl, rfl⟩ := h
      obtain ⟨colon, hcolon, rfl⟩ := ih hrest
      exact ⟨colon, hcolon, rfl⟩

theorem isWritten_of_ofSegment (h : ofSegment group segment = .ok e) :
    segment ≠ [] ∧ e.run ≠ [] ∧ IsWritten group e segment := by
  rcases ofSegment_cases h with ⟨dots, value, rfl, hdots, hne, rfl⟩ |
    ⟨hgroup, key, name, value, hname, hcolon, hne, rfl⟩ | ⟨hgroup, hne, rfl⟩
  · exact ⟨by simp, hne, .spread hdots⟩
  · obtain ⟨colon, hsymbol, rfl⟩ := eq_of_splitColon hcolon
    exact ⟨by simp, hne, .keyed hgroup hname hsymbol⟩
  · exact ⟨hne, hne, .single hgroup⟩

theorem exists_of_ofSegments_cons {rest : List (List Token)}
    (h : ofSegments group (segment :: rest) = .ok elements) :
    ∃ e more, ofSegment group segment = .ok e ∧ ofSegments group rest = .ok more ∧
      elements = e :: more := by
  unfold ofSegments at h
  split at h
  · simp at h
  · rename_i e he
    obtain ⟨more, hmore, rfl⟩ := Outcome.map_eq_ok_iff.mp h
    exact ⟨e, more, he, hmore, rfl⟩

-- An empty last segment is what stands behind a comma at the end, or it is the whole of a group
-- without tokens.
theorem IsJoined.isGrouped {segments : List (List Token)} (h : IsJoined segments tokens)
    (hof : ofSegments group
      (if segments.getLast?.any List.isEmpty then segments.dropLast else segments) =
        .ok elements) : IsGrouped group elements tokens := by
  induction h generalizing elements with
  | last segment =>
      by_cases hempty : segment = []
      · subst hempty
        obtain rfl := Except.ok.inj hof
        exact .nil
      · rw [List.getLast?_singleton, Option.any_some,
          if_neg (by simpa using hempty)] at hof
        obtain ⟨e, more, he, hmore, rfl⟩ := exists_of_ofSegments_cons hof
        obtain rfl := Except.ok.inj hmore
        exact .last (isWritten_of_ofSegment he).2.2
  | @cons comma segment rest segments hcomma hrest ih =>
      have hne := hrest.ne_nil
      have hlast : (segment :: segments).getLast? = segments.getLast? := by
        rw [List.getLast?_cons, List.getLast?_eq_some_getLast hne, Option.getD_some]
      have hshorter : (if (segment :: segments).getLast?.any List.isEmpty then
          (segment :: segments).dropLast else segment :: segments) =
            segment :: if segments.getLast?.any List.isEmpty then segments.dropLast
              else segments := by
        rw [hlast, List.dropLast_cons_of_ne_nil hne]
        split <;> rfl
      rw [hshorter] at hof
      obtain ⟨e, more, he, hmore, rfl⟩ := exists_of_ofSegments_cons hof
      exact .cons (isWritten_of_ofSegment he).2.2 hcomma (ih hmore)

section Commas

variable {depth : Nat}

theorem hasOuterComma_cons (h : HasOuterComma depth (t :: run)) :
    (depth = 0 ∧ t.isPunctuation "," = true) ∨ ∃ before comma after,
      run = before ++ comma :: after ∧ comma.isPunctuation "," = true ∧
        openAfter depth (t :: before) = some 0 := by
  obtain ⟨before, comma, after, heq, hcomma, hopen⟩ := h
  cases before with
  | nil =>
      obtain ⟨rfl, rfl⟩ := List.cons.inj heq
      exact .inl ⟨Option.some.inj hopen, hcomma⟩
  | cons first before =>
      obtain ⟨rfl, rfl⟩ := List.cons.inj heq
      exact .inr ⟨before, comma, after, rfl, hcomma, hopen⟩

theorem HasOuterComma.opening (h : HasOuterComma depth (t :: run)) (ht : Tree.IsOpening t) :
    HasOuterComma (depth + 1) run := by
  rcases hasOuterComma_cons h with ⟨-, hcomma⟩ | ⟨before, comma, after, heq, hcomma, hopen⟩
  · simp [Token.isPunctuation, ht.raw] at hcomma
  · rw [Tree.openAfter_opening ht] at hopen
    exact ⟨before, comma, after, heq, hcomma, hopen⟩

theorem HasOuterComma.closing (h : HasOuterComma (depth + 1) (t :: run)) (ht : Tree.IsClosing t) :
    HasOuterComma depth run := by
  rcases hasOuterComma_cons h with ⟨-, hcomma⟩ | ⟨before, comma, after, heq, hcomma, hopen⟩
  · simp [Token.isPunctuation, ht.raw] at hcomma
  · rw [Tree.openAfter_closing ht] at hopen
    exact ⟨before, comma, after, heq, hcomma, hopen⟩

theorem HasOuterComma.plain (h : HasOuterComma depth (t :: run)) (ht : IsPlain t)
    (hnone : ¬(depth = 0 ∧ t.isPunctuation "," = true)) : HasOuterComma depth run := by
  rcases hasOuterComma_cons h with hcomma | ⟨before, comma, after, heq, hcomma, hopen⟩
  · exact absurd hcomma hnone
  · rw [Tree.openAfter_plain ht] at hopen
    exact ⟨before, comma, after, heq, hcomma, hopen⟩

-- A token in front that is no parenthesis changes nothing about the commas behind it.
theorem HasOuterComma.cons (h : HasOuterComma depth run) (ht : IsPlain t) :
    HasOuterComma depth (t :: run) := by
  obtain ⟨before, comma, after, rfl, hcomma, hopen⟩ := h
  refine ⟨t :: before, comma, after, rfl, hcomma, ?_⟩
  rwa [Tree.openAfter_plain ht]

theorem exists_of_consHead {segments : List (List Token)} (hne : segments ≠ [])
    {first : List Token} {rest : List (List Token)} (h : consHead t segments = first :: rest) :
    ∃ shorter, first = t :: shorter ∧ segments = shorter :: rest := by
  cases segments with
  | nil => exact absurd rfl hne
  | cons shorter more =>
      obtain ⟨rfl, rfl⟩ := List.cons.inj h
      exact ⟨shorter, rfl, rfl⟩

-- A run is divided at each of its commas outside parentheses, so no segment has one left.
theorem not_hasOuterComma_of_splitCommas {first : List Token} {rest : List (List Token)}
    (h : openAfter depth tokens = some 0) (hsplit : splitCommas depth tokens = first :: rest) :
    ¬HasOuterComma depth first ∧ ∀ run ∈ rest, ¬HasOuterComma 0 run := by
  have hnil (depth : Nat) : ¬HasOuterComma depth [] := by
    rintro ⟨before, comma, after, heq, -⟩
    simp at heq
  have hne (depth : Int) (tokens : List Token) : splitCommas depth tokens ≠ [] :=
    (isJoined_splitCommas depth tokens).ne_nil
  induction tokens generalizing depth first rest with
  | nil =>
      obtain ⟨rfl, rfl⟩ := List.cons.inj hsplit
      exact ⟨hnil depth, by simp⟩
  | cons t tail ih =>
      rcases Tree.parenthesis_cases t with ho | hc | hp
      · rw [Tree.openAfter_opening ho] at h
        rw [splitCommas_opening ho] at hsplit
        obtain ⟨shorter, rfl, htail⟩ := exists_of_consHead (hne _ _) hsplit
        obtain ⟨hfirst, hrest⟩ := ih h htail
        exact ⟨fun hcomma => hfirst (hcomma.opening ho), hrest⟩
      · cases depth with
        | zero => simp [Tree.openAfter_zero_closing hc] at h
        | succ depth =>
            have hdepth : ((depth + 1 : Nat) : Int) - 1 = depth := by omega
            rw [Tree.openAfter_closing hc] at h
            rw [splitCommas_closing hc, hdepth] at hsplit
            obtain ⟨shorter, rfl, htail⟩ := exists_of_consHead (hne _ _) hsplit
            obtain ⟨hfirst, hrest⟩ := ih h htail
            exact ⟨fun hcomma => hfirst (hcomma.closing hc), hrest⟩
      · rw [Tree.openAfter_plain hp] at h
        by_cases hcomma : depth = 0 ∧ t.isPunctuation "," = true
        · obtain ⟨rfl, hsymbol⟩ := hcomma
          have hdivides : splitCommas (0 : Nat) (t :: tail) = [] :: splitCommas (0 : Nat) tail := by
            simp [splitCommas, hp.1, hp.2, hsymbol]
          rw [hdivides] at hsplit
          obtain ⟨rfl, rfl⟩ := List.cons.inj hsplit
          obtain ⟨next, more, htail⟩ := List.exists_cons_of_ne_nil (hne (0 : Nat) tail)
          obtain ⟨hnext, hmore⟩ := ih h htail
          refine ⟨hnil 0, fun run hrun => ?_⟩
          rw [htail] at hrun
          rcases List.mem_cons.mp hrun with rfl | hrun
          · exact hnext
          · exact hmore run hrun
        · have hsame : (depth : Int) ≠ 0 ∨ t.isPunctuation "," = false := by
            by_cases hzero : depth = 0
            · exact .inr (by simpa [hzero] using hcomma)
            · exact .inl (by omega)
          rw [splitCommas_plain hp hsame] at hsplit
          obtain ⟨shorter, rfl, htail⟩ := exists_of_consHead (hne _ _) hsplit
          obtain ⟨hfirst, hrest⟩ := ih h htail
          exact ⟨fun houter => hfirst (houter.plain hp hcomma), hrest⟩

theorem not_hasOuterComma_of_mem_segments (h : IsBalanced tokens) (hrun : run ∈ segments tokens) :
    ¬HasOuterComma 0 run := by
  obtain ⟨first, rest, hsplit, -⟩ := exists_of_splitCommas h
  obtain ⟨hfirst, hrest⟩ := not_hasOuterComma_of_splitCommas h hsplit
  have hmem := mem_splitCommas_of_segments hrun
  rw [show (0 : Int) = ((0 : Nat) : Int) from rfl, hsplit] at hmem
  rcases List.mem_cons.mp hmem with rfl | hmem
  · exact hfirst
  · exact hrest run hmem

-- What stands in front of a value is no parenthesis, so its commas are those of the segment.
theorem HasOuterComma.of_isWritten (h : HasOuterComma 0 e.run)
    (he : IsWritten group e segment) : HasOuterComma 0 segment := by
  have hsymbol {t : Token} {symbol : String} (ht : t.isPunctuation symbol = true)
      (hopening : symbol ≠ "(") (hclosing : symbol ≠ ")") : IsPlain t := by
    rw [Tree.isPunctuation_iff] at ht
    simp [IsPlain, Token.isPunctuation, ht.2, hopening, hclosing]
  cases he with
  | spread hdots => exact HasOuterComma.cons h (hsymbol hdots (by decide) (by decide))
  | keyed hgroup hname hcolon =>
      have hvalue := HasOuterComma.cons h (hsymbol hcolon (by decide) (by decide))
      exact hvalue.cons (Tree.isPlain_of_kind (kind_of_keyOf hname))
  | single hgroup => exact h

end Commas

-- A group is its elements, with the marks in front of their values and commas between them. If its
-- parentheses have their partners, so have those of each value, and no comma of a value stands
-- outside them.
theorem isGrouped_of_split (h : split group tokens = .ok elements) :
    IsGrouped group elements tokens ∧
      (IsBalanced tokens → ∀ e ∈ elements,
        e.run ≠ [] ∧ IsBalanced e.run ∧ ¬HasOuterComma 0 e.run) := by
  refine ⟨(isJoined_splitCommas 0 tokens).isGrouped h, fun hbalanced e he => ?_⟩
  obtain ⟨segment, hsegment, hof⟩ := exists_of_ofSegments h he
  obtain ⟨hne, hrun⟩ := isBalanced_of_split hbalanced h he
  refine ⟨hne, hrun, fun hcomma => ?_⟩
  exact not_hasOuterComma_of_mem_segments hbalanced hsegment
    (hcomma.of_isWritten (isWritten_of_ofSegment hof).2.2)

-- A spread value, and a call under a key, whose comma divides nothing.
theorem isGrouped_of_split_object :
    let dots := Token.plain .punctuation "..."
    let comma := Token.plain .punctuation ","
    let call := [Token.plain .identifier "f", Token.plain .punctuation "(",
      Token.plain .number "1", comma, Token.plain .number "2", Token.plain .punctuation ")"]
    let tokens := [dots, Token.plain .reference "a", comma, Token.plain .identifier "k",
      Token.plain .punctuation ":"] ++ call ++ [comma]
    let elements := [Element.spread [Token.plain .reference "a"], .keyed "k" call]
    split .object tokens = .ok elements ∧ IsBalanced tokens ∧
      IsGrouped .object elements tokens ∧
        ∀ e ∈ elements, e.run ≠ [] ∧ IsBalanced e.run ∧ ¬HasOuterComma 0 e.run := by
  intro dots comma call tokens elements
  have hsplit : split .object tokens = .ok elements := rfl
  have hbalanced : IsBalanced tokens := rfl
  obtain ⟨hgrouped, hvalues⟩ := isGrouped_of_split hsplit
  exact ⟨hsplit, hbalanced, hgrouped, hvalues hbalanced⟩

end FlowExpr.Element
