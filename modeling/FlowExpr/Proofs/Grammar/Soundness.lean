import FlowExpr.Proofs.Grammar.Pending

namespace FlowExpr.Tree

variable {limit : Option Nat} {depth : Nat} {consumed : List Token} {y next : Yard} {t : Token}
  {p : Parsed}

-- What the state of the loop stands for behind the consumed tokens.
def Represents (limit : Option Nat) (consumed : List Token) (y : Yard) : Prop :=
  if y.expectsOperator then
    ∃ last, EndsWith limit consumed y.held y.output last ∧ outerOperators 0 last = []
  else Pending consumed y.held y.output

theorem represents_empty : Represents limit [] .empty :=
  Pending.empty

theorem Represents.pending (h : Represents limit consumed y) (hexpects : y.expectsOperator = false) :
    Pending consumed y.held y.output := by
  rwa [Represents, hexpects, if_neg Bool.false_ne_true] at h

theorem Represents.exists_endsWith (h : Represents limit consumed y)
    (hexpects : y.expectsOperator = true) :
    ∃ last, EndsWith limit consumed y.held y.output last ∧ outerOperators 0 last = [] := by
  rwa [Represents, if_pos hexpects] at h

theorem Represents.pushOperand {last : List Token} {tree : Tree}
    (h : Represents limit consumed y) (hexpects : y.expectsOperator = false)
    (hlast : Reads last tree) (houter : outerOperators 0 last = [])
    (hfits : Fits limit tree.height) :
    Represents limit (consumed ++ last) (y.pushOperand (.ofTree tree)) := by
  refine ⟨last, ⟨consumed, tree, y.output, rfl, rfl, h.pending hexpects, hlast, hfits, ?_⟩, houter⟩
  intro waiting _ p hp
  rw [houter] at hp
  simp at hp

theorem Represents.pushOperator (h : Represents limit consumed y) (hkind : t.kind = .operator)
    (hpush : y.pushOperator limit t = .ok next) : Represents limit (consumed ++ [t]) next := by
  unfold Yard.pushOperator at hpush
  split at hpush
  · simp at hpush
  rename_i hexpects
  split at hpush
  · simp at hpush
  rename_i op hsymbol
  have ht : operator? t = some op := by rw [operator?, if_pos hkind, hsymbol]
  obtain ⟨⟨held, output⟩, hreduce, rfl⟩ := Outcome.map_eq_ok_iff.mp hpush
  obtain ⟨last, hlast, houter⟩ := h.exists_endsWith (by simpa using hexpects)
  obtain ⟨longer, ⟨before, l, rest, rfl, rfl, hpending, hreads, _, _⟩, hleast, hwaiting⟩ :=
    hlast.reduceTo (by simp [houter]) hreduce
  exact Pending.operator hpending hreads ht hleast hwaiting

theorem Represents.pushPunctuation (h : Represents limit consumed y) (hkind : t.kind = .punctuation)
    (hpush : y.pushPunctuation limit t = .ok next) : Represents limit (consumed ++ [t]) next := by
  unfold Yard.pushPunctuation at hpush
  split at hpush
  · rename_i hraw
    unfold Yard.openParenthesis at hpush
    split at hpush
    · simp at hpush
    · rename_i hexpects
      simp only [Except.ok.injEq] at hpush
      subst hpush
      have hpending := h.pending (by simpa using hexpects)
      exact Pending.parenthesis hpending (isPunctuation_iff.mpr ⟨hkind, hraw⟩)
  split at hpush
  · rename_i hraw
    unfold Yard.closeParenthesis at hpush
    split at hpush
    · simp at hpush
    · rename_i hexpects
      obtain ⟨⟨held, output⟩, hreduce, rfl⟩ := Outcome.map_eq_ok_iff.mp hpush
      obtain ⟨last, hlast, _⟩ := h.exists_endsWith (by simpa using hexpects)
      exact hlast.reduceToParenthesis (isPunctuation_iff.mpr ⟨hkind, hraw⟩) hreduce
  · simp at hpush

theorem Represents.finish (h : Represents limit consumed y) (hfinish : y.finish limit = .ok p) :
    ∃ tree, p = .ofTree tree ∧ Reads consumed tree ∧ Fits limit tree.height := by
  unfold Yard.finish at hfinish
  split at hfinish
  · rename_i operand hall
    simp only [Except.ok.injEq] at hfinish
    subst hfinish
    by_cases hexpects : y.expectsOperator = true
    · obtain ⟨last, hlast, _⟩ := h.exists_endsWith hexpects
      obtain ⟨tree, htree, hreads, hfits⟩ := hlast.reduceAll hall
      exact ⟨tree, List.singleton_inj.mp htree, hreads, hfits⟩
    · have hpending := h.pending (Bool.eq_false_iff.mpr hexpects)
      have hle := hpending.length_output_le
      have hlength := length_of_reduceAll hall
      simp only [List.length_singleton] at hlength
      omega
  · simp at hfinish
  · simp at hfinish

-- Wherever the run is accepted, it stands for the tree that comes out.
def IsSound (limit : Option Nat) (run : List Token) : Prop :=
  ∀ depth p, parseRun limit depth run = .ok p →
    ∃ tree, p = .ofTree tree ∧ Reads run tree ∧ Fits limit tree.height

theorem exists_of_parseRuns {elements : List Element} {values : List Parsed}
    (hsound : ∀ e ∈ elements, IsSound limit e.run)
    (h : parseRuns limit depth (elements.map Element.run) = .ok values) :
    ∃ trees : List Tree, values = trees.map Parsed.ofTree ∧ elements.length = trees.length ∧
      ∀ e v, (e, v) ∈ elements.zip trees → Reads e.run v := by
  induction elements generalizing values with
  | nil =>
      rw [List.map_nil, parseRuns, Except.ok.injEq] at h
      exact ⟨[], h.symm, rfl, by simp⟩
  | cons e rest ih =>
      rw [List.map_cons, parseRuns] at h
      split at h
      · simp at h
      rename_i value hvalue
      split at h
      · simp at h
      rename_i more hmore
      simp only [Except.ok.injEq] at h
      obtain ⟨tree, rfl, htree, _⟩ := hsound e (by simp) _ _ hvalue
      obtain ⟨trees, rfl, hlength, hreads⟩ :=
        ih (fun e' he' => hsound e' (List.mem_cons_of_mem _ he')) hmore
      refine ⟨tree :: trees, h.symm, by simp [hlength], fun e' v' hmem => ?_⟩
      rw [List.zip_cons_cons] at hmem
      rcases List.mem_cons.mp hmem with heq | hmem
      · obtain ⟨rfl, rfl⟩ := Prod.mk.inj heq
        exact htree
      · exact hreads e' v' hmem

theorem runWeight_le_runsWeight {elements : List Element} {e : Element} (he : e ∈ elements) :
    Token.runWeight e.run ≤ Element.runsWeight (elements.map Element.run) := by
  induction elements with
  | nil => simp at he
  | cons first rest ih =>
      rw [List.map_cons, Element.runsWeight]
      rcases List.mem_cons.mp he with rfl | he
      · omega
      · have := ih he
        omega

theorem runWeight_lt_of_split {group : Group} {tokens : List Token} {elements : List Element}
    {e : Element} {n : Nat} (hsplit : Element.split group tokens = .ok elements)
    (he : e ∈ elements) (hlt : Token.runWeight tokens < n) : Token.runWeight e.run < n := by
  have hrun := runWeight_le_runsWeight he
  have hgroup := Element.split_weight_le hsplit
  omega

theorem exists_of_parseOperand (hone : Fits limit 1)
    (hsound : ∀ run, Token.runWeight run < t.weight → IsSound limit run)
    (h : parseOperand limit depth t = .ok p) :
    ∃ tree, p = .ofTree tree ∧ Reads [t] tree ∧ Fits limit tree.height := by
  have hinner {group : Group} {elements : List Element}
      (hsplit : Element.split group t.children = .ok elements) :
      ∀ e ∈ elements, IsSound limit e.run := fun e he =>
    hsound e.run (runWeight_lt_of_split hsplit he (Token.runWeight_children_lt t))
  cases hleaf : leafTree? t with
  | some tree =>
      obtain ⟨hfits, rfl⟩ := (parseOperand_leaf hone hleaf).mp h
      exact ⟨tree, rfl, .leaf hleaf, hfits⟩
  | none =>
      by_cases hobject : t.kind = .object
      · rw [parseOperand_object hobject] at h
        obtain ⟨elements, hsplit, h⟩ := Outcome.bind_eq_ok_iff.mp h
        obtain ⟨values, hruns, h⟩ := Outcome.bind_eq_ok_iff.mp h
        obtain ⟨trees, rfl, hlength, hreads⟩ := exists_of_parseRuns (hinner hsplit) hruns
        obtain ⟨hfits, rfl⟩ := (objectOf_eq_ok_iff hlength).mp h
        refine ⟨_, rfl, .object hobject hsplit hlength hreads, ?_⟩
        rwa [height, entriesHeight_zipWith hlength]
      by_cases harray : t.kind = .array
      · rw [parseOperand_array harray] at h
        obtain ⟨elements, hsplit, h⟩ := Outcome.bind_eq_ok_iff.mp h
        obtain ⟨values, hruns, h⟩ := Outcome.bind_eq_ok_iff.mp h
        obtain ⟨trees, rfl, hlength, hreads⟩ := exists_of_parseRuns (hinner hsplit) hruns
        obtain ⟨hfits, rfl⟩ := (arrayOf_eq_ok_iff hlength).mp h
        refine ⟨_, rfl, .array harray hsplit hlength hreads, ?_⟩
        rwa [height, itemsHeight_zipWith hlength]
      · rw [parseOperand] at h
        unfold leafTree? at hleaf
        cases hkind : t.kind <;> simp_all [Except.map]
        cases hvalue : numberValue t.raw <;> simp_all [Except.toOption]

-- A call behind the consumed tokens is consumed as one operand.
theorem Represents.exists_of_parseInfix_call {rest : List Token} (h : Represents limit consumed y)
    (hexpects : y.expectsOperator = false) (hkind : t.kind = .identifier)
    (hcall : rest.head?.any (·.isPunctuation "(") = true)
    (hsound : ∀ run, Token.runWeight run < Token.runWeight rest → IsSound limit run)
    (hloop : parseInfix limit depth y (t :: rest) = .ok p) :
    ∃ call after next, t :: rest = call ++ after ∧ after.length < rest.length ∧
      Token.runWeight after ≤ Token.runWeight rest ∧ Represents limit (consumed ++ call) next ∧
      parseInfix limit depth next after = .ok p := by
  cases rest with
  | nil => simp at hcall
  | cons opening more =>
      have ho : IsOpening opening := by simpa [IsOpening] using hcall
      cases hs : splitCall 0 more with
      | none => simp [parseInfix_openCall hkind hexpects hcall hs] at hloop
      | some pair =>
          obtain ⟨inner, after⟩ := pair
          have hweight := splitCall_weight hs
          obtain ⟨closing, hc, rfl, hinner⟩ := exists_of_splitCall hs
          rw [parseInfix_call hkind ho hinner hc hexpects] at hloop
          obtain ⟨elements, hsplit, hloop⟩ := Outcome.bind_eq_ok_iff.mp hloop
          obtain ⟨values, hruns, hloop⟩ := Outcome.bind_eq_ok_iff.mp hloop
          obtain ⟨node, hnode, hloop⟩ := Outcome.bind_eq_ok_iff.mp hloop
          have hspread : ∀ e ∈ elements, e.isSpread = false := by
            simp only [callOf] at hnode
            split at hnode
            · simp at hnode
            · rename_i hany
              simpa using hany
          rw [plainRuns_eq hspread] at hruns
          have hlighter : Token.runWeight inner <
              Token.runWeight (opening :: (inner ++ closing :: after)) := by
            simp only [Token.runWeight]
            omega
          have hsoundArgs : ∀ e ∈ elements, IsSound limit e.run := fun e he =>
            hsound e.run (runWeight_lt_of_split hsplit he hlighter)
          obtain ⟨trees, rfl, hlength, hreads⟩ := exists_of_parseRuns hsoundArgs hruns
          obtain ⟨_, hfits, rfl⟩ := callOf_eq_ok_iff.mp hnode
          have hcallReads : Reads (t :: (opening :: inner ++ [closing])) (.call t.raw trees) :=
            .call hkind ho hinner hc hsplit hspread hlength hreads
          have hnext := h.pushOperand hexpects hcallReads
            (outerOperators_call hkind ho hinner hc) hfits
          refine ⟨t :: (opening :: inner ++ [closing]), after, _, by simp, ?_, ?_, hnext, hloop⟩
          · simp only [List.length_cons, List.length_append]
            omega
          · simp only [Token.runWeight]
            omega

-- The loop keeps standing for what it has consumed, so at the end it stands for the whole run.
theorem exists_of_parseInfix (hone : Fits limit 1) {tokens : List Token}
    (hsound : ∀ run, Token.runWeight run < Token.runWeight tokens → IsSound limit run)
    (h : Represents limit consumed y) (hloop : parseInfix limit depth y tokens = .ok p) :
    ∃ tree, p = .ofTree tree ∧ Reads (consumed ++ tokens) tree ∧ Fits limit tree.height := by
  induction hn : tokens.length using Nat.strongRecOn generalizing tokens consumed y with
  | ind n ih =>
  cases tokens with
  | nil =>
      rw [parseInfix_nil] at hloop
      rw [List.append_nil]
      exact h.finish hloop
  | cons t rest =>
      have hlength : rest.length < n := by
        rw [List.length_cons] at hn
        omega
      have hweight : Token.runWeight (t :: rest) = t.weight + Token.runWeight rest := by
        rw [Token.runWeight]
      have hsoundRest : ∀ run, Token.runWeight run < Token.runWeight rest → IsSound limit run := by
        intro run hrun
        exact hsound run (by omega)
      have hsoundInside : ∀ run, Token.runWeight run < t.weight → IsSound limit run := by
        intro run hrun
        exact hsound run (by omega)
      have hstep {next : Yard} (hnext : Represents limit (consumed ++ [t]) next)
          (hrest : parseInfix limit depth next rest = .ok p) :
          ∃ tree, p = .ofTree tree ∧ Reads (consumed ++ t :: rest) tree ∧
            Fits limit tree.height := by
        have htree := ih rest.length hlength hsoundRest hnext hrest rfl
        rwa [List.append_assoc, List.singleton_append] at htree
      by_cases hoperator : t.kind = .operator
      · rw [parseInfix_operator hoperator] at hloop
        obtain ⟨next, hpush, hrest⟩ := Outcome.bind_eq_ok_iff.mp hloop
        exact hstep (h.pushOperator hoperator hpush) hrest
      by_cases hpunctuation : t.kind = .punctuation
      · rw [parseInfix_punctuation hpunctuation] at hloop
        obtain ⟨next, hpush, hrest⟩ := Outcome.bind_eq_ok_iff.mp hloop
        exact hstep (h.pushPunctuation hpunctuation hpush) hrest
      by_cases hexpects : y.expectsOperator = true
      · simp [parseInfix_expecting hoperator hpunctuation hexpects] at hloop
      rw [Bool.not_eq_true] at hexpects
      by_cases hcall : t.kind = .identifier ∧ rest.head?.any (·.isPunctuation "(") = true
      · obtain ⟨call, after, next, heq, hshorter, hlighter, hnext, hrest⟩ :=
          h.exists_of_parseInfix_call hexpects hcall.1 hcall.2 hsoundRest hloop
        have hsoundAfter : ∀ run, Token.runWeight run < Token.runWeight after →
            IsSound limit run := by
          intro run hrun
          exact hsoundRest run (by omega)
        have htree := ih after.length (by omega) hsoundAfter hnext hrest rfl
        rwa [List.append_assoc, ← heq] at htree
      · rw [parseInfix_operand hoperator hpunctuation hexpects hcall] at hloop
        obtain ⟨operand, hoperand, hrest⟩ := Outcome.bind_eq_ok_iff.mp hloop
        obtain ⟨tree, rfl, htree, hfits⟩ := exists_of_parseOperand hone hsoundInside hoperand
        have hnext := h.pushOperand hexpects htree (outerOperators_single hoperator) hfits
        exact hstep hnext hrest

-- Every accepted run stands for the tree that comes out, and has its height.
theorem isSound (hone : Fits limit 1) (run : List Token) : IsSound limit run := by
  induction hn : Token.runWeight run using Nat.strongRecOn generalizing run with
  | ind n ih =>
  intro depth p h
  obtain ⟨_, hloop⟩ := parseRun_eq_ok_iff.mp h
  have hsound : ∀ inner, Token.runWeight inner < Token.runWeight run → IsSound limit inner := by
    intro inner hinner
    exact ih (Token.runWeight inner) (by omega) inner rfl
  exact exists_of_parseInfix hone hsound represents_empty hloop

end FlowExpr.Tree
