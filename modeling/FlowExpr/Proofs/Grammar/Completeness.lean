import FlowExpr.Proofs.Grammar.Lemmas
import FlowExpr.Proofs.Grammar.Steps

namespace FlowExpr.Tree

variable {limit : Option Nat} {depth : Nat}

-- A tree of a height may stand in so many containers.
def HasRoom (limit : Option Nat) (depth height : Nat) : Prop :=
  ∀ most ∈ limit, height ≤ most ∧ depth + height ≤ most + 1

theorem HasRoom.mono {height lower : Nat} (h : HasRoom limit depth height) (hle : lower ≤ height) :
    HasRoom limit depth lower := by
  intro most hmost
  have := h most hmost
  omega

theorem HasRoom.inner {height lower : Nat} (h : HasRoom limit depth height)
    (hlt : lower + 1 ≤ height) : HasRoom limit (depth + 1) lower := by
  intro most hmost
  have := h most hmost
  omega

theorem HasRoom.outermost {height : Nat} (h : HasRoom limit depth height) :
    HasRoom limit 0 height := by
  intro most hmost
  have := h most hmost
  omega

theorem HasRoom.fits {height : Nat} (h : HasRoom limit depth height) : Fits limit height :=
  fun most hmost => (h most hmost).1

theorem HasRoom.depth_fits {height : Nat} (h : HasRoom limit depth height) (hpos : 0 < height) :
    Fits limit depth := by
  intro most hmost
  have := h most hmost
  omega

-- Behind a run the yard may still hold operators of the run. Joining operands as far as any
-- operator, parenthesis or end that may follow asks for gives what it would if the run had been one
-- operand.
structure Settles (limit : Option Nat) (before after : Yard) (run : List Token) (p : Parsed) :
    Prop where
  expectsOperator : after.expectsOperator = true
  reduceTo : ∀ precedence, (∀ o ∈ outerOperators 0 run, precedence ≤ o.precedence) →
    Yard.reduceTo limit precedence after.held after.output =
      Yard.reduceTo limit precedence before.held (p :: before.output)
  reduceToParenthesis : Yard.reduceToParenthesis limit after.held after.output =
    Yard.reduceToParenthesis limit before.held (p :: before.output)
  reduceAll : Yard.reduceAll limit after.held after.output =
    Yard.reduceAll limit before.held (p :: before.output)

theorem Settles.pushOperand (before : Yard) (run : List Token) (p : Parsed) :
    Settles limit before (before.pushOperand p) run p :=
  ⟨rfl, fun _ _ => rfl, rfl, rfl⟩

-- A run that is read wherever an operand may stand.
def Consumes (run : List Token) (tree : Tree) : Prop :=
  ∀ (limit : Option Nat) (depth : Nat) (before : Yard) (rest : List Token),
    HasRoom limit depth tree.height → before.expectsOperator = false →
    BindsTighter before.held run → rest.head?.any (·.isPunctuation "(") = false →
    ∃ after, parseInfix limit depth before (run ++ rest) = parseInfix limit depth after rest ∧
      Settles limit before after run (.ofTree tree)

theorem Consumes.parseRun_eq {run : List Token} {tree : Tree} (h : Consumes run tree)
    (hroom : HasRoom limit depth tree.height) :
    parseRun limit depth run = .ok (.ofTree tree) := by
  rw [parseRun_eq_ok_iff]
  refine ⟨hroom.depth_fits tree.height_pos, ?_⟩
  obtain ⟨after, hloop, hsettles⟩ := h limit depth .empty [] hroom rfl
    (by simp [BindsTighter, Yard.empty]) rfl
  rw [List.append_nil] at hloop
  rw [hloop, parseInfix_nil, Yard.finish, hsettles.reduceAll]
  rfl

theorem parseRuns_eq {elements : List Element} {values : List Tree}
    (hlength : elements.length = values.length)
    (h : ∀ e v, (e, v) ∈ elements.zip values → parseRun limit depth e.run = .ok (.ofTree v)) :
    parseRuns limit depth (elements.map Element.run) = .ok (values.map Parsed.ofTree) := by
  induction elements generalizing values with
  | nil =>
      cases values with
      | nil => rw [List.map_nil, parseRuns]; rfl
      | cons v more => simp at hlength
  | cons e rest ih =>
      cases values with
      | nil => simp at hlength
      | cons v more =>
          have hfirst := h e v (by simp)
          have hrest := ih (by simpa using hlength) fun e' v' hmem =>
            h e' v' (by simp [hmem])
          rw [List.map_cons, parseRuns, hfirst]
          simp only [hrest, List.map_cons]

theorem parseRuns_of_consumes {elements : List Element} {values : List Tree}
    (hlength : elements.length = values.length)
    (hvalues : ∀ e v, (e, v) ∈ elements.zip values → Consumes e.run v)
    (hroom : ∀ v ∈ values, HasRoom limit depth v.height) :
    parseRuns limit depth (elements.map Element.run) = .ok (values.map Parsed.ofTree) :=
  parseRuns_eq hlength fun e v hmem =>
    (hvalues e v hmem).parseRun_eq (hroom v (List.of_mem_zip hmem).2)

theorem BindsTighter.reduceTo_eq {held : List Held} {run : List Token} {op : Operator}
    (h : BindsTighter held run) (hop : op ∈ outerOperators 0 run) (output : List Parsed) :
    Yard.reduceTo limit op.precedence held output = .ok (held, output) := by
  cases held with
  | nil => rfl
  | cons top held =>
      cases top with
      | parenthesis => rfl
      | operator waiting =>
          have hlt := h waiting rfl op hop
          rw [Yard.reduceTo, if_neg (by omega)]

-- An operand of one token settles at once, whatever waits for it.
theorem consumes_single {t : Token} {tree : Tree} (hoperator : t.kind ≠ .operator)
    (hpunctuation : t.kind ≠ .punctuation)
    (h : ∀ limit depth, HasRoom limit depth tree.height →
      parseOperand limit depth t = .ok (.ofTree tree)) : Consumes [t] tree := by
  intro limit depth before rest hroom hexpects _ hrest
  refine ⟨before.pushOperand (.ofTree tree), ?_, Settles.pushOperand before _ _⟩
  rw [List.singleton_append, parseInfix_operand hoperator hpunctuation hexpects (by simp [hrest]),
    h limit depth hroom]
  rfl

theorem consumes_call {name opening closing : Token} {inner : List Token}
    {elements : List Element} {values : List Tree} (hkind : name.kind = .identifier)
    (ho : IsOpening opening) (hinner : IsBalanced inner) (hc : IsClosing closing)
    (hsplit : Element.split .call inner = .ok elements)
    (hspread : ∀ e ∈ elements, e.isSpread = false) (hlength : elements.length = values.length)
    (hvalues : ∀ e v, (e, v) ∈ elements.zip values → Consumes e.run v) :
    Consumes (name :: (opening :: inner ++ [closing])) (.call name.raw values) := by
  intro limit depth before rest hroom hexpects _ _
  refine ⟨before.pushOperand (.ofTree (.call name.raw values)), ?_, Settles.pushOperand before _ _⟩
  have hruns : parseRuns limit 0 (elements.map Element.run) = .ok (values.map Parsed.ofTree) :=
    parseRuns_of_consumes hlength hvalues fun v hv =>
      hroom.outermost.mono (Nat.le_succ_of_le (height_le_argsHeight hv))
  have hcall : callOf limit name.raw elements (values.map Parsed.ofTree) =
      .ok (.ofTree (.call name.raw values)) :=
    callOf_eq_ok_iff.mpr ⟨hspread, hroom.fits, rfl⟩
  have hshape : name :: (opening :: inner ++ [closing]) ++ rest =
      name :: opening :: (inner ++ closing :: rest) := by simp
  rw [hshape, parseInfix_call hkind ho hinner hc hexpects, hsplit]
  simp only [Except.bind, plainRuns_eq hspread, hruns, hcall]

theorem consumes_enclosed {opening closing : Token} {run : List Token} {tree : Tree}
    (ho : IsOpening opening) (h : Consumes run tree) (hc : IsClosing closing) :
    Consumes (opening :: run ++ [closing]) tree := by
  intro limit depth before rest hroom hexpects _ _
  refine ⟨before.pushOperand (.ofTree tree), ?_, Settles.pushOperand before _ _⟩
  obtain ⟨after, hloop, hsettles⟩ := h limit depth
    ⟨before.output, .parenthesis :: before.held, false⟩ (closing :: rest) hroom rfl
    (by simp [BindsTighter]) (by simp [hc.not_opening])
  have hshape : opening :: run ++ [closing] ++ rest = opening :: (run ++ closing :: rest) := by simp
  have hopen : before.pushPunctuation limit opening =
      .ok ⟨before.output, .parenthesis :: before.held, false⟩ := by
    simp [Yard.pushPunctuation, Yard.openParenthesis, ho.raw, hexpects]
  have hclose : after.pushPunctuation limit closing = .ok (before.pushOperand (.ofTree tree)) := by
    simp [Yard.pushPunctuation, Yard.closeParenthesis, hc.raw, hsettles.expectsOperator,
      hsettles.reduceToParenthesis, Yard.reduceToParenthesis, Yard.pushOperand, Except.map]
  rw [hshape, parseInfix_punctuation ho.kind, hopen, Except.bind, hloop,
    parseInfix_punctuation hc.kind, hclose, Except.bind]

theorem Settles.operation {before middle after : Yard} {left right : List Token} {t : Token}
    {op : Operator} {l r : Tree} (ht : operator? t = some op) (hleft : IsBalanced left)
    (hfits : Fits limit (Tree.operation op l r).height)
    (hmiddle : middle = ⟨.ofTree l :: before.output, .operator op :: before.held, false⟩)
    (h : Settles limit middle after right (.ofTree r)) :
    Settles limit before after (left ++ t :: right) (.ofTree (.operation op l r)) := by
  have hreduce : Yard.reduce limit op (.ofTree r :: .ofTree l :: before.output) =
      .ok (.ofTree (.operation op l r) :: before.output) := by
    simp only [Yard.reduce, Parsed.ofTree, branch_eq_ok_iff.mpr ⟨hfits, rfl⟩, Except.map, height]
  subst hmiddle
  refine ⟨h.expectsOperator, ?_, ?_, ?_⟩
  · intro precedence hprecedence
    rw [outerOperators_operation ht hleft] at hprecedence
    have hop : precedence ≤ op.precedence := hprecedence op (by simp)
    rw [h.reduceTo precedence fun o ho => hprecedence o (by simp [ho]), Yard.reduceTo, if_pos hop,
      hreduce]
  · rw [h.reduceToParenthesis, Yard.reduceToParenthesis, hreduce]
  · rw [h.reduceAll, Yard.reduceAll, hreduce]

theorem consumes_operation {left right : List Token} {t : Token} {op : Operator} {l r : Tree}
    (ht : operator? t = some op) (hbalanced : IsBalanced left)
    (hloosest : ∀ p ∈ outerOperators 0 left, op.precedence ≤ p.precedence)
    (hlast : ∀ p ∈ outerOperators 0 right, op.precedence < p.precedence)
    (hleft : Consumes left l) (hright : Consumes right r) :
    Consumes (left ++ t :: right) (.operation op l r) := by
  intro limit depth before rest hroom hexpects hbinds hrest
  obtain ⟨hkind, hsymbol⟩ := kind_of_operator? ht
  have houter := outerOperators_operation ht hbalanced right
  have hbindsLeft : BindsTighter before.held left := fun waiting hwaiting p hp =>
    hbinds waiting hwaiting p (by simp [houter, hp])
  obtain ⟨middle, hloopLeft, hsettlesLeft⟩ := hleft limit depth before (t :: right ++ rest)
    (hroom.mono (by simp only [height]; omega)) hexpects hbindsLeft
    (by simp [(isPlain_of_operator? ht).1])
  -- the operators of the left operand are joined before the operator is pushed
  have hpush : middle.pushOperator limit t =
      .ok ⟨.ofTree l :: before.output, .operator op :: before.held, false⟩ := by
    have hop : op ∈ outerOperators 0 (left ++ t :: right) := by simp [houter]
    rw [Yard.pushOperator, hsettlesLeft.expectsOperator, hsymbol]
    simp only [hsettlesLeft.reduceTo _ hloosest, hbinds.reduceTo_eq hop]
    rfl
  have hbindsRight : BindsTighter (.operator op :: before.held) right := by
    intro waiting hwaiting p hp
    rw [List.head?_cons, Option.some.injEq, Held.operator.injEq] at hwaiting
    exact hwaiting ▸ hlast p hp
  obtain ⟨after, hloopRight, hsettlesRight⟩ := hright limit depth
    ⟨.ofTree l :: before.output, .operator op :: before.held, false⟩ rest
    (hroom.mono (by simp only [height]; omega)) rfl hbindsRight hrest
  refine ⟨after, ?_, hsettlesRight.operation ht hbalanced hroom.fits rfl⟩
  rw [List.append_assoc, hloopLeft, List.cons_append, parseInfix_operator hkind, hpush, Except.bind,
    hloopRight]

-- Whatever stands for a tree is read as that tree.
theorem Reads.consumes {run : List Token} {tree : Tree} (h : Reads run tree) :
    Consumes run tree := by
  induction h with
  | leaf h =>
      obtain ⟨hoperator, hpunctuation⟩ := kind_of_leafTree? h
      apply consumes_single hoperator hpunctuation
      intro limit depth hroom
      rw [parseOperand_leaf (hroom.fits.mono (height_pos _)) h]
      exact ⟨hroom.fits, rfl⟩
  | @object t elements values hkind hsplit hlength _ ih =>
      apply consumes_single (by simp [hkind]) (by simp [hkind])
      intro limit depth hroom
      rw [height, entriesHeight_zipWith hlength] at hroom
      have hruns := parseRuns_of_consumes hlength ih fun v hv =>
        hroom.inner (Nat.succ_le_succ (height_le_argsHeight hv))
      rw [parseOperand_object hkind, hsplit, Except.bind, hruns, Except.bind,
        objectOf_eq_ok_iff hlength]
      exact ⟨hroom.fits, rfl⟩
  | @array t elements values hkind hsplit hlength _ ih =>
      apply consumes_single (by simp [hkind]) (by simp [hkind])
      intro limit depth hroom
      rw [height, itemsHeight_zipWith hlength] at hroom
      have hruns := parseRuns_of_consumes hlength ih fun v hv =>
        hroom.inner (Nat.succ_le_succ (height_le_argsHeight hv))
      rw [parseOperand_array hkind, hsplit, Except.bind, hruns, Except.bind,
        arrayOf_eq_ok_iff hlength]
      exact ⟨hroom.fits, rfl⟩
  | call hkind ho hinner hc hsplit hspread hlength _ ih =>
      exact consumes_call hkind ho hinner hc hsplit hspread hlength ih
  | enclosed ho _ hc ih => exact consumes_enclosed ho ih hc
  | operation ht hleft _ hloosest hlast ihleft ihright =>
      exact consumes_operation ht hleft.balanced hloosest hlast ihleft ihright

theorem Reads.parseRun_eq {run : List Token} {tree : Tree} (h : Reads run tree)
    (hroom : HasRoom limit depth tree.height) :
    parseRun limit depth run = .ok (.ofTree tree) :=
  h.consumes.parseRun_eq hroom

-- No run stands for two trees.
theorem Reads.unique {run : List Token} {tree other : Tree} (h : Reads run tree)
    (hother : Reads run other) : tree = other := by
  have hroom (height : Nat) : HasRoom none 0 height := by simp [HasRoom]
  have heq := (h.parseRun_eq (hroom _)).symm.trans (hother.parseRun_eq (hroom _))
  exact congrArg Parsed.tree (Except.ok.inj heq)

end FlowExpr.Tree
