import FlowExpr.Proofs.Grammar

namespace FlowExpr.Tree

variable {t : Token} {op : Operator} {run last : List Token} {tree : Tree}

theorem isPlain_of_operator? (h : operator? t = some op) : IsPlain t := by
  apply isPlain_of_kind
  rw [(kind_of_operator? h).1]
  decide

theorem outerOperators_single (h : t.kind ≠ .operator) : outerOperators 0 [t] = [] := by
  rcases parenthesis_cases t with ho | hc | hp
  · rw [outerOperators_opening ho]
    rfl
  · simp [outerOperators, hc.not_opening, hc.closes]
  · rw [outerOperators_plain hp]
    simp [operator?, h, outerOperators]

theorem outerOperators_call {name opening closing : Token} {inner : List Token}
    (hkind : name.kind = .identifier) (ho : IsOpening opening) (hinner : IsBalanced inner)
    (hc : IsClosing closing) :
    outerOperators 0 (name :: (opening :: inner ++ [closing])) = [] := by
  rw [outerOperators_plain (isPlain_of_kind (by simp [hkind])),
    outerOperators_enclosed ho hinner hc]
  simp [operator?, hkind]

theorem outerOperators_operation {left : List Token} (ht : operator? t = some op)
    (hleft : IsBalanced left) (right : List Token) : outerOperators 0 (left ++ t :: right) =
      outerOperators 0 left ++ op :: outerOperators 0 right := by
  rw [outerOperators_append hleft, outerOperators_plain (isPlain_of_operator? ht), ht]
  rfl

-- The operator that a run is divided at is the loosest of its outer operators.
theorem le_of_mem_outerOperators {left right : List Token} (ht : operator? t = some op)
    (hleft : IsBalanced left)
    (hloosest : ∀ p ∈ outerOperators 0 left, op.precedence ≤ p.precedence)
    (hlast : ∀ p ∈ outerOperators 0 right, op.precedence < p.precedence) :
    ∀ p ∈ outerOperators 0 (left ++ t :: right), op.precedence ≤ p.precedence := by
  intro p hp
  rw [outerOperators_operation ht hleft] at hp
  rcases List.mem_append.mp hp with hp | hp
  · exact hloosest p hp
  rcases List.mem_cons.mp hp with rfl | hp
  · exact Nat.le_refl _
  · exact Nat.le_of_lt (hlast p hp)

theorem IsBalanced.single (h : IsPlain t) : IsBalanced [t] :=
  IsBalanced.cons h rfl

theorem kind_of_leafTree? (h : leafTree? t = some tree) :
    t.kind ≠ .operator ∧ t.kind ≠ .punctuation := by
  unfold leafTree? at h
  constructor <;> intro hkind <;> simp [hkind] at h

theorem Reads.balanced (h : Reads run tree) : IsBalanced run := by
  induction h with
  | leaf h => exact IsBalanced.single (isPlain_of_kind (kind_of_leafTree? h).2)
  | object hkind | array hkind =>
      exact IsBalanced.single (isPlain_of_kind (by simp [hkind]))
  | call hkind ho hinner hc =>
      exact IsBalanced.cons (isPlain_of_kind (by simp [hkind])) (IsBalanced.enclosed ho hinner hc)
  | enclosed ho _ hc ih => exact IsBalanced.enclosed ho ih hc
  | operation ht _ _ _ _ ihleft ihright =>
      exact ihleft.append (IsBalanced.cons (isPlain_of_operator? ht) ihright)

-- An operator and an operand behind an expression are an expression again. The operator sinks
-- into the right operand for as long as it binds tighter than the root.
theorem Reads.exists_snoc {l : Tree} (h : Reads run tree) (ht : operator? t = some op)
    (hlast : Reads last l) (houter : outerOperators 0 last = []) :
    ∃ joined, Reads (run ++ t :: last) joined := by
  have hroot {run : List Token} {tree : Tree} (h : Reads run tree)
      (hloosest : ∀ p ∈ outerOperators 0 run, op.precedence ≤ p.precedence) :
      ∃ joined, Reads (run ++ t :: last) joined :=
    ⟨_, Reads.operation ht h hlast hloosest (by simp [houter])⟩
  have hempty {run : List Token} {tree : Tree} (h : Reads run tree)
      (hnone : outerOperators 0 run = []) : ∃ joined, Reads (run ++ t :: last) joined :=
    hroot h (by simp [hnone])
  induction h with
  | leaf h => exact hempty (.leaf h) (outerOperators_single (kind_of_leafTree? h).1)
  | object hkind hsplit hlength hvalues =>
      exact hempty (.object hkind hsplit hlength hvalues) (outerOperators_single (by simp [hkind]))
  | array hkind hsplit hlength hvalues =>
      exact hempty (.array hkind hsplit hlength hvalues) (outerOperators_single (by simp [hkind]))
  | call hkind ho hinner hc hsplit hspread hlength hvalues =>
      exact hempty (.call hkind ho hinner hc hsplit hspread hlength hvalues)
        (outerOperators_call hkind ho hinner hc)
  | enclosed ho hrun hc =>
      exact hempty (.enclosed ho hrun hc) (outerOperators_enclosed ho hrun.balanced hc)
  | @operation _ root left right _ _ hroot? hleft hright hloosest hafter _ ihright =>
      by_cases hle : op.precedence ≤ root.precedence
      · have hleast := le_of_mem_outerOperators hroot? hleft.balanced hloosest hafter
        exact hroot (.operation hroot? hleft hright hloosest hafter) fun p hp =>
          Nat.le_trans hle (hleast p hp)
      · obtain ⟨joined, hjoined⟩ := ihright
        rw [List.append_assoc, List.cons_append]
        have hlonger : ∀ p ∈ outerOperators 0 (right ++ t :: last),
            root.precedence < p.precedence := by
          intro p hp
          rw [outerOperators_operation ht hright.balanced, houter] at hp
          rcases List.mem_append.mp hp with hp | hp
          · exact hafter p hp
          · rw [List.mem_singleton.mp hp]
            omega
        exact ⟨_, Reads.operation hroot? hleft hjoined hloosest hlonger⟩

theorem exists_values {elements : List Element} (h : ∀ e ∈ elements, ∃ v, Reads e.run v) :
    ∃ values : List Tree, elements.length = values.length ∧
      ∀ e v, (e, v) ∈ elements.zip values → Reads e.run v := by
  induction elements with
  | nil => exact ⟨[], rfl, by simp⟩
  | cons e rest ih =>
      obtain ⟨v, hv⟩ := h e (by simp)
      obtain ⟨values, hlength, hvalues⟩ := ih fun e he => h e (List.mem_cons_of_mem _ he)
      refine ⟨v :: values, by simp [hlength], fun e' v' hmem => ?_⟩
      rw [List.zip_cons_cons, List.mem_cons] at hmem
      rcases hmem with heq | hmem
      · obtain ⟨rfl, rfl⟩ := Prod.mk.inj heq
        exact hv
      · exact hvalues e' v' hmem

mutual
-- Every run of the right shape stands for a tree.
theorem IsRun.exists_reads {run : List Token} (h : IsRun run) : ∃ tree, Reads run tree := by
  match h with
  | .operand h =>
      obtain ⟨tree, htree, _⟩ := h.exists_reads
      exact ⟨tree, htree⟩
  | .snoc hrun ht hlast =>
      obtain ⟨tree, htree⟩ := hrun.exists_reads
      obtain ⟨l, hl, houter⟩ := hlast.exists_reads
      exact htree.exists_snoc ht hl houter

theorem IsOperand.exists_reads {run : List Token} (h : IsOperand run) :
    ∃ tree, Reads run tree ∧ outerOperators 0 run = [] := by
  match h with
  | .value hoperator _ htree => exact ⟨_, htree, outerOperators_single hoperator⟩
  | .call hkind ho hinner hc hsplit hspread hvalues =>
      obtain ⟨values, hlength, hreads⟩ :=
        exists_values fun e he => (hvalues e he).exists_reads
      exact ⟨_, .call hkind ho hinner hc hsplit hspread hlength hreads,
        outerOperators_call hkind ho hinner hc⟩
  | .enclosed ho hrun hc =>
      obtain ⟨tree, htree⟩ := hrun.exists_reads
      exact ⟨tree, .enclosed ho htree hc, outerOperators_enclosed ho htree.balanced hc⟩
end

theorem IsRun.append {left right : List Token} (hleft : IsRun left) (ht : operator? t = some op)
    (hright : IsRun right) : IsRun (left ++ t :: right) := by
  match hright with
  | .operand h => exact .snoc hleft ht h
  | .snoc hrun ht' hlast =>
      have h := IsRun.snoc (hleft.append ht hrun) ht' hlast
      rwa [List.append_assoc, List.cons_append] at h

theorem exists_mem_zip {α β : Type} {xs : List α} {ys : List β} (h : xs.length = ys.length)
    {x : α} (hx : x ∈ xs) : ∃ y, (x, y) ∈ xs.zip ys := by
  induction xs generalizing ys with
  | nil => simp at hx
  | cons first rest ih =>
      cases ys with
      | nil => simp at h
      | cons y more =>
          rcases List.mem_cons.mp hx with rfl | hx
          · exact ⟨y, by simp⟩
          · obtain ⟨y', hy'⟩ := ih (by simpa using h) hx
            exact ⟨y', by simp [hy']⟩

-- What stands for a tree has the right shape.
theorem Reads.isRun (h : Reads run tree) : IsRun run := by
  induction h with
  | leaf h =>
      obtain ⟨hoperator, hpunctuation⟩ := kind_of_leafTree? h
      exact .operand (.value hoperator hpunctuation (.leaf h))
  | object hkind hsplit hlength hvalues =>
      exact .operand (.value (by simp [hkind]) (by simp [hkind])
        (.object hkind hsplit hlength hvalues))
  | array hkind hsplit hlength hvalues =>
      exact .operand (.value (by simp [hkind]) (by simp [hkind])
        (.array hkind hsplit hlength hvalues))
  | @call _ _ _ _ elements _ hkind ho hinner hc hsplit hspread hlength _ ih =>
      have hvalues : ∀ e ∈ elements, IsRun e.run := by
        intro e he
        obtain ⟨v, hv⟩ := exists_mem_zip hlength he
        exact ih e v hv
      exact .operand (.call hkind ho hinner hc hsplit hspread hvalues)
  | enclosed ho _ hc ih => exact .operand (.enclosed ho ih hc)
  | operation ht _ _ _ _ ihleft ihright => exact ihleft.append ht ihright

end FlowExpr.Tree
