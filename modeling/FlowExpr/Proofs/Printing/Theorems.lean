import FlowExpr.Proofs.Digits
import FlowExpr.Proofs.Grammar.Theorems
import FlowExpr.Proofs.Printing.Segments

namespace FlowExpr.Tree

variable {tree : Tree} {run : List Token}

theorem numberValue_toString {n : Int64} (h : 0 ≤ n.toInt) :
    numberValue (toString n.toInt) = .ok (.int n) := by
  obtain ⟨m, hm⟩ := Int.eq_ofNat_of_zero_le h
  have hdigits : (toString n.toInt).toList = Nat.toDigits 10 m := by
    rw [hm]
    exact Nat.toList_repr
  have hpoint : (Nat.toDigits 10 m).contains '.' = false := by
    rw [List.contains_eq_mem, decide_eq_false_iff_not]
    intro hmem
    have hdigit := Nat.isDigit_of_mem_toDigits (by decide) (by decide) hmem
    simp at hdigit
  have hread : Text.readSigned? (Nat.toDigits 10 m) = some n := by
    rw [Text.readSigned?_of_isDigits (Text.isDigits_toDigits m), Text.digitsValue_toDigits, ← hm]
    exact Text.signedWord?_toInt n
  simp only [numberValue, hdigits, hpoint, hread, Bool.false_eq_true, if_false]

theorem leafTree?_print {v : Value} (h : v.isWritable = true) :
    leafTree? v.print = some (.literal v) := by
  cases v with
  | undefined | null | string s => rfl
  | bool b => cases b <;> rfl
  | int n =>
      have hn : numberValue (toString n.toInt) = .ok (.int n) :=
        numberValue_toString (of_decide_eq_true h)
      simp only [Value.print, Token.plain, leafTree?, Token.kind, Token.raw, hn]
      rfl
  | float x | array items | object fields => simp [Value.isWritable] at h

-- An operator outside all parentheses binds at least as tightly as the root.
theorem Reads.root_le (h : Reads run tree) :
    ∀ p ∈ outerOperators 0 run, ∃ root, tree.rootPrecedence? = some root ∧ root ≤ p.precedence := by
  have hnone {run : List Token} {tree : Tree} (hempty : outerOperators 0 run = []) :
      ∀ p ∈ outerOperators 0 run,
        ∃ root, tree.rootPrecedence? = some root ∧ root ≤ p.precedence := by
    intro p hp
    rw [hempty] at hp
    exact absurd hp List.not_mem_nil
  cases h with
  | leaf h => exact hnone (outerOperators_single (kind_of_leafTree? h).1)
  | object hkind | array hkind => exact hnone (outerOperators_single (by rw [hkind]; decide))
  | call hkind ho hinner hc => exact hnone (outerOperators_call hkind ho hinner hc)
  | enclosed ho hrun hc => exact hnone (outerOperators_enclosed ho hrun.balanced hc)
  | operation ht hleft _ hloosest hlast =>
      intro p hp
      exact ⟨_, rfl, le_of_mem_outerOperators ht hleft.balanced hloosest hlast p hp⟩

theorem Reads.exists_cons (h : Reads run tree) :
    ∃ t rest, run = t :: rest ∧ t.isPunctuation "..." = false := by
  have hvalue {t : Token} {rest : List Token} (ht : t.kind ≠ .punctuation) :
      ∃ t' rest', t :: rest = t' :: rest' ∧ t'.isPunctuation "..." = false :=
    ⟨t, rest, rfl, by simp [Token.isPunctuation, ht]⟩
  induction h with
  | leaf h => exact hvalue (kind_of_leafTree? h).2
  | object hkind | array hkind | call hkind => exact hvalue (by rw [hkind]; decide)
  | enclosed ho _ _ => exact ⟨_, _, rfl, by simp [Token.isPunctuation, ho.raw]⟩
  | operation _ _ _ _ _ ihleft =>
      obtain ⟨t, rest, rfl, ht⟩ := ihleft
      exact ⟨t, _, rfl, ht⟩

theorem reads_enclosedIf {needed : Bool} (h : Reads run tree) :
    Reads (Token.enclosedIf needed run) tree := by
  cases needed with
  | false => exact h
  | true => exact .enclosed rfl h rfl

-- What stands in parentheses has no outer operator, and what needs none has only such as bind
-- tightly enough.
theorem outerOperators_enclosedIf {needed : Bool} (h : Reads run tree) {p : Operator}
    (hp : p ∈ outerOperators 0 (Token.enclosedIf needed run)) :
    needed = false ∧ ∃ root, tree.rootPrecedence? = some root ∧ root ≤ p.precedence := by
  cases needed with
  | false => exact ⟨rfl, h.root_le p hp⟩
  | true =>
      have hnone : outerOperators 0 (Token.enclosedIf true run) = [] :=
        outerOperators_enclosed rfl h.balanced rfl
      simp [hnone] at hp

theorem reads_operation {op : Operator} {left right : Tree} (hleft : Reads left.print left)
    (hright : Reads right.print right) :
    Reads (Tree.operation op left right).print (.operation op left right) := by
  have hsymbol : operator? (.ofOperator op) = some op := Operator.ofSymbol?_symbol op
  rw [print]
  refine .operation hsymbol (reads_enclosedIf hleft) (reads_enclosedIf hright) ?_ ?_
  · intro p hp
    obtain ⟨hwhole, root, hroot, hle⟩ := outerOperators_enclosedIf hleft hp
    have hop : op.precedence ≤ root := by simpa [isTornOnLeft, hroot] using hwhole
    omega
  · intro p hp
    obtain ⟨hwhole, root, hroot, hle⟩ := outerOperators_enclosedIf hright hp
    have hop : op.precedence < root := by simpa [isTornOnRight, hroot] using hwhole
    omega

theorem ofSegment_spread {group : Group} (h : Reads run tree) :
    Element.ofSegment group (.dots :: run) = .ok (.spread run) := by
  obtain ⟨t, rest, rfl, _⟩ := h.exists_cons
  rfl

theorem ofSegment_single {group : Group} (hgroup : group ≠ .object) (h : Reads run tree) :
    Element.ofSegment group run = .ok (.single run) := by
  obtain ⟨t, rest, rfl, ht⟩ := h.exists_cons
  simp [Element.ofSegment, ht, hgroup]

theorem ofSegment_keyed {key : String} (h : Reads run tree) :
    Element.ofSegment .object (.ofText key :: .colon :: run) = .ok (.keyed key run) := by
  obtain ⟨t, rest, rfl, _⟩ := h.exists_cons
  rfl

theorem printEntries_eq_map (entries : List Entry) :
    printEntries entries = entries.map printEntry := by
  induction entries with
  | nil => rfl
  | cons entry rest ih => rw [printEntries, List.map_cons, ih]

theorem printItems_eq_map (items : List Item) : printItems items = items.map printItem := by
  induction items with
  | nil => rfl
  | cons item rest ih => rw [printItems, List.map_cons, ih]

theorem printArgs_eq_map (args : List Tree) : printArgs args = args.map print := by
  induction args with
  | nil => rfl
  | cons arg rest ih => rw [printArgs, List.map_cons, ih]

theorem exists_of_mem_zip_map {α : Type} {xs : List α} {f : α → Element} {g : α → Tree}
    {e : Element} {v : Tree} (h : (e, v) ∈ (xs.map f).zip (xs.map g)) :
    ∃ x ∈ xs, f x = e ∧ g x = v := by
  rw [List.zip_map', List.mem_map] at h
  obtain ⟨x, hx, heq⟩ := h
  exact ⟨x, hx, (Prod.mk.inj heq).1, (Prod.mk.inj heq).2⟩

section Parts

variable {entry : Entry} {item : Item}

theorem isUndivided_printEntry (hwritable : isWritableEntry entry = true)
    (h : Reads entry.value.print entry.value) : Element.IsUndivided (printEntry entry) := by
  have hvalue := Element.isUndivided_of_reads h
  cases entry with
  | keyed key value =>
      have hkey : (Token.ofText key).kind ≠ .punctuation := by simp [Token.ofText, Token.kind]
      have hcolon : Element.IsUndivided (.colon :: value.print) := hvalue.cons ⟨rfl, rfl⟩ rfl
      exact hcolon.cons_of_kind hkey
  | spread value => exact hvalue.cons (t := .dots) ⟨rfl, rfl⟩ rfl
  | keyless value => simp [isWritableEntry] at hwritable

theorem ofSegment_printEntry (hwritable : isWritableEntry entry = true)
    (h : Reads entry.value.print entry.value) :
    Element.ofSegment .object (printEntry entry) = .ok entry.element := by
  cases entry with
  | keyed key value => exact ofSegment_keyed h
  | spread value => exact ofSegment_spread h
  | keyless value => simp [isWritableEntry] at hwritable

theorem isUndivided_printItem (h : Reads item.value.print item.value) :
    Element.IsUndivided (printItem item) := by
  have hvalue := Element.isUndivided_of_reads h
  cases item with
  | single value => exact hvalue
  | spread value => exact hvalue.cons (t := .dots) ⟨rfl, rfl⟩ rfl

theorem ofSegment_printItem (h : Reads item.value.print item.value) :
    Element.ofSegment .array (printItem item) = .ok item.element := by
  cases item with
  | single value => exact ofSegment_single (by decide) h
  | spread value => exact ofSegment_spread h

end Parts

theorem reads_object {entries : List Entry}
    (h : ∀ entry ∈ entries, isWritableEntry entry = true ∧ Reads entry.value.print entry.value) :
    Reads (Tree.object entries).print (.object entries) := by
  have hsplit : Element.split .object (Token.commaSeparated (entries.map printEntry)) =
      .ok (entries.map Entry.element) :=
    Element.split_commaSeparated
      (fun entry hentry => isUndivided_printEntry (h entry hentry).1 (h entry hentry).2)
      (fun entry hentry => ofSegment_printEntry (h entry hentry).1 (h entry hentry).2)
  have hvalues : ∀ e v, (e, v) ∈ (entries.map Entry.element).zip (entries.map Entry.value) →
      Reads e.run v := by
    intro e v hmem
    obtain ⟨entry, hentry, rfl, rfl⟩ := exists_of_mem_zip_map hmem
    obtain ⟨_, hreads⟩ := h entry hentry
    cases entry <;> exact hreads
  have hentries : List.zipWith Element.entry (entries.map Entry.element)
      (entries.map Entry.value) = entries := by
    have hentry : (fun entry : Entry => entry.element.entry entry.value) = id := by
      funext entry
      cases entry <;> rfl
    rw [List.zipWith_map, List.zipWith_self, hentry, List.map_id]
  rw [print, printEntries_eq_map]
  have hobject := Reads.object (t := .objectOf (Token.commaSeparated (entries.map printEntry)))
    rfl hsplit (by simp) hvalues
  rwa [hentries] at hobject

theorem reads_array {items : List Item} (h : ∀ item ∈ items, Reads item.value.print item.value) :
    Reads (Tree.array items).print (.array items) := by
  have hsplit : Element.split .array (Token.commaSeparated (items.map printItem)) =
      .ok (items.map Item.element) :=
    Element.split_commaSeparated (fun item hitem => isUndivided_printItem (h item hitem))
      (fun item hitem => ofSegment_printItem (h item hitem))
  have hvalues : ∀ e v, (e, v) ∈ (items.map Item.element).zip (items.map Item.value) →
      Reads e.run v := by
    intro e v hmem
    obtain ⟨item, hitem, rfl, rfl⟩ := exists_of_mem_zip_map hmem
    have hreads := h item hitem
    cases item <;> exact hreads
  have hitems : List.zipWith Element.item (items.map Item.element) (items.map Item.value) =
      items := by
    have hitem : (fun item : Item => item.element.item item.value) = id := by
      funext item
      cases item <;> rfl
    rw [List.zipWith_map, List.zipWith_self, hitem, List.map_id]
  rw [print, printItems_eq_map]
  have harray := Reads.array (t := .arrayOf (Token.commaSeparated (items.map printItem)))
    rfl hsplit (by simp) hvalues
  rwa [hitems] at harray

theorem isBalanced_commaSeparated {runs : List (List Token)} (h : ∀ run ∈ runs, IsBalanced run) :
    IsBalanced (Token.commaSeparated runs) := by
  induction runs with
  | nil => rfl
  | cons run more ih =>
      have hrun : IsBalanced run := h run (by simp)
      have hmore := ih fun run' hrun' => h run' (List.mem_cons_of_mem _ hrun')
      cases more with
      | nil => rwa [Token.commaSeparated, List.intercalate_singleton]
      | cons next more =>
          have hcomma : IsBalanced (.comma :: Token.commaSeparated (next :: more)) :=
            hmore.cons ⟨rfl, rfl⟩
          rw [Token.commaSeparated, List.intercalate_cons_cons, List.append_assoc]
          exact hrun.append hcomma

theorem reads_call {name : String} {args : List Tree} (h : ∀ arg ∈ args, Reads arg.print arg) :
    Reads (Tree.call name args).print (.call name args) := by
  have hsplit : Element.split .call (Token.commaSeparated (args.map print)) =
      .ok (args.map fun arg => Element.single arg.print) :=
    Element.split_commaSeparated (fun arg harg => Element.isUndivided_of_reads (h arg harg))
      (fun arg harg => ofSegment_single (by decide) (h arg harg))
  have hbalanced : IsBalanced (Token.commaSeparated (args.map print)) := by
    apply isBalanced_commaSeparated
    intro run hrun
    obtain ⟨arg, harg, rfl⟩ := List.mem_map.mp hrun
    exact (h arg harg).balanced
  have hspread : ∀ e ∈ args.map fun arg => Element.single arg.print, e.isSpread = false := by
    intro e he
    obtain ⟨arg, _, rfl⟩ := List.mem_map.mp he
    rfl
  have hvalues : ∀ e v, (e, v) ∈ (args.map fun arg => Element.single arg.print).zip
      (args.map id) → Reads e.run v := by
    intro e v hmem
    obtain ⟨arg, harg, rfl, rfl⟩ := exists_of_mem_zip_map hmem
    exact h arg harg
  rw [List.map_id] at hvalues
  rw [print, printArgs_eq_map]
  exact @Reads.call (.plain .identifier name) _ _ _ _ args rfl rfl hbalanced rfl hsplit hspread
    (by simp) hvalues

mutual
-- Every tree that has a notation is read back from it, whatever its height.
theorem reads_print (tree : Tree) (h : tree.isWritable = true) : Reads tree.print tree := by
  match tree with
  | .literal v =>
      rw [print]
      exact .leaf (leafTree?_print h)
  | .reference path =>
      rw [print]
      exact .leaf rfl
  | .operation op left right =>
      rw [isWritable, Bool.and_eq_true] at h
      exact reads_operation (reads_print left h.1) (reads_print right h.2)
  | .object entries => exact reads_object (reads_printEntries entries h)
  | .array items => exact reads_array (reads_printItems items h)
  | .call name args => exact reads_call (reads_printArgs args h)

theorem reads_printEntries (entries : List Entry) (h : areWritableEntries entries = true) :
    ∀ entry ∈ entries, isWritableEntry entry = true ∧ Reads entry.value.print entry.value := by
  match entries with
  | [] => simp
  | entry :: rest =>
      rw [areWritableEntries, Bool.and_eq_true] at h
      have hfirst := reads_printEntry entry h.1
      have hrest := reads_printEntries rest h.2
      intro other hother
      rcases List.mem_cons.mp hother with rfl | hother
      · exact ⟨h.1, hfirst⟩
      · exact hrest other hother

theorem reads_printEntry (entry : Entry) (h : isWritableEntry entry = true) :
    Reads entry.value.print entry.value := by
  match entry with
  | .keyed _ value => exact reads_print value h
  | .spread value => exact reads_print value h

theorem reads_printItems (items : List Item) (h : areWritableItems items = true) :
    ∀ item ∈ items, Reads item.value.print item.value := by
  match items with
  | [] => simp
  | item :: rest =>
      rw [areWritableItems, Bool.and_eq_true] at h
      have hfirst := reads_printItem item h.1
      have hrest := reads_printItems rest h.2
      intro other hother
      rcases List.mem_cons.mp hother with rfl | hother
      · exact hfirst
      · exact hrest other hother

theorem reads_printItem (item : Item) (h : isWritableItem item = true) :
    Reads item.value.print item.value := by
  match item with
  | .single value => exact reads_print value h
  | .spread value => exact reads_print value h

theorem reads_printArgs (args : List Tree) (h : areWritable args = true) :
    ∀ arg ∈ args, Reads arg.print arg := by
  match args with
  | [] => simp
  | arg :: rest =>
      rw [areWritable, Bool.and_eq_true] at h
      have hfirst := reads_print arg h.1
      have hrest := reads_printArgs rest h.2
      intro other hother
      rcases List.mem_cons.mp hother with rfl | hother
      · exact hfirst
      · exact hrest other hother
end

-- A tree is read back from its notation whenever it is not too high.
theorem parse_print (tree : Tree) (hwritable : tree.isWritable = true)
    (hheight : tree.height ≤ maxNesting) : parse tree.print = .ok tree :=
  parse_eq_ok_iff.mpr ⟨reads_print tree hwritable, hheight⟩

-- A product of a sum and a call, with an object and spread parts inside.
theorem parse_print_product :
    let tree : Tree := .operation .multiply
      (.operation .add (.literal (.int 1)) (.literal (.string "a")))
      (.call "f" [.array [.single (.literal .null), .spread (.reference "a.b")],
        .object [.keyed "k" (.operation .coalesce (.reference "x") (.literal (.bool true))),
          .spread (.reference "rest")]])
    tree.print.length = 12 ∧ parse tree.print = .ok tree :=
  ⟨by decide, parse_print _ (by decide) (by decide)⟩

end FlowExpr.Tree
