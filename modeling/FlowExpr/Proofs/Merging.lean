import FlowExpr.Proofs.Evaluation
import FlowExpr.Proofs.Fields
import FlowExpr.Outcome

namespace FlowExpr.Tree

-- The two trees have the same value, or fail with the same error, whatever they refer to.
def Equivalent (first second : Tree) : Prop :=
  ∀ operators env locals,
    first.evaluate operators env locals = second.evaluate operators env locals

-- The object with the fields of two others, `{...a, ...b}`.
def merge (first second : Tree) : Tree :=
  object [.spread first, .spread second]

variable {operators : OperatorTable} {env : Environment} {locals : Scope} {a b c : Tree}
  {v : Value} {entries : List Entry}

namespace Equivalent

theorem symm (h : Equivalent a b) : Equivalent b a :=
  fun operators env locals => (h operators env locals).symm

theorem trans (h : Equivalent a b) (hnext : Equivalent b c) : Equivalent a c :=
  fun operators env locals => (h operators env locals).trans (hnext operators env locals)

end Equivalent

theorem evaluate_object_eq_ok_iff :
    (object entries).evaluate operators env locals = .ok v ↔
      ∃ fields, evaluateEntries operators env locals entries = .ok fields ∧
        .object (Fields.ofList fields) = v := by
  rw [evaluate_object, Outcome.map_eq_ok_iff]

theorem evaluateEntries_append (first second : List Entry) :
    evaluateEntries operators env locals (first ++ second) =
      (evaluateEntries operators env locals first).bind fun fields =>
        (evaluateEntries operators env locals second).map (fields ++ ·) := by
  induction first with
  | nil =>
      rw [List.nil_append, evaluateEntries]
      cases evaluateEntries operators env locals second <;> rfl
  | cons entry rest ih =>
      rw [List.cons_append, evaluateEntries_cons, evaluateEntries_cons, ih]
      cases evaluateEntry operators env locals entry with
      | error e => rfl
      | ok fields =>
          cases evaluateEntries operators env locals rest with
          | error e => rfl
          | ok more =>
              cases evaluateEntries operators env locals second with
              | error e => rfl
              | ok further => exact congrArg Except.ok (List.append_assoc fields more further).symm

theorem evaluateEntries_single (entry : Entry) :
    evaluateEntries operators env locals [entry] = evaluateEntry operators env locals entry := by
  rw [evaluateEntries_cons, evaluateEntries]
  cases evaluateEntry operators env locals entry with
  | error e => rfl
  | ok fields => exact congrArg Except.ok (List.append_nil fields)

theorem evaluateEntry_object (inner : List Entry) :
    evaluateEntry operators env locals (.spread (object inner)) =
      (evaluateEntries operators env locals inner).map Fields.ofList := by
  rw [evaluateEntry_spread, evaluate_object]
  cases evaluateEntries operators env locals inner <;> rfl

-- The entries of an object that is spread can as well stand in its place.
theorem equivalent_ungrouped (before inner after : List Entry) :
    Equivalent (object (before ++ .spread (object inner) :: after))
      (object (before ++ (inner ++ after))) := by
  intro operators env locals
  rw [evaluate_object, evaluate_object, evaluateEntries_append, evaluateEntries_append,
    evaluateEntries_cons, evaluateEntries_append, evaluateEntry_object]
  cases evaluateEntries operators env locals before with
  | error e => rfl
  | ok fields =>
      cases evaluateEntries operators env locals inner with
      | error e => rfl
      | ok more =>
          cases evaluateEntries operators env locals after with
          | error e => rfl
          | ok further =>
              have hfields : Fields.ofList (fields ++ (Fields.ofList more ++ further)) =
                  Fields.ofList (fields ++ (more ++ further)) := by
                rw [← List.append_assoc, Fields.ofList_append, Fields.ofList_append_ofList,
                  ← Fields.ofList_append, List.append_assoc]
              exact congrArg (fun merged => Except.ok (Value.object merged)) hfields

theorem equivalent_merge_self (a : Tree) : Equivalent (merge a a) (object [.spread a]) := by
  intro operators env locals
  rw [merge, evaluate_object, evaluate_object, evaluateEntries_cons, evaluateEntries_single]
  cases evaluateEntry operators env locals (.spread a) with
  | error e => rfl
  | ok fields =>
      exact congrArg (fun merged => Except.ok (Value.object merged))
        (Fields.ofList_append_self fields)

-- An object that is spread by itself is that object.
theorem evaluate_spread {fields : List (String × Value)}
    (h : a.evaluate operators env locals = .ok (.object fields))
    (hnodup : (Fields.names fields).Nodup) :
    (object [.spread a]).evaluate operators env locals = .ok (.object fields) := by
  rw [evaluate_object, evaluateEntries_single, evaluateEntry_spread, h]
  exact congrArg (fun merged => Except.ok (Value.object merged)) (Fields.ofList_of_nodup hnodup)

-- Objects are merged by writing the fields of the second over those of the first, and in which
-- groups that is done makes no difference.
theorem equivalent_merge :
    (∀ first second : List Entry,
      Equivalent (object (first ++ second)) (merge (object first) (object second)) ∧
        ∀ operators env locals v w, (object first).evaluate operators env locals = .ok v →
          (object second).evaluate operators env locals = .ok w →
            ∃ fields more merged, evaluateEntries operators env locals first = .ok fields ∧
              evaluateEntries operators env locals second = .ok more ∧
              (object (first ++ second)).evaluate operators env locals = .ok (.object merged) ∧
              Fields.IsMerged (fields ++ more) merged) ∧
      (∀ a b c, Equivalent (merge (merge a b) c) (merge a (merge b c))) ∧
      (∀ a, Equivalent (merge (object []) a) (object [.spread a]) ∧
        Equivalent (merge a (object [])) (object [.spread a]) ∧
        Equivalent (merge a a) (object [.spread a])) ∧
      ∀ a operators env locals fields, a.evaluate operators env locals = .ok (.object fields) →
        (Fields.names fields).Nodup →
          (object [.spread a]).evaluate operators env locals = .ok (.object fields) := by
  refine ⟨fun first second => ⟨?_, ?_⟩, fun a b c => ?_, fun a => ⟨?_, ?_, ?_⟩, ?_⟩
  · have hfirst := equivalent_ungrouped [] first [.spread (object second)]
    have hsecond := equivalent_ungrouped first second []
    rw [List.append_nil] at hsecond
    exact (hfirst.trans hsecond).symm
  · intro operators env locals v w hv hw
    obtain ⟨fields, hfields, -⟩ := evaluate_object_eq_ok_iff.mp hv
    obtain ⟨more, hmore, -⟩ := evaluate_object_eq_ok_iff.mp hw
    refine ⟨fields, more, Fields.ofList (fields ++ more), hfields, hmore, ?_,
      Fields.isMerged_ofList _⟩
    rw [evaluate_object, evaluateEntries_append, hfields, hmore]
    rfl
  · have hleft := equivalent_ungrouped [] [.spread a, .spread b] [.spread c]
    have hright := equivalent_ungrouped [.spread a] [.spread b, .spread c] []
    exact hleft.trans hright.symm
  · exact equivalent_ungrouped [] [] [.spread a]
  · exact equivalent_ungrouped [.spread a] [] []
  · exact equivalent_merge_self a
  · exact fun a operators env locals fields => evaluate_spread

-- In `{...{a: 1, ...[2, 3]}, ...{"0": 4, a: 5}}` two fields are written again.
theorem equivalent_merge_rewritten :
    let first : List Entry :=
      [.keyed "a" (literal (.int 1)), .spread (literal (.array [.int 2, .int 3]))]
    let second : List Entry := [.keyed "0" (literal (.int 4)), .keyed "a" (literal (.int 5))]
    (merge (object first) (object second)).evaluate .standard ⟨[], .null⟩ [] =
      .ok (.object [("a", .int 5), ("0", .int 4), ("1", .int 3)]) := by
  intro first second
  obtain ⟨hmerge, hvalue⟩ := equivalent_merge.1 first second
  obtain ⟨fields, more, merged, hfields, hmore, hmerged, hlast⟩ :=
    hvalue .standard ⟨[], .null⟩ [] _ _ rfl rfl
  obtain rfl : [("a", .int 1), ("0", .int 2), ("1", .int 3)] = fields := Except.ok.inj hfields
  obtain rfl : [("0", .int 4), ("a", .int 5)] = more := Except.ok.inj hmore
  rw [← hmerge, hmerged, hlast.unique (Fields.isMerged_ofList _)]
  rfl

end FlowExpr.Tree
