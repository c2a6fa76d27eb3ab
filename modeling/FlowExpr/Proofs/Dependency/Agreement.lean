import FlowExpr.Proofs.Dependency
import FlowExpr.Outcome

namespace FlowExpr

namespace Environment

variable {locals : Scope} {env other : Environment}

-- The two environments bind a name to the same value, or neither binds it.
def AgreesOn (env other : Environment) (name : String) : Prop :=
  Fields.get? name env.steps = Fields.get? name other.steps

theorem lookup?_eq_of_agreesOn (hcontext : env.context = other.context) {name : String}
    (h : env.AgreesOn other name) : env.lookup? locals name = other.lookup? locals name := by
  rw [lookup?, lookup?, hcontext, h]

-- Keys that are resolved to the same values make the same path, in whatever text they stand.
theorem resolveKeys_eq_ok {resolve resolve' : List Char → Except ReferenceFault Value}
    {path path' : String} {segments found : Path}
    (hkeys : ∀ key, .computed key ∈ segments → ∀ v, resolve (keyPath key.toList) = .ok v →
      resolve' (keyPath key.toList) = .ok v)
    (h : resolveKeys resolve path segments = .ok found) :
    resolveKeys resolve' path' segments = .ok found := by
  induction segments generalizing found with
  | nil => exact h
  | cons segment rest ih =>
      have hrest : ∀ key, .computed key ∈ rest → ∀ v, resolve (keyPath key.toList) = .ok v →
          resolve' (keyPath key.toList) = .ok v :=
        fun key hkey => hkeys key (List.mem_cons_of_mem segment hkey)
      cases segment with
      | property name | index i =>
          obtain ⟨more, hmore, rfl⟩ := Outcome.map_eq_ok_iff.mp h
          exact Outcome.map_eq_ok_iff.mpr ⟨more, ih hrest hmore, rfl⟩
      | computed key =>
          rw [resolveKeys] at h ⊢
          cases hv : resolve (keyPath key.toList) with
          | error fault => simp [hv] at h
          | ok v =>
              rw [hv] at h
              rw [hkeys key (by simp) v hv]
              cases hsegment : keySegment? v with
              | none => simp [hsegment] at h
              | some segment =>
                  simp only [hsegment] at h ⊢
                  obtain ⟨more, hmore, rfl⟩ := Outcome.map_eq_ok_iff.mp h
                  exact Outcome.map_eq_ok_iff.mpr ⟨more, ih hrest hmore, rfl⟩

-- The value of a path depends on the names that the path looks up and on no others.
theorem resolveWithin_eq_ok (hcontext : env.context = other.context) {levels : Nat}
    {behindMark : Bool} {text : List Char} {v : Value}
    (hagree : ∀ root ∈ pathRoots levels behindMark text, env.AgreesOn other root.name)
    (h : env.resolveWithin locals levels text = .ok v) :
    other.resolveWithin locals levels text = .ok v := by
  induction levels generalizing behindMark text v with
  | zero => simp [resolveWithin] at h
  | succ levels ih =>
      rw [resolveWithin] at h ⊢
      rw [pathRoots] at hagree
      by_cases hempty : (rootText (Text.trim text)).isEmpty = true
      · simp [hempty] at h
      simp only [hempty, Bool.false_eq_true, if_false] at h hagree ⊢
      have hroot := hagree _ List.mem_cons_self
      rw [← lookup?_eq_of_agreesOn hcontext hroot]
      cases hlookup : env.lookup? locals (String.ofList (rootText (Text.trim text))) with
      | none => simp [hlookup] at h
      | some root =>
          simp only [hlookup] at h ⊢
          by_cases hwhole : (Text.trim text).all (fun c => !isRootEnd c) = true
          · rwa [if_pos hwhole] at h ⊢
          rw [if_neg hwhole] at h ⊢
          cases hread : Path.read (String.ofList (Text.trim text)) with
          | error e => simp [hread] at h
          | ok segments =>
              simp only [hread] at h ⊢
              cases hfound : resolveKeys (env.resolveWithin locals levels)
                  (String.ofList (Text.trim text)) segments.tail with
              | error fault => simp [hfound] at h
              | ok found =>
                  have hkeys : ∀ key, .computed key ∈ segments.tail → ∀ v,
                      env.resolveWithin locals levels (keyPath key.toList) = .ok v →
                      other.resolveWithin locals levels (keyPath key.toList) = .ok v := by
                    intro key hkey v hv
                    have hinside : ∀ root ∈
                        pathRoots levels (isBraced key.toList) (keyPath key.toList),
                        env.AgreesOn other root.name := by
                      intro root hmem
                      apply hagree root
                      apply List.mem_cons_of_mem
                      rw [hread]
                      exact List.mem_flatMap.mpr ⟨_, hkey, hmem⟩
                    exact ih hinside hv
                  rw [resolveKeys_eq_ok hkeys hfound]
                  simp only [hfound] at h ⊢
                  exact h

theorem resolve_eq_ok (hcontext : env.context = other.context) {path : String} {v : Value}
    (hagree : ∀ root ∈ pathRoots (maxNesting + 1) true path.toList,
      env.AgreesOn other root.name)
    (h : env.resolve locals path = .ok v) : other.resolve locals path = .ok v :=
  resolveWithin_eq_ok hcontext hagree h

end Environment

namespace Tree

variable {operators : OperatorTable} {env other : Environment} {locals : Scope}

-- Every one of the paths that has a value in the first environment has the same in the second.
def KeepsValues (env other : Environment) (locals : Scope) (paths : List String) : Prop :=
  ∀ path ∈ paths, ∀ v, env.resolve locals path = .ok v → other.resolve locals path = .ok v

theorem KeepsValues.left {paths more : List String}
    (h : KeepsValues env other locals (paths ++ more)) : KeepsValues env other locals paths :=
  fun path hpath => h path (List.mem_append_left more hpath)

theorem KeepsValues.right {paths more : List String}
    (h : KeepsValues env other locals (paths ++ more)) : KeepsValues env other locals more :=
  fun path hpath => h path (List.mem_append_right paths hpath)

mutual
-- The value of a tree depends on its references and on nothing else of the environment.
theorem evaluate_eq_ok (tree : Tree) (hkeeps : KeepsValues env other locals tree.references)
    {v : Value} (h : tree.evaluate operators env locals = .ok v) :
    tree.evaluate operators other locals = .ok v := by
  match tree with
  | .literal _ => exact h
  | .reference path =>
      rw [evaluate] at h ⊢
      cases hpath : env.resolve locals path with
      | error fault => simp [hpath] at h
      | ok value =>
          rw [hpath] at h
          rw [hkeeps path (by simp [references]) value hpath]
          exact h
  | .operation op left right =>
      rw [evaluate] at h ⊢
      cases hop : operators op with
      | none => simp [hop] at h
      | some apply =>
          simp only [hop] at h ⊢
          cases hl : left.evaluate operators env locals with
          | error c => simp [hl] at h
          | ok l =>
              cases hr : right.evaluate operators env locals with
              | error c => simp [hl, hr] at h
              | ok r =>
                  rw [evaluate_eq_ok left hkeeps.left hl, evaluate_eq_ok right hkeeps.right hr]
                  rwa [hl, hr] at h
  | .object entries =>
      rw [evaluate] at h ⊢
      cases hfields : evaluateEntries operators env locals entries with
      | error c => simp [hfields] at h
      | ok fields =>
          rw [evaluateEntries_eq_ok entries hkeeps hfields]
          rwa [hfields] at h
  | .array items =>
      rw [evaluate] at h ⊢
      cases hvalues : evaluateItems operators env locals items with
      | error c => simp [hvalues] at h
      | ok values =>
          rw [evaluateItems_eq_ok items hkeeps hvalues]
          rwa [hvalues] at h
  | .call name args =>
      rw [evaluate] at h ⊢
      cases hname : Builtin.ofName? name with
      | none => simp [hname] at h
      | some f =>
          simp only [hname] at h ⊢
          cases hvalues : evaluateArgs operators env locals args with
          | error c => simp [hvalues] at h
          | ok values =>
              rw [evaluateArgs_eq_ok args hkeeps hvalues]
              rwa [hvalues] at h

theorem evaluateEntry_eq_ok (entry : Entry)
    (hkeeps : KeepsValues env other locals (entryReferences entry))
    {fields : List (String × Value)}
    (h : evaluateEntry operators env locals entry = .ok fields) :
    evaluateEntry operators other locals entry = .ok fields := by
  match entry with
  | .keyed _ value | .spread value | .keyless value =>
      rw [evaluateEntry] at h ⊢
      cases hv : value.evaluate operators env locals with
      | error c => simp [hv] at h
      | ok v =>
          rw [evaluate_eq_ok value hkeeps hv]
          rwa [hv] at h

theorem evaluateEntries_eq_ok (entries : List Entry)
    (hkeeps : KeepsValues env other locals (entriesReferences entries))
    {fields : List (String × Value)}
    (h : evaluateEntries operators env locals entries = .ok fields) :
    evaluateEntries operators other locals entries = .ok fields := by
  match entries with
  | [] => exact h
  | entry :: rest =>
      rw [evaluateEntries] at h ⊢
      cases hfirst : evaluateEntry operators env locals entry with
      | error c => simp [hfirst] at h
      | ok first =>
          rw [evaluateEntry_eq_ok entry hkeeps.left hfirst]
          rw [hfirst] at h
          obtain ⟨more, hmore, rfl⟩ := Outcome.map_eq_ok_iff.mp h
          exact Outcome.map_eq_ok_iff.mpr
            ⟨more, evaluateEntries_eq_ok rest hkeeps.right hmore, rfl⟩

theorem evaluateItem_eq_ok (item : Item)
    (hkeeps : KeepsValues env other locals (itemReferences item)) {values : List Value}
    (h : evaluateItem operators env locals item = .ok values) :
    evaluateItem operators other locals item = .ok values := by
  match item with
  | .single value | .spread value =>
      rw [evaluateItem] at h ⊢
      cases hv : value.evaluate operators env locals with
      | error c => simp [hv] at h
      | ok v =>
          rw [evaluate_eq_ok value hkeeps hv]
          rwa [hv] at h

theorem evaluateItems_eq_ok (items : List Item)
    (hkeeps : KeepsValues env other locals (itemsReferences items)) {values : List Value}
    (h : evaluateItems operators env locals items = .ok values) :
    evaluateItems operators other locals items = .ok values := by
  match items with
  | [] => exact h
  | item :: rest =>
      rw [evaluateItems] at h ⊢
      cases hfirst : evaluateItem operators env locals item with
      | error c => simp [hfirst] at h
      | ok first =>
          rw [evaluateItem_eq_ok item hkeeps.left hfirst]
          rw [hfirst] at h
          obtain ⟨more, hmore, rfl⟩ := Outcome.map_eq_ok_iff.mp h
          exact Outcome.map_eq_ok_iff.mpr
            ⟨more, evaluateItems_eq_ok rest hkeeps.right hmore, rfl⟩

theorem evaluateArgs_eq_ok (args : List Tree)
    (hkeeps : KeepsValues env other locals (argsReferences args)) {values : List Value}
    (h : evaluateArgs operators env locals args = .ok values) :
    evaluateArgs operators other locals args = .ok values := by
  match args with
  | [] => exact h
  | arg :: rest =>
      rw [evaluateArgs] at h ⊢
      cases hfirst : arg.evaluate operators env locals with
      | error c => simp [hfirst] at h
      | ok first =>
          rw [evaluate_eq_ok arg hkeeps.left hfirst]
          rw [hfirst] at h
          obtain ⟨more, hmore, rfl⟩ := Outcome.map_eq_ok_iff.mp h
          exact Outcome.map_eq_ok_iff.mpr ⟨more, evaluateArgs_eq_ok rest hkeeps.right hmore, rfl⟩
end

-- Environments that agree on the names that a tree looks up give it the same value.
theorem evaluate_of_agreesOn (hcontext : env.context = other.context) {tree : Tree} {v : Value}
    (hagree : ∀ root ∈ tree.roots, env.AgreesOn other root.name)
    (h : tree.evaluate operators env locals = .ok v) :
    tree.evaluate operators other locals = .ok v := by
  have hkeeps : KeepsValues env other locals tree.references := by
    intro path hpath value hvalue
    have hroots : ∀ root ∈ Environment.pathRoots (maxNesting + 1) true path.toList,
        env.AgreesOn other root.name := by
      intro root hroot
      exact hagree root (List.mem_flatMap.mpr ⟨path, hpath, hroot⟩)
    exact Environment.resolve_eq_ok hcontext hroots hvalue
  exact evaluate_eq_ok tree hkeeps h

end Tree

end FlowExpr
