import FlowExpr.Evaluation
import FlowExpr.Proofs.Canonical.Lexing
import FlowExpr.Proofs.Grammar.Theorems

namespace FlowExpr

open FlowExpr.Path (isPlainName restText)

variable {name : String} {segments : Path} {env : Environment} {locals : Scope}

namespace Environment

theorem resolveKeys_eq_self {resolve : List Char → Except ReferenceFault Value} {path : String}
    (h : ∀ key, Segment.computed key ∉ segments) :
    resolveKeys resolve path segments = .ok segments := by
  induction segments with
  | nil => rfl
  | cons segment more ih =>
      have hmore := ih fun key hmem => h key (by simp [hmem])
      cases segment with
      | property name =>
          rw [resolveKeys, hmore]
          · rfl
          · simp
      | index i =>
          rw [resolveKeys, hmore]
          · rfl
          · simp
      | computed key => exact absurd (by simp) (h key)

theorem not_isRootEnd_of_mem_plainName {text : List Char} (h : isPlainName text = true) :
    ∀ c ∈ text, (!isRootEnd c) = true := by
  intro c hc
  have hend := Path.isNameEnd_of_isNameChar (Path.isNameChar_of_isPlainName h c hc)
  simp_all [isRootEnd, Path.isNameEnd]

theorem isRootEnd_head_restText (segments : Path) :
    ∀ c ∈ (restText segments).head?, isRootEnd c = true := by
  intro c hc
  rcases Path.head_restText segments c hc with rfl | rfl
  · rfl
  · rfl

-- The name in front of canonical segments is the root.
theorem rootText_canonical {text : List Char} (hname : isPlainName text = true)
    (segments : Path) : rootText (text ++ restText segments) = text := by
  have htake : (text ++ restText segments).takeWhile (fun c => !isRootEnd c) = text := by
    rw [List.takeWhile_append_of_pos (not_isRootEnd_of_mem_plainName hname)]
    cases hrest : restText segments with
    | nil => simp
    | cons c more =>
        have hend := isRootEnd_head_restText segments c (by simp [hrest])
        simp [hend]
  rw [rootText, htake]
  exact Path.trim_of_forall_isNameChar (Path.isNameChar_of_isPlainName hname)

-- A reference is looked up as it stands only if no segment follows its root.
theorem all_not_isRootEnd_iff {text : List Char} (hname : isPlainName text = true)
    (segments : Path) :
    ((text ++ restText segments).all fun c => !isRootEnd c) = true ↔ segments = [] := by
  constructor
  · intro hall
    cases segments with
    | nil => rfl
    | cons segment more =>
        obtain ⟨c, rest, hrest, _⟩ := Path.exists_restText_cons segment more
        have hend := isRootEnd_head_restText (segment :: more) c (by simp [hrest])
        have hfalse := List.all_eq_true.mp hall c (by simp [hrest])
        simp [hend] at hfalse
  · rintro rfl
    rw [restText, List.flatMap_nil, List.append_nil]
    exact List.all_eq_true.mpr (not_isRootEnd_of_mem_plainName hname)

-- A canonical path leads where its segments do, when its computed keys have been resolved.
theorem resolveWithin_format (hname : isPlainName name.toList = true)
    (h : ∀ key, .computed key ∈ segments → Path.IsBracketed key.toList (.computed key))
    (levels : Nat) :
    let path := Path.format (.property name :: segments)
    env.resolveWithin locals (levels + 1) path.toList =
      match env.lookup? locals name with
      | none => .error (.unknown name (env.availableNames locals))
      | some root => (resolveKeys (env.resolveWithin locals levels) path segments).bind fun found =>
          (Path.get root found path).mapError .access := by
  intro path
  have hkeys : ∀ key, .computed key ∈ Segment.property name :: segments →
      Path.IsBracketed key.toList (.computed key) := by simpa using h
  have hread : Path.read path = .ok (.property name :: segments) :=
    Path.read_canonical (by simp) hkeys
  have hroot : rootText path.toList = name.toList := by
    rw [Path.toList_format hname, rootText_canonical hname]
  have hall : (path.toList.all fun c => !isRootEnd c) = true ↔ segments = [] := by
    rw [Path.toList_format hname, all_not_isRootEnd_iff hname]
  have hne : name.toList.isEmpty = false := by
    obtain ⟨first, more, heq, _⟩ := Path.exists_of_isPlainName hname
    rw [heq]
    rfl
  have htrim : Text.trim path.toList = path.toList := Path.trim_format _
  rw [resolveWithin]
  simp only [htrim, hroot, hne, String.ofList_toList, hread, List.tail_cons, Bool.false_eq_true,
    if_false, hall]
  cases env.lookup? locals name with
  | none => rfl
  | some root =>
      by_cases hsegments : segments = []
      · rw [hsegments]
        rfl
      · simp only [if_neg hsegments]
        cases resolveKeys (env.resolveWithin locals levels) path segments with
        | error fault => rfl
        | ok found =>
            simp only [Except.bind]
            cases Path.get root found path <;> rfl

-- Without computed keys it leads there at once.
theorem resolve_format (hname : isPlainName name.toList = true)
    (h : ∀ key, Segment.computed key ∉ segments) :
    env.resolve locals (Path.format (.property name :: segments)) =
      env.follow locals name segments (Path.format (.property name :: segments)) := by
  have hkeys : ∀ key, .computed key ∈ segments → Path.IsBracketed key.toList (.computed key) :=
    fun key hkey => absurd hkey (h key)
  rw [resolve, resolveWithin_format hname hkeys, follow, resolveKeys_eq_self h]
  rfl

end Environment

-- Whatever a canonical path leads to can be written as a reference, which evaluates to it.
theorem Tree.evaluate_format (operators : OperatorTable) (env : Environment) (locals : Scope)
    (hname : isPlainName name.toList = true) (hdollar : name.toList.head? ≠ some '$')
    (h : ∀ key, Segment.computed key ∉ segments) :
    let path := Path.format (.property name :: segments)
    ∃ children, Token.read ("$\x7b" ++ path ++ "\x7d") = .ok [.group .reference path children] ∧
      Tree.parse [.group .reference path children] = .ok (.reference path) ∧
      (Tree.reference path).evaluate operators env locals =
        (env.follow locals name segments path).mapError .reference := by
  intro path
  obtain ⟨children, hread⟩ := Token.exists_read_format hname hdollar h
  have hreads : Tree.Reads [.group .reference path children] (.reference path) := .leaf rfl
  have hheight : (Tree.reference path).height ≤ maxNesting := by
    rw [Tree.height, maxNesting]
    omega
  refine ⟨children, hread, Tree.parse_eq_ok_iff.mpr ⟨hreads, hheight⟩, ?_⟩
  rw [Tree.evaluate, Environment.resolve_format hname h]
  cases env.follow locals name segments path with
  | error fault => rfl
  | ok v => rfl

-- A name that has in it what ends a reference, a string, a template or an escape.
def markedName : String :=
  "\x7d\"`\\"

theorem Tree.evaluate_format_markedName :
    let segments : Path := [.property markedName, .index 0]
    let path := Path.format (.property "a" :: segments)
    let env : Environment := ⟨[("a", .object [(markedName, .array [.int 7])])], .null⟩
    isPlainName "a".toList = true ∧ "a".toList.head? ≠ some '$' ∧
      (∀ key, Segment.computed key ∉ segments) ∧
      ∃ children, Token.read ("$\x7b" ++ path ++ "\x7d") = .ok [.group .reference path children] ∧
        Tree.parse [.group .reference path children] = .ok (.reference path) ∧
        (Tree.reference path).evaluate OperatorTable.standard env [] = .ok (.int 7) := by
  intro segments path env
  have hname : isPlainName "a".toList = true := by decide +kernel
  have hdollar : "a".toList.head? ≠ some '$' := by decide
  have hkeys : ∀ key, Segment.computed key ∉ segments := by simp [segments]
  obtain ⟨children, hread, hparse, hvalue⟩ :=
    Tree.evaluate_format OperatorTable.standard env [] hname hdollar hkeys
  have hfollow : env.follow [] "a" segments path = .ok (.int 7) := rfl
  refine ⟨hname, hdollar, hkeys, children, hread, hparse, ?_⟩
  rw [hvalue, hfollow]
  rfl

end FlowExpr
