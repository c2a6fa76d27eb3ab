import FlowExpr.Proofs.Dependency.Agreement
import FlowExpr.Proofs.Dependency.Closing
import FlowExpr.Proofs.Dependency.Mentions
import FlowExpr.Proofs.Dependency.Paths
import FlowExpr.Proofs.Grammar.Theorems
import FlowExpr.Proofs.Spelling.Theorems

namespace FlowExpr

namespace Dependency

variable {expression : String} {tokens : List Token} {tree : Tree}

-- The names that an evaluation looks up and that a scan of the text for `${` is not meant to tell:
-- the unmarked ones, and all of them if the references of the text are nested too deeply.
def unseenNames (expression : String) : List String :=
  if isTooDeep expression.toList then (roots expression).map Environment.Root.name
  else ((roots expression).filter fun root => !root.marked).map Environment.Root.name

theorem lex_of_read (h : Token.read expression = .ok tokens) :
    Token.lex expression = .ok tokens :=
  (Token.read_eq_ok_iff.mp h).2.1

-- The path of a reference in the tree of a text stands in the text, in the braces of a reference.
theorem standsIn_of_mem_references (hread : Token.read expression = .ok tokens)
    (hparse : Tree.parse tokens = .ok tree) {path : String} (hpath : path ∈ tree.references) :
    Environment.StandsIn expression.toList true path.toList := by
  have hreads : Tree.Reads tokens tree := (Tree.parse_eq_ok_iff.mp hparse).1
  obtain ⟨t, ht, hmentions⟩ := hreads.exists_mentions hpath
  have hspells := Token.spells_of_lex (lex_of_read hread)
  obtain ⟨spelling, hspelling, hspell⟩ := hspells.exists_of_mem ht
  obtain ⟨inner, hinner, rfl⟩ := hspell.exists_of_mentions hmentions
  have hwhole := hinner.trans hspelling
  obtain ⟨before, after, htrim, hbefore, hafter⟩ := Text.exists_of_trim inner
  rw [String.toList_ofList]
  refine ⟨?_, fun _ => ⟨before, after, hbefore, hafter, ?_⟩⟩
  · have hbody : inner <:+: '$' :: '{' :: (inner ++ ['}']) := ⟨['$', '{'], ['}'], by simp⟩
    exact (Text.trim_infix inner).trans (hbody.trans hwhole)
  · rwa [← List.append_assoc (Text.trim inner), ← List.append_assoc before, ← htrim]

-- Where the scan of a text does not give up, it lists every marked name that an evaluation looks
-- up.
theorem mem_of_marked {names : List String} (hread : Token.read expression = .ok tokens)
    (hparse : Tree.parse tokens = .ok tree)
    (hscan : rootsWithin maxNesting expression.toList = some names) {root : Environment.Root}
    (hroot : root ∈ tree.roots) (hmarked : root.marked = true) : root.name ∈ names := by
  obtain ⟨path, hpath, hmem⟩ := List.mem_flatMap.mp hroot
  have hstands := standsIn_of_mem_references hread hparse hpath
  obtain ⟨hne, hname, hmark⟩ := Environment.marksName_of_mem_pathRoots hstands hmem hmarked
  have hlisted := mem_of_marksName (lists_of_rootsWithin hscan) hne hname hmark
  rwa [String.ofList_toList] at hlisted

-- Every name that an evaluation looks up is listed, ignored, or out of sight of the scan, unless a
-- reference is left open.
theorem mem_of_mem_roots (hclosed : IsClosed expression.toList)
    (hread : Token.read expression = .ok tokens) (hparse : Tree.parse tokens = .ok tree)
    {root : Environment.Root} (hroot : root ∈ tree.roots) :
    root.name ∈ stepNames expression ∨ root.name ∈ ignoredNames ∨
      root.name ∈ unseenNames expression := by
  have hroots : roots expression = tree.roots := by simp only [roots, hread, hparse]
  cases hdeep : isTooDeep expression.toList with
  | true =>
      have hunseen : root.name ∈ unseenNames expression := by
        rw [unseenNames, if_pos hdeep, hroots]
        exact List.mem_map_of_mem hroot
      exact .inr (.inr hunseen)
  | false =>
      obtain ⟨names, hscan⟩ := exists_of_isClosed hclosed hdeep
      by_cases hmarked : root.marked = true
      · have hlisted := mem_of_marked hread hparse hscan hroot hmarked
        by_cases hignored : root.name ∈ ignoredNames
        · exact .inr (.inl hignored)
        · exact .inl ((mem_names hscan).mpr ⟨hlisted, hignored⟩)
      · have hunseen : root.name ∈ unseenNames expression := by
          rw [unseenNames, hdeep, if_neg Bool.false_ne_true, hroots]
          exact List.mem_map_of_mem (List.mem_filter.mpr ⟨hroot, by simp [hmarked]⟩)
        exact .inr (.inr hunseen)

end Dependency

namespace Evaluator

open Dependency (IsClosed hasQuotedBrace ignoredNames stepNames unseenNames)

variable {expression : String} {locals steps others : Scope} {context v : Value} {maxLength : Nat}
  {step : Option Step}

theorem run_withSteps {e : Evaluator} {deadline : Deadline} (hclosed : IsClosed expression.toList)
    (hagree : ∀ name, name ∈ stepNames expression ∨ name ∈ ignoredNames ∨
      name ∈ unseenNames expression → Fields.get? name e.environment.steps = Fields.get? name steps)
    (h : e.run expression locals deadline = .ok v) :
    (e.withSteps steps).run expression locals deadline = .ok v := by
  unfold run at h ⊢
  cases hread : Token.read expression with
  | error fault => simp [hread] at h
  | ok tokens =>
      simp only [hread] at h ⊢
      cases hdeadline : deadline.check with
      | error t => simp [hdeadline] at h
      | ok =>
          simp only [hdeadline] at h ⊢
          cases hparse : Tree.parse tokens with
          | error fault => simp [hparse] at h
          | ok tree =>
              simp only [hparse] at h ⊢
              have hroots : ∀ root ∈ tree.roots,
                  e.environment.AgreesOn (e.withSteps steps).environment root.name :=
                fun root hroot =>
                  hagree root.name (Dependency.mem_of_mem_roots hclosed hread hparse hroot)
              have hcontext : e.environment.context =
                  (e.withSteps steps).environment.context := rfl
              exact Tree.evaluate_of_agreesOn hcontext hroots h

-- An evaluation over the results of other steps succeeds with the same value if these agree with
-- the first ones on the listed names, the ignored ones, and those that the scan is not meant to
-- tell. The scan counts braces in quotes too, so there must be none, or they must leave every
-- reference closed.
theorem evaluate_of_agree
    (hbraces : hasQuotedBrace none expression.toList = false ∨ IsClosed expression.toList)
    (hagree : ∀ name, name ∈ stepNames expression ∨ name ∈ ignoredNames ∨
      name ∈ unseenNames expression → Fields.get? name steps = Fields.get? name others)
    (h : Evaluator.evaluate ⟨⟨steps, context⟩, .standard, none, maxLength⟩ expression locals step =
      .ok v) :
    Evaluator.evaluate ⟨⟨others, context⟩, .standard, none, maxLength⟩ expression locals step =
      .ok v := by
  unfold evaluate at h ⊢
  cases hguard : Guard.check expression maxLength with
  | error fault => simp [hguard] at h
  | ok =>
      have hclosed : IsClosed expression.toList :=
        hbraces.elim (Dependency.isClosed_of_check hguard) id
      simp only [hguard] at h ⊢
      cases hrun : run ⟨⟨steps, context⟩, .standard, none, maxLength⟩ expression locals
          (.start expression none) with
      | error c => simp [hrun] at h
      | ok value =>
          have hother : run ⟨⟨others, context⟩, .standard, none, maxLength⟩ expression locals
              (.start expression none) = .ok value := run_withSteps hclosed hagree hrun
          simp only [Option.map_none, hrun] at h
          simp only [Option.map_none, hother]
          exact h

end Evaluator

namespace Dependency

section BareKey

-- An expression with a computed key that does not stand in braces of its own.
def bareKey : String :=
  "$\x7ba[b]\x7d"

def bareKeyToken : Token :=
  .group .reference "a[b]" [.plain .identifier "a", .group .array "[b]" [.plain .identifier "b"]]

def letters : Value :=
  .array [.string "x", .string "y", .string "z"]

-- An evaluator that knows the letters, and at which index one of them is looked for.
def lettersAt (i : Int64) : Evaluator :=
  ⟨⟨[("a", letters), ("b", .int i)], .null⟩, .standard, none, defaultMaxLength⟩

private theorem toList_bareKey : bareKey.toList = ['$', '{', 'a', '[', 'b', ']', '}'] := by
  decide

private theorem lex_bareKey : Token.lex bareKey = .ok [bareKeyToken] := by
  have hkey : Token.lexWithin 254 ⟨['b'], 4⟩ = .ok [.plain .identifier "b"] := by
    have hname : Token.nextWith (Token.lexWithin 253) ⟨['b'], 4⟩ =
        ⟨.ok (some (.plain .identifier "b")), ⟨[], 5⟩⟩ := rfl
    have hend : Token.nextWith (Token.lexWithin 253) ⟨[], 5⟩ = ⟨.ok none, ⟨[], 5⟩⟩ := rfl
    rw [Token.lexWithin, Token.readAll_some hname, Token.readAll_none hend]
    rfl
  have hpath : Token.lexWithin 255 ⟨['a', '[', 'b', ']'], 2⟩ =
      .ok [.plain .identifier "a", .group .array "[b]" [.plain .identifier "b"]] := by
    have hname : Token.nextWith (Token.lexWithin 254) ⟨['a', '[', 'b', ']'], 2⟩ =
        ⟨.ok (some (.plain .identifier "a")), ⟨['[', 'b', ']'], 3⟩⟩ := rfl
    have hbracket : Token.nextWith (Token.lexWithin 254) ⟨['[', 'b', ']'], 3⟩ =
        ⟨((Token.lexWithin 254 ⟨['b'], 4⟩).map (.group .array "[b]")).map some, ⟨[], 6⟩⟩ := rfl
    have hend : Token.nextWith (Token.lexWithin 254) ⟨[], 6⟩ = ⟨.ok none, ⟨[], 6⟩⟩ := rfl
    rw [hkey] at hbracket
    rw [Token.lexWithin, Token.readAll_some hname, Token.readAll_some hbracket,
      Token.readAll_none hend]
    rfl
  have hreference : Token.nextWith (Token.lexWithin 255)
      ⟨['$', '{', 'a', '[', 'b', ']', '}'], 0⟩ =
        ⟨((Token.lexWithin 255 ⟨['a', '[', 'b', ']'], 2⟩).map (.group .reference "a[b]")).map some,
          ⟨[], 7⟩⟩ := rfl
  have hend : Token.nextWith (Token.lexWithin 255) ⟨[], 7⟩ = ⟨.ok none, ⟨[], 7⟩⟩ := rfl
  rw [hpath] at hreference
  rw [Token.lex, toList_bareKey, maxNesting, Token.lexWithin, Text.Cursor.start,
    Token.readAll_some hreference, Token.readAll_none hend]
  rfl

private theorem read_bareKey : Token.read bareKey = .ok [bareKeyToken] := by
  have hblank : Text.isBlankText bareKey.toList = false := by
    rw [toList_bareKey]
    rfl
  simp only [Token.read, hblank, lex_bareKey]
  rfl

private theorem parse_bareKey : Tree.parse [bareKeyToken] = .ok (.reference "a[b]") :=
  Tree.parse_eq_ok_iff.mpr ⟨.leaf rfl, by decide⟩

private theorem path_bareKey : Path.read "a[b]" = .ok [.property "a", .computed "b"] := by
  have hname : Path.readName ⟨['a', '[', 'b', ']'], 0⟩ =
      .ok (.property "a", ⟨['[', 'b', ']'], 1⟩) := rfl
  have hkey : Path.readBracket ⟨['[', 'b', ']'], 1⟩ = .ok (.computed "b", ⟨[], 4⟩) := rfl
  have hrest : Path.readRest ⟨['[', 'b', ']'], 1⟩ = .ok [.computed "b"] := by
    rw [Path.readRest_bracket rfl hkey, Path.readRest_nil rfl]
    rfl
  have hchars : "a[b]".toList = ['a', '[', 'b', ']'] := by decide
  have hsegments : Path.readSegments ⟨['a', '[', 'b', ']'], 0⟩ =
      .ok [.property "a", .computed "b"] := by
    simp only [Path.readSegments, hname, hrest]
    rfl
  rw [Path.read, hchars, Text.Cursor.start, hsegments]

private theorem path_key : Path.read "b" = .ok [.property "b"] := by
  have hname : Path.readName ⟨['b'], 0⟩ = .ok (.property "b", ⟨[], 1⟩) := rfl
  have hchars : "b".toList = ['b'] := by decide
  have hrest : Path.readRest ⟨[], 1⟩ = .ok [] := Path.readRest_nil rfl
  have hsegments : Path.readSegments ⟨['b'], 0⟩ = .ok [.property "b"] := by
    simp only [Path.readSegments, hname, hrest]
    rfl
  rw [Path.read, hchars, Text.Cursor.start, hsegments]

-- The scan sees the letters and not the index.
private theorem scan_bareKey : rootsWithin maxNesting bareKey.toList = some ["a"] := by
  have hspan : span 0 ['a', '[', 'b', ']', '}'] = some (['a', '[', 'b', ']'], []) := rfl
  have hbody : rootsWithin 255 ['a', '[', 'b', ']'] = some [] := rootsWith_of_not_mem (by decide)
  have hrest : rootsWith (rootsWithin 255) [] = some [] := rootsWith_of_not_mem (by decide)
  rw [toList_bareKey, maxNesting, rootsWithin, rootsWith_mark hspan hbody hrest]
  decide

private theorem roots_bareKey : roots bareKey = [⟨"a", true⟩, ⟨"b", false⟩] := by
  have hchars : "a[b]".toList = ['a', '[', 'b', ']'] := by decide
  have hkey : Environment.pathRoots maxNesting false ['b'] = [⟨"b", false⟩] := by
    have htrim : Text.trim ['b'] = ['b'] := rfl
    have hroot : Environment.rootText ['b'] = ['b'] := rfl
    have hname : String.ofList ['b'] = "b" := by decide
    rw [maxNesting, Environment.pathRoots]
    simp only [htrim, hroot, hname, path_key]
    rfl
  have hpath : Environment.pathRoots (maxNesting + 1) true ['a', '[', 'b', ']'] =
      [⟨"a", true⟩, ⟨"b", false⟩] := by
    have htrim : Text.trim ['a', '[', 'b', ']'] = ['a', '[', 'b', ']'] := rfl
    have hroot : Environment.rootText ['a', '[', 'b', ']'] = ['a'] := rfl
    have hname : String.ofList ['a'] = "a" := by decide
    have htext : String.ofList ['a', '[', 'b', ']'] = "a[b]" := by decide
    have hmark : ['a'].all Text.isNameChar = true := rfl
    have hroots : Environment.keyRoots (Environment.pathRoots maxNesting) (.computed "b") =
        [⟨"b", false⟩] := hkey
    rw [Environment.pathRoots]
    simp only [htrim, hroot, hname, htext, hmark, path_bareKey, List.tail_cons, List.flatMap_cons,
      List.flatMap_nil, hroots]
    rfl
  simp only [roots, read_bareKey, parse_bareKey, Tree.roots, Tree.references, List.flatMap_cons,
    List.flatMap_nil, hchars, hpath]
  rfl

private theorem stepNames_bareKey : stepNames bareKey = ["a"] := by
  rw [stepNames, names, scan_bareKey]
  rfl

private theorem unseenNames_bareKey : unseenNames bareKey = ["b"] := by
  have hdeep : isTooDeep bareKey.toList = false := by
    rw [toList_bareKey]
    rfl
  rw [unseenNames, hdeep, roots_bareKey]
  rfl

private theorem resolve_bareKey {env : Environment} {i : Int64} {segment : Segment} {v : Value}
    (hletters : env.lookup? [] "a" = some letters) (hindex : env.lookup? [] "b" = some (.int i))
    (hsegment : Environment.keySegment? (.int i) = some segment)
    (hget : Path.get letters [segment] "a[b]" = .ok v) : env.resolve [] "a[b]" = .ok v := by
  have hkey : env.resolveWithin [] maxNesting ['b'] = .ok (.int i) := by
    have htrim : Text.trim ['b'] = ['b'] := rfl
    have hroot : Environment.rootText ['b'] = ['b'] := rfl
    have hname : String.ofList ['b'] = "b" := by decide
    have hwhole : (['b'].all fun c => !Environment.isRootEnd c) = true := rfl
    rw [maxNesting, Environment.resolveWithin]
    simp only [htrim, hroot, hname, hwhole, hindex]
    rfl
  have hchars : "a[b]".toList = ['a', '[', 'b', ']'] := by decide
  have htrim : Text.trim ['a', '[', 'b', ']'] = ['a', '[', 'b', ']'] := rfl
  have hroot : Environment.rootText ['a', '[', 'b', ']'] = ['a'] := rfl
  have hname : String.ofList ['a'] = "a" := by decide
  have htext : String.ofList ['a', '[', 'b', ']'] = "a[b]" := by decide
  have hwhole : (['a', '[', 'b', ']'].all fun c => !Environment.isRootEnd c) = false := rfl
  have hbare : Environment.keyPath "b".toList = ['b'] := by decide
  rw [Environment.resolve, hchars, Environment.resolveWithin]
  simp only [htrim, hroot, hname, htext, hwhole, hletters, path_bareKey, List.tail_cons,
    Environment.resolveKeys, hbare, hkey, hsegment, Except.map, hget]
  rfl

private theorem evaluate_bareKey {e : Evaluator} {v : Value}
    (hlength : e.maxLength = defaultMaxLength) (htimeouts : e.timeouts = none)
    (h : e.environment.resolve [] "a[b]" = .ok v) :
    e.evaluate bareKey [] none = .ok v := by
  have hguard : Guard.check bareKey defaultMaxLength = .ok () := by
    unfold Guard.check
    rw [toList_bareKey]
    rfl
  have hrun : e.run bareKey [] (.start bareKey none) = .ok v := by
    simp only [Evaluator.run, read_bareKey, parse_bareKey, Deadline.start, Deadline.check,
      Tree.evaluate, h]
  simp only [Evaluator.evaluate, hlength, htimeouts, hguard, Option.map_none, hrun]

-- The listed names and the ignored ones alone do not determine a value. The index in `a[b]` is not
-- listed, and another index picks another letter.
theorem not_evaluate_of_stepNames :
    ¬∀ (expression : String) (context : Value) (locals first second : Scope) (v : Value),
      (∀ name, name ∈ stepNames expression ∨ name ∈ ignoredNames →
        Fields.get? name first = Fields.get? name second) →
      Evaluator.evaluate ⟨⟨first, context⟩, .standard, none, defaultMaxLength⟩ expression locals
        none = .ok v →
      Evaluator.evaluate ⟨⟨second, context⟩, .standard, none, defaultMaxLength⟩ expression locals
        none = .ok v := by
  intro hall
  have hfirst : (lettersAt 2).evaluate bareKey [] none = .ok (.string "z") :=
    evaluate_bareKey rfl rfl (resolve_bareKey rfl rfl rfl rfl)
  have hsecond : (lettersAt 0).evaluate bareKey [] none = .ok (.string "x") :=
    evaluate_bareKey rfl rfl (resolve_bareKey rfl rfl rfl rfl)
  have hagree : ∀ name, name ∈ stepNames bareKey ∨ name ∈ ignoredNames →
      Fields.get? name (lettersAt 2).environment.steps =
        Fields.get? name (lettersAt 0).environment.steps := by
    intro name hname
    rw [stepNames_bareKey] at hname
    have hne : "b" ≠ name := by
      rintro rfl
      revert hname
      decide
    simp [lettersAt, Fields.get?, hne]
  have hthird := hall bareKey .null [] _ _ _ hagree hfirst
  have hsame : (lettersAt 0).evaluate bareKey [] none = .ok (.string "z") := hthird
  rw [hsecond] at hsame
  simp at hsame

theorem evaluate_of_agree_bareKey :
    let others : Scope := [("c", .null), ("b", .int 2), ("a", letters)]
    hasQuotedBrace none bareKey.toList = false ∧
      (∀ name, name ∈ stepNames bareKey ∨ name ∈ ignoredNames ∨ name ∈ unseenNames bareKey →
        Fields.get? name (lettersAt 2).environment.steps = Fields.get? name others) ∧
      Evaluator.evaluate ⟨⟨others, .null⟩, .standard, none, defaultMaxLength⟩ bareKey [] none =
        .ok (.string "z") := by
  intro others
  have hbraces : hasQuotedBrace none bareKey.toList = false := by
    rw [toList_bareKey]
    rfl
  have hagree : ∀ name, name ∈ stepNames bareKey ∨ name ∈ ignoredNames ∨
      name ∈ unseenNames bareKey →
      Fields.get? name (lettersAt 2).environment.steps = Fields.get? name others := by
    intro name hname
    rw [stepNames_bareKey, unseenNames_bareKey] at hname
    have hne : "c" ≠ name := by
      rintro rfl
      revert hname
      decide
    by_cases hletters : "a" = name
    · rw [← hletters]
      rfl
    by_cases hindex : "b" = name
    · rw [← hindex]
      rfl
    · simp [others, lettersAt, Fields.get?, hne, hletters, hindex]
  exact ⟨hbraces, hagree, Evaluator.evaluate_of_agree (.inl hbraces) hagree
    (evaluate_bareKey (e := lettersAt 2) rfl rfl (resolve_bareKey rfl rfl rfl rfl))⟩

end BareKey

end Dependency

end FlowExpr
