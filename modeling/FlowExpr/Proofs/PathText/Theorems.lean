import FlowExpr.Proofs.PathText.Roots

namespace FlowExpr.Environment

variable {env : Environment} {locals : Scope} {text : List Char} {segments : Path}

-- What the segments of a path lead to. The first of them is the root that is looked up.
def walkFrom (env : Environment) (locals : Scope)
    (resolve : List Char → Except ReferenceFault Value) (path : String) :
    Path → Except ReferenceFault Value
  | .property name :: rest =>
    match env.lookup? locals name with
    | none => .error (.unknown name (env.availableNames locals))
    | some root =>
      match resolveKeys resolve path rest with
      | .error fault => .error fault
      | .ok found =>
        match Path.get root found path with
        | .error e => .error (.access e)
        | .ok v => .ok v
  | _ => .error (.malformed ⟨path, 0, .missingRoot⟩)

-- The value of a path whose root is taken from its segments wherever the path has any, and so is
-- that of each computed key.
def resolveBySegments (env : Environment) (locals : Scope) :
    Nat → List Char → Except ReferenceFault Value
  | 0, text => .error (.malformed ⟨String.ofList (Text.trim text), 0, .nestedTooDeeply⟩)
  | levels + 1, text =>
    let path := String.ofList (Text.trim text)
    let name := String.ofList (rootText (Text.trim text))
    if (rootText (Text.trim text)).isEmpty then .error (.malformed ⟨path, 0, .missingRoot⟩)
    else
      match Path.read path with
      | .ok segments => walkFrom env locals (resolveBySegments env locals levels) path segments
      | .error e =>
        match env.lookup? locals name with
        | none => .error (.unknown name (env.availableNames locals))
        | some root =>
          if (Text.trim text).all fun c => !isRootEnd c then .ok root else .error (.malformed e)

-- The name in front of the first dot or bracket is the first segment, and the first segment is all
-- there is only where the text has neither.
theorem exists_of_read_trimmed (hroot : rootText (Text.trim text) ≠ [])
    (hread : Path.read (String.ofList (Text.trim text)) = .ok segments) :
    ∃ rest, segments = .property (String.ofList (rootText (Text.trim text))) :: rest ∧
      (((Text.trim text).all fun c => !isRootEnd c) = true ↔ rest = []) := by
  have hspells := Path.read_eq_ok_iff.mp hread
  rw [String.toList_ofList] at hspells
  exact hspells.root hroot

-- One level, with the computed keys resolved in either way.
theorem resolveWithin_succ (levels : Nat) (text : List Char)
    (hroot : rootText (Text.trim text) ≠ [])
    (hread : Path.read (String.ofList (Text.trim text)) = .ok segments) :
    env.resolveWithin locals (levels + 1) text =
      walkFrom env locals (env.resolveWithin locals levels) (String.ofList (Text.trim text))
        segments := by
  obtain ⟨rest, rfl, hwhole⟩ := exists_of_read_trimmed hroot hread
  rw [resolveWithin, walkFrom]
  simp only [List.isEmpty_eq_false_iff.mpr hroot, hread, hwhole, List.tail_cons,
    Bool.false_eq_true, if_false]
  cases env.lookup? locals (String.ofList (rootText (Text.trim text))) with
  | none => rfl
  | some root =>
      by_cases hrest : rest = []
      · subst hrest
        rfl
      · exact if_neg hrest

theorem resolveWithin_eq_resolveBySegments (env : Environment) (locals : Scope) (levels : Nat)
    (text : List Char) :
    env.resolveWithin locals levels text = env.resolveBySegments locals levels text := by
  induction levels generalizing text with
  | zero => rfl
  | succ levels ih =>
      have hkeys : env.resolveWithin locals levels = env.resolveBySegments locals levels :=
        funext ih
      by_cases hroot : rootText (Text.trim text) = []
      · simp [resolveWithin, resolveBySegments, hroot]
      cases hread : Path.read (String.ofList (Text.trim text)) with
      | ok segments =>
          rw [resolveWithin_succ levels text hroot hread, hkeys, resolveBySegments]
          simp only [List.isEmpty_eq_false_iff.mpr hroot, hread, Bool.false_eq_true, if_false]
      | error e =>
          cases hlookup : env.lookup? locals (String.ofList (rootText (Text.trim text))) with
          | none | some root =>
              simp only [resolveWithin, resolveBySegments, List.isEmpty_eq_false_iff.mpr hroot,
                hread, hlookup, Bool.false_eq_true, if_false]

-- Where a path has more than a root, its first segment is the name that is looked up, so the walk
-- over the others starts at the value of that name, and so do the walks for its computed keys,
-- however deeply they are nested.
theorem resolve_from_root (hroot : rootText (Text.trim text) ≠ [])
    (hend : ∃ c ∈ Text.trim text, isRootEnd c = true)
    (hread : Path.read (String.ofList (Text.trim text)) = .ok segments) :
    (∃ rest, segments = .property (String.ofList (rootText (Text.trim text))) :: rest ∧
      rest ≠ []) ∧
    ∀ env locals levels,
      env.resolveWithin locals (levels + 1) text =
        walkFrom env locals (env.resolveBySegments locals levels)
          (String.ofList (Text.trim text)) segments := by
  obtain ⟨rest, hsegments, hwhole⟩ := exists_of_read_trimmed hroot hread
  refine ⟨⟨rest, hsegments, fun hrest => ?_⟩, fun env locals levels => ?_⟩
  · obtain ⟨c, hc, hcend⟩ := hend
    have hnot := List.all_eq_true.mp (hwhole.mpr hrest) c hc
    simp [hcend] at hnot
  · have hkeys : env.resolveWithin locals levels = env.resolveBySegments locals levels :=
      funext (resolveWithin_eq_resolveBySegments env locals levels)
    rw [resolveWithin_succ levels text hroot hread, hkeys]

-- Blanks around the path and inside its root, and a computed key with a root of its own.
theorem resolve_from_root_computed :
    let text := " a [b.c]".toList
    let env : Environment :=
      ⟨[("a", .array [.int 4, .int 7]), ("b", .object [("c", .int 1)])], .null⟩
    rootText (Text.trim text) = ['a'] ∧
      (∃ c ∈ Text.trim text, isRootEnd c = true) ∧
      Path.read (String.ofList (Text.trim text)) = .ok [.property "a", .computed "b.c"] ∧
      env.resolveWithin [] 2 text = .ok (.int 7) := by
  intro text env
  have htrim : Text.trim text = "a [b.c]".toList := by decide
  have hread : Path.read (String.ofList (Text.trim text)) =
      .ok [.property "a", .computed "b.c"] := by
    have hname : Path.IsNameText ['a', ' '] := ⟨by decide, by simp [Path.isNameEnd]⟩
    have hinner : Token.Skips Path.keyDelimiters none ['b', '.', 'c'] :=
      .of_plain (by simp [Token.IsPlain, Path.keyDelimiters])
    have hstart : Path.StartsBare [] ['b', '.', 'c'] := by
      rintro c ⟨⟩
      exact ⟨rfl, by decide, by simp⟩
    have hkey : Path.IsBracketed ([] ++ ['b', '.', 'c']) (.computed "b.c") :=
      .bare rfl hstart hinner (.computed rfl)
    rw [htrim, Path.read_eq_ok_iff, String.toList_ofList]
    exact .name hname (.bracket hkey .nil)
  have hroot : rootText (Text.trim text) = ['a'] := by decide
  have hend : ∃ c ∈ Text.trim text, isRootEnd c = true := ⟨'[', by decide, rfl⟩
  obtain ⟨-, hwalk⟩ := resolve_from_root (by rw [hroot]; simp) hend hread
  have hkey : env.resolveBySegments [] 1 (keyPath "b.c".toList) = .ok (.int 1) := by
    have hpath : keyPath "b.c".toList = "b.c".toList := by decide
    have hsame : Text.trim "b.c".toList = "b.c".toList := by decide
    have hname : Path.IsNameText ['b'] := ⟨by decide, by simp [Path.isNameEnd]⟩
    have hfield : Path.IsNameText ['c'] := ⟨by decide, by simp [Path.isNameEnd]⟩
    have hinner : Path.read (String.ofList "b.c".toList) = .ok [.property "b", .property "c"] := by
      rw [Path.read_eq_ok_iff, String.toList_ofList]
      exact .name hname (.name hfield .nil)
    rw [hpath, resolveBySegments, hsame, hinner]
    rfl
  refine ⟨hroot, hend, hread, ?_⟩
  rw [hwalk env [] 1, walkFrom]
  simp only [resolveKeys, hkey]
  rfl

end FlowExpr.Environment
