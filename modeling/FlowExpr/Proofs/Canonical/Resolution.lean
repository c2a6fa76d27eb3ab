import FlowExpr.Proofs.Canonical.Reading
import FlowExpr.Proofs.Canonical.Theorems
import FlowExpr.Proofs.Dependency.Agreement
import FlowExpr.Proofs.PathText.Roots

namespace FlowExpr

open FlowExpr.Path (isPlainName opensBracket)

variable {segments found : Path} {env : Environment} {locals : Scope} {v : Value} {path : String}

-- The text of a path matters for what goes wrong on it only.
theorem Path.get_eq_ok {root : Value} (h : Path.get root segments path = .ok v) (other : String) :
    Path.get root segments other = .ok v := by
  induction segments generalizing root with
  | nil => exact h
  | cons segment rest ih =>
      rw [get] at h ⊢
      cases hstep : step root segment with
      | error failure => simp [hstep] at h
      | ok next =>
          simp only [hstep] at h ⊢
          split at h
          · rename_i hlength
            rw [if_pos hlength]
            cases rest with
            | nil => exact h
            | cons => simp [endAtLength] at h
          · rename_i hlength
            rw [if_neg hlength]
            exact ih h

namespace Environment

-- A path that starts with a bracket has no root.
theorem resolveWithin_bracket (levels : Nat) (text : List Char) :
    env.resolveWithin locals (levels + 1) ('[' :: text) =
      .error (.malformed ⟨String.ofList (Text.trim ('[' :: text)), 0, .missingRoot⟩) := by
  have htrim : Text.trim ('[' :: text) = '[' :: Text.trimEnd text := Text.trimEnd_cons rfl text
  rw [resolveWithin, htrim]
  rfl

-- So a path with a value has no computed key that starts with one.
theorem any_opensBracket_of_resolveKeys {levels : Nat}
    (h : resolveKeys (env.resolveWithin locals levels) path segments = .ok found) :
    segments.any opensBracket = false := by
  induction segments generalizing found with
  | nil => rfl
  | cons segment rest ih =>
      cases segment with
      | property name | index i =>
          obtain ⟨more, hmore, -⟩ := Outcome.map_eq_ok_iff.mp h
          exact ih hmore
      | computed key =>
          rw [resolveKeys] at h
          cases hkey : env.resolveWithin locals levels (keyPath key.toList) with
          | error fault => simp [hkey] at h
          | ok value =>
              simp only [hkey] at h
              cases hsegment : keySegment? value with
              | none => simp [hsegment] at h
              | some segment =>
                  simp only [hsegment] at h
                  obtain ⟨more, hmore, -⟩ := Outcome.map_eq_ok_iff.mp h
                  rw [List.any_cons, ih hmore, Bool.or_false]
                  cases hopens : opensBracket (.computed key) with
                  | false => rfl
                  | true =>
                      obtain ⟨tail, htail⟩ := List.head?_eq_some_iff.mp (beq_iff_eq.mp hopens)
                      have hpath : keyPath key.toList = '[' :: tail := by
                        rw [htail]
                        rfl
                      rw [hpath] at hkey
                      cases levels with
                      | zero => simp [resolveWithin] at hkey
                      | succ levels => simp [resolveWithin_bracket] at hkey

-- What it takes for a path to have a value.
theorem exists_of_resolveWithin {levels : Nat} (hread : Path.read path = .ok segments)
    (h : env.resolveWithin locals (levels + 1) path.toList = .ok v) :
    ∃ name rest root found, segments = .property name :: rest ∧
      env.lookup? locals name = some root ∧
      resolveKeys (env.resolveWithin locals levels) (String.ofList (Text.trim path.toList)) rest =
        .ok found ∧
      Path.get root found (String.ofList (Text.trim path.toList)) = .ok v := by
  have hspells := (Path.read_eq_ok_iff.mp hread).trim
  have htrimmed : Path.read (String.ofList (Text.trim path.toList)) = .ok segments := by
    rwa [Path.read_eq_ok_iff, String.toList_ofList]
  rw [resolveWithin] at h
  by_cases hroot : rootText (Text.trim path.toList) = []
  · simp [hroot] at h
  obtain ⟨rest, hsegments, hwhole⟩ := hspells.root hroot
  rw [List.isEmpty_eq_false_iff.mpr hroot] at h
  simp only [hwhole, htrimmed] at h
  cases hlookup : env.lookup? locals (String.ofList (rootText (Text.trim path.toList))) with
  | none => simp [hlookup] at h
  | some root =>
      subst hsegments
      simp only [hlookup, List.tail_cons, Bool.false_eq_true, if_false] at h
      refine ⟨String.ofList (rootText (Text.trim path.toList)), rest, root, ?_⟩
      by_cases hrest : rest = []
      · rw [if_pos hrest] at h
        obtain rfl := Except.ok.inj h
        subst hrest
        exact ⟨[], rfl, hlookup, rfl, rfl⟩
      · rw [if_neg hrest] at h
        cases hkeys : resolveKeys (env.resolveWithin locals levels)
            (String.ofList (Text.trim path.toList)) rest with
        | error fault => simp [hkeys] at h
        | ok found =>
            simp only [hkeys] at h
            cases hget : Path.get root found (String.ofList (Text.trim path.toList)) with
            | error e => simp [hget] at h
            | ok value =>
                simp only [hget] at h
                obtain rfl := Except.ok.inj h
                exact ⟨found, rfl, hlookup, rfl, hget⟩

-- A name that is not plain stands in brackets, where it is no root.
theorem resolve_format_bracket {name : String} (hname : isPlainName name.toList = false)
    (rest : Path) :
    env.resolve locals (Path.format (.property name :: rest)) =
      .error (.malformed ⟨Path.format (.property name :: rest), 0, .missingRoot⟩) := by
  rcases Path.segmentText_shape (.property name) with ⟨_, heq, hplain⟩ | htext
  · obtain rfl := Segment.property.inj heq
    simp [hplain] at hname
  · have htrim := Path.trim_format (.property name :: rest)
    have hformat := Path.toList_format_cons (.property name) rest
    rw [htext, List.cons_append] at hformat
    rw [resolve, hformat, resolveWithin_bracket, ← hformat, htrim, String.ofList_toList]

-- The canonical text of a path with a value has that value, if the root is a plain name. A root of
-- another kind is found no more.
theorem resolve_format_of_resolve (hread : Path.read path = .ok segments)
    (hvalue : env.resolve locals path = .ok v) :
    ∃ name rest, segments = .property name :: rest ∧
      env.resolve locals (Path.format segments) =
        if isPlainName name.toList then .ok v
        else .error (.malformed ⟨Path.format segments, 0, .missingRoot⟩) := by
  obtain ⟨name, rest, root, found, rfl, hlookup, hkeys, hget⟩ :=
    exists_of_resolveWithin hread hvalue
  refine ⟨name, rest, rfl, ?_⟩
  by_cases hname : isPlainName name.toList = true
  · have hopens := any_opensBracket_of_resolveKeys hkeys
    have hcanonical : ∀ key, .computed key ∈ rest →
        Path.IsBracketed key.toList (.computed key) := by
      intro key hkey
      apply (Path.read_eq_ok_iff.mp hread).canonical _ (List.mem_cons_of_mem _ hkey)
      simpa using List.any_eq_false.mp hopens _ hkey
    have hsame : resolveKeys (env.resolveWithin locals maxNesting)
        (Path.format (.property name :: rest)) rest = .ok found :=
      resolveKeys_eq_ok (fun _ _ _ hv => hv) hkeys
    rw [if_pos hname, resolve, resolveWithin_format hname hcanonical, hlookup]
    simp only [hsame, Except.bind, Path.get_eq_ok hget]
    rfl
  · rw [if_neg hname]
    exact resolve_format_bracket (by simpa using hname) rest

-- The canonical text does without the blanks around a key that is looked up.
theorem resolve_format_of_resolve_spacedKey :
    let env : Environment := ⟨[("rows", .array [.int 4, .int 7]), ("pick", .int 1)], .null⟩
    let segments : Path := [.property "rows", .computed "pick"]
    Path.read "rows[ pick ]" = .ok segments ∧ env.resolve [] "rows[ pick ]" = .ok (.int 7) ∧
      env.resolve [] (Path.format segments) = .ok (.int 7) := by
  intro env segments
  have hread : Path.read "rows[ pick ]" = .ok segments := by
    have hname : Path.IsNameText ['r', 'o', 'w', 's'] := ⟨by decide, by simp [Path.isNameEnd]⟩
    have hinner : Token.Skips Path.keyDelimiters none ['p', 'i', 'c', 'k', ' '] :=
      .of_plain (by simp [Token.IsPlain, Path.keyDelimiters])
    have hstart : Path.StartsBare [' '] ['p', 'i', 'c', 'k', ' '] := by
      rintro c ⟨⟩
      exact ⟨rfl, by decide, by simp⟩
    have hkey : Path.IsBracketed ([' '] ++ ['p', 'i', 'c', 'k', ' ']) (.computed "pick") :=
      .bare rfl hstart hinner (.computed rfl)
    exact Path.read_eq_ok_iff.mpr (.name hname (.bracket hkey .nil))
  have hvalue : env.resolve [] "rows[ pick ]" = .ok (.int 7) := by
    have htrim : Text.trim "rows[ pick ]".toList = "rows[ pick ]".toList := by decide
    have hroot : rootText "rows[ pick ]".toList = "rows".toList := by decide
    have hne : "rows".toList.isEmpty = false := by decide
    have hlookup : env.lookup? [] "rows" = some (.array [.int 4, .int 7]) := rfl
    have hwhole : ("rows[ pick ]".toList.all fun c => !isRootEnd c) = false := by decide
    have hkeys : resolveKeys (env.resolveWithin [] maxNesting) "rows[ pick ]" [.computed "pick"] =
        .ok [.index 1] := by
      have hpath : keyPath "pick".toList = "pick".toList := by decide
      have hkey : env.resolveWithin [] maxNesting "pick".toList = .ok (.int 1) := rfl
      rw [resolveKeys, hpath, hkey]
      rfl
    have hget : Path.get (.array [.int 4, .int 7]) [.index 1] "rows[ pick ]" = .ok (.int 7) := rfl
    rw [resolve, resolveWithin]
    simp only [htrim, hroot, hne, hwhole, String.ofList_toList, hlookup, hread, segments,
      List.tail_cons, hkeys, hget]
    rfl
  obtain ⟨name, rest, hsegments, hformat⟩ := resolve_format_of_resolve hread hvalue
  obtain rfl : "rows" = name := Segment.property.inj (List.cons.inj hsegments).1
  have hplain : isPlainName "rows".toList = true := by decide +kernel
  rw [if_pos hplain] at hformat
  exact ⟨hread, hvalue, hformat⟩

-- A step may have any name.
theorem not_resolve_format_of_resolve :
    ¬∀ (env : Environment) (locals : Scope) (path : String) (segments : Path) (v : Value),
      Path.read path = .ok segments → env.resolve locals path = .ok v →
        env.resolve locals (Path.format segments) = .ok v := by
  intro hall
  let env : Environment := ⟨[("a-b", .int 1)], .null⟩
  have hname : Path.IsNameText ['a', '-', 'b'] := ⟨by decide, by simp [Path.isNameEnd]⟩
  have hread : Path.read "a-b" = .ok [.property "a-b"] :=
    Path.read_eq_ok_iff.mpr (.name hname .nil)
  have hvalue : env.resolve [] "a-b" = .ok (.int 1) := by
    rfl
  have hplain : isPlainName "a-b".toList = false := by decide +kernel
  have herror := hall env [] "a-b" _ _ hread hvalue
  rw [resolve_format_bracket hplain] at herror
  simp at herror

end Environment

end FlowExpr
