import FlowExpr.Proofs.Canonical.Lemmas

namespace FlowExpr.Path

open Text (Cursor)

variable {text body : List Char} {segment : Segment} {segments good more : Path} {key : String}
  {offset : Nat}

theorem isPlain_of_isBlank {c : Char} (h : Text.isBlank c = true) :
    Token.IsPlain keyDelimiters c :=
  Token.isPlain_of_kind (by decide) h

-- A computed key has been read from brackets, and may stand in brackets again without the blanks
-- that were around it. Only behind such a blank could it start with a bracket.
theorem IsBracketed.canonical (h : IsBracketed body segment)
    (hopens : opensBracket segment = false) :
    IsBracketed (keyText segment) segment := by
  apply isBracketed_keyText
  rintro key rfl
  cases h with
  | @bare before inner _ _ hstart hinner hsegment =>
      cases hsegment with
      | computed hdigits =>
          obtain ⟨after, htext, hafter⟩ := Text.exists_behind_trim fun c hc => (hstart c hc).1
          simp only [opensBracket, String.toList_ofList] at hopens ⊢
          have hskips : Token.Skips keyDelimiters none (Text.trim inner) := by
            rw [htext] at hinner
            apply hinner.of_append_plain isProper_key
            exact fun c hc => isPlain_of_isBlank (List.all_eq_true.mp hafter c hc)
          have hfirst : StartsBare [] (Text.trim inner) := by
            intro c hc
            have hhead : c ∈ inner.head? := by
              rw [htext, List.head?_append, Option.mem_def.mp hc]
              rfl
            obtain ⟨hblank, hquote, -⟩ := hstart c hhead
            refine ⟨hblank, hquote, ?_⟩
            rintro - rfl
            rw [Option.mem_def.mp hc] at hopens
            simp at hopens
          have hbare : IsBare (Text.trim (Text.trim inner))
              (.computed (String.ofList (Text.trim inner))) := by
            rw [Text.trim_trim]
            exact .computed hdigits
          exact .bare rfl hfirst hskips hbare

theorem SpellsRest.canonical (h : SpellsRest text segments) :
    ∀ segment ∈ segments, opensBracket segment = false → IsBracketed (keyText segment) segment := by
  induction h with
  | nil => simp
  | name _ _ ih =>
      rw [List.forall_mem_cons]
      exact ⟨fun _ => isBracketed_keyText nofun, ih⟩
  | bracket hbody _ ih =>
      rw [List.forall_mem_cons]
      exact ⟨hbody.canonical, ih⟩

theorem Spells.canonical (h : Spells text segments) :
    ∀ segment ∈ segments, opensBracket segment = false → IsBracketed (keyText segment) segment := by
  cases h with
  | name _ hrest =>
      rw [List.forall_mem_cons]
      exact ⟨fun _ => isBracketed_keyText nofun, hrest.canonical⟩
  | bracket hbody hrest =>
      rw [List.forall_mem_cons]
      exact ⟨hbody.canonical, hrest.canonical⟩

theorem Spells.ne_nil (h : Spells text segments) : segments ≠ [] := by
  cases h <;> simp

theorem readRest_doubleBracket (text : List Char) (offset : Nat) :
    readRest ⟨'[' :: '[' :: text, offset⟩ = .error (.doubleBracket, offset) := by
  have hbracket : readBracket ⟨'[' :: '[' :: text, offset⟩ = .error (.doubleBracket, offset) := rfl
  rw [readRest]
  simp only [Char.reduceEq, if_false, if_true]
  split <;> simp_all

-- The canonical text cannot be read where the first computed key starts with a bracket.
theorem exists_readRest_doubleBracket (h : segments.any opensBracket = true)
    (hgood : ∀ segment ∈ segments, opensBracket segment = false →
      IsBracketed (keyText segment) segment) (offset : Nat) :
    ∃ place, readRest ⟨restText segments, offset⟩ = .error (.doubleBracket, place) := by
  obtain ⟨segment, hfind⟩ :=
    Option.isSome_iff_exists.mp (List.find?_isSome.mpr (List.any_eq_true.mp h))
  obtain ⟨hopens, good, more, rfl, hbefore⟩ := List.find?_eq_some_iff_append.mp hfind
  have hkeys : ∀ segment ∈ good, IsBracketed (keyText segment) segment :=
    fun segment hmem => hgood segment (by simp [hmem]) (by simpa using hbefore segment hmem)
  obtain ⟨rest, htext⟩ : ∃ rest, restText (segment :: more) = '[' :: '[' :: rest := by
    cases segment with
    | property name | index i => simp [opensBracket] at hopens
    | computed key =>
        simp only [opensBracket, beq_iff_eq] at hopens
        obtain ⟨tail, htail⟩ := List.head?_eq_some_iff.mp hopens
        rw [restText_cons]
        simp [segmentText, htail]
  have hend : ∀ c ∈ ('[' :: '[' :: rest).head?, isNameEnd c = true := by
    rintro c ⟨⟩
    rfl
  obtain ⟨place, hread⟩ := (spellsRest_restText hkeys).exists_readRest_append hend offset
  refine ⟨place, ?_⟩
  rw [restText, List.flatMap_append, ← restText, ← restText, htext, hread, readRest_doubleBracket]
  rfl

theorem exists_read_doubleBracket (h : segments.any opensBracket = true)
    (hgood : ∀ segment ∈ segments, opensBracket segment = false →
      IsBracketed (keyText segment) segment) :
    ∃ place, read (format segments) = .error ⟨format segments, place, .doubleBracket⟩ := by
  suffices hsegments : ∃ place, readSegments ⟨(format segments).toList, 0⟩ =
      .error (.doubleBracket, place) by
    obtain ⟨place, hread⟩ := hsegments
    exact ⟨place, by rw [read, Cursor.start, hread]⟩
  cases segments with
  | nil => simp at h
  | cons first rest =>
      rw [toList_format_cons]
      rcases segmentText_shape first with ⟨name, rfl, hname⟩ | htext
      · have hrest : rest.any opensBracket = true := by simpa [opensBracket] using h
        rw [List.forall_mem_cons] at hgood
        have htext := isNameText_of_isPlainName hname
        have hend : ∀ c ∈ (restText rest).head?, isNameEnd c = true := by
          intro c hc
          rcases head_restText rest c hc with rfl | rfl <;> rfl
        obtain ⟨next, hread⟩ := readName_eq_ok_iff.mpr ⟨name.toList, htext, rfl, hend, rfl⟩
        obtain ⟨place, hbracket⟩ := exists_readRest_doubleBracket hrest hgood.2 next
        rw [(segmentText_plain hname).1, readSegments_name htext hread, hbracket]
        exact ⟨place, rfl⟩
      · have hbracket := exists_readRest_doubleBracket h hgood 0
        rw [restText_cons, htext] at hbracket
        rw [htext]
        exact hbracket

-- Segments that need no look-up are read back from their canonical text, whatever their names.
theorem read_format (hne : segments ≠ []) (h : ∀ key, Segment.computed key ∉ segments) :
    read (format segments) = .ok segments :=
  read_canonical hne fun key hkey => absurd hkey (h key)

-- A name that neither stands behind a dot nor in quotes as it is, behind the largest index.
theorem read_format_escapedName :
    let segments : Path := [.property "", .index 18446744073709551615, .property "\"\\ .[0]'"]
    segments ≠ [] ∧ (∀ key, Segment.computed key ∉ segments) ∧
      read (format segments) = .ok segments := by
  intro segments
  have hne : segments ≠ [] := by simp [segments]
  have hkeys : ∀ key, Segment.computed key ∉ segments := by simp [segments]
  exact ⟨hne, hkeys, read_format hne hkeys⟩

-- What has been read is read back from its canonical text, if no computed key in it starts with a
-- bracket. Otherwise that text has two brackets in a row, and is no path.
theorem read_format_of_read {path : String} (h : read path = .ok segments) :
    (segments.any opensBracket = false → read (format segments) = .ok segments) ∧
      (segments.any opensBracket = true →
        ∃ place, read (format segments) = .error ⟨format segments, place, .doubleBracket⟩) := by
  have hspells := read_eq_ok_iff.mp h
  have hcanonical := hspells.canonical
  refine ⟨fun hopens => ?_, fun hopens => exists_read_doubleBracket hopens hcanonical⟩
  apply read_canonical hspells.ne_nil
  intro key hkey
  exact hcanonical _ hkey (by simpa using List.any_eq_false.mp hopens _ hkey)

-- A bracket in quotes closes nothing, also in the text of a computed key.
theorem read_format_of_read_nestedKey :
    let segments : Path := [.property "a b", .computed "k[']']"]
    read "a b[ k[']'] ]" = .ok segments ∧ segments.any opensBracket = false ∧
      read (format segments) = .ok segments := by
  intro segments
  have hname : IsNameText ['a', ' ', 'b'] := ⟨by decide, by simp [isNameEnd]⟩
  have hquoted : Token.Skips keyDelimiters none ['\'', ']', '\''] :=
    (Token.Skips.char (by decide) (by decide)).quoted isProper_key (by decide)
  have hinner : Token.Skips keyDelimiters none ['k', '[', '\'', ']', '\'', ']', ' '] :=
    (Token.Skips.plain (by decide)).append ((hquoted.enclosed isProper_key).append
      (.plain (by decide)))
  have hstart : StartsBare [' '] ['k', '[', '\'', ']', '\'', ']', ' '] := by
    rintro c ⟨⟩
    exact ⟨rfl, by decide, by simp⟩
  have hkey : IsBracketed ([' '] ++ ['k', '[', '\'', ']', '\'', ']', ' ']) (.computed "k[']']") :=
    .bare rfl hstart hinner (.computed rfl)
  have hread : read "a b[ k[']'] ]" = .ok segments :=
    read_eq_ok_iff.mpr (.name hname (.bracket hkey .nil))
  have hopens : segments.any opensBracket = false := by decide
  exact ⟨hread, hopens, (read_format_of_read hread).1 hopens⟩

-- A computed key that a blank keeps apart from the bracket it stands in.
private theorem read_spacedBracket :
    read "x[ [a] ]" = .ok [.property "x", .computed "[a]"] := by
  have hname : IsNameText ['x'] := ⟨by decide, by simp [isNameEnd]⟩
  have hinner : Token.Skips keyDelimiters none ['[', 'a', ']', ' '] :=
    ((Token.Skips.plain (by decide)).enclosed isProper_key).append (.plain (by decide))
  have hstart : StartsBare [' '] ['[', 'a', ']', ' '] := by
    rintro c ⟨⟩
    exact ⟨rfl, by decide, by simp⟩
  have hkey : IsBracketed ([' '] ++ ['[', 'a', ']', ' ']) (.computed "[a]") :=
    .bare rfl hstart hinner (.computed rfl)
  exact read_eq_ok_iff.mpr (.name hname (.bracket hkey .nil))

-- The blank is not in the canonical text.
theorem not_read_format_of_read :
    ¬∀ (path : String) (segments : Path), read path = .ok segments →
      read (format segments) = .ok segments := by
  intro hall
  have hopens : [Segment.property "x", .computed "[a]"].any opensBracket = true := by decide
  have hcanonical := (read_eq_ok_iff.mp read_spacedBracket).canonical
  obtain ⟨place, herror⟩ := exists_read_doubleBracket hopens hcanonical
  rw [hall _ _ read_spacedBracket] at herror
  simp at herror

end FlowExpr.Path
