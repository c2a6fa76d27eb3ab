import FlowExpr.Proofs.Enclosing.Skipping
import FlowExpr.Proofs.Rereading.Levels

namespace FlowExpr.Token

open Text (Cursor)

variable {inside : Cursor → Except LexError (List Token)} {d : Delimiters} {inner : List Char}
  {offset : Nat} {children : List Token}

-- A text has the same tokens further on.
theorem lexWithin_shift {levels most : Nat} {c : Cursor} {tokens : List Token} (n : Nat)
    (h : lexWithin levels c = .ok tokens) (htokens : runNesting tokens ≤ most) :
    lexWithin most (c.shift n) = .ok tokens := by
  have htrimmed : lexWithin levels ⟨[] ++ (c.rest ++ []), c.offset⟩ = .ok tokens := by
    simpa using h
  exact lexWithin_trimmed rfl rfl htrimmed htokens (c.offset + n)

-- A text that is a bracket around what its scan skips is one token.
theorem readAll_enclosed {kind : Kind} {fault : Fault} (hd : d.IsProper)
    (hblank : Text.isBlank d.opening = false)
    (hcontainer : ∀ c rest, readToken inside c d.opening rest = readContainer inside kind d fault c)
    (hskips : Skips d none inner) (hchildren : inside ⟨inner, offset + 1⟩ = .ok children) :
    readAll inside ⟨d.opening :: inner ++ [d.closing], offset⟩ =
      .ok [.group kind (String.ofList (d.opening :: inner ++ [d.closing])) children] := by
  have hnext := nextWith_enclosed hd hblank hcontainer hskips hchildren []
  rw [List.cons_append, readAll_some hnext, readAll_end]
  rfl

-- A blank in front of a text is no part of it.
theorem readAll_space (text : List Char) :
    readAll inside ⟨' ' :: text, offset⟩ = readAll inside ⟨text, offset + 1⟩ := by
  have hblank : Text.isBlankText [' '] = true := rfl
  exact readAll_blank hblank text offset

-- A key in front of a text adds its two tokens.
theorem readAll_keyed {text : List Char} {tokens : List Token}
    (h : readAll inside ⟨text, offset + 3⟩ = .ok tokens) :
    readAll inside ⟨'k' :: ':' :: ' ' :: text, offset⟩ =
      .ok (.plain .identifier "k" :: .plain .punctuation ":" :: tokens) := by
  have hkey : nextWith inside ⟨'k' :: ':' :: ' ' :: text, offset⟩ =
      ⟨.ok (some (.plain .identifier "k")), ⟨':' :: ' ' :: text, offset + 1⟩⟩ := rfl
  have hcolon : nextWith inside ⟨':' :: ' ' :: text, offset + 1⟩ =
      ⟨.ok (some (.plain .punctuation ":")), ⟨' ' :: text, offset + 2⟩⟩ := rfl
  rw [readAll_some hkey, readAll_some hcolon, readAll_space, h]
  rfl

theorem skips_keyed {text : List Char} (h : Skips objectDelimiters none text) :
    Skips objectDelimiters none ('k' :: ':' :: ' ' :: text) := by
  have hkey : Skips objectDelimiters none ['k', ':', ' '] :=
    .of_plain (by simp [IsPlain, objectDelimiters])
  exact hkey.append h

-- A whole expression that is a bracket around a text with tokens of its own.
theorem read_of_skips {kind : Kind} {fault : Fault} {text : String}
    (hkind : kind.isContainer = true) (hd : d.IsProper) (hblank : Text.isBlank d.opening = false)
    (hcontainer : ∀ c rest, readToken (lexWithin (maxNesting - 1)) c d.opening rest =
      readContainer (lexWithin (maxNesting - 1)) kind d fault c)
    (htext : text.toList = d.opening :: inner ++ [d.closing]) (hskips : Skips d none inner)
    (hchildren : lexWithin (maxNesting - 1) ⟨inner, 0 + 1⟩ = .ok children)
    (hcheck : checkRun 0 children = .ok ()) : read text = .ok [.group kind text children] := by
  have hread := readAll_enclosed hd hblank hcontainer hskips hchildren
  rw [← htext, String.ofList_toList] at hread
  refine read_eq_ok_iff.mpr ⟨?_, hread, ?_⟩
  · simp [htext, Text.isBlankText, hblank]
  · rw [checkRun_group hkind hcheck, checkRun, if_pos rfl]

-- An expression in a bracket is read as one token over the tokens of the expression, if its own
-- nesting leaves a level for the bracket and no reference in a template of it has a backtick. With
-- such a backtick the scan for the end of the bracket takes it for the end of the template.
theorem read_enclosed {text : String} {tokens : List Token} (h : read text = .ok tokens)
    (hnesting : runNesting tokens < maxNesting) (hspans : runHasPlainSpans tokens = true) :
    read ("[" ++ text ++ "]") = .ok [.group .array ("[" ++ text ++ "]") tokens] ∧
      read ("\x7bk: " ++ text ++ "\x7d") = .ok [.group .object ("\x7bk: " ++ text ++ "\x7d")
        (.plain .identifier "k" :: .plain .punctuation ":" :: tokens)] := by
  obtain ⟨_, hlex, hcheck⟩ := read_eq_ok_iff.mp h
  have hskips {d : Delimiters} (hd : IsContainerScan d) : Skips d none text.toList :=
    skips_of_lexWithin hd maxNesting (Cursor.start text.toList) tokens 0 hlex hcheck hspans
  have hinner (n : Nat) : lexWithin (maxNesting - 1) ⟨text.toList, n⟩ = .ok tokens := by
    have hshift := lexWithin_shift n hlex (Nat.le_pred_of_lt hnesting)
    rwa [Cursor.shift, Cursor.start, Nat.zero_add] at hshift
  constructor
  · have hwhole : ("[" ++ text ++ "]").toList = '[' :: text.toList ++ [']'] := by simp
    exact read_of_skips rfl isProper_array rfl readToken_bracket hwhole (hskips (.inr rfl))
      (hinner 1) hcheck
  · have hwhole : ("\x7bk: " ++ text ++ "\x7d").toList =
        '{' :: ('k' :: ':' :: ' ' :: text.toList) ++ ['}'] := by simp
    obtain ⟨inside, hlexes⟩ := exists_readAll_eq_lexWithin (maxNesting - 1)
    have hkeyed : lexWithin (maxNesting - 1) ⟨'k' :: ':' :: ' ' :: text.toList, 1⟩ =
        .ok (.plain .identifier "k" :: .plain .punctuation ":" :: tokens) := by
      rw [hlexes]
      apply readAll_keyed
      rw [← hlexes]
      exact hinner 4
    have hcheck' : checkRun 0 (.plain .identifier "k" :: .plain .punctuation ":" :: tokens) =
        .ok () := hcheck
    exact read_of_skips rfl isProper_object rfl readToken_brace hwhole
      (skips_keyed (hskips (.inl rfl))) hkeyed hcheck'

-- A closing bracket in a string ends nothing.
theorem read_quotedBracket : read "\"]\"" = .ok [.text .string "\"]\"" "]"] := by
  have hstring : nextWith (lexWithin 255) ⟨['"', ']', '"'], 0⟩ =
      ⟨.ok (some (.text .string "\"]\"" "]")), ⟨[], 3⟩⟩ := rfl
  have hstart : Cursor.start "\"]\"".toList = ⟨['"', ']', '"'], 0⟩ := rfl
  have hlex : lex "\"]\"" = .ok [.text .string "\"]\"" "]"] := by
    rw [lex, maxNesting, lexWithin, hstart, readAll_some hstring, readAll_end]
    rfl
  exact read_eq_ok_iff.mpr ⟨rfl, hlex, rfl⟩

theorem read_enclosed_quotedBracket :
    read ("[" ++ "\"]\"" ++ "]") =
        .ok [.group .array ("[" ++ "\"]\"" ++ "]") [.text .string "\"]\"" "]"]] ∧
      read ("\x7bk: " ++ "\"]\"" ++ "\x7d") =
        .ok [.group .object ("\x7bk: " ++ "\"]\"" ++ "\x7d")
          (.plain .identifier "k" :: .plain .punctuation ":" ::
            [.text .string "\"]\"" "]"])] :=
  read_enclosed read_quotedBracket (by decide) (by decide)

section Backtick

-- A template whose only reference has a backtick in a string.
def backtickTemplate : String :=
  "`$\x7ba[\"`\"]\x7d`"

def backtickPath : List Token :=
  [.plain .identifier "a", .group .array "[\"`\"]" [.text .string "\"`\"" "`"]]

theorem lexWithin_backtickPath :
    lexWithin 255 ⟨['a', '[', '"', '\x60', '"', ']'], 3⟩ = .ok backtickPath := by
  have hname : nextWith (lexWithin 254) ⟨['a', '[', '"', '\x60', '"', ']'], 3⟩ =
      ⟨.ok (some (.plain .identifier "a")), ⟨['[', '"', '\x60', '"', ']'], 4⟩⟩ := rfl
  have hstring : nextWith (lexWithin 253) ⟨['"', '\x60', '"'], 5⟩ =
      ⟨.ok (some (.text .string "\"`\"" "`")), ⟨[], 8⟩⟩ := rfl
  have hinner : lexWithin 254 ⟨['"', '\x60', '"'], 5⟩ = .ok [.text .string "\"`\"" "`"] := by
    rw [lexWithin, readAll_some hstring, readAll_end]
    rfl
  have hkey : nextWith (lexWithin 254) ⟨['[', '"', '\x60', '"', ']'], 4⟩ =
      ⟨((lexWithin 254 ⟨['"', '\x60', '"'], 5⟩).map (.group .array "[\"`\"]")).map some,
        ⟨[], 9⟩⟩ := rfl
  rw [hinner] at hkey
  rw [lexWithin, readAll_some hname, readAll_some hkey, readAll_end]
  rfl

theorem read_backtickTemplate : read backtickTemplate =
    .ok [.group .template backtickTemplate [.group .reference "a[\"`\"]" backtickPath]] := by
  have hextent : extent referenceDelimiters 0 none 3
      ['a', '[', '"', '\x60', '"', ']', '}', '\x60'] =
        .closed ['a', '[', '"', '\x60', '"', ']'] ['\x60'] := rfl
  have href : readReference (lexWithin 255)
      ⟨['$', '{', 'a', '[', '"', '\x60', '"', ']', '}', '\x60'], 1⟩ =
        ⟨.ok (.group .reference "a[\"`\"]" backtickPath), ⟨['\x60'], 10⟩⟩ :=
    readReference_eq_ok_iff.mpr
      ⟨_, _, backtickPath, hextent, by decide, lexWithin_backtickPath, rfl, rfl⟩
  have hbody : templateBody (lexWithin 255) 0
      ⟨['$', '{', 'a', '[', '"', '\x60', '"', ']', '}', '\x60'], 1⟩ =
        ⟨.ok ([], [.group .reference "a[\"`\"]" backtickPath]), ⟨[], 11⟩⟩ := by
    rw [templateBody_reference rfl href, templateBody_end rfl]
    rfl
  have hstart : Cursor.start backtickTemplate.toList =
      ⟨['\x60', '$', '{', 'a', '[', '"', '\x60', '"', ']', '}', '\x60'], 0⟩ := rfl
  have htemplate : readTemplate (lexWithin 255)
      ⟨['\x60', '$', '{', 'a', '[', '"', '\x60', '"', ']', '}', '\x60'], 0⟩ =
        ⟨.ok (.group .template backtickTemplate [.group .reference "a[\"`\"]" backtickPath]),
          ⟨[], 11⟩⟩ :=
    readTemplate_eq_ok_iff.mpr ⟨[], _, hbody, rfl⟩
  have hnext : nextWith (lexWithin 255)
      ⟨['\x60', '$', '{', 'a', '[', '"', '\x60', '"', ']', '}', '\x60'], 0⟩ =
        ⟨.ok (some (.group .template backtickTemplate
          [.group .reference "a[\"`\"]" backtickPath])), ⟨[], 11⟩⟩ := by
    rw [nextWith_of_not_isBlank rfl]
    exact congrArg (Step.map some) htemplate
  have hlex : lex backtickTemplate =
      .ok [.group .template backtickTemplate [.group .reference "a[\"`\"]" backtickPath]] := by
    rw [lex, maxNesting, lexWithin, hstart, readAll_some hnext, readAll_end]
    rfl
  exact read_eq_ok_iff.mpr ⟨rfl, hlex, rfl⟩

-- In a bracket that template is read to the backtick in its reference, and the second quote of the
-- string opens another one.
theorem lex_enclosed_backtickTemplate :
    lex ("[" ++ backtickTemplate ++ "]") = .error ⟨.openString, some 8⟩ := by
  have hstart : Cursor.start ("[" ++ backtickTemplate ++ "]").toList =
      ⟨['[', '\x60', '$', '{', 'a', '[', '"', '\x60', '"', ']', '}', '\x60', ']'], 0⟩ := rfl
  have hnext : nextWith (lexWithin 255)
      ⟨['[', '\x60', '$', '{', 'a', '[', '"', '\x60', '"', ']', '}', '\x60', ']'], 0⟩ =
        ⟨.error ⟨.openString, some 8⟩, ⟨[], 13⟩⟩ := rfl
  rw [lex, maxNesting, lexWithin, hstart, readAll_error hnext]

theorem not_read_enclosed :
    ¬∀ (text : String) (tokens : List Token), read text = .ok tokens →
      runNesting tokens < maxNesting →
        read ("[" ++ text ++ "]") = .ok [.group .array ("[" ++ text ++ "]") tokens] ∧
          read ("\x7bk: " ++ text ++ "\x7d") = .ok [.group .object ("\x7bk: " ++ text ++ "\x7d")
            (.plain .identifier "k" :: .plain .punctuation ":" :: tokens)] := by
  intro h
  obtain ⟨harray, _⟩ := h backtickTemplate _ read_backtickTemplate (by decide)
  have hlex := (read_eq_ok_iff.mp harray).2.1
  rw [lex_enclosed_backtickTemplate] at hlex
  simp at hlex

end Backtick

end FlowExpr.Token
