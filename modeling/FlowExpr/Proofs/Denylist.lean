import FlowExpr.Proofs.Dependency.Theorems
import FlowExpr.Proofs.Enclosing.Theorems
import FlowExpr.Proofs.Guard
import FlowExpr.Proofs.Segments

namespace FlowExpr.Guard

variable {expression : String} {maxLength : Nat} {tokens : List Token} {tree : Tree}

-- The name is written between quotes and with a backslash, and no forbidden pattern stands in what
-- is written there.
def IsCleanlyEscapedIn (text name : List Char) : Prop :=
  ∃ quote ∈ ['"', '\''], ∃ written, quote :: (written ++ [quote]) <:+: text ∧
    '\\' ∈ written ∧ Path.unescape written = name ∧ IsClean written

-- The names that a clean path looks up are clean, unless they come out of an escape.
theorem isClean_of_read {path name : String} {segments : Path} (hpath : IsClean path.toList)
    (hread : Path.read path = .ok segments) (hname : .property name ∈ segments) :
    IsClean name.toList ∨ IsCleanlyEscapedIn path.toList name.toList := by
  rcases Path.isWrittenIn_of_read hread _ hname with hwithin | hescaped
  · exact .inl (hpath.of_isInfix hwithin)
  · obtain ⟨quote, hquote, written, hwritten, hescape, hunescape⟩ := hescaped
    have hinner : written <:+: quote :: (written ++ [quote]) := ⟨[quote], [quote], rfl⟩
    exact .inr ⟨quote, hquote, written, hwritten, hescape, hunescape,
      hpath.of_isInfix (hinner.trans hwritten)⟩

-- No forbidden pattern stands in a path that a guarded expression looks up, and none in a name of
-- the path but one that is written with a backslash.
theorem isClean_of_check (hguard : check expression maxLength = .ok ())
    (hread : Token.read expression = .ok tokens) (hparse : Tree.parse tokens = .ok tree)
    {path : String} (hpath : path ∈ tree.references) :
    IsClean path.toList ∧ ∀ segments, Path.read path = .ok segments → ∀ name,
      .property name ∈ segments →
        IsClean name.toList ∨ IsCleanlyEscapedIn path.toList name.toList := by
  have hexpression : IsClean expression.toList := (check_eq_ok_iff.mp hguard).2.2.1
  have hstands := Dependency.standsIn_of_mem_references hread hparse hpath
  have hclean : IsClean path.toList := hexpression.of_isInfix hstands.1
  exact ⟨hclean, fun segments hsegments name => isClean_of_read hclean hsegments⟩

section EscapedKey

open Token

-- An expression that asks for the property `eval` without having that word in it.
def escapedKey : String :=
  "$\x7ba[\"ev\\al\"]\x7d"

def escapedPath : String :=
  "a[\"ev\\al\"]"

def escapedTokens : List Token :=
  [.plain .identifier "a",
    .group .array "[\"ev\\al\"]" [.text .string "\"ev\\al\"" "eval"]]

private theorem toList_escapedKey : escapedKey.toList =
    ['$', '{', 'a', '[', '"', 'e', 'v', '\\', 'a', 'l', '"', ']', '}'] := by
  decide

private theorem check_escapedKey : check escapedKey defaultMaxLength = .ok () := by
  unfold check
  rw [toList_escapedKey]
  rfl

private theorem lexWithin_escapedTokens :
    lexWithin 255 ⟨['a', '[', '"', 'e', 'v', '\\', 'a', 'l', '"', ']'], 2⟩ =
      .ok escapedTokens := by
  have hstring : nextWith (lexWithin 253) ⟨['"', 'e', 'v', '\\', 'a', 'l', '"'], 4⟩ =
      ⟨.ok (some (.text .string "\"ev\\al\"" "eval")), ⟨[], 11⟩⟩ := rfl
  have hkey : lexWithin 254 ⟨['"', 'e', 'v', '\\', 'a', 'l', '"'], 4⟩ =
      .ok [.text .string "\"ev\\al\"" "eval"] := by
    rw [lexWithin, readAll_some hstring, readAll_end]
    rfl
  have hname : nextWith (lexWithin 254)
      ⟨['a', '[', '"', 'e', 'v', '\\', 'a', 'l', '"', ']'], 2⟩ =
        ⟨.ok (some (.plain .identifier "a")),
          ⟨['[', '"', 'e', 'v', '\\', 'a', 'l', '"', ']'], 3⟩⟩ := rfl
  have hbracket : nextWith (lexWithin 254) ⟨['[', '"', 'e', 'v', '\\', 'a', 'l', '"', ']'], 3⟩ =
      ⟨((lexWithin 254 ⟨['"', 'e', 'v', '\\', 'a', 'l', '"'], 4⟩).map
        (.group .array "[\"ev\\al\"]")).map some, ⟨[], 12⟩⟩ := rfl
  rw [hkey] at hbracket
  rw [lexWithin, readAll_some hname, readAll_some hbracket, readAll_end]
  rfl

private theorem read_escapedKey :
    Token.read escapedKey = .ok [.group .reference escapedPath escapedTokens] := by
  have hreference : nextWith (lexWithin 255)
      ⟨['$', '{', 'a', '[', '"', 'e', 'v', '\\', 'a', 'l', '"', ']', '}'], 0⟩ =
        ⟨((lexWithin 255 ⟨['a', '[', '"', 'e', 'v', '\\', 'a', 'l', '"', ']'], 2⟩).map
          (.group .reference escapedPath)).map some, ⟨[], 13⟩⟩ := rfl
  rw [lexWithin_escapedTokens] at hreference
  have hlex : lex escapedKey = .ok [.group .reference escapedPath escapedTokens] := by
    rw [lex, toList_escapedKey, maxNesting, lexWithin, Text.Cursor.start,
      readAll_some hreference, readAll_end]
    rfl
  have hblank : Text.isBlankText escapedKey.toList = false := by
    rw [toList_escapedKey]
    rfl
  exact read_eq_ok_iff.mpr ⟨hblank, hlex, rfl⟩

private theorem parse_escapedKey :
    Tree.parse [.group .reference escapedPath escapedTokens] = .ok (.reference escapedPath) :=
  Tree.parse_eq_ok_iff.mpr ⟨.leaf rfl, by decide⟩

private theorem path_escapedPath : Path.read escapedPath = .ok [.property "a", .property "eval"] := by
  have hname : Path.readName ⟨['a', '[', '"', 'e', 'v', '\\', 'a', 'l', '"', ']'], 0⟩ =
      .ok (.property "a", ⟨['[', '"', 'e', 'v', '\\', 'a', 'l', '"', ']'], 1⟩) := rfl
  have hkey : Path.readBracket ⟨['[', '"', 'e', 'v', '\\', 'a', 'l', '"', ']'], 1⟩ =
      .ok (.property "eval", ⟨[], 10⟩) := rfl
  have hrest : Path.readRest ⟨['[', '"', 'e', 'v', '\\', 'a', 'l', '"', ']'], 1⟩ =
      .ok [.property "eval"] := by
    rw [Path.readRest_bracket rfl hkey, Path.readRest_nil rfl]
    rfl
  have hchars : escapedPath.toList =
      ['a', '[', '"', 'e', 'v', '\\', 'a', 'l', '"', ']'] := by decide
  have hsegments : Path.readSegments
      ⟨['a', '[', '"', 'e', 'v', '\\', 'a', 'l', '"', ']'], 0⟩ =
        .ok [.property "a", .property "eval"] := by
    simp only [Path.readSegments, hname, hrest]
    rfl
  rw [Path.read, hchars, Text.Cursor.start, hsegments]

-- A name that comes out of an escape can be a forbidden one.
theorem not_isClean_of_check :
    ¬∀ (expression : String) (maxLength : Nat) (tokens : List Token) (tree : Tree)
      (path : String) (segments : Path) (name : String),
      check expression maxLength = .ok () → Token.read expression = .ok tokens →
        Tree.parse tokens = .ok tree → path ∈ tree.references →
          Path.read path = .ok segments → .property name ∈ segments → IsClean name.toList := by
  intro h
  have hclean : IsClean "eval".toList := h escapedKey defaultMaxLength _ _ escapedPath _ "eval"
    check_escapedKey read_escapedKey parse_escapedKey (by simp [Tree.references])
    path_escapedPath (by simp)
  exact hclean "eval" (by simp [forbiddenPatterns]) List.infix_rfl

theorem isClean_escapedPath :
    IsClean escapedPath.toList ∧ ∀ segments, Path.read escapedPath = .ok segments → ∀ name,
      .property name ∈ segments →
        IsClean name.toList ∨ IsCleanlyEscapedIn escapedPath.toList name.toList :=
  isClean_of_check check_escapedKey read_escapedKey parse_escapedKey (by simp [Tree.references])

end EscapedKey

end FlowExpr.Guard
