import FlowExpr.Proofs.Unlimited

namespace FlowExpr.Token

open Text (Cursor)

-- The word stands in the text behind so many characters.
def StandsAt (source word : List Char) (position : Nat) : Prop :=
  ∃ before behind, source = before ++ (word ++ behind) ∧ before.length = position

-- A reference, an object or an array starts at the first cursor and is closed. The second cursor is
-- over its content.
inductive Opens (c : Cursor) : Cursor → Prop where
  | reference {inner rest : List Char} (hopens : opensReference c.rest = true)
      (hextent : extent referenceDelimiters 0 none (c.advance 2).offset (c.advance 2).rest =
        .closed inner rest) : Opens c ⟨inner, (c.advance 2).offset⟩
  | object {inner rest : List Char} (hc : c.rest.head? = some '{')
      (hextent : extent objectDelimiters 0 none (c.advance 1).offset (c.advance 1).rest =
        .closed inner rest) : Opens c ⟨inner, (c.advance 1).offset⟩
  | array {inner rest : List Char} (hc : c.rest.head? = some '[')
      (hextent : extent arrayDelimiters 0 none (c.advance 1).offset (c.advance 1).rest =
        .closed inner rest) : Opens c ⟨inner, (c.advance 1).offset⟩

-- A template goes on at the first cursor, and the second is over the content of one of the
-- references in it.
inductive TemplateHolds : Cursor → Cursor → Prop where
  | reference {c body : Cursor} (hopens : opensReference c.rest = true) (h : Opens c body) :
      TemplateHolds c body
  | escape {c body : Cursor} {e : Char} {rest : List Char} (hc : c.rest = '\\' :: e :: rest)
      (h : TemplateHolds (c.advance 2) body) : TemplateHolds c body
  | later {c next body : Cursor} {t : Token} (hopens : opensReference c.rest = true)
      (hread : readReference lexUnlimited c = ⟨.ok t, next⟩) (h : TemplateHolds next body) :
      TemplateHolds c body
  | char {c body : Cursor} {x : Char} {rest : List Char} (hc : c.rest = x :: rest)
      (hend : x ≠ '\x60') (hescape : x ≠ '\\') (hopens : opensReference (x :: rest) = false)
      (h : TemplateHolds (c.advance 1) body) : TemplateHolds c body

-- The second cursor is over the content of a bracket that is one of the tokens from the first
-- cursor on, or a reference in a template that is one of them.
inductive Holds : Cursor → Cursor → Prop where
  | bracket {c body : Cursor} (h : Opens (c.skipWhile Text.isBlank) body) : Holds c body
  | template {c body : Cursor} (hc : (c.skipWhile Text.isBlank).rest.head? = some '\x60')
      (h : TemplateHolds ((c.skipWhile Text.isBlank).advance 1) body) : Holds c body
  | later {c after body : Cursor} {t : Token}
      (hnext : nextWith lexUnlimited c = ⟨.ok (some t), after⟩) (h : Holds after body) :
      Holds c body

-- The cursor is over the whole text, or over the content of a bracket with which so many brackets
-- stand in one another.
inductive IsContent (source : List Char) : Nat → Cursor → Prop where
  | whole : IsContent source 0 (Cursor.start source)
  | bracket {levels : Nat} {c body : Cursor} (h : IsContent source levels c)
      (hbody : Holds c body) : IsContent source (levels + 1) body

-- What is to blame for a fault stands at its position. The position of an empty reference, and of a
-- bracket with which one too many stand in one another, is that behind the opening.
def PointsAt (source : List Char) (position : Nat) : Fault → Prop
  | .invalidCharacter c => StandsAt source [c] position
  | .invalidOperator c => StandsAt source [c] position
  | .openString => ∃ quote ∈ ['"', '\'', '\x60'], StandsAt source [quote] position
  | .openReference => StandsAt source ['$', '{'] position
  | .emptyReference => ∃ start, position = start + 2 ∧ StandsAt source ['$', '{'] start
  | .openTemplate => StandsAt source ['\x60'] position
  | .openObject => StandsAt source ['{'] position
  | .openArray => StandsAt source ['['] position
  | .nestedTooDeeply => ∃ body start, IsContent source (maxNesting + 1) body ∧
      position = body.offset ∧ position = start + 1 ∧
      ∃ bracket ∈ ['{', '['], StandsAt source [bracket] start
  | _ => False

end FlowExpr.Token
