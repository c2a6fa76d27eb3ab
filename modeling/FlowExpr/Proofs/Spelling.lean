import FlowExpr.Token.Lexer

namespace FlowExpr

-- What stands between two places of a text.
def Text.Cursor.Passes (c : Cursor) (passed : List Char) (after : Cursor) : Prop :=
  c.rest = passed ++ after.rest ∧ after.offset = c.offset + passed.length

namespace Token

mutual
-- A text that consists of the given tokens, in their order, and of blanks around them.
inductive Spells : List Char → List Token → Prop where
  | nil {blank : List Char} (hblank : Text.isBlankText blank = true) : Spells blank []
  | cons {blank spelling text : List Char} {t : Token} {tokens : List Token}
      (hblank : Text.isBlankText blank = true) (ht : IsSpelling spelling t)
      (htext : Spells text tokens) : Spells (blank ++ (spelling ++ text)) (t :: tokens)

-- The text of one token. It is the raw text of the token, except that a reference stands between
-- `${` and `}` and keeps no blanks at the ends of its path. The content of a bracket consists of
-- the tokens that the bracket holds.
inductive IsSpelling : List Char → Token → Prop where
  | plain {kind : Kind} {raw : List Char} (hstring : kind ≠ .string)
      (hcontainer : kind.isContainer = false) (hne : raw ≠ []) :
      IsSpelling raw (.plain kind (String.ofList raw))
  | string {quote : Char} {inner content : List Char} (hinner : SpellsParts inner content []) :
      IsSpelling (quote :: inner ++ [quote])
        (.text .string (String.ofList (quote :: inner ++ [quote])) (String.ofList content))
  | reference {inner : List Char} {children : List Token} (hinner : Spells inner children) :
      IsSpelling ('$' :: '{' :: inner ++ ['}'])
        (.group .reference (String.ofList (Text.trim inner)) children)
  | object {inner : List Char} {children : List Token} (hinner : Spells inner children) :
      IsSpelling ('{' :: inner ++ ['}'])
        (.group .object (String.ofList ('{' :: inner ++ ['}'])) children)
  | array {inner : List Char} {children : List Token} (hinner : Spells inner children) :
      IsSpelling ('[' :: inner ++ [']'])
        (.group .array (String.ofList ('[' :: inner ++ [']'])) children)
  | template {inner span : List Char} {parts : List Token} (hinner : SpellsParts inner span parts) :
      IsSpelling ('\x60' :: inner ++ ['\x60'])
        (.group .template (String.ofList ('\x60' :: inner ++ ['\x60'])) (spanTokens span ++ parts))

-- What stands in a string or in a template: the characters of a first span, each of them as it is
-- or behind a backslash, and in a template further parts, from a reference on.
inductive SpellsParts : List Char → List Char → List Token → Prop where
  | nil : SpellsParts [] [] []
  | char {c : Char} {text span : List Char} {parts : List Token} (hc : c ≠ '\\')
      (htext : SpellsParts text span parts) : SpellsParts (c :: text) (c :: span) parts
  | escape {c : Char} {text span : List Char} {parts : List Token}
      (htext : SpellsParts text span parts) :
      SpellsParts ('\\' :: c :: text) (unescape c :: span) parts
  | part {spelling text span : List Char} {t : Token} {parts : List Token}
      (hkind : t.kind = .reference) (ht : IsSpelling spelling t)
      (htext : SpellsParts text span parts) :
      SpellsParts (spelling ++ text) [] (t :: (spanTokens span ++ parts))
end

end Token

end FlowExpr
