import FlowExpr.Path.Reader
import FlowExpr.Proofs.Extent
import FlowExpr.Proofs.Quoting

namespace FlowExpr.Path

-- The brackets of a segment, and the quotes inside which no bracket counts.
def keyDelimiters : Token.Delimiters :=
  ⟨'[', ']', ['"', '\'']⟩

-- The text of a name: no dot and no bracket is in it, and not only blanks.
def IsNameText (text : List Char) : Prop :=
  Text.trim text ≠ [] ∧ ∀ c ∈ text, isNameEnd c = false

-- What a text in brackets stands for that is not in quotes.
inductive IsBare : List Char → Segment → Prop where
  | index {text : List Char} {i : UInt64} (hdigits : Text.isDigits text = true)
      (hread : Text.readUnsigned? text = some i) : IsBare text (.index i)
  | computed {text : List Char} (hdigits : text.all Char.isDigit = false) :
      IsBare text (.computed (String.ofList text))

-- The first character behind the blanks makes a text in brackets a bare one: it is no quote. It may
-- be an opening bracket only if there are blanks.
def StartsBare (before inner : List Char) : Prop :=
  ∀ c ∈ inner.head?, Text.isBlank c = false ∧ c ∉ keyDelimiters.quotes ∧ (before = [] → c ≠ '[')

-- What stands in the brackets of a segment: a name in quotes, or the text of an index or of a
-- computed key, in either case with blanks around it.
inductive IsBracketed : List Char → Segment → Prop where
  | quoted {before inner behind : List Char} {quote : Char}
      (hbefore : Text.isBlankText before = true) (hquote : quote ∈ keyDelimiters.quotes)
      (hinner : Text.IsQuoted quote inner) (hbehind : Text.isBlankText behind = true) :
      IsBracketed (before ++ quote :: (inner ++ quote :: behind))
        (.property (String.ofList (Text.decode id inner)))
  | bare {before inner : List Char} {segment : Segment}
      (hbefore : Text.isBlankText before = true) (hstart : StartsBare before inner)
      (hinner : Token.Skips keyDelimiters none inner)
      (hsegment : IsBare (Text.trim inner) segment) : IsBracketed (before ++ inner) segment

-- The text of the segments behind the first one.
inductive SpellsRest : List Char → Path → Prop where
  | nil : SpellsRest [] []
  | name {name rest : List Char} {segments : Path} (hname : IsNameText name)
      (hrest : SpellsRest rest segments) :
      SpellsRest ('.' :: (name ++ rest)) (.property (String.ofList (Text.trim name)) :: segments)
  | bracket {body rest : List Char} {segment : Segment} {segments : Path}
      (hbody : IsBracketed body segment) (hrest : SpellsRest rest segments) :
      SpellsRest ('[' :: (body ++ ']' :: rest)) (segment :: segments)

-- The text of a path. Its first segment is a name, or it stands in brackets as the others.
inductive Spells : List Char → Path → Prop where
  | name {name rest : List Char} {segments : Path} (hname : IsNameText name)
      (hrest : SpellsRest rest segments) :
      Spells (name ++ rest) (.property (String.ofList (Text.trim name)) :: segments)
  | bracket {body rest : List Char} {segment : Segment} {segments : Path}
      (hbody : IsBracketed body segment) (hrest : SpellsRest rest segments) :
      Spells ('[' :: (body ++ ']' :: rest)) (segment :: segments)

end FlowExpr.Path
