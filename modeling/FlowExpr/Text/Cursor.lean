namespace FlowExpr.Text

-- A place in a text: what is left to read, and how many characters of the whole text stand
-- before it. A cursor over an inner part of a text starts at that part's own offset.
structure Cursor where
  rest : List Char
  offset : Nat

namespace Cursor

def start (text : List Char) : Cursor :=
  ⟨text, 0⟩

def advance (c : Cursor) (n : Nat) : Cursor :=
  ⟨c.rest.drop n, c.offset + n⟩

-- Moves past a run of characters that ends where `rest` begins.
def past (c : Cursor) (run rest : List Char) : Cursor :=
  ⟨rest, c.offset + run.length⟩

def atEnd (c : Cursor) : Cursor :=
  ⟨[], c.offset + c.rest.length⟩

def skipWhile (c : Cursor) (p : Char → Bool) : Cursor :=
  ⟨c.rest.dropWhile p, c.offset + (c.rest.takeWhile p).length⟩

-- The text from one place to a later one.
def upTo (c later : Cursor) : List Char :=
  c.rest.take (later.offset - c.offset)

theorem length_skipWhile_le (c : Cursor) (p : Char → Bool) :
    (c.skipWhile p).rest.length ≤ c.rest.length :=
  (List.dropWhile_sublist p).length_le

end Cursor

end FlowExpr.Text
