import FlowExpr.Path
import FlowExpr.Path.Fault
import FlowExpr.Text.Whole
import FlowExpr.Value

namespace FlowExpr.Path

def item? (items : List Value) (i : UInt64) : Option Value :=
  items[i.toNat]?

def orMissing : Option Value → Except AccessFailure Value
  | some v => .ok v
  | none => .error .missing

-- The value one step away. An index on an object is a key, and a key on an array may be an index.
def step (v : Value) (segment : Segment) : Except AccessFailure Value :=
  match v, segment with
  | _, .computed _ => .error .unresolved
  | .null, _ => .error .nullish
  | .undefined, _ => .error .nullish
  | .object fields, .property name => orMissing (Fields.get? name fields)
  | .object fields, .index i => orMissing (Fields.get? (toString i.toNat) fields)
  | .array items, .index i => orMissing (item? items i)
  | .array items, .property name =>
    if name = "length" then .ok (.int (Int64.ofNat items.length))
    else orMissing ((Text.readUnsigned? name.toList).bind (item? items))
  | .string s, .property name =>
    if name = "length" then .ok (.int (Int64.ofNat s.length)) else .error .notIndexable
  | _, _ => .error .notIndexable

-- Whether a step asks for the length of an array or a text.
def asksLength (v : Value) (segment : Segment) : Bool :=
  match v, segment with
  | .array _, .property name => name == "length"
  | .string _, .property name => name == "length"
  | _, _ => false

-- A length has no properties, so a path that goes on after one fails there.
def endAtLength (length : Value) (segments : Path) (path : String) : Except AccessError Value :=
  match segments with
  | [] => .ok length
  | segment :: _ => .error ⟨path, segment.text, length.typeName, .notIndexable⟩

-- The value at the end of a path, or the first step that cannot be taken. `path` is the text that
-- the error names.
def get (v : Value) (segments : Path) (path : String) : Except AccessError Value :=
  match segments with
  | [] => .ok v
  | segment :: rest =>
    match step v segment with
    | .error failure => .error ⟨path, segment.text, v.typeName, failure⟩
    | .ok next =>
      if asksLength v segment then endAtLength next rest path else get next rest path

def has (v : Value) (segments : Path) : Bool :=
  match get v segments "" with
  | .ok _ => true
  | .error _ => false

end FlowExpr.Path
