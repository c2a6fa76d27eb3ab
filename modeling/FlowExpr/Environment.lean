import FlowExpr.Environment.Fault
import FlowExpr.Path.Reader
import FlowExpr.Path.Walk

namespace FlowExpr

-- What references refer to: the results of the steps that have run, and the context.
structure Environment where
  steps : Scope
  context : Value

namespace Environment

def contextName : String :=
  "context"

def withStep (env : Environment) (name : String) (result : Value) : Environment :=
  { env with steps := Fields.insert name result env.steps }

-- A name is first looked up among the variables of one evaluation. The context comes before the
-- steps, so that no step can take its name.
def lookup? (env : Environment) (locals : Scope) (name : String) : Option Value :=
  match Fields.get? name locals with
  | some v => some v
  | none => if name = contextName then some env.context else Fields.get? name env.steps

-- The names that a path can start with.
def availableNames (env : Environment) (locals : Scope) : List String :=
  (Fields.names locals ++ Fields.names env.steps).filter (· ≠ contextName) ++ [contextName]

def isRootEnd (c : Char) : Bool :=
  c == '.' || c == '['

-- The text up to the first dot or bracket, without the blanks around it.
def rootText (path : List Char) : List Char :=
  Text.trim (path.takeWhile fun c => !isRootEnd c)

-- The path in a computed key. It may stand in the braces of a reference.
def keyPath (text : List Char) : List Char :=
  match text with
  | '$' :: '{' :: rest => if rest.getLast? = some '}' then rest.dropLast else text
  | text => text

-- The segment that a computed key stands for: a text is a name, and an integer that is not negative
-- is an index. A float too large for an index counts as the largest one.
def keySegment? : Value → Option Segment
  | .string name => some (.property name)
  | .int n => if 0 ≤ n.toInt then some (.index (UInt64.ofNat n.toInt.toNat)) else none
  | .float x =>
    if 0 ≤ x && Binary64.isIntegral x then
      some (.index (UInt64.ofNat (min (Binary64.magnitude x) (unsignedBound - 1))))
    else none
  | _ => none

-- Replaces the computed keys of a path by what they stand for. `resolve` is how the path in one is
-- resolved.
def resolveKeys (resolve : List Char → Except ReferenceFault Value) (path : String) :
    Path → Except ReferenceFault Path
  | [] => .ok []
  | .computed text :: rest =>
    match resolve (keyPath text.toList) with
    | .error fault => .error fault
    | .ok v =>
      match keySegment? v with
      | none => .error (.invalidKey path text v.typeName)
      | some segment => (resolveKeys resolve path rest).map (segment :: ·)
  | segment :: rest => (resolveKeys resolve path rest).map (segment :: ·)

-- The value of a path in which computed keys are nested less deeply than so many levels.
def resolveWithin (env : Environment) (locals : Scope) :
    Nat → List Char → Except ReferenceFault Value
  | 0, text => .error (.malformed ⟨String.ofList (Text.trim text), 0, .nestedTooDeeply⟩)
  | levels + 1, text =>
    let path := Text.trim text
    let name := String.ofList (rootText path)
    if (rootText path).isEmpty then .error (.malformed ⟨String.ofList path, 0, .missingRoot⟩)
    else
      match env.lookup? locals name with
      | none => .error (.unknown name (env.availableNames locals))
      | some root =>
        if path.all fun c => !isRootEnd c then .ok root
        else
          match Path.read (String.ofList path) with
          | .error e => .error (.malformed e)
          | .ok segments =>
            match resolveKeys (resolveWithin env locals levels) (String.ofList path)
              segments.tail with
            | .error fault => .error fault
            | .ok segments =>
              match Path.get root segments (String.ofList path) with
              | .error e => .error (.access e)
              | .ok v => .ok v

-- The value that a reference path leads to.
def resolve (env : Environment) (locals : Scope) (path : String) :
    Except ReferenceFault Value :=
  resolveWithin env locals (maxNesting + 1) path.toList

def has (env : Environment) (locals : Scope) (path : String) : Bool :=
  match env.resolve locals path with
  | .ok _ => true
  | .error _ => false

end Environment

end FlowExpr
