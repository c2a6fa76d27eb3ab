import FlowExpr.Dependency
import FlowExpr.Evaluation

namespace FlowExpr

namespace Environment

-- A name that a path looks up. It is marked if the `${` of a reference stands right before it and
-- it consists of name characters only.
structure Root where
  name : String
  marked : Bool
deriving DecidableEq, Repr

-- Whether a computed key stands in the braces of a reference of its own.
def isBraced (key : List Char) : Bool :=
  keyPath key != key

def keyRoots (inside : Bool → List Char → List Root) : Segment → List Root
  | .computed key => inside (isBraced key.toList) (keyPath key.toList)
  | _ => []

-- The names that a path looks up, which follow from its text alone: its root, and those of its
-- computed keys down to so many levels.
def pathRoots : Nat → Bool → List Char → List Root
  | 0, _, _ => []
  | levels + 1, behindMark, text =>
    let path := Text.trim text
    let root := rootText path
    if root.isEmpty then []
    else
      ⟨String.ofList root, behindMark && root.all Text.isNameChar⟩ ::
        match Path.read (String.ofList path) with
        | .error _ => []
        | .ok segments => segments.tail.flatMap (keyRoots (pathRoots levels))

end Environment

namespace Tree

mutual
-- The paths of the references in a tree.
def references : Tree → List String
  | literal _ => []
  | reference path => [path]
  | operation _ left right => left.references ++ right.references
  | object entries => entriesReferences entries
  | array items => itemsReferences items
  | call _ args => argsReferences args

def entriesReferences : List Entry → List String
  | [] => []
  | entry :: rest => entryReferences entry ++ entriesReferences rest

def entryReferences : Entry → List String
  | .keyed _ value => value.references
  | .spread value => value.references
  | .keyless value => value.references

def itemsReferences : List Item → List String
  | [] => []
  | item :: rest => itemReferences item ++ itemsReferences rest

def itemReferences : Item → List String
  | .single value => value.references
  | .spread value => value.references

def argsReferences : List Tree → List String
  | [] => []
  | arg :: rest => arg.references ++ argsReferences rest
end

def roots (tree : Tree) : List Environment.Root :=
  tree.references.flatMap fun path => Environment.pathRoots (maxNesting + 1) true path.toList

end Tree

namespace Dependency

-- The names that the evaluation of an expression looks up.
def roots (expression : String) : List Environment.Root :=
  match Token.read expression with
  | .error _ => []
  | .ok tokens =>
    match Tree.parse tokens with
    | .error _ => []
    | .ok tree => tree.roots

end Dependency

-- The same evaluator over the results of other steps.
def Evaluator.withSteps (e : Evaluator) (steps : Scope) : Evaluator :=
  { e with environment := { e.environment with steps := steps } }

end FlowExpr
