import FlowExpr.Limits
import FlowExpr.Text.Blank
import FlowExpr.Text.Letter

namespace FlowExpr.Dependency

-- The names that are never steps: those that loops bind, and the context.
def ignoredNames : List String :=
  ["item", "index", "acc", "context"]

-- The body of a reference whose opening has been read, and what follows its closing brace. `depth`
-- counts the further braces that are open.
def span (depth : Nat) : List Char → Option (List Char × List Char)
  | [] => none
  | c :: rest =>
    if c = '{' then (span (depth + 1) rest).map fun (body, after) => (c :: body, after)
    else if c = '}' then
      match depth with
      | 0 => some ([], rest)
      | depth + 1 => (span depth rest).map fun (body, after) => (c :: body, after)
    else (span depth rest).map fun (body, after) => (c :: body, after)

theorem span_length {depth : Nat} {text body rest : List Char}
    (h : span depth text = some (body, rest)) : rest.length < text.length := by
  fun_induction span depth text generalizing body with
  | case1 => simp at h
  | case3 =>
    simp only [Option.some.injEq, Prod.mk.injEq] at h
    simp [← h.2]
  | case2 | case4 | case5 =>
    rename_i ih
    simp only [Option.map_eq_some_iff, Prod.mk.injEq, Prod.exists] at h
    obtain ⟨_, _, hspan, _, rfl⟩ := h
    have hlt := ih hspan
    simp only [List.length_cons]
    omega

def isRootEnd (c : Char) : Bool :=
  c == '.' || c == '[' || Text.isBlank c

-- The text of a reference up to its first dot, bracket or blank, if that is a name.
def rootName? (body : List Char) : Option String :=
  let root := (Text.trimStart body).takeWhile fun c => !isRootEnd c
  if !root.isEmpty && root.all Text.isNameChar then some (String.ofList root) else none

def hasReference : List Char → Bool
  | [] => false
  | c :: rest => (c == '$' && rest.head? == some '{') || hasReference rest

-- The roots of the references in a text, those of each body after its own. `inside` finds the roots
-- in a body. There are none to tell if a reference is never closed.
def rootsWith (inside : List Char → Option (List String)) (text : List Char) :
    Option (List String) :=
  match text with
  | [] => some []
  | c :: rest =>
    if c = '$' ∧ rest.head? = some '{' then
      match _h : span 0 rest.tail with
      | none => none
      | some (body, after) =>
        match inside body, rootsWith inside after with
        | some nested, some more => some ((rootName? body).toList ++ nested ++ more)
        | _, _ => none
    else rootsWith inside rest
termination_by text.length
decreasing_by
  · have hspan := span_length _h
    simp only [List.length_tail] at hspan
    simp only [List.length_cons]
    omega
  · simp

-- The roots of references that are nested at most so deeply.
def rootsWithin : Nat → List Char → Option (List String)
  | 0, text => if hasReference text then none else some []
  | levels + 1, text => rootsWith (rootsWithin levels) text

-- Puts a name into a list in increasing order that may hold it already.
def insertName (name : String) : List String → List String
  | [] => [name]
  | other :: rest =>
    if name < other then name :: other :: rest
    else if name = other then other :: rest
    else other :: insertName name rest

-- The names of the steps that an expression refers to, in increasing order. The text need not be an
-- expression; one with a reference that is not closed or is nested too deeply refers to nothing.
def names (ignored : List String) (expression : String) : List String :=
  match rootsWithin maxNesting expression.toList with
  | none => []
  | some roots => (roots.filter fun name => !ignored.contains name).foldr insertName []

def stepNames (expression : String) : List String :=
  names ignoredNames expression

end FlowExpr.Dependency
