import FlowExpr.Dependency
import FlowExpr.Evaluation
import FlowExpr.Json.Reader
import FlowExpr.Manual
import FlowExpr.Value.Json

namespace FlowExpr

-- What an evaluation on the command line is given: an expression, three documents and two limits.
structure EvalOptions where
  expression : String
  context : Option String
  steps : Option String
  locals : Option String
  timeoutMilliseconds : Option Nat
  maxLength : Option Nat

-- Why a command failed.
inductive CommandError where
  | expression (f : Failure)
  | json
  | notAnObject (flag : String)
  | unknownCategory (name : String)
deriving DecidableEq, Repr

def CommandError.message : CommandError → String
  | expression f => f.message
  | json => "Invalid JSON"
  | notAnObject flag => s!"{flag} must be a JSON object"
  | unknownCategory name =>
    s!"Unknown category: '{name}'\nRun 'safexpr docs' to see available categories."

namespace Command

def readContext (text : Option String) : Except CommandError Value :=
  match text with
  | none => .ok .null
  | some text =>
    match Json.read? text with
    | some document => .ok document.toValue
    | none => .error .json

-- The members of an object as named values.
def readScope (flag : String) (text : Option String) : Except CommandError Scope :=
  match text with
  | none => .ok []
  | some text =>
    match Json.read? text with
    | none => .error .json
    | some document =>
      match document.toScope? with
      | some scope => .ok scope
      | none => .error (.notAnObject flag)

def evaluator (options : EvalOptions) (context : Value) (steps : Scope) : Evaluator :=
  { environment := ⟨steps, context⟩
    operators := .standard
    timeouts := some
      { Timeouts.default with
        standard := options.timeoutMilliseconds.getD Timeouts.standardMilliseconds }
    maxLength := options.maxLength.getD defaultMaxLength }

-- The document of the value of an expression. The context is read before the steps, and the steps
-- before the variables.
def evaluate (options : EvalOptions) : Except CommandError (Json Json.Number) :=
  match readContext options.context with
  | .error e => .error e
  | .ok context =>
    match readScope "--steps" options.steps with
    | .error e => .error e
    | .ok steps =>
      match readScope "--vars" options.locals with
      | .error e => .error e
      | .ok locals =>
        match (evaluator options context steps).evaluate options.expression locals none with
        | .ok v => .ok v.toJson
        | .error f => .error (.expression f)

-- The names of the steps that an expression refers to.
def references (expression : String) : List String :=
  Dependency.stepNames expression

def manualPage (category : String) : Except CommandError String :=
  match Manual.Category.ofName? category with
  | some found => .ok (Manual.page found)
  | none => .error (.unknownCategory category)

end Command

end FlowExpr
