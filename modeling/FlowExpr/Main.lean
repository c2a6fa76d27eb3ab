import FlowExpr.Command.Arguments
import FlowExpr.Json.Printer

namespace FlowExpr.Command

-- The context comes from standard input unless it was given as a flag. A blank input is none.
def contextFromInput (options : EvalOptions) : IO EvalOptions := do
  if options.context.isSome then return options
  let input ← IO.getStdin
  if ← input.isTty then return options
  let text ← input.readToEnd
  return if Text.isBlankText text.toList then options else { options with context := some text }

def fromSurroundings (f : Flag) : IO (Option String) :=
  match f.surroundingName? with
  | some name => IO.getEnv name
  | none => return none

def finish (outcome : Except CommandError String) : IO UInt32 := do
  match outcome with
  | .ok text =>
    IO.print text
    return 0
  | .error e =>
    IO.eprintln e.message
    return 1

def answer : Request → IO UInt32
  | .evaluate options pretty => do
    let options ← contextFromInput options
    finish ((evaluate options).map fun document =>
      (if pretty then document.pretty else document.compact) ++ "\n")
  | .references expression => finish (.ok (Manual.pageOf (references expression)))
  | .overview => finish (.ok Manual.overview)
  | .page category => finish (manualPage category)
  | .usage => finish (.ok usageText)
  | .version => finish (.ok (versionText ++ "\n"))

end FlowExpr.Command

open FlowExpr.Command in
def main (arguments : List String) : IO UInt32 := do
  let timeout ← fromSurroundings .timeout
  let maxLength ← fromSurroundings .maxLength
  let surroundings : Flag → Option String
    | .timeout => timeout
    | .maxLength => maxLength
    | _ => none
  match request surroundings arguments with
  | .ok asked => answer asked
  | .error e =>
    IO.eprintln e.message
    return 2
