import FlowExpr.Command
import FlowExpr.Text.Whole

namespace FlowExpr.Command

-- What the program is asked to do.
inductive Request where
  | evaluate (options : EvalOptions) (pretty : Bool)
  | references (expression : String)
  | overview
  | page (category : String)
  | usage
  | version

inductive Flag where
  | context
  | steps
  | locals
  | timeout
  | maxLength
  | pretty
  | help
deriving DecidableEq, Repr

namespace Flag

def all : List Flag :=
  [context, steps, locals, timeout, maxLength, pretty, help]

def name : Flag → String
  | context => "context"
  | steps => "steps"
  | locals => "vars"
  | timeout => "timeout-ms"
  | maxLength => "max-length"
  | pretty => "pretty"
  | help => "help"

def letter? : Flag → Option Char
  | context => some 'c'
  | steps => some 's'
  | pretty => some 'p'
  | help => some 'h'
  | _ => none

def takesValue : Flag → Bool
  | pretty => false
  | help => false
  | _ => true

-- The name under which the surroundings give a value to a flag that is not written.
def surroundingName? : Flag → Option String
  | timeout => some "SAFEXPR_TIMEOUT_MS"
  | maxLength => some "SAFEXPR_MAX_LENGTH"
  | _ => none

def ofName? (name : String) : Option Flag :=
  all.find? fun flag => flag.name == name

def ofLetter? (c : Char) : Option Flag :=
  all.find? fun flag => flag.letter? == some c

end Flag

-- Why the arguments ask for nothing that the program does.
inductive UsageError where
  | noCommand
  | unknownCommand (name : String)
  | unexpected (argument : String)
  | missing (argument : String)
  | noValue (flag : Flag)
  | repeated (flag : Flag)
  | badNumber (flag : Flag) (value : String)
deriving DecidableEq, Repr

-- A part of an argument: a word, a flag with the value that is joined to it, or the mark after
-- which there are only words.
inductive Piece where
  | word (text : String)
  | flag (f : Flag) (joined : Option String)
  | unknown (argument : String)
  | endOfFlags
deriving DecidableEq, Repr

def joinedValue (text : List Char) : Option String :=
  match text with
  | [] => none
  | '=' :: value => some (String.ofList value)
  | value => some (String.ofList value)

-- Letters behind one hyphen. A flag that takes a value takes all that follows its letter.
def letterPieces : List Char → List Piece
  | [] => []
  | c :: rest =>
    match Flag.ofLetter? c with
    | none => [.unknown (String.ofList ['-', c])]
    | some f =>
      if f.takesValue then [.flag f (joinedValue rest)] else .flag f none :: letterPieces rest

def namePiece (text : List Char) : Piece :=
  match Flag.ofName? (String.ofList (text.takeWhile (· != '='))) with
  | none => .unknown (String.ofList ('-' :: '-' :: text))
  | some f =>
    match text.dropWhile (· != '=') with
    | [] => .flag f none
    | _ :: value => .flag f (some (String.ofList value))

def pieces : List String → List Piece
  | [] => []
  | argument :: rest =>
    match argument.toList with
    | ['-', '-'] => .endOfFlags :: rest.map .word
    | '-' :: '-' :: text => namePiece text :: pieces rest
    | '-' :: c :: text => letterPieces (c :: text) ++ pieces rest
    | _ => .word argument :: pieces rest

-- The arguments of a command, by what they are.
structure Given where
  words : List String
  flags : List (Flag × String)
deriving Repr

namespace Given

def value? (given : Given) (f : Flag) : Option String :=
  (given.flags.find? fun entry => entry.1 == f).map Prod.snd

def has (given : Given) (f : Flag) : Bool :=
  (given.value? f).isSome

def addWord (word : String) (given : Given) : Given :=
  { given with words := word :: given.words }

def addFlag (f : Flag) (value : String) (given : Given) : Except UsageError Given :=
  if given.has f then .error (.repeated f)
  else .ok { given with flags := (f, value) :: given.flags }

end Given

-- Sorts the pieces into words and flags. A value that is not joined to its flag is the next word.
def collect : List Piece → Except UsageError Given
  | [] => .ok ⟨[], []⟩
  | .word text :: rest => (collect rest).map (Given.addWord text)
  | .unknown argument :: _ => .error (.unexpected argument)
  | .endOfFlags :: rest => collect rest
  | .flag f (some value) :: rest =>
    if f.takesValue then collect rest >>= Given.addFlag f value
    else .error (.unexpected value)
  | .flag f none :: .word value :: rest =>
    if f.takesValue then collect rest >>= Given.addFlag f value
    else ((collect rest).map (Given.addWord value)) >>= Given.addFlag f ""
  | .flag f none :: rest =>
    if f.takesValue then .error (.noValue f) else collect rest >>= Given.addFlag f ""

-- The one word that a command takes.
def onlyWord (argument : String) (given : Given) : Except UsageError String :=
  match given.words with
  | [] => .error (.missing argument)
  | [word] => .ok word
  | _ :: extra :: _ => .error (.unexpected extra)

def rejectFlags (given : Given) : Except UsageError Unit :=
  match given.flags with
  | [] => .ok ()
  | (f, _) :: _ => .error (.unexpected s!"--{f.name}")

-- A number of milliseconds or characters, from the flag or else from the surroundings.
def number? (surroundings : Flag → Option String) (given : Given) (f : Flag) :
    Except UsageError (Option Nat) :=
  match given.value? f <|> surroundings f with
  | none => .ok none
  | some text =>
    match Text.readUnsigned? text.toList with
    | some n => .ok (some n.toNat)
    | none => .error (.badNumber f text)

def evaluation (surroundings : Flag → Option String) (given : Given) :
    Except UsageError Request := do
  let expression ← onlyWord "EXPRESSION" given
  let timeout ← number? surroundings given .timeout
  let maxLength ← number? surroundings given .maxLength
  return .evaluate
    { expression
      context := given.value? .context
      steps := given.value? .steps
      locals := given.value? .locals
      timeoutMilliseconds := timeout
      maxLength }
    (given.has .pretty)

-- What a command asks for with the arguments after it.
def requestOf (surroundings : Flag → Option String) (command : String) (given : Given) :
    Except UsageError Request := do
  if given.has .help then return .usage
  match command with
  | "eval" => evaluation surroundings given
  | "refs" =>
    rejectFlags given
    return .references (← onlyWord "EXPRESSION" given)
  | "docs" =>
    rejectFlags given
    match given.words with
    | [] => return .overview
    | word :: _ => throw (.unexpected word)
  | "doc" =>
    rejectFlags given
    return .page (← onlyWord "CATEGORY" given)
  | "help" => return .usage
  | name => throw (.unknownCommand name)

-- What the arguments of the program ask for.
def request (surroundings : Flag → Option String) : List String → Except UsageError Request
  | [] => .error .noCommand
  | "-h" :: _ => .ok .usage
  | "--help" :: _ => .ok .usage
  | "-V" :: _ => .ok .version
  | "--version" :: _ => .ok .version
  | command :: arguments => collect (pieces arguments) >>= requestOf surroundings command

def versionText : String :=
  "safexpr 0.1.0"

def usageLines : List String :=
  ["safexpr - Evaluate sandboxed workflow expressions",
   "",
   "Usage: safexpr <COMMAND>",
   "",
   "Commands:",
   "  eval <EXPRESSION>  Evaluate an expression",
   "  refs <EXPRESSION>  List the step names an expression depends on",
   "  docs               List documentation categories",
   "  doc <CATEGORY>     Show documentation for a specific category",
   "  help               Print this message",
   "",
   "Options of eval:",
   "  -c, --context <CONTEXT>        JSON bound to 'context' (read from stdin if not provided)",
   "  -s, --steps <STEPS>            JSON object of step results, keyed by step name",
   "      --vars <VARS>              JSON object of variables for this evaluation",
   "      --timeout-ms <TIMEOUT_MS>  Time budget in milliseconds [env: SAFEXPR_TIMEOUT_MS]",
   "      --max-length <MAX_LENGTH>  Longest accepted expression, in characters " ++
     "[env: SAFEXPR_MAX_LENGTH]",
   "  -p, --pretty                   Pretty-print the output",
   "",
   "Options:",
   "  -h, --help     Print help",
   "  -V, --version  Print version"]

def usageText : String :=
  Manual.pageOf usageLines

def UsageError.message : UsageError → String
  | noCommand => usageText
  | unknownCommand name => s!"error: unrecognized subcommand '{name}'"
  | unexpected argument => s!"error: unexpected argument '{argument}' found"
  | missing argument => s!"error: the required argument <{argument}> was not provided"
  | noValue flag => s!"error: a value is required for '--{flag.name}' but none was supplied"
  | repeated flag => s!"error: the argument '--{flag.name}' cannot be used multiple times"
  | badNumber flag value => s!"error: invalid value '{value}' for '--{flag.name}'"

end FlowExpr.Command
