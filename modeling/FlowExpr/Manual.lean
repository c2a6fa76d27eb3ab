namespace FlowExpr.Manual

-- What the manual has pages on.
inductive Category where
  | grammar
  | operators
  | references
  | functions
  | errors
deriving DecidableEq, Repr

namespace Category

-- The category of a name in letters of either case, with low lines for hyphens.
def ofName? (name : String) : Option Category :=
  match String.ofList (name.toList.map fun c => if c = '_' then '-' else c.toLower) with
  | "syntax" => some grammar
  | "operators" => some operators
  | "ops" => some operators
  | "references" => some references
  | "refs" => some references
  | "paths" => some references
  | "functions" => some functions
  | "fns" => some functions
  | "errors" => some errors
  | "error" => some errors
  | _ => none

end Category

def pageOf (lines : List String) : String :=
  String.join (lines.map (· ++ "\n"))

def overviewLines : List String :=
  ["SAFEXPR DOCUMENTATION",
   "",
   "safexpr evaluates small, sandboxed expressions embedded in workflow step",
   "definitions: references to earlier step results, arithmetic, comparisons,",
   "object and array construction, spread, and template strings.",
   "",
   "DOCUMENTATION CATEGORIES",
   "",
   "  syntax            Literals, containers, spread, and template strings",
   "  operators         Arithmetic, comparison, logical, and nullish operators",
   "  references        $\x7b...\x7d references, paths, and name resolution order",
   "  functions         The whitelisted conversion functions",
   "  errors            Error kinds and what triggers them",
   "",
   "QUICK REFERENCE",
   "",
   "  $\x7bstep.field\x7d     Result of an earlier step",
   "  $\x7bcontext.key\x7d    The persistent context object",
   "  `Hi $\x7bname\x7d`      Template string",
   "  [...$\x7ba\x7d, 1]      Array with spread",
   "  \x7b...$\x7ba\x7d, b: 2\x7d   Object with spread",
   "  a ?? b            First operand unless null/undefined",
   "",
   "Run 'safexpr doc <category>' for details."]

def grammarLines : List String :=
  ["SYNTAX - Literals, Containers, and Templates",
   "",
   "LITERALS",
   "  42, 3.5           Numbers (no sign; `-1` is the operator `-` and `1`)",
   "  \"text\", 'text'    Strings; escapes \\n \\t \\r \\0, any other escaped char is literal",
   "  true, false       Booleans",
   "  null, undefined   Nullish values",
   "  word              A bare word is the string \"word\"",
   "",
   "CONTAINERS",
   "  \x7b key: expr, \"quoted key\": expr, 3: expr \x7d",
   "  [ expr, expr, ]   A trailing comma is allowed, an empty middle element is not",
   "",
   "SPREAD",
   "  [...$\x7ba\x7d, ...$\x7bb\x7d]      Arrays are concatenated; objects contribute their values",
   "  \x7b...$\x7ba\x7d, ...$\x7bb\x7d\x7d      Later keys overwrite earlier ones; arrays contribute index keys",
   "",
   "TEMPLATES",
   "  `Total: $\x7border.total\x7d` Every interpolation is concatenated as a string",
   "                          Interpolations are reference paths, not expressions:",
   "                          compute outside the template, `Sum: ` + ($\x7ba\x7d + $\x7bb\x7d)",
   "",
   "GROUPING",
   "  (a + b) * c"]

def operatorsLines : List String :=
  ["OPERATORS - Precedence from loosest to tightest",
   "",
   "  ||                    1   Left operand if truthy, else right",
   "  &&                    2   Left operand if falsy, else right",
   "  == != === !==         3   Loose and strict equality",
   "  < <= > >=             4   Operands must share a type (number, string, boolean)",
   "  + -                   5   + concatenates when either side is a string",
   "  * / %                 6   Numbers only; / and % by zero is an error",
   "  ??                    7   Left operand unless null or undefined",
   "",
   "Equal precedence groups left to right: 10 - 5 - 2 is 3.",
   "Both operands are always evaluated, left first.",
   "",
   "LOOSE EQUALITY",
   "  null == undefined     true",
   "  \"5\" == 5              true",
   "  true == 1             true"]

def referencesLines : List String :=
  ["REFERENCES - Paths and Resolution",
   "",
   "PATHS",
   "  $\x7bfetch\x7d                  Whole step result",
   "  $\x7bfetch.body.items[0]\x7d    Properties and indices",
   "  $\x7bheaders[\"x-id\"]\x7d        Quoted keys",
   "  $\x7brows[$\x7bcursor\x7d]\x7d        Computed keys (string or number)",
   "  $\x7bitems.length\x7d           Length of an array or string",
   "",
   "RESOLUTION ORDER",
   "  1. Variables passed to this evaluation (--vars)",
   "  2. `context`, the persistent context object (--context)",
   "  3. Step results by step name (--steps)",
   "",
   "Accessing a property of null, or a key that does not exist, is an error.",
   "",
   "DEPENDENCIES",
   "  safexpr refs '<expr>' lists the step names an expression reads.",
   "  `item`, `index`, `acc` and `context` are never listed."]

def functionsLines : List String :=
  ["FUNCTIONS - Whitelisted Conversions",
   "",
   "  Number(x)             Numeric conversion (\"\" is 0, \"abc\" is NaN)",
   "  String(x)             String conversion; arrays and objects become JSON",
   "  Boolean(x)            Truthiness",
   "  parseInt(x, radix?)   Leading integer of a string",
   "  parseFloat(x)         Leading decimal number of a string",
   "",
   "Any other call is rejected: function 'name' is not allowed."]

def errorsLines : List String :=
  ["ERRORS - Kinds of Failure",
   "",
   "  security      Empty or over-long expression, forbidden pattern",
   "                (eval, Function, constructor, __proto__, prototype),",
   "                empty $\x7b\x7d slot, unclosed $\x7b",
   "  lexical       Unterminated string or reference, invalid operator,",
   "                unbalanced parentheses, brackets nested over 256 deep",
   "  syntax        Misplaced token, bad object key, mismatched parentheses,",
   "                expression tree over 256 levels (long operator chains)",
   "  reference     Unknown name, property of null, missing property",
   "  evaluation    Type mismatch, division by zero, bad spread,",
   "                disallowed function",
   "  timeout       Evaluation ran past its budget (--timeout-ms)",
   "",
   "Syntax, reference and evaluation errors are reported as",
   "  failed to evaluate expression: <expr>. Got error: <detail>"]

-- The page that lists the categories.
def overview : String :=
  pageOf overviewLines

def page : Category → String
  | .grammar => pageOf grammarLines
  | .operators => pageOf operatorsLines
  | .references => pageOf referencesLines
  | .functions => pageOf functionsLines
  | .errors => pageOf errorsLines

end FlowExpr.Manual
