import FlowExpr.Value.Number
import FlowExpr.Value.Text

namespace FlowExpr

-- The conversion functions, the only functions that an expression may call.
inductive Builtin where
  | number
  | string
  | boolean
  | parseInt
  | parseFloat
deriving DecidableEq, Repr

namespace Builtin

-- The function of a name. Names are told apart by case.
def ofName? : String → Option Builtin
  | "Number" => some number
  | "String" => some string
  | "Boolean" => some boolean
  | "parseInt" => some parseInt
  | "parseFloat" => some parseFloat
  | _ => none

-- The text that a parsing function reads: that of its first argument, without leading blanks.
def sourceText (args : List Value) : List Char :=
  Text.trimStart ((args.head?.map Value.text).getD "").toList

-- The base that a second argument asks for; zero leaves the choice to the text.
def askedRadix (args : List Value) : Int :=
  match args[1]?.map Value.toNumber with
  | some (.int r) => r.toInt
  | some (.float x) => if Binary64.isFinite x then Binary64.truncate x else 0
  | _ => 0

-- A `0x` at the front selects base sixteen where no other base was asked for.
def dropHexMark : List Char → Option (List Char)
  | '0' :: 'x' :: rest => some rest
  | '0' :: 'X' :: rest => some rest
  | _ => none

def chooseRadix (asked : Int) (text : List Char) : Int × List Char :=
  if asked = 0 ∨ asked = 16 then
    match dropHexMark text with
    | some rest => (16, rest)
    | none => (if asked = 0 then 10 else asked, text)
  else (asked, text)

-- The value of digits too large for a word, rounded after each digit.
def digitsFloat (radix : Nat) (digits : List Char) : Float :=
  digits.foldl (fun value c =>
    value * Float.ofNat radix + Float.ofNat ((Text.digitValue? radix c).getD 0)) 0

-- The digits of a base from two to thirty-six, with a sign.
def ofDigits (negative : Bool) (radix : Nat) (digits : List Char) : Value :=
  ((signedWord? (Text.digitsValue radix digits)).map fun n => .int (if negative then -n else n)).getD
    (.float (Binary64.withSign negative (digitsFloat radix digits)))

-- The longest run of digits after a sign.
def parseIntText (text : List Char) (asked : Int) : Value :=
  let (sign, rest) := Decimal.splitSign text
  let (radix, rest) := chooseRadix asked rest
  if radix < 2 ∨ 36 < radix then Value.nan
  else
    let digits := rest.takeWhile (Text.isDigitOf radix.toNat)
    if digits.isEmpty then Value.nan else ofDigits (sign == ['-']) radix.toNat digits

-- The longest number at the front of a text, with its sign; empty if there is none.
def floatPrefix (text : List Char) : List Char :=
  let (sign, rest) := Decimal.splitSign text
  match Decimal.Numeral.split rest with
  | some (n, _) => sign ++ n.written
  | none => []

-- An integral float of less than `2 ^ 53` is an integer.
def ofFloat (x : Float) : Value :=
  if Binary64.isIntegral x && Binary64.magnitude x < twoPow 53 then
    .int (Int64.ofInt (Binary64.truncate x))
  else .float x

def parseFloatText (text : List Char) : Value :=
  let (sign, rest) := Decimal.splitSign text
  if "Infinity".toList.isPrefixOf rest then
    .float (Binary64.withSign (sign == ['-']) Binary64.infinity)
  else
    match Decimal.readFloat? (floatPrefix text) with
    | some x => ofFloat x
    | none => Value.nan

-- Arguments beyond those that a function knows are ignored, and a missing one has a default.
def call (f : Builtin) (args : List Value) : Value :=
  match f with
  | number => (args.head?.map Value.toNumber).getD (.int 0)
  | string => .string ((args.head?.map Value.text).getD "")
  | boolean => .bool (args.head?.any Value.isTruthy)
  | parseInt => parseIntText (sourceText args) (askedRadix args)
  | parseFloat => parseFloatText (sourceText args)

end Builtin

end FlowExpr
