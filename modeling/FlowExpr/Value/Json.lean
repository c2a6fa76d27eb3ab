import FlowExpr.Value
import FlowExpr.Json

namespace FlowExpr

variable {N : Type} [JsonNumber N]

namespace Json

mutual
-- The value of a document. A number that is no signed word becomes a float.
def toValue : Json N → Value
  | null => .null
  | bool b => .bool b
  | number n =>
    match JsonNumber.asInt64? n with
    | some i => .int i
    | none => .float ((JsonNumber.asFloat? n).getD Binary64.nan)
  | string s => .string s
  | array items => .array (itemValues items)
  | object members => .object (memberValues members)

def itemValues : List (Json N) → List Value
  | [] => []
  | item :: rest => toValue item :: itemValues rest

def memberValues : List (String × Json N) → List (String × Value)
  | [] => []
  | (name, value) :: rest => (name, toValue value) :: memberValues rest
end

-- The members of an object as named values.
def toScope? : Json N → Option Scope
  | object members => some (memberValues members)
  | _ => none

end Json

namespace Value

mutual
-- The document of a value. `undefined` and the floats that have no number become `null`.
def toJson : Value → Json N
  | undefined => .null
  | null => .null
  | bool b => .bool b
  | int n => .number (JsonNumber.ofInt64 n)
  | float x => ((JsonNumber.ofFloat? x).map Json.number).getD .null
  | string s => .string s
  | array items => .array (itemDocuments items)
  | object fields => .object (fieldDocuments fields)

def itemDocuments : List Value → List (Json N)
  | [] => []
  | item :: rest => toJson item :: itemDocuments rest

def fieldDocuments : List (String × Value) → List (String × Json N)
  | [] => []
  | (name, value) :: rest => (name, toJson value) :: fieldDocuments rest
end

end Value

end FlowExpr
