import FlowExpr.Binary64
import FlowExpr.Text.Whole

namespace FlowExpr

-- The numbers of JSON documents, by what can be asked of them. An integer has a number, and so has
-- a float that JSON can write; a number is an integer with or without a sign and a float, each as
-- far as it can be.
class JsonNumber (N : Type) where
  ofInt64 : Int64 → N
  ofFloat? : Float → Option N
  asInt64? : N → Option Int64
  asUInt64? : N → Option UInt64
  asFloat? : N → Option Float

-- A JSON document. The members of an object keep their order.
inductive Json (N : Type) where
  | null
  | bool (b : Bool)
  | number (n : N)
  | string (s : String)
  | array (items : List (Json N))
  | object (members : List (String × Json N))
deriving Inhabited

namespace Json

-- The numbers that documents are read and written with: an integer of the signed range, one above
-- it, or a finite float.
inductive Number where
  | signed (n : Int64)
  | unsigned (n : UInt64) (above : signedBound ≤ n.toNat)
  | real (x : Float) (finite : Binary64.isFinite x = true)

namespace Number

-- A float as a JSON number, for a float that has one.
def real? (x : Float) : Option Number :=
  if h : Binary64.isFinite x = true then some (real x h) else none

-- An integer above the signed range as a JSON number, for one that a word holds.
def unsigned? (n : Nat) : Option Number :=
  if h : signedBound ≤ n ∧ n < unsignedBound then
    some (unsigned (UInt64.ofNat n) (by rw [UInt64.toNat_ofNat_of_lt' h.2]; exact h.1))
  else none

def asInt64? : Number → Option Int64
  | signed n => some n
  | unsigned _ _ => none
  | real _ _ => none

def asUInt64? : Number → Option UInt64
  | signed n => if 0 ≤ n then some n.toUInt64 else none
  | unsigned n _ => some n
  | real _ _ => none

def asFloat : Number → Float
  | signed n => Float.ofInt n.toInt
  | unsigned n _ => Float.ofNat n.toNat
  | real x _ => x

instance : JsonNumber Number where
  ofInt64 := signed
  ofFloat? := real?
  asInt64? := asInt64?
  asUInt64? := asUInt64?
  asFloat? n := some n.asFloat

end Number

end Json

end FlowExpr
