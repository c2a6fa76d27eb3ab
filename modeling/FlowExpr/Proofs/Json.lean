import FlowExpr.Value.Json

namespace FlowExpr

namespace JsonNumber

variable {N : Type} [JsonNumber N]

-- The integer that a number is, if it is one.
def integer? (n : N) : Option Int :=
  match asInt64? n, asUInt64? n with
  | some i, _ => some i.toInt
  | none, some m => some m.toNat
  | none, none => none

-- What the numbers of documents are relied on for. An integer is not mistaken for another one or
-- for a float, and exactly the finite floats are numbers.
structure Lawful (N : Type) [JsonNumber N] : Prop where
  asInt64?_ofInt64 : ∀ i, asInt64? (ofInt64 i : N) = some i
  ofInt64_of_asInt64? : ∀ (n : N) i, asInt64? n = some i → ofInt64 i = n
  signedBound_le_of_asUInt64? : ∀ (n : N) m, asInt64? n = none → asUInt64? n = some m →
    signedBound ≤ m.toNat
  isSome_ofFloat? : ∀ x, (ofFloat? x : Option N).isSome = Binary64.isFinite x
  asInt64?_ofFloat? : ∀ x (n : N), ofFloat? x = some n → asInt64? n = none
  asUInt64?_ofFloat? : ∀ x (n : N), ofFloat? x = some n → asUInt64? n = none
  asFloat?_ofFloat? : ∀ x (n : N), ofFloat? x = some n → asFloat? n = some x
  exists_ofFloat? : ∀ n : N, asInt64? n = none → asUInt64? n = none → ∃ x, ofFloat? x = some n

end JsonNumber

namespace Json

variable {N : Type} {items : List (Json N)} {members : List (String × Json N)}

-- What holds of a list as soon as it holds of its items, and of an object as soon as it holds of
-- the documents of its members, holds of every document.
@[elab_as_elim]
theorem inductionOn {motive : Json N → Prop} (j : Json N) (null : motive null)
    (bool : ∀ b, motive (bool b)) (number : ∀ n, motive (number n))
    (string : ∀ s, motive (string s))
    (array : ∀ items, (∀ item ∈ items, motive item) → motive (array items))
    (object : ∀ members, (∀ member ∈ members, motive member.2) → motive (object members)) :
    motive j :=
  match j with
  | .null => null
  | .bool b => bool b
  | .number n => number n
  | .string s => string s
  | .array items =>
      array items fun item _ => inductionOn item null bool number string array object
  | .object members =>
      object members fun member hmember =>
        have := Fields.sizeOf_lt_of_mem hmember
        inductionOn member.2 null bool number string array object

section Numbers

variable [JsonNumber N]

mutual
-- The integers in a document, those above the signed range among them.
def integers : Json N → List Int
  | number n => (JsonNumber.integer? n).toList
  | array items => itemIntegers items
  | object members => memberIntegers members
  | null | bool _ | string _ => []

def itemIntegers : List (Json N) → List Int
  | [] => []
  | item :: rest => integers item ++ itemIntegers rest

def memberIntegers : List (String × Json N) → List Int
  | [] => []
  | (_, value) :: rest => integers value ++ memberIntegers rest
end

theorem mem_integers_array {n : Int} :
    n ∈ (array items).integers ↔ ∃ item ∈ items, n ∈ item.integers := by
  rw [integers]
  induction items with
  | nil => simp [itemIntegers]
  | cons item rest ih => simp [itemIntegers, ih]

theorem mem_integers_object {n : Int} :
    n ∈ (object members).integers ↔ ∃ member ∈ members, n ∈ member.2.integers := by
  rw [integers]
  induction members with
  | nil => simp [memberIntegers]
  | cons member rest ih => simp [memberIntegers, ih]

theorem toValue_array : (array items).toValue = .array (items.map toValue) := by
  have hitems : itemValues items = items.map toValue := by
    induction items with
    | nil => rfl
    | cons item rest ih => rw [itemValues, ih, List.map_cons]
  rw [toValue, hitems]

theorem toValue_object : (object members).toValue =
    .object (members.map fun member => (member.1, member.2.toValue)) := by
  have hmembers : memberValues members =
      members.map fun member => (member.1, member.2.toValue) := by
    induction members with
    | nil => rfl
    | cons member rest ih => rw [memberValues, ih, List.map_cons]
  rw [toValue, hmembers]

end Numbers

end Json

namespace Value

variable {N : Type} [JsonNumber N] {items : List Value} {fields : List (String × Value)}

theorem toJson_array : ((array items).toJson : Json N) = .array (items.map toJson) := by
  have hitems : (itemDocuments items : List (Json N)) = items.map toJson := by
    induction items with
    | nil => rfl
    | cons item rest ih => rw [itemDocuments, ih, List.map_cons]
  rw [toJson, hitems]

theorem toJson_object : ((object fields).toJson : Json N) =
    .object (fields.map fun field => (field.1, field.2.toJson)) := by
  have hfields : (fieldDocuments fields : List (String × Json N)) =
      fields.map fun field => (field.1, field.2.toJson) := by
    induction fields with
    | nil => rfl
    | cons field rest ih => rw [fieldDocuments, ih, List.map_cons]
  rw [toJson, hfields]

end Value

end FlowExpr
