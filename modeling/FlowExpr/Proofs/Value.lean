import FlowExpr.Value

namespace FlowExpr.Value

variable {p : Value → Prop} {items : List Value} {fields : List (String × Value)}

-- What holds of a list as soon as it holds of its items, and of an object as soon as it holds of the
-- values of its fields, holds of every value.
@[elab_as_elim]
theorem inductionOn {motive : Value → Prop} (v : Value) (undefined : motive undefined)
    (null : motive null) (bool : ∀ b, motive (bool b)) (int : ∀ n, motive (int n))
    (float : ∀ x, motive (float x)) (string : ∀ s, motive (string s))
    (array : ∀ items, (∀ item ∈ items, motive item) → motive (array items))
    (object : ∀ fields, (∀ field ∈ fields, motive field.2) → motive (object fields)) :
    motive v :=
  match v with
  | .undefined => undefined
  | .null => null
  | .bool b => bool b
  | .int n => int n
  | .float x => float x
  | .string s => string s
  | .array items =>
      array items fun item _ => inductionOn item undefined null bool int float string array object
  | .object fields =>
      object fields fun field hfield =>
        have := Fields.sizeOf_lt_of_mem hfield
        inductionOn field.2 undefined null bool int float string array object

mutual
-- A property of a value and of all values inside it.
def Everywhere (p : Value → Prop) : Value → Prop
  | array items => p (array items) ∧ ItemsEverywhere p items
  | object fields => p (object fields) ∧ FieldsEverywhere p fields
  | v => p v

def ItemsEverywhere (p : Value → Prop) : List Value → Prop
  | [] => True
  | item :: rest => Everywhere p item ∧ ItemsEverywhere p rest

def FieldsEverywhere (p : Value → Prop) : List (String × Value) → Prop
  | [] => True
  | (_, value) :: rest => Everywhere p value ∧ FieldsEverywhere p rest
end

theorem everywhere_array :
    (array items).Everywhere p ↔ p (array items) ∧ ∀ item ∈ items, item.Everywhere p := by
  have hitems : ItemsEverywhere p items ↔ ∀ item ∈ items, item.Everywhere p := by
    induction items with
    | nil => simp [ItemsEverywhere]
    | cons item rest ih => rw [ItemsEverywhere, ih, List.forall_mem_cons]
  rw [Everywhere, hitems]

theorem everywhere_object :
    (object fields).Everywhere p ↔
      p (object fields) ∧ ∀ field ∈ fields, field.2.Everywhere p := by
  have hfields : FieldsEverywhere p fields ↔ ∀ field ∈ fields, field.2.Everywhere p := by
    induction fields with
    | nil => simp [FieldsEverywhere]
    | cons field rest ih => rw [FieldsEverywhere, ih, List.forall_mem_cons]
  rw [Everywhere, hfields]

-- No two fields of an object have one name.
def HasDistinctNames : Value → Prop
  | object fields => (Fields.names fields).Nodup
  | _ => True

end FlowExpr.Value
