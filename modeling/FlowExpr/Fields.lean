namespace FlowExpr.Fields

variable {α : Type}

-- Writes a field. A name that is already there keeps its place and gets the new value.
def insert (name : String) (value : α) : List (String × α) → List (String × α)
  | [] => [(name, value)]
  | (other, old) :: rest =>
    if other = name then (other, value) :: rest else (other, old) :: insert name value rest

def get? (name : String) : List (String × α) → Option α
  | [] => none
  | (other, value) :: rest => if other = name then some value else get? name rest

def names (fields : List (String × α)) : List String :=
  fields.map Prod.fst

-- Writes the fields of a second list over those of a first, from left to right.
def extend (fields more : List (String × α)) : List (String × α) :=
  more.foldl (fun fields (name, value) => insert name value fields) fields

def ofList (fields : List (String × α)) : List (String × α) :=
  extend [] fields

theorem get?_insert_self (name : String) (value : α) (fields : List (String × α)) :
    get? name (insert name value fields) = some value := by
  induction fields with
  | nil => simp [insert, get?]
  | cons field rest ih =>
    obtain ⟨other, old⟩ := field
    by_cases h : other = name
    · simp [insert, get?, h]
    · simp [insert, get?, h, ih]

theorem get?_insert_of_ne {name other : String} (h : other ≠ name) (value : α)
    (fields : List (String × α)) : get? other (insert name value fields) = get? other fields := by
  induction fields with
  | nil => simp [insert, get?, Ne.symm h]
  | cons field rest ih =>
    obtain ⟨first, old⟩ := field
    by_cases hf : first = name
    · subst hf
      simp [insert, get?, Ne.symm h]
    · simp [insert, get?, hf, ih]

theorem sizeOf_lt_of_mem [SizeOf α] {field : String × α} {fields : List (String × α)}
    (h : field ∈ fields) : sizeOf field.2 < sizeOf fields := by
  have hfield : sizeOf field < sizeOf fields := List.sizeOf_lt_of_mem h
  have hvalue : sizeOf field = 1 + sizeOf field.1 + sizeOf field.2 := rfl
  omega

end FlowExpr.Fields
