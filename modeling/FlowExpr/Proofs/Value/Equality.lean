import FlowExpr.Value.Equality
import FlowExpr.Proofs.Fields
import FlowExpr.Proofs.Value
import FlowExpr.Proofs.Binary64.Order
import Mathlib.Data.List.Perm.Subperm

namespace FlowExpr.Value

variable {l r : Value} {xs ys : List Value} {fields more : List (String × Value)}

theorem numbersEqual_comm (l r : Value) : numbersEqual l r = numbersEqual r l := by
  cases l with
  | int m =>
      cases r with
      | int n => exact Bool.beq_comm
      | float y => exact Binary64.beq_comm _ _
      | undefined | null | bool | string | array | object => rfl
  | float x =>
      cases r with
      | int n | float y => exact Binary64.beq_comm _ _
      | undefined | null | bool | string | array | object => rfl
  | undefined | null | bool | string | array | object => cases r <;> rfl

theorem itemsEqual_iff :
    itemsEqual xs ys = true ↔ List.Forall₂ (fun x y => strictEquals x y = true) xs ys := by
  induction xs generalizing ys with
  | nil => cases ys <;> simp [itemsEqual]
  | cons x rest ih => cases ys <;> simp [itemsEqual, ih]

theorem fieldsEqual_iff :
    fieldsEqual fields more = true ↔ ∀ field ∈ fields,
      ∃ y, Fields.get? field.1 more = some y ∧ strictEquals field.2 y = true := by
  induction fields with
  | nil => simp [fieldsEqual]
  | cons field rest ih =>
      obtain ⟨name, x⟩ := field
      rw [fieldsEqual, Bool.and_eq_true, ih, List.forall_mem_cons]
      cases Fields.get? name more <;> simp

-- Fields under different names that are all found among as many others leave none of those out.
theorem fieldsEqual_symm (hlength : fields.length = more.length)
    (hfields : (Fields.names fields).Nodup) (hmore : (Fields.names more).Nodup)
    (ih : ∀ field ∈ fields, ∀ other ∈ more, strictEquals field.2 other.2 = true →
      strictEquals other.2 field.2 = true)
    (h : fieldsEqual fields more = true) : fieldsEqual more fields = true := by
  rw [fieldsEqual_iff] at h ⊢
  have hsubset : Fields.names fields ⊆ Fields.names more := by
    intro name hname
    obtain ⟨field, hfield, rfl⟩ := List.mem_map.mp hname
    obtain ⟨y, hy, -⟩ := h field hfield
    exact List.mem_map.mpr ⟨(field.1, y), Fields.mem_of_get? hy, rfl⟩
  have hperm : (Fields.names fields).Perm (Fields.names more) := by
    apply (List.subperm_of_subset hfields hsubset).perm_of_length_le
    rw [Fields.names, Fields.names, List.length_map, List.length_map, hlength]
  intro other hother
  have hname : other.1 ∈ Fields.names fields := hperm.mem_iff.mpr (List.mem_map_of_mem hother)
  obtain ⟨field, hfield, hsame⟩ := List.mem_map.mp hname
  obtain ⟨y, hy, hequal⟩ := h field hfield
  obtain rfl : other.2 = y := by
    have hfound := Fields.get?_of_mem hmore hother
    rw [hsame, hfound] at hy
    exact Option.some.inj hy
  exact ⟨field.2, Fields.get?_of_mem hfields (hsame ▸ hfield),
    ih field hfield other hother hequal⟩

theorem itemsEqual_symm
    (ih : ∀ x ∈ xs, ∀ y ∈ ys, strictEquals x y = true → strictEquals y x = true)
    (h : itemsEqual xs ys = true) : itemsEqual ys xs = true := by
  rw [itemsEqual_iff] at h ⊢
  induction h with
  | nil => exact .nil
  | cons hxy _ ihrest =>
      refine .cons (ih _ List.mem_cons_self _ List.mem_cons_self hxy) (ihrest ?_)
      exact fun x hx y hy => ih x (List.mem_cons_of_mem _ hx) y (List.mem_cons_of_mem _ hy)

theorem strictEquals_symm (hl : l.Everywhere HasDistinctNames) (hr : r.Everywhere HasDistinctNames)
    (h : strictEquals l r = true) : strictEquals r l = true := by
  induction l using inductionOn generalizing r with
  | undefined => cases r <;> simp_all [strictEquals]
  | null => cases r <;> simp_all [strictEquals]
  | bool b => cases r <;> simp_all [strictEquals]
  | string s => cases r <;> simp_all [strictEquals]
  | int n | float x =>
      rw [strictEquals, numbersEqual_comm] at h
      cases r with
      | int n' | float x' => rwa [strictEquals]
      | undefined | null | bool | string | array | object => exact absurd h Bool.false_ne_true
  | array items ih =>
      cases r with
      | array items' =>
          rw [everywhere_array] at hl hr
          rw [strictEquals] at h ⊢
          exact itemsEqual_symm (fun x hx y hy => ih x hx (hl.2 x hx) (hr.2 y hy)) h
      | undefined | null | bool | int | float | string | object => simp [strictEquals] at h
  | object fields ih =>
      cases r with
      | object fields' =>
          rw [everywhere_object] at hl hr
          rw [strictEquals, Bool.and_eq_true, beq_iff_eq] at h ⊢
          refine ⟨h.1.symm, fieldsEqual_symm h.1 hl.1 hr.1 ?_ h.2⟩
          exact fun field hfield other hother =>
            ih field hfield (hl.2 field hfield) (hr.2 other hother)
      | undefined | null | bool | int | float | string | array => simp [strictEquals] at h

theorem strictEquals_comm (hl : l.Everywhere HasDistinctNames)
    (hr : r.Everywhere HasDistinctNames) : strictEquals l r = strictEquals r l :=
  Bool.eq_iff_iff.mpr ⟨strictEquals_symm hl hr, strictEquals_symm hr hl⟩

theorem everywhere_unboxBool (h : l.Everywhere HasDistinctNames) :
    l.unboxBool.Everywhere HasDistinctNames := by
  cases l with
  | bool b => trivial
  | undefined | null | int | float | string | array | object => exact h

theorem looseEqualsPlain_comm (hl : l.Everywhere HasDistinctNames)
    (hr : r.Everywhere HasDistinctNames) : looseEqualsPlain l r = looseEqualsPlain r l := by
  have hstrict := strictEquals_comm hl hr
  cases l with
  | string s =>
      cases r with
      | int n => exact numbersEqual_comm _ (int n)
      | float y => exact numbersEqual_comm _ (float y)
      | undefined | null | bool | string | array | object => exact hstrict
  | int m =>
      cases r with
      | string t => exact numbersEqual_comm (int m) _
      | undefined | null | bool | int | float | array | object => exact hstrict
  | float x =>
      cases r with
      | string t => exact numbersEqual_comm (float x) _
      | undefined | null | bool | int | float | array | object => exact hstrict
  | undefined | null | bool | array | object => cases r <;> exact hstrict

theorem looseEquals_comm (hl : l.Everywhere HasDistinctNames)
    (hr : r.Everywhere HasDistinctNames) : looseEquals l r = looseEquals r l := by
  rw [looseEquals, looseEquals, Bool.or_comm, Bool.and_comm,
    looseEqualsPlain_comm (everywhere_unboxBool hl) (everywhere_unboxBool hr)]

theorem looseEquals_of_strictEquals (h : strictEquals l r = true) : looseEquals l r = true := by
  cases l with
  | undefined | null =>
      cases r with
      | undefined | null => rfl
      | bool | int | float | string | array | object => simp [strictEquals] at h
  | bool b =>
      cases r with
      | bool b' =>
          obtain rfl : b = b' := by simpa [strictEquals] using h
          cases b <;> rfl
      | undefined | null | int | float | string | array | object => simp [strictEquals] at h
  | string s =>
      cases r with
      | string t => exact h
      | undefined | null | bool | int | float | array | object => simp [strictEquals] at h
  | int | float | array | object =>
      cases r with
      | int | float | array | object => exact h
      | undefined | null | bool | string => exact absurd h Bool.false_ne_true

-- Neither equality tells its sides apart, and values that are strictly equal are loosely equal.
theorem equals_comm (hl : l.Everywhere HasDistinctNames) (hr : r.Everywhere HasDistinctNames) :
    l.strictEquals r = r.strictEquals l ∧ l.looseEquals r = r.looseEquals l ∧
      (l.strictEquals r = true → l.looseEquals r = true) :=
  ⟨strictEquals_comm hl hr, looseEquals_comm hl hr, looseEquals_of_strictEquals⟩

-- The fields stand in another order, and an integer stands for a float.
theorem equals_comm_fields :
    let l : Value := .object [("a", .int 1), ("b", .array [.float 2, .null])]
    let r : Value := .object [("b", .array [.int 2, .null]), ("a", .float 1)]
    l.strictEquals r = true ∧ r.strictEquals l = true ∧ l.looseEquals r = true := by
  intro l r
  have hl : l.Everywhere HasDistinctNames := by
    simp [l, Everywhere, FieldsEverywhere, ItemsEverywhere, HasDistinctNames, Fields.names]
  have hr : r.Everywhere HasDistinctNames := by
    simp [r, Everywhere, FieldsEverywhere, ItemsEverywhere, HasDistinctNames, Fields.names]
  have hstrict : l.strictEquals r = true := by decide +kernel
  obtain ⟨hcomm, -, hloose⟩ := equals_comm hl hr
  exact ⟨hstrict, hcomm ▸ hstrict, hloose hstrict⟩

end FlowExpr.Value
