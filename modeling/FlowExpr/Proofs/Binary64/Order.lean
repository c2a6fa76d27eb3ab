import FlowExpr.Operator.Order
import Mathlib.Data.Prod.Lex
import Mathlib.Order.Compare

namespace FlowExpr.Binary64

open Float.Model (UnpackedFloat)
open Float.Model.UnpackedFloat (Sign)

variable {u v : UnpackedFloat} {x y : Float} {o : Ordering}

-- A place among the floats: what counts first is the sign and whether the float is finite, then the
-- exponent, and last the significand.
abbrev Place :=
  ℤ ×ₗ ℤ ×ₗ ℤ

def direction : Sign → ℤ
  | .positive => 1
  | .negative => -1

-- The place of a finite float that is not zero.
def finitePlace (s : Sign) (e : ℤ) (m : ℕ) : Place :=
  toLex (direction s, toLex (direction s * e, direction s * m))

-- The two zeros stand in one place, and NaN stands in none.
def placeOf? : UnpackedFloat → Option Place
  | .infinity s => some (toLex (2 * direction s, toLex (0, 0)))
  | .finite s m e _ => some (finitePlace s e m)
  | .zero _ => some (toLex (0, toLex (0, 0)))
  | .notANumber => none

def place? (x : Float) : Option Place :=
  placeOf? x.toModel.unpack

theorem compare_natCast (m n : ℕ) : compare (m : ℤ) (n : ℤ) = compare m n := by
  have hcast : StrictMono (fun n : ℕ => (n : ℤ)) := fun m n h => Int.ofNat_lt.mpr h
  rw [← cmp_eq_compare, ← cmp_eq_compare, hcast.cmp_map_eq]

theorem compare_neg (a b : ℤ) : compare (-a) (-b) = (compare a b).swap := by
  have hneg : StrictAnti (fun a : ℤ => -a) := fun a b h => Int.neg_lt_neg h
  rw [← cmp_eq_compare, ← cmp_eq_compare, hneg.cmp_map_eq, cmp_swap]

theorem compare_toLex {α β : Type*} [Ord α] [Ord β] (a b : α) (p q : β) :
    compare (toLex (a, p)) (toLex (b, q)) = (compare a b).then (compare p q) :=
  rfl

theorem compare_positive (e e' : ℤ) (m m' : ℕ) :
    compare (finitePlace .positive e m) (finitePlace .positive e' m') =
      (compare e e').then (compare m m') := by
  simp only [finitePlace, compare_toLex, direction, Int.one_mul, compare_natCast]
  rfl

theorem compare_negative (e e' : ℤ) (m m' : ℕ) :
    compare (finitePlace .negative e m) (finitePlace .negative e' m') =
      ((compare e e').then (compare m m')).swap := by
  simp only [finitePlace, compare_toLex, direction, Int.neg_one_mul, compare_neg, compare_natCast,
    ← Ordering.swap_then]
  rfl

-- Floats are compared by their places.
theorem compare_eq_place (u v : UnpackedFloat) :
    u.compare v = (placeOf? u).bind fun a => (placeOf? v).map (compare a) := by
  cases u with
  | notANumber => rfl
  | infinity s | zero s =>
      cases v with
      | notANumber => rfl
      | infinity t | zero t | finite t => cases s <;> cases t <;> rfl
  | finite s m e hm =>
      cases v with
      | notANumber => rfl
      | infinity t | zero t => cases s <;> cases t <;> rfl
      | finite t m' e' hm' =>
          cases s with
          | positive =>
              cases t with
              | positive => exact congrArg some (compare_positive e e' m m').symm
              | negative => rfl
          | negative =>
              cases t with
              | positive => rfl
              | negative => exact congrArg some (compare_negative e e' m m').symm

theorem compare_eq_some_iff : x.toModel.unpack.compare y.toModel.unpack = some o ↔
    ∃ a b, place? x = some a ∧ place? y = some b ∧ compare a b = o := by
  rw [compare_eq_place, Option.bind_eq_some_iff]
  simp only [Option.map_eq_some_iff, place?]
  constructor
  · rintro ⟨a, ha, b, hb, rfl⟩
    exact ⟨a, b, ha, hb, rfl⟩
  · rintro ⟨a, b, ha, hb, rfl⟩
    exact ⟨a, ha, b, hb, rfl⟩

theorem lt_iff_place : x < y ↔ ∃ a b, place? x = some a ∧ place? y = some b ∧ a < b := by
  have hcompare : x < y ↔ x.toModel.unpack.compare y.toModel.unpack = some .lt := by
    have hlt : x < y ↔ decide (x.toModel < y.toModel) = true := Iff.rfl
    rw [hlt, decide_eq_true_iff]
    exact beq_iff_eq
  simp only [hcompare, compare_eq_some_iff, compare_lt_iff_lt]

theorem beq_iff_place : (x == y) = true ↔ ∃ a, place? x = some a ∧ place? y = some a := by
  have hcompare : (x == y) = true ↔ x.toModel.unpack.compare y.toModel.unpack = some .eq := by
    have hbeq : (x == y) = (x.toModel.unpack.compare y.toModel.unpack == some .eq) := rfl
    rw [hbeq, beq_iff_eq]
  simp only [hcompare, compare_eq_some_iff, compare_eq_iff_eq]
  constructor
  · rintro ⟨a, b, ha, hb, rfl⟩
    exact ⟨a, ha, hb⟩
  · rintro ⟨a, ha, hb⟩
    exact ⟨a, a, ha, hb, rfl⟩

theorem beq_comm (x y : Float) : (x == y) = (y == x) := by
  rw [Bool.eq_iff_iff, beq_iff_place, beq_iff_place]
  simp only [and_comm]

end FlowExpr.Binary64

namespace FlowExpr.Operator

open Binary64 (place?)

variable {x y : Float} {o : Ordering}

-- Two floats have the order of their places.
theorem compareFloats_eq_some_iff : compareFloats x y = some o ↔
    ∃ a b, place? x = some a ∧ place? y = some b ∧ compare a b = o := by
  rw [compareFloats]
  cases hx : place? x with
  | none => simp [Binary64.lt_iff_place, Binary64.beq_iff_place, hx]
  | some a =>
      cases hy : place? y with
      | none => simp [Binary64.lt_iff_place, Binary64.beq_iff_place, hx, hy]
      | some b =>
          simp only [Binary64.lt_iff_place, Binary64.beq_iff_place, hx, hy, Option.some.injEq,
            exists_eq_left', exists_and_left]
          rcases lt_trichotomy a b with hlt | rfl | hgt
          · rw [if_pos hlt, compare_lt_iff_lt.mpr hlt, Option.some_inj]
          · rw [if_neg (lt_irrefl a), if_neg (lt_irrefl a), if_pos rfl, compare_eq_iff_eq.mpr rfl,
              Option.some_inj]
          · rw [if_neg hgt.not_gt, if_pos hgt, compare_gt_iff_gt.mpr hgt, Option.some_inj]

end FlowExpr.Operator
