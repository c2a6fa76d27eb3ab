import FlowExpr.Operator.Standard
import FlowExpr.Proofs.Binary64.Rounding

namespace FlowExpr.Value

open Binary64 (Place integerPlace place?_ofInt)

-- The place of a number among the floats.
def place? (a : Value) : Option Place :=
  a.asFloat?.bind Binary64.place?

theorem place?_int (n : Int64) : place? (.int n) = some (integerPlace n.toInt) := by
  apply place?_ofInt
  have hleast := n.le_toInt
  have hgreatest := n.toInt_lt
  omega

end FlowExpr.Value

namespace FlowExpr.Operator

open Binary64 (integerPlace integerPlace_le integerPlace_lt)

variable {a b c : Value} {m n : Int64} {x : Float}

-- That the operator answers `true`.
def Holds (op : Operator) (a b : Value) : Prop :=
  op.apply a b = .ok (.bool true)

def AreIntegers (a b : Value) : Prop :=
  ∃ m n, a = .int m ∧ b = .int n

theorem lessEqual_int : Holds lessEqual (.int m) (.int n) ↔ m.toInt ≤ n.toInt := by
  simp [Holds, apply, comparison, order, Value.typeName, Except.map, Std.isLE_compare]

-- With a float on either side both are compared as floats.
theorem floats_of_not_areIntegers (ha : a.isNumber = true) (hb : b.isNumber = true)
    (hmixed : ¬AreIntegers a b) : ∃ x y, a.asFloat? = some x ∧ b.asFloat? = some y ∧
      order a b = .ok (compareFloats x y) ∧ a.strictEquals b = (x == y) := by
  cases a with
  | int m =>
      cases b with
      | int n => exact absurd ⟨m, n, rfl, rfl⟩ hmixed
      | float y => exact ⟨_, y, rfl, rfl, rfl, rfl⟩
      | undefined | null | bool | string | array | object => exact absurd hb Bool.false_ne_true
  | float x =>
      cases b with
      | int n => exact ⟨x, _, rfl, rfl, rfl, rfl⟩
      | float y => exact ⟨x, y, rfl, rfl, rfl, rfl⟩
      | undefined | null | bool | string | array | object => exact absurd hb Bool.false_ne_true
  | undefined | null | bool | string | array | object => exact absurd ha Bool.false_ne_true

theorem lessEqual_iff_place (ha : a.isNumber = true) (hb : b.isNumber = true)
    (hmixed : ¬AreIntegers a b) :
    Holds lessEqual a b ↔ ∃ p q, a.place? = some p ∧ b.place? = some q ∧ p ≤ q := by
  obtain ⟨x, y, hx, hy, horder, -⟩ := floats_of_not_areIntegers ha hb hmixed
  rw [Value.place?, Value.place?, hx, hy, Option.bind_some, Option.bind_some]
  have hholds : Holds lessEqual a b ↔ ∃ o, compareFloats x y = some o ∧ o.isLE = true := by
    simp [Holds, apply, comparison, horder, Except.map, Option.any_eq_true]
  simp only [hholds, compareFloats_eq_some_iff, Ordering.isLE_iff_ne_gt]
  constructor
  · rintro ⟨o, ⟨p, q, hp, hq, rfl⟩, hle⟩
    exact ⟨p, q, hp, hq, compare_le_iff_le.mp hle⟩
  · rintro ⟨p, q, hp, hq, hle⟩
    exact ⟨_, ⟨p, q, hp, hq, rfl⟩, compare_le_iff_le.mpr hle⟩

theorem strictEqual_iff_place (ha : a.isNumber = true) (hb : b.isNumber = true)
    (hmixed : ¬AreIntegers a b) :
    Holds strictEqual a b ↔ ∃ p, a.place? = some p ∧ b.place? = some p := by
  obtain ⟨x, y, hx, hy, -, hequal⟩ := floats_of_not_areIntegers ha hb hmixed
  rw [Value.place?, Value.place?, hx, hy, Option.bind_some, Option.bind_some,
    ← Binary64.beq_iff_place, ← hequal]
  simp [Holds, apply]

-- Numbers are equal when neither is greater.
theorem strictEqual_iff_lessEqual (ha : a.isNumber = true) (hb : b.isNumber = true) :
    Holds strictEqual a b ↔ Holds lessEqual a b ∧ Holds lessEqual b a := by
  by_cases h : AreIntegers a b
  · obtain ⟨m, n, rfl, rfl⟩ := h
    have hequal : Holds strictEqual (.int m) (.int n) ↔ m = n := by
      simp [Holds, apply, Value.strictEquals, Value.numbersEqual]
    rw [hequal, lessEqual_int, lessEqual_int, ← le_antisymm_iff, Int64.toInt_inj]
  · have h' : ¬AreIntegers b a := fun ⟨n, m, hn, hm⟩ => h ⟨m, n, hm, hn⟩
    rw [strictEqual_iff_place ha hb h, lessEqual_iff_place ha hb h, lessEqual_iff_place hb ha h']
    constructor
    · rintro ⟨p, hp, hq⟩
      exact ⟨⟨p, p, hp, hq, le_refl p⟩, p, p, hq, hp, le_refl p⟩
    · rintro ⟨⟨p, q, hp, hq, hle⟩, q', p', hq', hp', hge⟩
      rw [hp] at hp'
      rw [hq] at hq'
      cases hp'
      cases hq'
      exact ⟨p, hp, hle.antisymm hge ▸ hq⟩

-- Rounding keeps integers in order, though it may bring them to one place.
theorem place_le_of_lessEqual (ha : a.isNumber = true) (hb : b.isNumber = true)
    (h : Holds lessEqual a b) : ∃ p q, a.place? = some p ∧ b.place? = some q ∧ p ≤ q := by
  by_cases hmixed : AreIntegers a b
  · obtain ⟨m, n, rfl, rfl⟩ := hmixed
    exact ⟨_, _, Value.place?_int m, Value.place?_int n, integerPlace_le (lessEqual_int.mp h)⟩
  · exact (lessEqual_iff_place ha hb hmixed).mp h

-- The float that a long integer is compared as.
def RoundsTo (n : Int64) (x : Float) : Prop :=
  2 ^ 53 ≤ n.toInt.natAbs ∧ (Float.ofInt n.toInt == x) = true

-- Two long integers that both equal the float between them.
def Meet (related : ℤ → ℤ → Prop) (a b c : Value) : Prop :=
  ∃ m x n, a = .int m ∧ b = .float x ∧ c = .int n ∧ related m.toInt n.toInt ∧
    RoundsTo m x ∧ RoundsTo n x

theorem roundsTo_of_place (hm : (Value.int m).place? = (Value.float x).place?)
    (hn : (Value.int n).place? = (Value.float x).place?) (hlt : n.toInt < m.toInt) :
    RoundsTo m x ∧ RoundsTo n x := by
  have hlong : ¬(n.toInt.natAbs < 2 ^ 53 ∨ m.toInt.natAbs < 2 ^ 53) := by
    intro hshort
    have hplace : integerPlace n.toInt = integerPlace m.toInt := by
      rw [← Option.some_inj, ← Value.place?_int, ← Value.place?_int, hm, hn]
    exact (integerPlace_lt hlt hshort).ne hplace
  have hequal : ∀ k : Int64, (Value.int k).place? = (Value.float x).place? →
      (Float.ofInt k.toInt == x) = true := by
    intro k hk
    rw [Binary64.beq_iff_place]
    exact ⟨_, Value.place?_int k, hk.symm.trans (Value.place?_int k)⟩
  exact ⟨⟨by omega, hequal m hm⟩, by omega, hequal n hn⟩

-- The place of a number between two integers in the wrong order is squeezed onto both of theirs.
theorem meet_of_gt (hb : b.isNumber = true) (hm : Holds lessEqual (.int m) b)
    (hn : Holds lessEqual b (.int n)) (hgt : n.toInt < m.toInt) :
    Meet (· > ·) (.int m) b (.int n) := by
  cases b with
  | int k =>
      have hle : m.toInt ≤ n.toInt := (lessEqual_int.mp hm).trans (lessEqual_int.mp hn)
      exact absurd hgt hle.not_gt
  | float x =>
      obtain ⟨p, q, hp, hq, hpq⟩ := place_le_of_lessEqual rfl hb hm
      obtain ⟨q', r, hq', hr, hqr⟩ := place_le_of_lessEqual hb rfl hn
      obtain rfl : q = q' := Option.some.inj (hq.symm.trans hq')
      have hpm : integerPlace m.toInt = p := Option.some.inj ((Value.place?_int m).symm.trans hp)
      have hrn : integerPlace n.toInt = r := Option.some.inj ((Value.place?_int n).symm.trans hr)
      have hrp : r ≤ p := hrn ▸ hpm ▸ integerPlace_le hgt.le
      obtain rfl : p = q := hpq.antisymm (hqr.trans hrp)
      obtain rfl : p = r := hqr.antisymm hrp
      exact ⟨m, x, n, rfl, rfl, rfl, hgt,
        roundsTo_of_place (hp.trans hq.symm) (hr.trans hq.symm) hgt⟩
  | undefined | null | bool | string | array | object => exact absurd hb Bool.false_ne_true

theorem lessEqual_trans (ha : a.isNumber = true) (hb : b.isNumber = true) (hc : c.isNumber = true)
    (hab : Holds lessEqual a b) (hbc : Holds lessEqual b c) :
    Holds lessEqual a c ↔ ¬Meet (· > ·) a b c := by
  by_cases hac : AreIntegers a c
  · obtain ⟨m, n, rfl, rfl⟩ := hac
    constructor
    · rintro hle ⟨m', x, n', hm, -, hn, hgt, -⟩
      cases hm
      cases hn
      exact hgt.not_ge (lessEqual_int.mp hle)
    · intro hmeet
      rw [lessEqual_int]
      by_contra hgt
      exact hmeet (meet_of_gt hb hab hbc (not_le.mp hgt))
  · have hmeet : ¬Meet (· > ·) a b c := fun ⟨m, _, n, hm, _, hn, _⟩ => hac ⟨m, n, hm, hn⟩
    obtain ⟨p, q, hp, hq, hpq⟩ := place_le_of_lessEqual ha hb hab
    obtain ⟨q', r, hq', hr, hqr⟩ := place_le_of_lessEqual hb hc hbc
    obtain rfl : q = q' := Option.some.inj (hq.symm.trans hq')
    rw [lessEqual_iff_place ha hc hac]
    exact ⟨fun _ => hmeet, fun _ => ⟨p, r, hp, hr, hpq.trans hqr⟩⟩

theorem meet_ne_iff : Meet (· ≠ ·) a b c ↔ Meet (· > ·) a b c ∨ Meet (· > ·) c b a := by
  constructor
  · rintro ⟨m, x, n, ha, hb, hc, hne, hm, hn⟩
    rcases lt_or_gt_of_ne hne with hlt | hgt
    · exact .inr ⟨n, x, m, hc, hb, ha, hlt, hn, hm⟩
    · exact .inl ⟨m, x, n, ha, hb, hc, hgt, hm, hn⟩
  · rintro (⟨m, x, n, ha, hb, hc, hgt, hm, hn⟩ | ⟨n, x, m, hc, hb, ha, hlt, hn, hm⟩)
    · exact ⟨m, x, n, ha, hb, hc, hgt.ne', hm, hn⟩
    · exact ⟨m, x, n, ha, hb, hc, hlt.ne, hm, hn⟩

theorem strictEqual_trans (ha : a.isNumber = true) (hb : b.isNumber = true)
    (hc : c.isNumber = true) (hab : Holds strictEqual a b) (hbc : Holds strictEqual b c) :
    Holds strictEqual a c ↔ ¬Meet (· ≠ ·) a b c := by
  rw [strictEqual_iff_lessEqual ha hb] at hab
  rw [strictEqual_iff_lessEqual hb hc] at hbc
  rw [strictEqual_iff_lessEqual ha hc, meet_ne_iff, not_or,
    lessEqual_trans ha hb hc hab.1 hbc.1, lessEqual_trans hc hb ha hbc.2 hab.2]

-- To be no greater carries over from number to number, and so does equality. The one exception are
-- long integers around a float that equals both.
theorem numbers_trans (ha : a.isNumber = true) (hb : b.isNumber = true) (hc : c.isNumber = true) :
    (Holds lessEqual a b → Holds lessEqual b c →
      (Holds lessEqual a c ↔ ¬Meet (· > ·) a b c)) ∧
    (Holds strictEqual a b → Holds strictEqual b c →
      (Holds strictEqual a c ↔ ¬Meet (· ≠ ·) a b c)) :=
  ⟨lessEqual_trans ha hb hc, strictEqual_trans ha hb hc⟩

-- The float between an integer of 54 digits and its neighbour equals both.
theorem numbers_trans_neighbours :
    let a : Value := .int 9007199254740992
    let b : Value := .float 9007199254740992
    let c : Value := .int 9007199254740993
    Holds lessEqual a c ∧ ¬Meet (· > ·) a b c ∧ ¬Holds strictEqual a c ∧ Meet (· ≠ ·) a b c := by
  intro a b c
  have hab : Holds strictEqual a b := rfl
  have hbc : Holds strictEqual b c := rfl
  have hle : Holds lessEqual a c := rfl
  have hne : ¬Holds strictEqual a c := by
    intro h
    simp [Holds, a, c, apply, Value.strictEquals, Value.numbersEqual] at h
  obtain ⟨hlessEqual, hstrictEqual⟩ := numbers_trans (a := a) (b := b) (c := c) rfl rfl rfl
  have hmeet := hstrictEqual hab hbc
  exact ⟨hle, (hlessEqual rfl rfl).mp hle, hne, not_not.mp fun h => hne (hmeet.mpr h)⟩

-- Taken the other way round, the same three numbers are not in order.
theorem numbers_not_trans :
    let a : Value := .int 9007199254740993
    let b : Value := .float 9007199254740992
    let c : Value := .int 9007199254740992
    Binary64.isNaN 9007199254740992 = false ∧
      Holds lessEqual a b ∧ Holds lessEqual b c ∧ ¬Holds lessEqual a c ∧
      Holds strictEqual a b ∧ Holds strictEqual b c ∧ ¬Holds strictEqual a c := by
  intro a b c
  have hle : ¬Holds lessEqual a c := by
    rw [lessEqual_int]
    decide
  have hne : ¬Holds strictEqual a c := by
    rw [strictEqual_iff_lessEqual rfl rfl]
    exact fun h => hle h.1
  exact ⟨by decide +kernel, rfl, rfl, hle, rfl, rfl, hne⟩

end FlowExpr.Operator
