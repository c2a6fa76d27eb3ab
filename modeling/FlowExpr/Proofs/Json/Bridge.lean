import FlowExpr.Proofs.Json
import FlowExpr.Proofs.Value

namespace FlowExpr

open JsonNumber (Lawful asFloat? asInt64? asUInt64? integer? ofFloat? ofInt64)

variable {N : Type} [JsonNumber N]

theorem map_eq_self_iff {α : Type} {f : α → α} {xs : List α} :
    xs.map f = xs ↔ ∀ x ∈ xs, f x = x := by
  rw [← List.map_inj_left, List.map_id']

namespace Value

-- The values that JSON has a form for: `undefined` has none, nor has a float that is no number.
def HasDocument : Value → Prop
  | undefined => False
  | float x => Binary64.isFinite x = true
  | null | bool _ | int _ | string _ | array _ | object _ => True

-- A float comes back from its number as a float, and it has a number if it is finite.
theorem toValue_toJson_float_iff (laws : Lawful N) (x : Float) :
    ((float x).toJson : Json N).toValue = float x ↔ Binary64.isFinite x = true := by
  rw [toJson, ← laws.isSome_ofFloat? x]
  cases hx : (ofFloat? x : Option N) with
  | none => simp [Json.toValue]
  | some n => simp [Json.toValue, laws.asInt64?_ofFloat? x n hx, laws.asFloat?_ofFloat? x n hx]

theorem toValue_toJson_iff (laws : Lawful N) (v : Value) :
    (v.toJson : Json N).toValue = v ↔ v.Everywhere HasDocument := by
  induction v using inductionOn with
  | undefined => simp [toJson, Json.toValue, Everywhere, HasDocument]
  | null | bool | string => simp [toJson, Json.toValue, Everywhere, HasDocument]
  | int i => simp [toJson, Json.toValue, laws.asInt64?_ofInt64 i, Everywhere, HasDocument]
  | float x =>
      rw [toValue_toJson_float_iff laws]
      simp [Everywhere, HasDocument]
  | array items ih =>
      rw [toJson_array, Json.toValue_array, everywhere_array, List.map_map, array.injEq,
        map_eq_self_iff, HasDocument, true_and]
      exact forall₂_congr ih
  | object fields ih =>
      rw [toJson_object, Json.toValue_object, everywhere_object, List.map_map, object.injEq,
        map_eq_self_iff, HasDocument, true_and]
      refine forall₂_congr fun field hfield => ?_
      rw [← ih field hfield, Prod.ext_iff]
      exact and_iff_right rfl

-- Every integer in the document of a value is one of the value's own integers.
theorem isSigned_of_mem_integers_toJson (laws : Lawful N) {v : Value} {n : Int}
    (h : n ∈ (v.toJson : Json N).integers) : -(signedBound : Int) ≤ n ∧ n < signedBound := by
  induction v using inductionOn with
  | undefined | null | bool | string => simp [toJson, Json.integers] at h
  | int i =>
      obtain rfl : n = i.toInt := by
        simpa [toJson, Json.integers, integer?, laws.asInt64?_ofInt64 i] using h
      exact ⟨i.le_toInt, i.toInt_lt⟩
  | float x =>
      rw [toJson] at h
      cases hx : (ofFloat? x : Option N) with
      | none => simp [hx, Json.integers] at h
      | some n =>
          simp [hx, Json.integers, integer?, laws.asInt64?_ofFloat? x n hx,
            laws.asUInt64?_ofFloat? x n hx] at h
  | array items ih =>
      rw [toJson_array, Json.mem_integers_array] at h
      obtain ⟨_, hdocument, h⟩ := h
      obtain ⟨item, hitem, rfl⟩ := List.mem_map.mp hdocument
      exact ih item hitem h
  | object fields ih =>
      rw [toJson_object, Json.mem_integers_object] at h
      obtain ⟨_, hmember, h⟩ := h
      obtain ⟨field, hfield, rfl⟩ := List.mem_map.mp hmember
      exact ih field hfield h

end Value

namespace Json

-- The float that stands for an integer above the signed range is never written as one.
theorem toJson_toValue_number_ne (laws : Lawful N) {n : N} {m : UInt64}
    (hsigned : asInt64? n = none) (hunsigned : asUInt64? n = some m) :
    (number n).toValue.toJson ≠ number n := by
  simp only [toValue, hsigned, Value.toJson]
  intro heq
  cases hx : (ofFloat? ((asFloat? n).getD Binary64.nan) : Option N) with
  | none => simp [hx] at heq
  | some other =>
      obtain rfl : other = n := by simpa [hx] using heq
      simp [laws.asUInt64?_ofFloat? _ other hx] at hunsigned

-- A number comes back from its value if it is a signed word or a float, and not if it is an integer
-- above the signed range.
theorem toJson_toValue_number_iff (laws : Lawful N) (n : N) :
    (number n).toValue.toJson = number n ↔
      ∀ m, integer? n = some m → -(signedBound : Int) ≤ m ∧ m < signedBound := by
  cases hsigned : asInt64? n with
  | some i =>
      have hsame : (number n).toValue.toJson = number n := by
        simp only [toValue, hsigned, Value.toJson, laws.ofInt64_of_asInt64? n i hsigned]
      refine iff_of_true hsame fun m hm => ?_
      obtain rfl : i.toInt = m := by simpa [integer?, hsigned] using hm
      exact ⟨i.le_toInt, i.toInt_lt⟩
  | none =>
      cases hunsigned : asUInt64? n with
      | some m =>
          refine iff_of_false (toJson_toValue_number_ne laws hsigned hunsigned) fun h => ?_
          have habove := laws.signedBound_le_of_asUInt64? n m hsigned hunsigned
          have hbelow := (h m.toNat (by simp [integer?, hsigned, hunsigned])).2
          omega
      | none =>
          obtain ⟨x, hx⟩ := laws.exists_ofFloat? n hsigned hunsigned
          have hsame : (number n).toValue.toJson = number n := by
            simp [toValue, hsigned, laws.asFloat?_ofFloat? x n hx, Value.toJson, hx]
          exact iff_of_true hsame (by simp [integer?, hsigned, hunsigned])

theorem toJson_toValue_iff (laws : Lawful N) (j : Json N) : j.toValue.toJson = j ↔
    ∀ n ∈ j.integers, -(signedBound : Int) ≤ n ∧ n < signedBound := by
  induction j using inductionOn with
  | null | bool | string => simp [toValue, Value.toJson, integers]
  | number n => simpa [integers] using toJson_toValue_number_iff laws n
  | array items ih =>
      rw [toValue_array, Value.toJson_array, List.map_map, array.injEq, map_eq_self_iff]
      refine (forall₂_congr ih).trans ?_
      simp only [mem_integers_array]
      constructor
      · rintro h n ⟨item, hitem, hn⟩
        exact h item hitem n hn
      · exact fun h item hitem n hn => h n ⟨item, hitem, hn⟩
  | object members ih =>
      rw [toValue_object, Value.toJson_object, List.map_map, object.injEq, map_eq_self_iff]
      have hmember : ∀ member ∈ members,
          ((fun field : String × Value => (field.1, field.2.toJson)) ∘
            fun member : String × Json N => (member.1, member.2.toValue)) member = member ↔
          ∀ n ∈ member.2.integers, -(signedBound : Int) ≤ n ∧ n < signedBound := by
        intro member hmember
        rw [← ih member hmember, Prod.ext_iff]
        exact and_iff_right rfl
      refine (forall₂_congr hmember).trans ?_
      simp only [mem_integers_object]
      constructor
      · rintro h n ⟨member, hmem, hn⟩
        exact h member hmem n hn
      · exact fun h member hmem n hn => h n ⟨member, hmem, hn⟩

-- Between values and documents nothing is lost that both can hold, whatever the numbers of the
-- documents are made of: a value comes back from its document exactly when everything in it has
-- one, a document from its value exactly when its integers are signed words, and what a value was
-- written as once it is written as again.
theorem roundtrips (laws : Lawful N) (v : Value) (j : Json N) :
    ((v.toJson : Json N).toValue = v ↔ v.Everywhere Value.HasDocument) ∧
    (j.toValue.toJson = j ↔ ∀ n ∈ j.integers, -(signedBound : Int) ≤ n ∧ n < signedBound) ∧
    ((v.toJson : Json N).toValue.toJson : Json N) = v.toJson := by
  refine ⟨v.toValue_toJson_iff laws, j.toJson_toValue_iff laws, ?_⟩
  exact (v.toJson.toJson_toValue_iff laws).mpr fun _ => Value.isSigned_of_mem_integers_toJson laws

section Numbers

theorem Number.eq_real_of_ofFloat? {x : Float} {n : Number} (h : ofFloat? x = some n) :
    ∃ finite, n = .real x finite := by
  have hreal : Number.real? x = some n := h
  rw [Number.real?] at hreal
  split at hreal
  · rename_i finite
    exact ⟨finite, (Option.some.inj hreal).symm⟩
  · simp at hreal

theorem Number.lawful : Lawful Number where
  asInt64?_ofInt64 _ := rfl
  ofInt64_of_asInt64? n i h := by
    cases n with
    | signed m => exact congrArg Number.signed (Option.some.inj h).symm
    | unsigned | real => cases h
  signedBound_le_of_asUInt64? n m hsigned hunsigned := by
    cases n with
    | signed => cases hsigned
    | unsigned k above =>
        obtain rfl : k = m := Option.some.inj hunsigned
        exact above
    | real => cases hunsigned
  isSome_ofFloat? x := by
    have hreal : (ofFloat? x : Option Number) = Number.real? x := rfl
    rw [hreal, Number.real?]
    split
    · simp_all
    · simp_all
  asInt64?_ofFloat? x n h := by
    obtain ⟨finite, rfl⟩ := Number.eq_real_of_ofFloat? h
    rfl
  asUInt64?_ofFloat? x n h := by
    obtain ⟨finite, rfl⟩ := Number.eq_real_of_ofFloat? h
    rfl
  asFloat?_ofFloat? x n h := by
    obtain ⟨finite, rfl⟩ := Number.eq_real_of_ofFloat? h
    rfl
  exists_ofFloat? n hsigned hunsigned := by
    cases n with
    | signed => cases hsigned
    | unsigned => cases hunsigned
    | real x finite => exact ⟨x, dif_pos finite⟩

-- An integer and the float equal to it stay apart, a zero keeps its sign, and fields their order.
-- The first integer above the signed range comes back as a float.
theorem roundtrips_number :
    let v : Value := .object [("b", .int 1), ("a", .array [.float 1, .float (-0.0)])]
    let j : Json Number := .array [.number (.unsigned 9223372036854775808 (by decide))]
    Lawful Number ∧ (v.toJson : Json Number).toValue = v ∧ j.toValue.toJson ≠ j := by
  intro v j
  have hone : Binary64.isFinite 1 = true := by decide +kernel
  have hzero : Binary64.isFinite (-0.0) = true := by decide +kernel
  obtain ⟨hv, hj, -⟩ := roundtrips Number.lawful v j
  refine ⟨Number.lawful, hv.mpr ?_, fun hsame => ?_⟩
  · exact ⟨trivial, trivial, ⟨trivial, hone, hzero, trivial⟩, trivial⟩
  · have hrange := (hj.mp hsame 9223372036854775808 (by decide)).2
    revert hrange
    decide

end Numbers

end Json

end FlowExpr
