import FlowExpr.Proofs.Binary64.Numbers
import FlowExpr.Proofs.FloatText.Bytes

namespace FlowExpr.Builtin

open FlowExpr.Decimal

variable {text t : List Char} {x : Float}

-- The text of a float is read whole, and not as NaN.
theorem exists_readFloat?_of_isFloatText (h : IsFloatText t) :
    ∃ x, readFloat? t = some x ∧ Binary64.isNaN x = false := by
  obtain @⟨sign, mantissa, exponent, hsign, hmantissa, hexponent⟩ := h
  have hsplit := splitSign_sign_append hsign (head?_mantissa hmantissa exponent)
  obtain ⟨n, rest, hread, hle⟩ := exists_split_of_mantissa hmantissa hexponent []
  obtain rfl : rest = [] := List.length_eq_zero_iff.mp (Nat.le_zero.mp hle)
  rw [List.append_nil] at hread
  refine ⟨Binary64.withSign (sign == ['-']) n.toFloat, ?_,
    Binary64.isNaN_withSign (isNaN_nearestFloat n.mantissa n.power) _⟩
  simp only [readFloat?, hsplit, hread, Option.map_some]

theorem isPrefixOf_infinity_iff :
    "Infinity".toList.isPrefixOf (splitSign text).2 = true ↔
      ∃ t, t <+: text ∧ IsInfinityText t := by
  rw [List.isPrefixOf_iff_prefix]
  constructor
  · rintro ⟨more, hmore⟩
    refine ⟨(splitSign text).1 ++ "Infinity".toList, ⟨more, ?_⟩, .mk (isSign_splitSign text)⟩
    rw [List.append_assoc, hmore, splitSign_append]
  · rintro ⟨t, ⟨more, rfl⟩, @⟨sign, hsign⟩⟩
    have hsplit : splitSign (sign ++ ("Infinity".toList ++ more)) =
        (sign, "Infinity".toList ++ more) :=
      splitSign_sign_append hsign (by rintro c ⟨⟩; decide)
    rw [List.append_assoc, hsplit]
    exact List.prefix_append _ more

-- A float stays what it is or becomes an integer.
theorem not_isNaN_ofFloat (h : Binary64.isNaN x = false) :
    ¬∃ y, ofFloat x = .float y ∧ Binary64.isNaN y = true := by
  rintro ⟨y, hy, hnan⟩
  unfold ofFloat at hy
  split at hy
  · cases hy
  · cases hy
    rw [h] at hnan
    cases hnan

theorem isNaN_parseFloatText_iff :
    (∃ x, parseFloatText text = .float x ∧ Binary64.isNaN x = true) ↔
      ∀ t, t <+: text → ¬IsFloatText t ∧ ¬IsInfinityText t := by
  unfold parseFloatText
  dsimp only
  by_cases hinfinity : "Infinity".toList.isPrefixOf (splitSign text).2 = true
  · obtain ⟨t, hfront, ht⟩ := isPrefixOf_infinity_iff.mp hinfinity
    rw [if_pos hinfinity]
    constructor
    · rintro ⟨x, hx, hnan⟩
      cases hx
      rw [Binary64.isNaN_withSign Binary64.isNaN_infinity] at hnan
      cases hnan
    · exact fun hnone => absurd ht (hnone t hfront).2
  · have hnone : ∀ t, t <+: text → ¬IsInfinityText t := fun t hfront ht =>
      hinfinity (isPrefixOf_infinity_iff.mpr ⟨t, hfront, ht⟩)
    rw [if_neg hinfinity]
    by_cases hnil : floatPrefix text = []
    · have hread : readFloat? [] = none := by decide
      rw [hnil, hread]
      exact ⟨fun _ t hfront => ⟨floatPrefix_eq_nil_iff.mp hnil t hfront, hnone t hfront⟩,
        fun _ => ⟨_, rfl, Binary64.isNaN_nan⟩⟩
    · have hfloat := isFloatText_floatPrefix hnil
      obtain ⟨x, hread, hx⟩ := exists_readFloat?_of_isFloatText hfloat
      rw [hread]
      exact ⟨fun hnan => absurd hnan (not_isNaN_ofFloat hx),
        fun h => absurd hfloat (h _ (floatPrefix_isPrefix text)).1⟩

-- The number at the front of a text, as long as there is one, ends between two characters. A text
-- is read as NaN where it starts with neither a number nor an infinity.
theorem floatPrefix_longest (s : String) :
    floatPrefix s.toList <+: s.toList ∧
    (floatPrefix s.toList ≠ [] → IsFloatText (floatPrefix s.toList)) ∧
    (∀ t, t <+: s.toList → IsFloatText t → t <+: floatPrefix s.toList) ∧
    (floatPrefix s.toList = [] ↔ ∀ t, t <+: s.toList → ¬IsFloatText t) ∧
    ((String.Pos.Raw.mk (Bytes.floatEnd s.toByteArray.data.toList)).IsValid s ∧
      ∃ rest, s = String.ofList (floatPrefix s.toList) ++ rest ∧
        Bytes.floatEnd s.toByteArray.data.toList =
          (String.ofList (floatPrefix s.toList)).utf8ByteSize) ∧
    ∀ args,
      (∃ x, parseFloat.call args = .float x ∧ Binary64.isNaN x = true) ↔
        ∀ t, t <+: sourceText args → ¬IsFloatText t ∧ ¬IsInfinityText t := by
  obtain ⟨rest, hrest, hend⟩ := Bytes.exists_append_of_floatEnd s
  refine ⟨floatPrefix_isPrefix s.toList, isFloatText_floatPrefix,
    fun t hfront ht => isPrefix_floatPrefix ht hfront, floatPrefix_eq_nil_iff,
    ⟨?_, rest, hrest, hend⟩, fun args => isNaN_parseFloatText_iff⟩
  rw [String.Pos.Raw.isValid_iff_exists_append]
  exact ⟨_, rest, hrest, String.Pos.Raw.ext hend⟩

end FlowExpr.Builtin
