import FlowExpr.Proofs.FloatText

namespace FlowExpr.Decimal

open FlowExpr.Text (isDigits)

variable {text more sign mantissa exponent digits : List Char}

theorem isDigit_of_isDigits (h : isDigits digits = true) : ∀ c ∈ digits, c.isDigit = true := by
  rw [isDigits, Bool.and_eq_true] at h
  exact List.all_eq_true.mp h.2

theorem ne_nil_of_isDigits (h : isDigits digits = true) : digits ≠ [] := by
  rintro rfl
  simp [isDigits] at h

theorem isDigits_of_ne_nil (hne : digits ≠ []) (h : ∀ c ∈ digits, c.isDigit = true) :
    isDigits digits = true := by
  rw [isDigits, Bool.and_eq_true, Bool.not_eq_true', List.isEmpty_eq_false_iff, List.all_eq_true]
  exact ⟨hne, h⟩

theorem isDigit_of_mem_splitDigits {c : Char} (h : c ∈ (splitDigits text).1) : c.isDigit = true :=
  List.all_eq_true.mp List.all_takeWhile c h

-- Digits in front of a text make its run of digits longer by themselves.
theorem splitDigits_digits_append (h : ∀ c ∈ digits, c.isDigit = true) (more : List Char) :
    splitDigits (digits ++ more) = (digits ++ (splitDigits more).1, (splitDigits more).2) := by
  rw [splitDigits, List.takeWhile_append_of_pos h, List.dropWhile_append_of_pos h, splitDigits]

theorem length_splitDigits_le (text : List Char) : (splitDigits text).2.length ≤ text.length :=
  (List.dropWhile_sublist _).length_le

theorem length_splitFraction_le (whole text : List Char) :
    (splitFraction whole text).2.length ≤ text.length := by
  have hlength := congrArg List.length (splitFraction_append whole text)
  rw [List.length_append] at hlength
  omega

theorem splitFraction_of_ne_dot (whole : List Char) (h : ∀ c ∈ text.head?, c ≠ '.') :
    splitFraction whole text = (none, text) := by
  unfold splitFraction
  split
  · exact absurd rfl (h '.' rfl)
  · rfl

theorem length_splitExponent_le (text : List Char) :
    (splitExponent text).2.length ≤ text.length := by
  have hlength := congrArg List.length (splitExponent_append text)
  rw [List.length_append] at hlength
  omega

theorem isSign_splitSign (text : List Char) : IsSign (splitSign text).1 := by
  unfold splitSign
  split
  · exact .minus
  · exact .plus
  · exact .none

theorem splitSign_sign_append (hsign : IsSign sign) (h : ∀ c ∈ text.head?, c ≠ '-' ∧ c ≠ '+') :
    splitSign (sign ++ text) = (sign, text) := by
  cases hsign with
  | minus => rfl
  | plus => rfl
  | none =>
      rw [List.nil_append]
      unfold splitSign
      split
      · exact absurd rfl (h '-' rfl).1
      · exact absurd rfl (h '+' rfl).2
      · rfl

theorem ne_sign_of_isDigit {c : Char} (h : c.isDigit = true) : c ≠ '-' ∧ c ≠ '+' := by
  constructor <;> rintro rfl <;> simp at h

theorem head?_isDigit (h : isDigits digits = true) (more : List Char) :
    ∃ c, (digits ++ more).head? = some c ∧ c.isDigit = true := by
  cases digits with
  | nil => simp [isDigits] at h
  | cons c rest => exact ⟨c, rfl, isDigit_of_isDigits h c (by simp)⟩

-- An exponent at the front of a text is read, and so are digits that go on behind it.
theorem length_splitExponent_append_le (h : IsExponent exponent) (more : List Char) :
    (splitExponent (exponent ++ more)).2.length ≤ more.length := by
  cases h with
  | none => exact length_splitExponent_le more
  | @some mark sign digits hmark hsign hdigits =>
      obtain ⟨c, hc, hdigit⟩ := head?_isDigit hdigits more
      have hsplit : splitSign (sign ++ (digits ++ more)) = (sign, digits ++ more) := by
        apply splitSign_sign_append hsign
        rw [hc]
        rintro _ ⟨⟩
        exact ne_sign_of_isDigit hdigit
      have hne : (digits ++ (splitDigits more).1).isEmpty = false := by
        simp [ne_nil_of_isDigits hdigits]
      have hmark' : (mark == 'e' || mark == 'E') = true := by simpa using hmark
      rw [List.cons_append, List.append_assoc, splitExponent]
      simp only [hmark', hsplit, splitDigits_digits_append (isDigit_of_isDigits hdigits), hne,
        if_true, Bool.false_eq_true, if_false]
      exact length_splitDigits_le more

-- A mantissa at the front of a text is read. What stands behind it is left over unless a mantissa
-- could go on with it.
theorem splitFraction_mantissa (h : IsMantissa mantissa) (more : List Char) :
    ∃ whole rest fraction after, splitDigits (mantissa ++ more) = (whole, rest) ∧
      splitFraction whole rest = (fraction, after) ∧
      (whole.isEmpty && fraction.isNone) = false ∧ after.length ≤ more.length ∧
      ((∀ c ∈ more.head?, c.isDigit = false ∧ c ≠ '.') → after = more) := by
  have hstops (hmore : ∀ c ∈ more.head?, c.isDigit = false ∧ c ≠ '.') :
      (splitDigits more).2 = more := by
    cases more with
    | nil => rfl
    | cons c rest => simp [splitDigits, (hmore c rfl).1]
  cases h with
  | whole hdigits =>
      let fraction := splitFraction (mantissa ++ (splitDigits more).1) (splitDigits more).2
      refine ⟨_, _, fraction.1, fraction.2,
        splitDigits_digits_append (isDigit_of_isDigits hdigits) more, rfl, ?_, ?_, fun hmore => ?_⟩
      · simp [ne_nil_of_isDigits hdigits]
      · exact Nat.le_trans (length_splitFraction_le _ _) (length_splitDigits_le more)
      · simp only [fraction, hstops hmore,
          splitFraction_of_ne_dot _ fun c hc => (hmore c hc).2]
  | @point digits fraction hdigits hfraction =>
      have hdot : splitDigits ('.' :: (fraction ++ more)) = ([], '.' :: (fraction ++ more)) := rfl
      have hsplit : splitDigits ((digits ++ '.' :: fraction) ++ more) =
          (digits, '.' :: (fraction ++ more)) := by
        rw [List.append_assoc, List.cons_append,
          splitDigits_digits_append (isDigit_of_isDigits hdigits), hdot, List.append_nil]
      have hne : digits.isEmpty = false :=
        List.isEmpty_eq_false_iff.mpr (ne_nil_of_isDigits hdigits)
      refine ⟨_, _, some (fraction ++ (splitDigits more).1), (splitDigits more).2, hsplit, ?_, ?_,
        length_splitDigits_le more, hstops⟩
      · simp [splitFraction, splitDigits_digits_append hfraction, hne]
      · simp [hne]
  | @fraction digits hdigits =>
      have hne : digits ++ (splitDigits more).1 ≠ [] := by
        simp [ne_nil_of_isDigits hdigits]
      refine ⟨[], '.' :: (digits ++ more), some (digits ++ (splitDigits more).1),
        (splitDigits more).2, rfl, ?_, rfl, length_splitDigits_le more, hstops⟩
      simp [splitFraction, splitDigits_digits_append (isDigit_of_isDigits hdigits),
        ne_nil_of_isDigits hdigits]

-- A number at the front of a text is read, with whatever makes it longer.
theorem exists_split_of_mantissa (hmantissa : IsMantissa mantissa)
    (hexponent : IsExponent exponent) (more : List Char) :
    ∃ n rest, Numeral.split (mantissa ++ (exponent ++ more)) = some (n, rest) ∧
      rest.length ≤ more.length := by
  obtain ⟨whole, rest, fraction, after, hdigits, hfraction, hsome, hle, hstop⟩ :=
    splitFraction_mantissa hmantissa (exponent ++ more)
  refine ⟨⟨whole, fraction, (splitExponent after).1⟩, (splitExponent after).2, ?_, ?_⟩
  · simp [Numeral.split, hdigits, hfraction, hsome]
  · cases hexponent with
    | none => exact Nat.le_trans (length_splitExponent_le after) hle
    | @some mark sign digits hmark hsign hexponent =>
        have hafter : after = mark :: (sign ++ digits) ++ more := by
          apply hstop
          rintro _ ⟨⟩
          rcases hmark with rfl | rfl <;> decide
        rw [hafter]
        exact length_splitExponent_append_le (.some hmark hsign hexponent) more

theorem isExponent_splitExponent (text : List Char) :
    IsExponent (exponentText (splitExponent text).1) := by
  unfold splitExponent
  split
  · split
    · rename_i mark rest hmark
      dsimp only
      split
      · exact .none
      · rename_i hne
        rw [List.isEmpty_iff] at hne
        exact .some (by simpa using hmark) (isSign_splitSign rest)
          (isDigits_of_ne_nil hne fun _ => isDigit_of_mem_splitDigits)
    · exact .none
  · exact .none

theorem isMantissa_splitFraction {whole : List Char} (hwhole : ∀ c ∈ whole, c.isDigit = true)
    (text : List Char) (h : (whole.isEmpty && (splitFraction whole text).1.isNone) = false) :
    IsMantissa (whole ++ fractionText (splitFraction whole text).1) := by
  by_cases hnil : whole = []
  · subst hnil
    unfold splitFraction at h ⊢
    split
    · rename_i rest
      by_cases hne : (splitDigits rest).1 = []
      · simp [hne] at h
      · simp only [List.isEmpty_nil, List.isEmpty_eq_false_iff.mpr hne, Bool.and_false,
          Bool.false_eq_true, if_false, fractionText, List.nil_append]
        exact .fraction (isDigits_of_ne_nil hne fun _ => isDigit_of_mem_splitDigits)
    · rename_i hdot
      split at h
      · exact absurd rfl (hdot _)
      · simp at h
  · have hdigits := isDigits_of_ne_nil hnil hwhole
    unfold splitFraction
    split
    · rw [List.isEmpty_eq_false_iff.mpr hnil]
      exact .point hdigits fun _ => isDigit_of_mem_splitDigits
    · simpa [fractionText] using IsMantissa.whole hdigits

-- What is read as a number is a mantissa with an exponent behind it.
theorem exists_of_split {n : Numeral} {rest : List Char} (h : Numeral.split text = some (n, rest)) :
    ∃ mantissa exponent, IsMantissa mantissa ∧ IsExponent exponent ∧
      n.written = mantissa ++ exponent := by
  unfold Numeral.split at h
  dsimp only at h
  split at h
  · simp at h
  · rename_i hsome
    obtain ⟨rfl, rfl⟩ := Prod.mk.inj (Option.some.inj h)
    have hdigits : ∀ c ∈ (splitDigits text).1, c.isDigit = true :=
      fun _ => isDigit_of_mem_splitDigits
    have hmantissa := isMantissa_splitFraction hdigits (splitDigits text).2
      (by simpa only [Bool.not_eq_true] using hsome)
    refine ⟨_, _, hmantissa, isExponent_splitExponent (splitFraction (splitDigits text).1
      (splitDigits text).2).2, ?_⟩
    rw [Numeral.written, List.append_assoc]

end FlowExpr.Decimal

namespace FlowExpr.Builtin

open FlowExpr.Decimal

variable {text t : List Char}

theorem floatPrefix_eq (text : List Char) :
    (∃ n rest, Numeral.split (splitSign text).2 = some (n, rest) ∧
      floatPrefix text = (splitSign text).1 ++ n.written) ∨
    Numeral.split (splitSign text).2 = none ∧ floatPrefix text = [] := by
  cases hsplit : Numeral.split (splitSign text).2 with
  | none => exact .inr ⟨rfl, by simp [floatPrefix, hsplit]⟩
  | some found => exact .inl ⟨found.1, found.2, rfl, by simp [floatPrefix, hsplit]⟩

theorem floatPrefix_isPrefix (text : List Char) : floatPrefix text <+: text := by
  rcases floatPrefix_eq text with ⟨n, rest, hsplit, hfront⟩ | ⟨-, hfront⟩
  · refine ⟨rest, ?_⟩
    rw [hfront, List.append_assoc, (Numeral.written_append hsplit).1, splitSign_append]
  · rw [hfront]
    exact List.nil_prefix

theorem isFloatText_floatPrefix (h : floatPrefix text ≠ []) : IsFloatText (floatPrefix text) := by
  rcases floatPrefix_eq text with ⟨n, rest, hsplit, hfront⟩ | ⟨-, hfront⟩
  · obtain ⟨mantissa, exponent, hmantissa, hexponent, hwritten⟩ := exists_of_split hsplit
    rw [hfront, hwritten]
    exact .mk (isSign_splitSign text) hmantissa hexponent
  · exact absurd hfront h

theorem head?_mantissa {mantissa : List Char} (h : IsMantissa mantissa) (more : List Char) :
    ∀ c ∈ (mantissa ++ more).head?, c ≠ '-' ∧ c ≠ '+' := by
  cases h with
  | @whole digits hdigits =>
      obtain ⟨d, hd, hdigit⟩ := head?_isDigit hdigits more
      rw [hd]
      rintro c ⟨⟩
      exact ne_sign_of_isDigit hdigit
  | @point digits fraction hdigits =>
      obtain ⟨d, hd, hdigit⟩ := head?_isDigit hdigits ('.' :: fraction ++ more)
      rw [List.append_assoc, hd]
      rintro c ⟨⟩
      exact ne_sign_of_isDigit hdigit
  | fraction =>
      rintro c ⟨⟩
      decide

-- No number at the front of the text is longer.
theorem isPrefix_floatPrefix (h : IsFloatText t) (hfront : t <+: text) :
    t <+: floatPrefix text := by
  obtain ⟨more, rfl⟩ := hfront
  obtain @⟨sign, mantissa, exponent, hsign, hmantissa, hexponent⟩ := h
  have hsame : (sign ++ (mantissa ++ exponent)) ++ more =
      sign ++ (mantissa ++ (exponent ++ more)) := by
    simp
  have hsplit : splitSign ((sign ++ (mantissa ++ exponent)) ++ more) =
      (sign, mantissa ++ (exponent ++ more)) := by
    rw [hsame]
    exact splitSign_sign_append hsign (head?_mantissa hmantissa _)
  obtain ⟨n, rest, hread, hle⟩ := exists_split_of_mantissa hmantissa hexponent more
  have hfound : floatPrefix ((sign ++ (mantissa ++ exponent)) ++ more) = sign ++ n.written := by
    simp only [floatPrefix, hsplit, hread]
  have hwritten := congrArg List.length (Numeral.written_append hread).1
  refine List.prefix_of_prefix_length_le (List.prefix_append _ more) (floatPrefix_isPrefix _) ?_
  rw [hfound]
  simp only [List.length_append] at hwritten ⊢
  omega

theorem floatPrefix_eq_nil_iff :
    floatPrefix text = [] ↔ ∀ t, t <+: text → ¬IsFloatText t := by
  constructor
  · intro hnil t hfront h
    have hshort := isPrefix_floatPrefix h hfront
    rw [hnil, List.prefix_nil] at hshort
    obtain @⟨sign, mantissa, exponent, -, hmantissa, -⟩ := h
    have hmantissa' : mantissa = [] := by simp_all
    cases hmantissa with
    | whole hdigits => exact ne_nil_of_isDigits hdigits hmantissa'
    | point => simp at hmantissa'
    | fraction => simp at hmantissa'
  · intro hnone
    apply Decidable.byContradiction
    intro hne
    exact hnone _ (floatPrefix_isPrefix text) (isFloatText_floatPrefix hne)

end FlowExpr.Builtin
