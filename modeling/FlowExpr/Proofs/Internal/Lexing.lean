import FlowExpr.Proofs.Enclosing.Skipping
import FlowExpr.Proofs.Origin

namespace FlowExpr

namespace Decimal

variable {whole : List Char} {fraction : Option (List Char)}

theorem splitDigits_append_of_isDigits (h : Text.isDigits whole = true) {rest : List Char}
    (hrest : ∀ c ∈ rest.head?, c.isDigit = false) : splitDigits (whole ++ rest) = (whole, rest) := by
  have hwhole : ∀ c ∈ whole, c.isDigit = true := by
    rw [Text.isDigits, Bool.and_eq_true] at h
    exact List.all_eq_true.mp h.2
  rw [splitDigits, List.takeWhile_append_of_pos hwhole, List.dropWhile_append_of_pos hwhole]
  cases rest with
  | nil => simp
  | cons c tail =>
      have hc : c.isDigit = false := hrest c rfl
      simp [hc]

theorem splitSign_of_isDigits (h : Text.isDigits whole = true) (rest : List Char) :
    splitSign (whole ++ rest) = ([], whole ++ rest) := by
  cases whole with
  | nil => simp [Text.isDigits] at h
  | cons c tail =>
      unfold splitSign
      split <;> simp_all [Text.isDigits]

-- Digits are a numeral, and so are digits with a point and further digits behind them.
theorem split_digits (hwhole : Text.isDigits whole = true)
    (hfraction : ∀ digits ∈ fraction, Text.isDigits digits = true) :
    Numeral.split (whole ++ fractionText fraction) = some (⟨whole, fraction, none⟩, []) := by
  have hne : whole.isEmpty = false := by
    rw [Text.isDigits, Bool.and_eq_true, Bool.not_eq_true'] at hwhole
    exact hwhole.1
  have hrest : ∀ c ∈ (fractionText fraction).head?, c.isDigit = false := by
    cases fraction <;> simp [fractionText]
  have hsplit : splitFraction whole (fractionText fraction) = (fraction, []) := by
    cases fraction with
    | none => rfl
    | some digits =>
        have hdigits : splitDigits (digits ++ []) = (digits, []) :=
          splitDigits_append_of_isDigits (hfraction digits rfl) (by simp)
        rw [List.append_nil] at hdigits
        simp [splitFraction, fractionText, hdigits, hne]
  simp [Numeral.split, splitDigits_append_of_isDigits hwhole hrest, hsplit, hne, splitExponent]

theorem exists_readFloat?_digits (hwhole : Text.isDigits whole = true)
    (hfraction : ∀ digits ∈ fraction, Text.isDigits digits = true) :
    ∃ x, readFloat? (whole ++ fractionText fraction) = some x := by
  simp only [readFloat?, splitSign_of_isDigits hwhole, split_digits hwhole hfraction]
  exact ⟨_, rfl⟩

end Decimal

namespace Token

open Text (Cursor)

-- A number is written in digits, with a point and further digits if both are there.
theorem exists_of_numberRun {x : Char} (hx : x.isDigit = true) (text : List Char) :
    ∃ whole fraction, Text.isDigits whole = true ∧
      (∀ digits ∈ fraction, Text.isDigits digits = true) ∧
        (numberRun (x :: text)).1 = whole ++ Decimal.fractionText fraction := by
  have hdigits (text : List Char) : (Decimal.splitDigits text).1.all Char.isDigit = true :=
    List.all_takeWhile
  have hwhole : Text.isDigits (Decimal.splitDigits (x :: text)).1 = true := by
    rw [Text.isDigits, hdigits]
    simp [Decimal.splitDigits, hx]
  have hinteger : (Decimal.splitDigits (x :: text)).1 =
      (Decimal.splitDigits (x :: text)).1 ++ Decimal.fractionText none :=
    (List.append_nil _).symm
  unfold numberRun
  dsimp only
  split
  · rename_i more _
    split
    · exact ⟨_, none, hwhole, by simp, hinteger⟩
    · rename_i hne
      have hfraction : Text.isDigits (Decimal.splitDigits more).1 = true := by
        rw [Text.isDigits, hdigits, Bool.and_true, Bool.not_eq_true']
        exact Bool.eq_false_iff.mpr hne
      exact ⟨_, some _, hwhole, by simpa using hfraction, rfl⟩
  · exact ⟨_, none, hwhole, by simp, hinteger⟩

theorem exists_numberValue {x : Char} (hx : x.isDigit = true) (text : List Char) :
    ∃ v, Tree.numberValue (String.ofList (numberRun (x :: text)).1) = .ok v := by
  obtain ⟨whole, fraction, hwhole, hfraction, hrun⟩ := exists_of_numberRun hx text
  obtain ⟨float, hfloat⟩ := Decimal.exists_readFloat?_digits hwhole hfraction
  rw [hrun]
  have hvalue : Tree.floatValue (String.ofList (whole ++ Decimal.fractionText fraction)) =
      .ok (.float float) := by
    rw [Tree.floatValue, String.toList_ofList, hfloat]
  rw [Tree.numberValue, hvalue]
  split
  · exact ⟨_, rfl⟩
  · split
    · exact ⟨_, rfl⟩
    · exact ⟨_, rfl⟩

theorem IsPlainRun.isLexed {kind : Kind} {run rest : List Char} (h : IsPlainRun kind run rest) :
    IsLexed (.plain kind (String.ofList run)) := by
  have hchildren : (plain kind (String.ofList run)).children = [] := rfl
  refine ⟨?_, ?_, by simp [hchildren]⟩
  · intro hoperator
    cases h with
    | operator op =>
        refine ⟨op, ?_⟩
        rw [plain, raw, String.ofList_toList]
        exact Operator.ofSymbol?_symbol op
    | _ => simp [plain, Token.kind] at hoperator
  · intro hnumber
    cases h with
    | number hx => exact exists_numberValue hx _
    | _ => simp [plain, Token.kind] at hnumber

theorem isLexed_string (raw content : String) : IsLexed (.text .string raw content) :=
  ⟨by simp [kind], by simp [kind], by simp [children]⟩

theorem isLexed_group {kind : Kind} (hkind : kind.isContainer = true) (raw : String)
    (children : List Token) : IsLexed (.group kind raw children) := by
  refine ⟨?_, ?_, fun _ => hkind⟩
  · rintro rfl
    simp [Kind.isContainer] at hkind
  · rintro rfl
    simp [Kind.isContainer] at hkind

variable {t : Token}

-- Every token has the shape of one, whatever reader it comes from.
theorem IsRead.isLexed (h : IsRead t) : IsLexed t := by
  cases h with
  | span ht =>
      rw [ht]
      exact isLexed_string _ _
  | step _ h =>
      cases h with
      | reference _ h =>
          obtain ⟨_, _, _, _, _, _, rfl, _⟩ := readReference_eq_ok_iff.mp h
          exact isLexed_group rfl _ _
      | string _ h =>
          obtain ⟨_, _, _, _, rfl, _⟩ := readString_eq_ok_iff.mp h
          exact isLexed_string _ _
      | template _ h =>
          obtain ⟨_, _, _, rfl⟩ := readTemplate_eq_ok_iff.mp h
          exact isLexed_group rfl _ _
      | object _ h | array _ h =>
          obtain ⟨_, _, _, _, _, rfl, _⟩ := readContainer_eq_ok_iff.mp h
          exact isLexed_group rfl _ _
      | plain hrun ht _ =>
          rw [ht]
          exact hrun.isLexed

-- Every token of a text that is read in brackets has the shape of one, and so has every token in
-- it.
def ReadsLexed (inside : Cursor → Except LexError (List Token)) : Prop :=
  ∀ c tokens, inside c = .ok tokens → ∀ t ∈ tokens, Throughout IsLexed t

theorem readsLexed_lexWithin (levels : Nat) : ReadsLexed (lexWithin levels) :=
  fun c tokens h t ht => (readsAll_lexWithin levels c tokens h t ht).mono fun _ => IsRead.isLexed

-- The check counts the parentheses of a run that are open.
theorem openAfter_of_checkRun {opened : Nat} {run : List Token}
    (h : checkRun opened run = .ok ()) : Tree.openAfter opened run = some 0 := by
  induction run generalizing opened with
  | nil =>
      rw [checkRun] at h
      split at h
      · rename_i hopened
        exact congrArg some hopened
      · simp at h
  | cons t rest ih =>
      obtain ⟨-, opened', hopen, hrest⟩ := checkRun_cons h
      rw [hopen]
      exact ih hrest

theorem checkContent_of_mem {opened : Nat} {run : List Token}
    (h : checkRun opened run = .ok ()) : ∀ t ∈ run, t.kind.isContainer = true →
      checkRun 0 t.children = .ok () := by
  induction run generalizing opened with
  | nil => simp
  | cons t rest ih =>
      obtain ⟨⟨_, _, hcontent⟩, opened', _, hrest⟩ := checkRun_cons h
      intro other hother
      rcases List.mem_cons.mp hother with rfl | hother
      · exact hcontent
      · exact ih hrest other hother

theorem Throughout.isRegular (h : Throughout IsLexed t)
    (hcheck : t.kind.isContainer = true → checkRun 0 t.children = .ok ()) :
    Throughout IsRegular t := by
  induction h with
  | intro ht hparts ih =>
      rename_i t
      have hchildren : checkRun 0 t.children = .ok () := by
        by_cases hne : t.children = []
        · rw [hne, checkRun, if_pos rfl]
        · exact hcheck (ht.container hne)
      refine .intro ⟨ht, openAfter_of_checkRun hchildren⟩ fun part hpart => ?_
      exact ih part hpart (checkContent_of_mem hchildren part hpart)

-- What a text is read as is a run that a parser can rely on.
theorem isRegularRun_of_read {text : String} {tokens : List Token}
    (h : read text = .ok tokens) : IsRegularRun tokens := by
  obtain ⟨hblank, hlex, hcheck⟩ := read_eq_ok_iff.mp h
  refine ⟨?_, openAfter_of_checkRun hcheck, fun t ht => ?_⟩
  · rintro rfl
    have hspells := spells_of_lex hlex
    generalize text.toList = chars at hspells hblank
    cases hspells with
    | nil hchars => simp [hchars] at hblank
  · have hlexed := readsLexed_lexWithin maxNesting _ tokens hlex t ht
    exact hlexed.isRegular (checkContent_of_mem hcheck t ht)

end Token

end FlowExpr
