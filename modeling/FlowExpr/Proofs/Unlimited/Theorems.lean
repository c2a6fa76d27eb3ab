import FlowExpr.Proofs.Enclosing.Theorems
import FlowExpr.Proofs.Origin
import FlowExpr.Proofs.Rereading.Levels
import FlowExpr.Proofs.Unlimited.Lemmas

namespace FlowExpr.Token

open Outcome (CutsOff Raises)
open Text (Cursor)

variable {c : Cursor} {t : Token} {run way tokens : List Token} {levels : Nat}

-- The condition in the definition never fails, so the content of a bracket is read like any text.
theorem lexUnlimited_eq (c : Cursor) : lexUnlimited c = readAll lexUnlimited c := by
  have hinside (body : Cursor) (hbody : body.rest.length < c.rest.length) :
      CutsOff (Raises fun _ => False)
        (if body.rest.length < c.rest.length then lexUnlimited body else .ok [])
        (lexUnlimited body) := by
    rw [if_pos hbody]
    exact .refl _
  rw [lexUnlimited]
  exact (cutsOff_readAll hinside (Nat.le_refl _)).eq_of_not nofun

-- A limit cuts the reading of a text off at a bracket and changes nothing else.
theorem cutsOff_lexWithin (levels : Nat) (c : Cursor) :
    CutsOff (Raises IsTooDeep) (lexWithin levels c) (lexUnlimited c) := by
  induction levels generalizing c with
  | zero =>
      rw [lexUnlimited_eq]
      apply cutsOff_readAll _ (Nat.le_refl c.rest.length)
      exact fun body _ => .inr ⟨_, ⟨body.offset, rfl⟩, rfl⟩
  | succ levels ih =>
      rw [lexUnlimited_eq]
      exact cutsOff_readAll (fun body _ => ih body) (Nat.le_refl c.rest.length)

-- There are never more brackets in one another than characters.
theorem lexWithin_eq_lexUnlimited (h : c.rest.length ≤ levels) :
    lexWithin levels c = lexUnlimited c := by
  have hcut : CutsOff (Raises fun _ => False) (lexWithin levels c) (lexUnlimited c) := by
    induction levels generalizing c with
    | zero =>
        rw [lexUnlimited_eq]
        apply cutsOff_readAll _ h
        exact fun body hbody => absurd hbody (Nat.not_lt_zero _)
    | succ levels ih =>
        rw [lexUnlimited_eq]
        exact cutsOff_readAll (fun body hbody => ih (Nat.le_of_lt_succ hbody)) h
  exact hcut.eq_of_not nofun

-- A text needs as many levels as its tokens have.
theorem lexWithin_of_lexUnlimited (h : lexUnlimited c = .ok tokens)
    (htokens : runNesting tokens ≤ levels) : lexWithin levels c = .ok tokens := by
  rw [← lexWithin_eq_lexUnlimited (Nat.le_refl _)] at h
  have hblank : Text.isBlankText [] = true := rfl
  have hwhole : lexWithin c.rest.length ⟨[] ++ (c.rest ++ []), c.offset⟩ = .ok tokens := by
    rwa [List.nil_append, List.append_nil]
  exact lexWithin_trimmed hblank hblank hwhole htokens c.offset

theorem throughout_of_lexUnlimited (h : lexUnlimited c = .ok tokens) :
    ∀ t ∈ tokens, Throughout IsRead t := by
  rw [← lexWithin_eq_lexUnlimited (Nat.le_refl _)] at h
  exact readsAll_lexWithin _ c tokens h

theorem IsRead.nesting_eq (h : IsRead t) :
    t.nesting = runNesting t.children + if t.addsLevel then 1 else 0 := by
  have htext {kind : Kind} {raw value : String} (hkind : kind.isContainer = false) :
      (Token.text kind raw value).nesting =
        runNesting [] + if (Token.text kind raw value).addsLevel then 1 else 0 := by
    simp [nesting, runNesting, addsLevel, Token.kind, hkind]
  cases h with
  | span ht =>
      rw [ht]
      exact htext rfl
  | step _ h =>
      cases h with
      | reference _ h =>
          obtain ⟨_, _, _, _, _, _, rfl, _⟩ := readReference_eq_ok_iff.mp h
          rfl
      | string _ h =>
          obtain ⟨_, _, _, _, rfl, _⟩ := readString_eq_ok_iff.mp h
          exact htext rfl
      | template _ h =>
          obtain ⟨_, _, _, rfl⟩ := readTemplate_eq_ok_iff.mp h
          rfl
      | object _ h | array _ h =>
          obtain ⟨_, _, _, _, _, rfl, _⟩ := readContainer_eq_ok_iff.mp h
          rfl
      | plain hrun ht _ =>
          rw [ht]
          exact htext hrun.kind_cases.2

theorem nesting_le_runNesting (h : t ∈ run) : t.nesting ≤ runNesting run := by
  induction run with
  | nil => simp at h
  | cons first rest ih =>
      rw [runNesting]
      rcases List.mem_cons.mp h with rfl | h
      · exact Nat.le_max_left _ _
      · exact Nat.le_trans (ih h) (Nat.le_max_right _ _)

theorem runNesting_eq_zero_or (run : List Token) :
    runNesting run = 0 ∨ ∃ t ∈ run, t.nesting = runNesting run := by
  induction run with
  | nil => exact .inl rfl
  | cons first rest ih =>
      rw [runNesting]
      rcases Nat.le_total (runNesting rest) first.nesting with hle | hle
      · exact .inr ⟨first, by simp, (Nat.max_eq_left hle).symm⟩
      · rw [Nat.max_eq_right hle]
        rcases ih with hzero | ⟨t, ht, hnesting⟩
        · exact .inl hzero
        · exact .inr ⟨t, List.mem_cons_of_mem first ht, hnesting⟩

-- No way down passes more levels than there are, and one passes all of them.
theorem IsWayDown.countP_le (h : IsWayDown run way) (hrun : ∀ t ∈ run, Throughout IsRead t) :
    way.countP addsLevel ≤ runNesting run := by
  induction h with
  | nil => exact Nat.zero_le _
  | @cons run way t ht _ ih =>
      have hread := hrun t ht
      have hway := ih hread.parts
      have hnesting := hread.here.nesting_eq
      have hle := nesting_le_runNesting ht
      rw [List.countP_cons]
      omega

theorem exists_isWayDown_single (h : Throughout IsRead t) :
    ∃ way, IsWayDown [t] way ∧ way.countP addsLevel = t.nesting := by
  induction h with
  | @intro t ht _ ih =>
      rw [ht.nesting_eq]
      obtain ⟨way, hway, hcount⟩ : ∃ way, IsWayDown t.children way ∧
          way.countP addsLevel = runNesting t.children := by
        rcases runNesting_eq_zero_or t.children with hzero | ⟨part, hpart, hnesting⟩
        · exact ⟨[], .nil, by rw [hzero]; rfl⟩
        · obtain ⟨way, hway, hcount⟩ := ih part hpart
          refine ⟨way, ?_, hcount.trans hnesting⟩
          cases hway with
          | nil => exact .nil
          | cons hmem hrest => exact .cons (List.mem_singleton.mp hmem ▸ hpart) hrest
      exact ⟨t :: way, .cons (List.mem_singleton_self t) hway, by rw [List.countP_cons, hcount]⟩

theorem runNesting_le_iff (hrun : ∀ t ∈ run, Throughout IsRead t) :
    runNesting run ≤ levels ↔ ∀ way, IsWayDown run way → way.countP addsLevel ≤ levels := by
  constructor
  · exact fun h way hway => Nat.le_trans (hway.countP_le hrun) h
  · intro h
    rcases runNesting_eq_zero_or run with hzero | ⟨t, ht, hnesting⟩
    · rw [hzero]
      exact Nat.zero_le _
    · obtain ⟨way, hway, hcount⟩ := exists_isWayDown_single (hrun t ht)
      rw [← hnesting, ← hcount]
      apply h
      cases hway with
      | nil => exact .nil
      | cons hmem hrest => exact .cons (List.mem_singleton.mp hmem ▸ ht) hrest

-- The limit on nesting is exact and changes nothing else: a text has its tokens if no way down
-- passes more objects, arrays and references than the limit, and otherwise the nesting is at fault.
-- An error that a text has without the limit is hidden by that of the limit at most.
theorem lex_limits_nesting (text : String) :
    (∀ tokens, lexUnlimited (Cursor.start text.toList) = .ok tokens →
      ((∀ way, IsWayDown tokens way → way.countP addsLevel ≤ maxNesting) →
        lex text = .ok tokens) ∧
      ((∃ way, IsWayDown tokens way ∧ maxNesting < way.countP addsLevel) →
        ∃ position, lex text = .error ⟨.nestedTooDeeply, some position⟩)) ∧
    ∀ e, lexUnlimited (Cursor.start text.toList) = .error e →
      lex text = .error e ∨ ∃ position, lex text = .error ⟨.nestedTooDeeply, some position⟩ := by
  have hcut := cutsOff_lexWithin maxNesting (Cursor.start text.toList)
  constructor
  · intro tokens htokens
    constructor
    · intro hways
      exact lexWithin_of_lexUnlimited htokens
        ((runNesting_le_iff (throughout_of_lexUnlimited htokens)).mpr hways)
    · rintro ⟨way, hway, hover⟩
      rcases hcut with heq | ⟨_, ⟨position, rfl⟩, herror⟩
      · have hle := runNesting_le_of_lexWithin (heq.trans htokens)
        have hcount := hway.countP_le (throughout_of_lexUnlimited htokens)
        omega
      · exact ⟨position, herror⟩
  · intro e he
    rcases hcut with heq | ⟨_, ⟨position, rfl⟩, herror⟩
    · exact .inl (heq.trans he)
    · exact .inr ⟨position, herror⟩

-- So many arrays with nothing but the next one in each of them.
def bracketText : Nat → List Char
  | 0 => []
  | count + 1 => '[' :: bracketText count ++ [']']

def bracketTokens : Nat → List Token
  | 0 => []
  | count + 1 => [.group .array (String.ofList (bracketText (count + 1))) (bracketTokens count)]

theorem skips_bracketText (count : Nat) : Skips arrayDelimiters none (bracketText count) := by
  induction count with
  | zero => exact .nil
  | succ count ih => exact ih.enclosed isProper_array

theorem lexUnlimited_bracketText (count offset : Nat) :
    lexUnlimited ⟨bracketText count, offset⟩ = .ok (bracketTokens count) := by
  induction count generalizing offset with
  | zero => rw [lexUnlimited_eq, bracketText, bracketTokens, readAll_end]
  | succ count ih =>
      rw [lexUnlimited_eq]
      exact readAll_enclosed isProper_array rfl readToken_bracket (skips_bracketText count)
        (ih (offset + 1))

theorem runNesting_bracketTokens (count : Nat) : runNesting (bracketTokens count) = count := by
  induction count with
  | zero => rfl
  | succ count ih => simp [bracketTokens, runNesting, nesting, ih]

-- The innermost of so many arrays is empty and counts like the others.
theorem lex_limits_nesting_brackets :
    lex (String.ofList (bracketText 256)) = .ok (bracketTokens 256) ∧
      ∃ position, lex (String.ofList (bracketText 257)) =
        .error ⟨.nestedTooDeeply, some position⟩ := by
  have htokens (count : Nat) :
      lexUnlimited (Cursor.start (String.ofList (bracketText count)).toList) =
        .ok (bracketTokens count) := by
    rw [String.toList_ofList]
    exact lexUnlimited_bracketText count 0
  have hways (levels count : Nat) : count ≤ levels ↔
      ∀ way, IsWayDown (bracketTokens count) way → way.countP addsLevel ≤ levels := by
    rw [← runNesting_le_iff (throughout_of_lexUnlimited (htokens count)),
      runNesting_bracketTokens]
  constructor
  · exact ((lex_limits_nesting _).1 _ (htokens 256)).1 ((hways maxNesting 256).mp (by decide))
  · refine ((lex_limits_nesting _).1 _ (htokens 257)).2 ?_
    have hover := mt (hways maxNesting 257).mpr (by decide)
    simpa using hover

end FlowExpr.Token
