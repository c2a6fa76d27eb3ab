import FlowExpr.Proofs.Extent
import FlowExpr.Proofs.Guard

namespace FlowExpr.Guard

open Token (Delimiters Extent opensReference stringBody extent extent_of_plain referenceDelimiters)

-- Outside references the balance scan gets from one place of a text to a later one without a
-- reference left open there. Which braces are open may change.
def Reaches (text rest : List Char) : Prop :=
  ∀ opened, true ∉ opened →
    ∃ opened', true ∉ opened' ∧ isBalanced opened none text = isBalanced opened' none rest

-- The characters that mean something to the scan.
def balanceMarks : List Char :=
  ['"', '\'', '$', '{', '}']

-- A text in which the scan pairs all quotes and closes all references, also where a lexer would not
-- look for them.
inductive IsPaired : List Char → Prop where
  | nil : IsPaired []
  | char {c : Char} {text : List Char} (hquote : c ≠ '"' ∧ c ≠ '\'')
      (hopens : opensReference (c :: text) = false) (htext : IsPaired text) : IsPaired (c :: text)
  | quoted {quote : Char} {text content written rest : List Char}
      (hquote : quote = '"' ∨ quote = '\'')
      (h : stringBody quote text = some (content, written, rest)) (hrest : IsPaired rest) :
      IsPaired (quote :: text)
  | reference {text inner rest : List Char}
      (h : extent referenceDelimiters 0 none 0 text = .closed inner rest) (hrest : IsPaired rest) :
      IsPaired ('$' :: '{' :: text)

variable {opened : List Bool} {c q : Char} {text more rest : List Char}

-- What one step of the scan does.
theorem isBalanced_escape : isBalanced opened (some q) ('\\' :: c :: text) =
    isBalanced opened (some q) text := by
  rw [isBalanced.eq_def]
  simp

theorem isBalanced_inQuotes (h : c ≠ '\\') : isBalanced opened (some q) (c :: text) =
    isBalanced opened (if c = q then none else some q) text := by
  rw [isBalanced.eq_def]
  simp [h]

theorem isBalanced_quote (h : c = '"' ∨ c = '\'') : isBalanced opened none (c :: text) =
    isBalanced opened (some c) text := by
  rw [isBalanced.eq_def]
  simp [h]

theorem isBalanced_reference : isBalanced opened none ('$' :: '{' :: text) =
    isBalanced (true :: opened) none text := by
  simp [isBalanced]

theorem isBalanced_dollar (h : text.head? ≠ some '{') : isBalanced opened none ('$' :: text) =
    isBalanced opened none text := by
  cases text with
  | nil => simp [isBalanced]
  | cons c rest =>
      rw [List.head?_cons, ne_eq, Option.some.injEq] at h
      simp [isBalanced, h]

theorem isBalanced_openBrace : isBalanced opened none ('{' :: text) =
    isBalanced (false :: opened) none text := by
  rw [isBalanced.eq_def]
  simp

theorem isBalanced_closeBrace : isBalanced opened none ('}' :: text) =
    isBalanced opened.tail none text := by
  rw [isBalanced.eq_def]
  simp

theorem isBalanced_plain (h : c ∉ balanceMarks) : isBalanced opened none (c :: text) =
    isBalanced opened none text := by
  simp only [balanceMarks, List.mem_cons, not_or] at h
  rw [isBalanced.eq_def]
  simp [h]

namespace Reaches

theorem refl (text : List Char) : Reaches text text :=
  fun opened hopened => ⟨opened, hopened, rfl⟩

theorem trans (h : Reaches text more) (hmore : Reaches more rest) : Reaches text rest := by
  intro opened hopened
  obtain ⟨opened', hopened', hfirst⟩ := h opened hopened
  obtain ⟨opened'', hopened'', hsecond⟩ := hmore opened' hopened'
  exact ⟨opened'', hopened'', hfirst.trans hsecond⟩

theorem plain (hc : c ∉ balanceMarks) (text : List Char) : Reaches (c :: text) text :=
  fun opened hopened => ⟨opened, hopened, isBalanced_plain hc⟩

theorem openBrace (text : List Char) : Reaches ('{' :: text) text :=
  fun opened hopened => ⟨false :: opened, by simpa using hopened, isBalanced_openBrace⟩

theorem closeBrace (text : List Char) : Reaches ('}' :: text) text :=
  fun opened hopened =>
    ⟨opened.tail, fun hmem => hopened (List.mem_of_mem_tail hmem), isBalanced_closeBrace⟩

-- A character that starts neither a quoted text nor a reference changes the braces at most.
theorem char (hquote : c ≠ '"' ∧ c ≠ '\'') (hopens : opensReference (c :: text) = false) :
    Reaches (c :: text) text := by
  by_cases hdollar : c = '$'
  · subst hdollar
    have hhead : text.head? ≠ some '{' := by
      intro hhead
      obtain ⟨tail, rfl⟩ := List.head?_eq_some_iff.mp hhead
      simp [opensReference] at hopens
    exact fun opened hopened => ⟨opened, hopened, isBalanced_dollar hhead⟩
  by_cases hopen : c = '{'
  · exact hopen ▸ openBrace text
  by_cases hclose : c = '}'
  · exact hclose ▸ closeBrace text
  · exact plain (by simp [balanceMarks, hquote, hdollar, hopen, hclose]) text

theorem of_forall (h : ∀ c ∈ text, c ∉ balanceMarks) (more : List Char) :
    Reaches (text ++ more) more := by
  induction text with
  | nil => exact refl more
  | cons c rest ih =>
      have hrest := ih fun other hother => h other (List.mem_cons_of_mem c hother)
      exact (plain (h c (by simp)) _).trans hrest

end Reaches

-- A string of the lexer is a quoted text of the scan.
theorem isBalanced_of_isQuoted {inner : List Char} (hq : q ≠ '\\') (h : Text.IsQuoted q inner)
    (more : List Char) :
    isBalanced opened (some q) (inner ++ q :: more) = isBalanced opened none more := by
  induction h with
  | nil => rw [List.nil_append, isBalanced_inQuotes hq, if_pos rfl]
  | char hescape hend _ ih =>
      rw [List.cons_append, isBalanced_inQuotes hescape, if_neg hend]
      exact ih
  | escape _ ih =>
      rw [List.cons_append, List.cons_append, isBalanced_escape]
      exact ih

theorem Reaches.quoted {content written : List Char} (hq : q = '"' ∨ q = '\'')
    (h : stringBody q text = some (content, written, rest)) (more : List Char) :
    Reaches (q :: (text ++ more)) (rest ++ more) := by
  intro opened hopened
  have hescape : q ≠ '\\' := by
    rintro rfl
    simp at hq
  obtain ⟨inner, hinner, rfl, -, -⟩ := Token.exists_of_stringBody h
  refine ⟨opened, hopened, ?_⟩
  rw [isBalanced_quote hq, List.append_assoc, List.cons_append,
    isBalanced_of_isQuoted hescape hinner]

-- One step of the lexer's scan, backwards.
private theorem extent_of_openBrace {depth position : Nat} {inner : List Char}
    (h : extent referenceDelimiters depth none position ('{' :: text) = .closed inner rest) :
    ∃ inner, extent referenceDelimiters (depth + 1) none (position + 1) text =
      .closed inner rest := by
  unfold extent at h
  obtain ⟨inner, -, hnext⟩ := Extent.eq_closed_of_cons h
  exact ⟨inner, hnext⟩

-- The scan and the lexer agree on where a reference ends. The scan has one flag for every brace
-- that the lexer counts, and one for the reference itself.
theorem isBalanced_of_extent {depth position : Nat} {quote : Option Char} (start : Nat)
    {stack flags : List Bool} {inner : List Char}
    (h : extent referenceDelimiters depth (quote.map fun q => (q, start)) position text =
      .closed inner rest)
    (hstack : stack = flags ++ opened) (hflags : flags.length = depth + 1) :
    isBalanced stack quote text = isBalanced opened none rest := by
  fun_induction isBalanced stack quote text generalizing depth position start flags inner with
  | case1 stack quote => cases quote <;> simp [extent] at h
  | case2 => simp [extent] at h
  | case3 stack q e tail ih =>
      rw [Option.map_some, extent, if_pos rfl] at h
      obtain ⟨_, -, hnext⟩ := Extent.eq_closed_of_cons h
      obtain ⟨_, -, hlast⟩ := Extent.eq_closed_of_cons hnext
      exact ih start hlast hstack hflags
  | case4 stack c tail q hescape ih =>
      rw [Option.map_some] at h
      unfold extent at h
      simp only [if_neg hescape] at h
      obtain ⟨_, -, hnext⟩ := Extent.eq_closed_of_cons h
      have hquote : (if c = q then none else some (q, start)) =
          (if c = q then none else some q).map fun q => (q, start) := by
        split <;> rfl
      exact ih start (hquote ▸ hnext) hstack hflags
  | case5 stack c tail hquote ih =>
      have hquotes : c ∈ referenceDelimiters.quotes := by simpa [referenceDelimiters] using hquote
      rw [Option.map_none] at h
      unfold extent at h
      simp only [if_pos hquotes] at h
      obtain ⟨_, -, hnext⟩ := Extent.eq_closed_of_cons h
      exact ih position hnext hstack hflags
  | case6 stack tail _ ih =>
      obtain ⟨_, -, hbrace⟩ := extent_of_plain (by decide) h
      obtain ⟨_, hnext⟩ := extent_of_openBrace hbrace
      have hflags' : (true :: flags).length = depth + 1 + 1 := congrArg (· + 1) hflags
      exact ih start hnext (congrArg (true :: ·) hstack) hflags'
  | case7 stack tail _ _ ih =>
      obtain ⟨_, -, hnext⟩ := extent_of_plain (by decide) h
      exact ih start hnext hstack hflags
  | case8 stack tail _ _ ih =>
      obtain ⟨_, hnext⟩ := extent_of_openBrace h
      have hflags' : (false :: flags).length = depth + 1 + 1 := congrArg (· + 1) hflags
      exact ih start hnext (congrArg (false :: ·) hstack) hflags'
  | case9 stack tail _ _ _ ih =>
      obtain ⟨flag, more, rfl⟩ := List.exists_cons_of_length_eq_add_one hflags
      subst hstack
      rw [Option.map_none] at h
      unfold extent at h
      cases depth with
      | zero =>
          obtain ⟨-, rfl⟩ := Extent.closed.inj h
          obtain rfl : more = [] := by simpa using hflags
          rfl
      | succ depth =>
          obtain ⟨_, -, hnext⟩ := Extent.eq_closed_of_cons h
          exact ih start hnext rfl (by simpa using hflags)
  | case10 stack c tail hquote _ hopen hclose ih =>
      have hplain : Token.IsPlain referenceDelimiters c :=
        ⟨by simpa [referenceDelimiters] using hquote, hopen, hclose⟩
      obtain ⟨_, -, hnext⟩ := extent_of_plain hplain h
      exact ih start hnext hstack hflags

namespace Reaches

theorem reference {position : Nat} {inner : List Char}
    (h : extent referenceDelimiters 0 none position text = .closed inner rest)
    (more : List Char) : Reaches ('$' :: '{' :: (text ++ more)) (rest ++ more) := by
  intro opened hopened
  have hmore := Token.extent_append Token.isProper_reference h more
  refine ⟨opened, hopened, ?_⟩
  rw [isBalanced_reference]
  have hstack : true :: opened = [true] ++ opened := rfl
  exact isBalanced_of_extent 0 hmore hstack rfl

-- A name ends before a dollar sign that opens a reference.
theorem identifierRun (hmore : more.head? ≠ some '{') :
    Reaches (text ++ more) ((Token.identifierRun text).2 ++ more) := by
  induction text with
  | nil => exact refl more
  | cons c rest ih =>
      rw [Token.identifierRun]
      split
      · rename_i hc
        rw [Bool.and_eq_true, Bool.not_eq_true'] at hc
        have hquote : c ≠ '"' ∧ c ≠ '\'' := by
          constructor <;> rintro rfl <;> exact absurd hc.1 (by decide +kernel)
        have hopens : opensReference (c :: (rest ++ more)) = false := by
          rw [Token.opensReference_cons] at hc ⊢
          rw [List.head?_append]
          cases rest with
          | nil => simpa using fun _ => hmore
          | cons d tail => simpa using hc.2
        exact (char hquote hopens).trans ih
      · exact refl _

-- A paired text that does not end in a dollar sign.
theorem of_isPaired (h : IsPaired text) (hlast : text.getLast? ≠ some '$') (more : List Char) :
    Reaches (text ++ more) more := by
  have hsuffix {text rest : List Char} (hrest : rest <:+ text)
      (hlast : text.getLast? ≠ some '$') : rest.getLast? ≠ some '$' := by
    intro hdollar
    obtain ⟨front, rfl⟩ := List.getLast?_eq_some_iff.mp hdollar
    obtain ⟨before, rfl⟩ := hrest
    simp at hlast
  induction h with
  | nil => exact refl more
  | @char c tail hquote hopens _ ih =>
      have hopens' : opensReference (c :: (tail ++ more)) = false := by
        rw [Token.opensReference_cons] at hopens ⊢
        cases tail with
        | nil => simp_all
        | cons d later => simpa using hopens
      exact (char hquote hopens').trans (ih (hsuffix (List.suffix_cons c tail) hlast))
  | @quoted q text content written rest hquote hbody _ ih =>
      have hrest : rest <:+ q :: text := by
        rw [Token.eq_of_stringBody hbody]
        exact ⟨q :: written, rfl⟩
      exact (quoted hquote hbody more).trans (ih (hsuffix hrest hlast))
  | @reference text inner rest hextent _ ih =>
      have hrest : rest <:+ '$' :: '{' :: text := by
        rw [Token.eq_of_extent_closed hextent]
        exact ⟨'$' :: '{' :: (inner ++ ['}']), by simp [referenceDelimiters]⟩
      exact (reference hextent more).trans (ih (hsuffix hrest hlast))

end Reaches

end FlowExpr.Guard
