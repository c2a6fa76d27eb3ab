import FlowExpr.Fields
import FlowExpr.Json.Number

namespace FlowExpr.Json

def isSpace (c : Char) : Bool :=
  c == ' ' || c == '\n' || c == '\t' || c == '\r'

def skipSpace (text : List Char) : List Char :=
  text.dropWhile isSpace

theorem length_skipSpace_le (text : List Char) : (skipSpace text).length ≤ text.length :=
  (List.dropWhile_sublist isSpace).length_le

def hexValue? (c : Char) : Option Nat :=
  if c.isDigit then some (c.toNat - '0'.toNat)
  else if 'a' ≤ c && c ≤ 'f' then some (c.toNat - 'a'.toNat + 10)
  else if 'A' ≤ c && c ≤ 'F' then some (c.toNat - 'A'.toNat + 10)
  else none

-- Four hexadecimal digits at the front of a text.
def readUnit : List Char → Option (Nat × List Char)
  | a :: b :: c :: d :: rest => do
    let a ← hexValue? a
    let b ← hexValue? b
    let c ← hexValue? c
    let d ← hexValue? d
    some (((a * 16 + b) * 16 + c) * 16 + d, rest)
  | _ => none

-- The second half of a surrogate pair, with the escape that introduces it.
def readLowHalf : List Char → Option (Nat × List Char)
  | '\\' :: 'u' :: rest =>
    match readUnit rest with
    | some (low, rest) => if 0xdc00 ≤ low ∧ low < 0xe000 then some (low, rest) else none
    | none => none
  | _ => none

-- The character that an escape stands for, read after its backslash. A surrogate counts only as
-- half of a pair.
def readEscape : List Char → Option (Char × List Char)
  | '"' :: rest => some ('"', rest)
  | '\\' :: rest => some ('\\', rest)
  | '/' :: rest => some ('/', rest)
  | 'b' :: rest => some ('\x08', rest)
  | 'f' :: rest => some ('\x0c', rest)
  | 'n' :: rest => some ('\n', rest)
  | 'r' :: rest => some ('\r', rest)
  | 't' :: rest => some ('\t', rest)
  | 'u' :: rest =>
    match readUnit rest with
    | some (unit, rest) =>
      if 0xd800 ≤ unit ∧ unit < 0xdc00 then
        (readLowHalf rest).map fun (low, rest) =>
          (Char.ofNat (0x10000 + (unit - 0xd800) * 0x400 + (low - 0xdc00)), rest)
      else if 0xdc00 ≤ unit ∧ unit < 0xe000 then none
      else some (Char.ofNat unit, rest)
    | none => none
  | _ => none

theorem readUnit_length {text rest : List Char} {n : Nat} (h : readUnit text = some (n, rest)) :
    rest.length < text.length := by
  unfold readUnit at h
  split at h
  · simp only [Option.bind_eq_bind, Option.bind_eq_some_iff, Option.some.injEq,
      Prod.mk.injEq] at h
    obtain ⟨_, _, _, _, _, _, _, _, _, rfl⟩ := h
    simp only [List.length_cons]
    omega
  · exact absurd h (by simp)

theorem readLowHalf_length {text rest : List Char} {n : Nat}
    (h : readLowHalf text = some (n, rest)) : rest.length < text.length := by
  unfold readLowHalf at h
  split at h
  · split at h
    · rename_i hunit
      have hlength := readUnit_length hunit
      split at h
      · simp only [Option.some.injEq, Prod.mk.injEq] at h
        obtain ⟨_, rfl⟩ := h
        simp only [List.length_cons]
        omega
      · exact absurd h (by simp)
    · exact absurd h (by simp)
  · exact absurd h (by simp)

theorem readEscape_length {text rest : List Char} {c : Char}
    (h : readEscape text = some (c, rest)) : rest.length < text.length := by
  unfold readEscape at h
  split at h
  case h_9 =>
    split at h
    · rename_i hunit
      have hlength := readUnit_length hunit
      split at h
      · simp only [Option.map_eq_some_iff, Prod.mk.injEq, Prod.exists] at h
        obtain ⟨_, _, hlow, _, rfl⟩ := h
        have hrest := readLowHalf_length hlow
        simp only [List.length_cons]
        omega
      · split at h
        · exact absurd h (by simp)
        · simp only [Option.some.injEq, Prod.mk.injEq] at h
          obtain ⟨_, rfl⟩ := h
          simp only [List.length_cons]
          omega
    · exact absurd h (by simp)
  case h_10 => exact absurd h (by simp)
  all_goals
    simp only [Option.some.injEq, Prod.mk.injEq] at h
    obtain ⟨_, rfl⟩ := h
    simp

-- The characters of a string up to its closing quote, and what follows it. Control characters must
-- be escaped.
def readStringBody (text : List Char) : Option (List Char × List Char) :=
  match text with
  | [] => none
  | '"' :: rest => some ([], rest)
  | '\\' :: rest =>
    match _h : readEscape rest with
    | some (c, after) => (readStringBody after).map fun (body, final) => (c :: body, final)
    | none => none
  | c :: rest =>
    if c.toNat < 0x20 then none
    else (readStringBody rest).map fun (body, final) => (c :: body, final)
termination_by text.length
decreasing_by
  · have := readEscape_length _h
    simp only [List.length_cons]
    omega
  · simp

theorem readStringBody_length {text body rest : List Char}
    (h : readStringBody text = some (body, rest)) : rest.length < text.length := by
  fun_induction readStringBody text generalizing body with
  | case1 => simp at h
  | case2 =>
    simp only [Option.some.injEq, Prod.mk.injEq] at h
    simp [h.2]
  | case3 =>
    rename_i hescape ih
    have hafter := readEscape_length hescape
    simp only [Option.map_eq_some_iff, Prod.mk.injEq, Prod.exists] at h
    obtain ⟨_, _, hbody, _, rfl⟩ := h
    have hrest := ih hbody
    simp only [List.length_cons]
    omega
  | case4 => simp at h
  | case5 => simp at h
  | case6 =>
    rename_i ih
    simp only [Option.map_eq_some_iff, Prod.mk.injEq, Prod.exists] at h
    obtain ⟨_, _, hbody, _, rfl⟩ := h
    have hrest := ih hbody
    simp only [List.length_cons]
    omega

def readScalar : List Char → Option (Json Number × List Char)
  | 'n' :: 'u' :: 'l' :: 'l' :: rest => some (null, rest)
  | 't' :: 'r' :: 'u' :: 'e' :: rest => some (bool true, rest)
  | 'f' :: 'a' :: 'l' :: 's' :: 'e' :: rest => some (bool false, rest)
  | '"' :: rest => (readStringBody rest).map fun (body, rest) => (string (String.ofList body), rest)
  | rest => (Number.readNumber rest).map fun (n, rest) => (number n, rest)

-- The name of a member and its colon.
def readName (text : List Char) : Option (String × List Char) :=
  match skipSpace text with
  | '"' :: rest =>
    match readStringBody rest with
    | some (name, rest) =>
      match skipSpace rest with
      | ':' :: rest => some (String.ofList name, rest)
      | _ => none
    | none => none
  | _ => none

theorem readScalar_length {text rest : List Char} {document : Json Number}
    (h : readScalar text = some (document, rest)) : rest.length < text.length := by
  unfold readScalar at h
  split at h
  case h_4 =>
    simp only [Option.map_eq_some_iff, Prod.mk.injEq, Prod.exists] at h
    obtain ⟨_, _, hbody, _, rfl⟩ := h
    have hrest := readStringBody_length hbody
    simp only [List.length_cons]
    omega
  case h_5 =>
    simp only [Option.map_eq_some_iff, Prod.mk.injEq, Prod.exists] at h
    obtain ⟨_, _, hnumber, _, rfl⟩ := h
    exact Number.readNumber_length hnumber
  all_goals
    simp only [Option.some.injEq, Prod.mk.injEq] at h
    simp only [← h.2, List.length_cons]
    omega

theorem readName_length {text rest : List Char} {name : String}
    (h : readName text = some (name, rest)) : rest.length < text.length := by
  have hskip := length_skipSpace_le text
  unfold readName at h
  split at h
  · rename_i hquote
    split at h
    · rename_i after hbody
      have hafter := readStringBody_length hbody
      have hspace := length_skipSpace_le after
      split at h
      · rename_i hcolon
        simp only [Option.some.injEq, Prod.mk.injEq] at h
        simp only [hquote, hcolon, List.length_cons] at hskip hspace
        rw [← h.2]
        omega
      · simp at h
    · simp at h
  · simp at h

-- Reads a document at the front of a text, and returns what follows it.
abbrev Reader := List Char → Option (Json Number × List Char)

-- A reader that reads something leaves a shorter text.
def Shortens (inside : Reader) : Prop :=
  ∀ text document rest, inside text = some (document, rest) → rest.length < text.length

-- The items of an array after its first bracket, once the empty array is ruled out.
def readItems (inside : Reader) (hinside : Shortens inside) (text : List Char) :
    Option (List (Json Number) × List Char) :=
  match _hitem : inside text with
  | none => none
  | some (item, rest) =>
    match _hs : skipSpace rest with
    | ',' :: more =>
      (readItems inside hinside more).map fun (items, final) => (item :: items, final)
    | ']' :: final => some ([item], final)
    | _ => none
termination_by text.length
decreasing_by
  have hitem := hinside _ _ _ _hitem
  have hspace := length_skipSpace_le rest
  simp only [_hs, List.length_cons] at hspace
  omega

-- The members of an object after its first brace, once the empty object is ruled out.
def readMembers (inside : Reader) (hinside : Shortens inside) (text : List Char) :
    Option (List (String × Json Number) × List Char) :=
  match _hname : readName text with
  | none => none
  | some (name, afterName) =>
    match _hvalue : inside afterName with
    | none => none
    | some (value, rest) =>
      match _hs : skipSpace rest with
      | ',' :: more =>
        (readMembers inside hinside more).map fun (members, final) =>
          ((name, value) :: members, final)
      | '}' :: final => some ([(name, value)], final)
      | _ => none
termination_by text.length
decreasing_by
  have hname := readName_length _hname
  have hvalue := hinside _ _ _ _hvalue
  have hspace := length_skipSpace_le rest
  simp only [_hs, List.length_cons] at hspace
  omega

-- A document whose containers hold what `inside` reads.
def readValue (inside : Reader) (hinside : Shortens inside) : Reader := fun text =>
  match skipSpace text with
  | '[' :: rest =>
    match skipSpace rest with
    | ']' :: rest => some (array [], rest)
    | rest => (readItems inside hinside rest).map fun (items, rest) => (array items, rest)
  | '{' :: rest =>
    match skipSpace rest with
    | '}' :: rest => some (object [], rest)
    | rest =>
      (readMembers inside hinside rest).map fun (members, rest) =>
        (object (Fields.ofList members), rest)
  | text => readScalar text

theorem readItems_length {inside : Reader} {hinside : Shortens inside} {text rest : List Char}
    {items : List (Json Number)}
    (h : readItems inside hinside text = some (items, rest)) : rest.length < text.length := by
  fun_induction readItems inside hinside text generalizing items with
  | case1 => simp at h
  | case2 text item after hitem more hmore ih =>
    have hlength := hinside _ _ _ hitem
    have hspace := length_skipSpace_le after
    simp only [Option.map_eq_some_iff, Prod.mk.injEq, Prod.exists] at h
    obtain ⟨_, _, hitems, _, rfl⟩ := h
    have hrest := ih hitems
    simp only [hmore, List.length_cons] at hspace
    omega
  | case3 text item after hitem final hfinal =>
    have hlength := hinside _ _ _ hitem
    have hspace := length_skipSpace_le after
    simp only [Option.some.injEq, Prod.mk.injEq] at h
    simp only [hfinal, h.2, List.length_cons] at hspace
    omega
  | case4 => simp at h

theorem readMembers_length {inside : Reader} {hinside : Shortens inside}
    {text rest : List Char} {members : List (String × Json Number)}
    (h : readMembers inside hinside text = some (members, rest)) : rest.length < text.length := by
  fun_induction readMembers inside hinside text generalizing members with
  | case1 => simp at h
  | case2 => simp at h
  | case3 text name afterName hname value after hvalue more hmore ih =>
    have hlength := readName_length hname
    have hlater := hinside _ _ _ hvalue
    have hspace := length_skipSpace_le after
    simp only [Option.map_eq_some_iff, Prod.mk.injEq, Prod.exists] at h
    obtain ⟨_, _, hmembers, _, rfl⟩ := h
    have hrest := ih hmembers
    simp only [hmore, List.length_cons] at hspace
    omega
  | case4 text name afterName hname value after hvalue final hfinal =>
    have hlength := readName_length hname
    have hlater := hinside _ _ _ hvalue
    have hspace := length_skipSpace_le after
    simp only [Option.some.injEq, Prod.mk.injEq] at h
    simp only [hfinal, h.2, List.length_cons] at hspace
    omega
  | case5 => simp at h

theorem readValue_length {inside : Reader} (hinside : Shortens inside) :
    Shortens (readValue inside hinside) := by
  intro text document rest h
  have hskip := length_skipSpace_le text
  have hafter {c : Char} {after : List Char} (hc : skipSpace text = c :: after) :
      (skipSpace after).length < text.length := by
    have hspace := length_skipSpace_le after
    simp only [hc, List.length_cons] at hskip
    omega
  unfold readValue at h
  split at h
  · rename_i hopen
    have hlength := hafter hopen
    split at h
    · rename_i hclose
      simp only [Option.some.injEq, Prod.mk.injEq] at h
      simp only [hclose, h.2, List.length_cons] at hlength
      omega
    · simp only [Option.map_eq_some_iff, Prod.mk.injEq, Prod.exists] at h
      obtain ⟨_, _, hitems, _, rfl⟩ := h
      exact Nat.lt_trans (readItems_length hitems) hlength
  · rename_i hopen
    have hlength := hafter hopen
    split at h
    · rename_i hclose
      simp only [Option.some.injEq, Prod.mk.injEq] at h
      simp only [hclose, h.2, List.length_cons] at hlength
      omega
    · simp only [Option.map_eq_some_iff, Prod.mk.injEq, Prod.exists] at h
      obtain ⟨_, _, hmembers, _, rfl⟩ := h
      exact Nat.lt_trans (readMembers_length hmembers) hlength
  · exact Nat.lt_of_lt_of_le (readScalar_length h) hskip

theorem readScalar_skipSpace : Shortens fun text => readScalar (skipSpace text) :=
  fun text _ _ h => Nat.lt_of_lt_of_le (readScalar_length h) (length_skipSpace_le text)

-- Reads documents with at most so many containers around any part of them.
def readerWithin : Nat → { inside : Reader // Shortens inside }
  | 0 => ⟨fun text => readScalar (skipSpace text), readScalar_skipSpace⟩
  | levels + 1 =>
    let ⟨inside, hinside⟩ := readerWithin levels
    ⟨readValue inside hinside, readValue_length hinside⟩

def maxNesting : Nat :=
  127

-- The document that a whole text is. Of two members with one name the later value counts, in the
-- place of the earlier one.
def read? (text : String) : Option (Json Number) :=
  match (readerWithin maxNesting).val text.toList with
  | some (document, rest) => if (skipSpace rest).isEmpty then some document else none
  | none => none

end FlowExpr.Json
