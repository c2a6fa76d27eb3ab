import FlowExpr.Token.Weight
import FlowExpr.Tree.Fault

namespace FlowExpr

-- What a run of comma-separated elements belongs to.
inductive Group where
  | object
  | array
  | call
deriving DecidableEq, Repr

def Group.description : Group → String
  | object => "object"
  | array => "array"
  | call => "argument"

-- An element of a group: a run of tokens, with a key before it or to be spread.
inductive Element where
  | keyed (key : String) (run : List Token)
  | spread (run : List Token)
  | single (run : List Token)

namespace Element

def run : Element → List Token
  | keyed _ run => run
  | spread run => run
  | single run => run

def isSpread : Element → Bool
  | spread _ => true
  | _ => false

def consHead (t : Token) : List (List Token) → List (List Token)
  | segment :: rest => (t :: segment) :: rest
  | [] => [[t]]

-- The segments between the commas that stand in so many parentheses more than a group's own. A
-- closing parenthesis too many counts as well, so the depth may fall below zero.
def splitCommas (depth : Int) : List Token → List (List Token)
  | [] => [[]]
  | t :: rest =>
    if t.isPunctuation "(" then consHead t (splitCommas (depth + 1) rest)
    else if t.isPunctuation ")" then consHead t (splitCommas (depth - 1) rest)
    else if depth = 0 ∧ t.isPunctuation "," then [] :: splitCommas depth rest
    else consHead t (splitCommas depth rest)

-- A comma at the end separates nothing, so an empty last segment is none.
def segments (tokens : List Token) : List (List Token) :=
  let found := splitCommas 0 tokens
  if found.getLast?.any List.isEmpty then found.dropLast else found

-- Splits a run at its first colon outside parentheses.
def splitColon (depth : Int) : List Token → Option (List Token × List Token)
  | [] => none
  | t :: rest =>
    if t.isPunctuation "(" then
      (splitColon (depth + 1) rest).map fun (key, value) => (t :: key, value)
    else if t.isPunctuation ")" then
      (splitColon (depth - 1) rest).map fun (key, value) => (t :: key, value)
    else if depth = 0 ∧ t.isPunctuation ":" then some ([], rest)
    else (splitColon depth rest).map fun (key, value) => (t :: key, value)

-- Names and numbers are keys as they are written, and strings by their content.
def keyOf (t : Token) : Except SyntaxFault String :=
  match t.kind with
  | .identifier => .ok t.raw
  | .number => .ok t.raw
  | .string => .ok t.value
  | _ => .error .invalidKey

def ofKeyed (segment : List Token) : Except SyntaxFault Element :=
  match splitColon 0 segment with
  | none => .error .missingKey
  | some ([t], value) =>
    match keyOf t with
    | .error fault => .error fault
    | .ok key => if value.isEmpty then .error (.missingValue key) else .ok (.keyed key value)
  | some _ => .error .invalidKey

def ofSegment (group : Group) (segment : List Token) : Except SyntaxFault Element :=
  match segment with
  | [] => .error (.emptyElement group.description)
  | t :: rest =>
    if t.isPunctuation "..." then
      if rest.isEmpty then .error .missingSpreadValue else .ok (.spread rest)
    else if group = .object then ofKeyed segment
    else .ok (.single segment)

def ofSegments (group : Group) : List (List Token) → Except SyntaxFault (List Element)
  | [] => .ok []
  | segment :: rest =>
    match ofSegment group segment with
    | .error fault => .error fault
    | .ok element => (ofSegments group rest).map (element :: ·)

-- The elements of a group, or the fault of the first segment that is none.
def split (group : Group) (tokens : List Token) : Except SyntaxFault (List Element) :=
  ofSegments group (segments tokens)

def runsWeight : List (List Token) → Nat
  | [] => 0
  | run :: rest => Token.runWeight run + runsWeight rest

theorem runsWeight_consHead (t : Token) (runs : List (List Token)) :
    runsWeight (consHead t runs) = t.weight + runsWeight runs := by
  cases runs with
  | nil => simp [consHead, runsWeight, Token.runWeight]
  | cons run rest =>
    simp only [consHead, runsWeight, Token.runWeight]
    omega

theorem splitCommas_weight_le (depth : Int) (tokens : List Token) :
    runsWeight (splitCommas depth tokens) ≤ Token.runWeight tokens := by
  fun_induction splitCommas depth tokens with
  | case1 => simp [runsWeight, Token.runWeight]
  | case2 | case3 | case5 =>
    rename_i ih
    rw [runsWeight_consHead, Token.runWeight]
    omega
  | case4 =>
    rename_i ih
    simp only [runsWeight, Token.runWeight]
    omega

theorem runsWeight_dropLast_le (runs : List (List Token)) :
    runsWeight runs.dropLast ≤ runsWeight runs := by
  induction runs with
  | nil => simp
  | cons run rest ih =>
    cases rest with
    | nil => simp [runsWeight]
    | cons next more =>
      rw [List.dropLast_cons_of_ne_nil (by simp)]
      simp only [runsWeight] at ih ⊢
      omega

theorem segments_weight_le (tokens : List Token) :
    runsWeight (segments tokens) ≤ Token.runWeight tokens := by
  have hcommas := splitCommas_weight_le 0 tokens
  unfold segments
  dsimp only
  split
  · exact Nat.le_trans (runsWeight_dropLast_le _) hcommas
  · exact hcommas

theorem splitColon_weight_le {depth : Int} {tokens key value : List Token}
    (h : splitColon depth tokens = some (key, value)) :
    Token.runWeight value ≤ Token.runWeight tokens := by
  fun_induction splitColon depth tokens generalizing key with
  | case1 => simp at h
  | case4 =>
    simp only [Option.some.injEq, Prod.mk.injEq] at h
    simp only [← h.2, Token.runWeight]
    omega
  | case2 | case3 | case5 =>
    rename_i ih
    simp only [Option.map_eq_some_iff, Prod.mk.injEq, Prod.exists] at h
    obtain ⟨_, _, hrest, _, rfl⟩ := h
    have hle := ih hrest
    simp only [Token.runWeight]
    omega

theorem ofSegment_weight_le {group : Group} {segment : List Token} {element : Element}
    (h : ofSegment group segment = .ok element) :
    Token.runWeight element.run ≤ Token.runWeight segment := by
  unfold ofSegment at h
  split at h
  · simp at h
  split at h
  · split at h
    · simp at h
    · simp only [Except.ok.injEq] at h
      simp only [← h, run, Token.runWeight]
      omega
  split at h
  · unfold ofKeyed at h
    split at h
    · simp at h
    · rename_i hsplit
      have hle := splitColon_weight_le hsplit
      split at h
      · simp at h
      · split at h
        · simp at h
        · simp only [Except.ok.injEq] at h
          simpa only [← h, run] using hle
    · simp at h
  · simp only [Except.ok.injEq] at h
    simp [← h, run]

theorem ofSegments_weight_le {group : Group} {found : List (List Token)}
    {elements : List Element} (h : ofSegments group found = .ok elements) :
    runsWeight (elements.map run) ≤ runsWeight found := by
  induction found generalizing elements with
  | nil =>
    simp only [ofSegments, Except.ok.injEq] at h
    simp [← h]
  | cons segment rest ih =>
    unfold ofSegments at h
    split at h
    · simp at h
    · rename_i element hsegment
      have hle := ofSegment_weight_le hsegment
      cases hrest : ofSegments group rest with
      | error fault => simp [hrest, Except.map] at h
      | ok more =>
        have hmore := ih hrest
        simp only [hrest, Except.map, Except.ok.injEq] at h
        simp only [← h, List.map_cons, runsWeight]
        omega

-- The elements hold no more tokens than the group.
theorem split_weight_le {group : Group} {tokens : List Token} {elements : List Element}
    (h : split group tokens = .ok elements) :
    runsWeight (elements.map run) ≤ Token.runWeight tokens :=
  Nat.le_trans (ofSegments_weight_le h) (segments_weight_le tokens)

end Element

end FlowExpr
