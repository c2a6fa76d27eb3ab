import FlowExpr.Proofs.Dependency.Scan

namespace FlowExpr.Dependency

-- The references of a text by their places in it, without the order in which a scan finds them.
section Places

def isMark : List Char → Bool
  | c :: d :: _ => c == '$' && d == '{'
  | _ => false

-- The places where a `${` stands.
def marks (text : List Char) : List Nat :=
  (List.range text.length).filter fun i => isMark (text.drop i)

-- The braces that a text opens, less those that it closes.
def braceCount (text : List Char) : Int :=
  text.count '{' - text.count '}'

-- The text up to the first brace behind which as many braces are closed as opened, if so many are
-- open before the text.
def bodyFrom? (opened : Int) (text : List Char) : Option (List Char) :=
  (List.range text.length).find? (fun n => opened + braceCount (text.take (n + 1)) = 0)
    |>.map text.take

-- What belongs to the `${` at a place.
def bodyAt? (text : List Char) (i : Nat) : Option (List Char) :=
  bodyFrom? 1 (text.drop (i + 2))

-- Whether the `${` at the one place has the `${` at the other one in its body.
def encloses (text : List Char) (i j : Nat) : Bool :=
  match bodyAt? text i with
  | some body => i + 2 ≤ j ∧ j + 2 ≤ i + 2 + body.length
  | none => false

-- How many `${` of the text have the one at a place in their bodies.
def enclosing (text : List Char) (j : Nat) : Nat :=
  (marks text).countP fun i => encloses text i j

end Places

variable {text rest body after : List Char} {c : Char}

theorem braceCount_cons (c : Char) (text : List Char) :
    braceCount (c :: text) = braceCount [c] + braceCount text := by
  simp only [braceCount, List.count_cons, List.count_nil]
  omega

-- The count goes on behind a character with what it has changed.
theorem bodyFrom?_cons (opened : Int) (c : Char) (text : List Char) :
    bodyFrom? opened (c :: text) = if opened + braceCount [c] = 0 then some [] else
      (bodyFrom? (opened + braceCount [c]) text).map (c :: ·) := by
  rw [bodyFrom?, List.length_cons, List.range_succ_eq_map, List.find?_cons, List.take_succ_cons,
    List.take_zero]
  by_cases hclosed : opened + braceCount [c] = 0
  · simp [hclosed]
  · simp only [hclosed, decide_false, if_false]
    have hlater :
        (fun n => decide (opened + braceCount ((c :: text).take (n + 1)) = 0)) ∘ Nat.succ =
          fun n => decide (opened + braceCount [c] + braceCount (text.take (n + 1)) = 0) := by
      funext n
      have hcount : braceCount ((c :: text).take (n + 1 + 1)) =
          braceCount [c] + braceCount (text.take (n + 1)) := braceCount_cons c _
      exact decide_eq_decide.mpr (by rw [hcount, Int.add_assoc])
    rw [List.find?_map, hlater, Option.map_map, bodyFrom?, Option.map_map]
    rfl

-- It finds the same end as the scan that goes one level down for every brace.
theorem bodyFrom?_eq_span (depth : Nat) (text : List Char) :
    bodyFrom? (depth + 1) text = (span depth text).map Prod.fst := by
  induction text generalizing depth with
  | nil => rfl
  | cons c text ih =>
      rw [bodyFrom?_cons]
      by_cases hopen : c = '{'
      · subst hopen
        have hcount : braceCount ['{'] = 1 := rfl
        have hbehind : (depth : Int) + 1 + 1 = (depth + 1 : Nat) + 1 := rfl
        rw [hcount, if_neg (by omega), hbehind, ih, span_opening, Option.map_map, Option.map_map]
        rfl
      by_cases hclose : c = '}'
      · subst hclose
        have hcount : braceCount ['}'] = -1 := rfl
        cases depth with
        | zero => rfl
        | succ depth =>
            have hbehind : ((depth + 1 : Nat) : Int) + 1 + -1 = depth + 1 := by omega
            rw [hcount, if_neg (by omega), hbehind, ih, span_closing, Option.map_map,
              Option.map_map]
            rfl
      · have hcount : braceCount [c] = 0 := by simp [braceCount, hopen, hclose]
        rw [hcount, if_neg (by omega), Int.add_zero, ih, span_other hopen hclose, Option.map_map,
          Option.map_map]
        rfl

theorem bodyAt?_eq (text : List Char) (i : Nat) :
    bodyAt? text i = (span 0 (text.drop (i + 2))).map Prod.fst :=
  bodyFrom?_eq_span 0 (text.drop (i + 2))

-- What closes some braces more has closed the first of them on the way.
theorem exists_span_of_add {depth further : Nat}
    (h : span (depth + further + 1) text = some (body, after)) :
    ∃ inner rest, span depth body = some (inner, rest) := by
  induction text generalizing depth body with
  | nil => simp [span] at h
  | cons c text ih =>
      by_cases hopen : c = '{'
      · subst hopen
        rw [span_opening] at h
        simp only [Option.map_eq_some_iff, Prod.mk.injEq, Prod.exists] at h
        obtain ⟨body', _, hspan, rfl, rfl⟩ := h
        have hdepth : depth + further + 1 + 1 = depth + 1 + further + 1 := by omega
        obtain ⟨inner, rest, hinner⟩ := ih (hdepth ▸ hspan)
        exact ⟨'{' :: inner, rest, by rw [span_opening, hinner]; rfl⟩
      by_cases hclose : c = '}'
      · subst hclose
        rw [span_closing] at h
        simp only [Option.map_eq_some_iff, Prod.mk.injEq, Prod.exists] at h
        obtain ⟨body', _, hspan, rfl, rfl⟩ := h
        cases depth with
        | zero => exact ⟨[], body', rfl⟩
        | succ depth =>
            have hdepth : depth + 1 + further = depth + further + 1 := by omega
            obtain ⟨inner, rest, hinner⟩ := ih (hdepth ▸ hspan)
            exact ⟨'}' :: inner, rest, by rw [span_closing, hinner]; rfl⟩
      · rw [span_other hopen hclose] at h
        simp only [Option.map_eq_some_iff, Prod.mk.injEq, Prod.exists] at h
        obtain ⟨body', _, hspan, rfl, rfl⟩ := h
        obtain ⟨inner, rest, hinner⟩ := ih hspan
        exact ⟨c :: inner, rest, by rw [span_other hopen hclose, hinner]; rfl⟩

theorem exists_span_tail {depth : Nat} {d : Char}
    (h : span depth (c :: text) = some (d :: body, after)) :
    ∃ next, span next text = some (body, after) := by
  have htail {next : Nat} (hnext : (span next text).map (Prod.map (c :: ·) id) =
      some (d :: body, after)) : ∃ next, span next text = some (body, after) := by
    simp only [Option.map_eq_some_iff, Prod.map, id_eq, Prod.mk.injEq, List.cons.injEq,
      Prod.exists] at hnext
    obtain ⟨_, _, hspan, ⟨-, rfl⟩, rfl⟩ := hnext
    exact ⟨next, hspan⟩
  by_cases hopen : c = '{'
  · subst hopen
    exact htail h
  by_cases hclose : c = '}'
  · subst hclose
    cases depth with
    | zero => simp [span] at h
    | succ depth => exact htail h
  · rw [span_other hopen hclose] at h
    exact htail h

-- A brace that is opened in a body is closed in it.
theorem exists_span_of_mem_body {depth : Nat} {before inner : List Char}
    (h : span depth text = some (before ++ '{' :: inner, after)) :
    ∃ body rest, span 0 inner = some (body, rest) := by
  induction before generalizing depth text with
  | nil =>
      rw [eq_of_span h, List.nil_append, List.cons_append, span_opening] at h
      simp only [Option.map_eq_some_iff, Prod.mk.injEq, Prod.exists] at h
      obtain ⟨_, _, hspan, heq, -⟩ := h
      rw [(List.cons.inj heq).2] at hspan
      have hdepth : 0 + depth + 1 = depth + 1 := by omega
      exact exists_span_of_add (hdepth.symm ▸ hspan)
  | cons c before ih =>
      rw [eq_of_span h] at h
      obtain ⟨next, hnext⟩ := exists_span_tail h
      exact ih hnext

theorem isMark_of_ne (h : c ≠ '$') (rest : List Char) : isMark (c :: rest) = false := by
  cases rest <;> simp [isMark, h]

theorem marks_cons (c : Char) (rest : List Char) : marks (c :: rest) =
    (if isMark (c :: rest) then [0] else []) ++ (marks rest).map (· + 1) := by
  rw [marks, List.length_cons, List.range_succ_eq_map, List.filter_cons, List.filter_map]
  have hlater : (fun i => isMark ((c :: rest).drop i)) ∘ Nat.succ =
      fun i => isMark (rest.drop i) := rfl
  rw [hlater, List.drop_zero]
  split <;> rfl

theorem exists_of_mem_marks {i : Nat} (h : i ∈ marks text) :
    ∃ inner, text.drop i = '$' :: '{' :: inner := by
  have hmark := (List.mem_filter.mp h).2
  unfold isMark at hmark
  split at hmark
  · rename_i c d inner htext
    rw [Bool.and_eq_true, beq_iff_eq, beq_iff_eq] at hmark
    exact ⟨inner, by rw [htext, hmark.1, hmark.2]⟩
  · simp at hmark

-- No `${` stands on both sides of a closing brace.
theorem marks_append (body after : List Char) : marks (body ++ '}' :: after) =
    marks body ++ (marks after).map (· + (body.length + 1)) := by
  induction body with
  | nil =>
      rw [List.nil_append, marks_cons, isMark_of_ne (by decide)]
      rfl
  | cons c body ih =>
      have hmark : isMark (c :: (body ++ '}' :: after)) = isMark (c :: body) := by
        cases body with
        | nil => simp [isMark]
        | cons d body => rfl
      rw [List.cons_append, marks_cons, marks_cons, ih, hmark, List.map_append, List.map_map,
        List.append_assoc]
      rfl

-- What belongs to each `${` of the text, from left to right, with the number of those around it.
def occurrences (text : List Char) : List (Option (List Char) × Nat) :=
  (marks text).map fun j => (bodyAt? text j, enclosing text j)

theorem encloses_of_bodyAt? {i : Nat} (h : bodyAt? text i = some body) (j : Nat) :
    encloses text i j = decide (i + 2 ≤ j ∧ j + 2 ≤ i + 2 + body.length) := by
  rw [encloses, h]

theorem encloses_of_lt {i j : Nat} (h : j < i + 2) : encloses text i j = false := by
  cases hbody : bodyAt? text i with
  | none => rw [encloses, hbody]
  | some body =>
      rw [encloses_of_bodyAt? hbody]
      exact decide_eq_false (by omega)

-- Places that have the same body lie the same way to one another.
theorem encloses_congr {text text' : List Char} {i j n : Nat}
    (h : bodyAt? text (i + n) = bodyAt? text' i) :
    encloses text (i + n) (j + n) = encloses text' i j := by
  rw [encloses, encloses, h]
  cases bodyAt? text' i with
  | none => rfl
  | some body =>
      exact decide_eq_decide.mpr (by omega)

theorem occurrences_cons (h : isMark (c :: rest) = false) :
    occurrences (c :: rest) = occurrences rest := by
  have hmarks : marks (c :: rest) = (marks rest).map (· + 1) := by
    rw [marks_cons, h]
    rfl
  have hbody (i : Nat) : bodyAt? (c :: rest) (i + 1) = bodyAt? rest i := rfl
  have henclosing (j : Nat) : enclosing (c :: rest) (j + 1) = enclosing rest j := by
    rw [enclosing, hmarks, List.countP_map]
    exact List.countP_congr fun i _ => by simp [encloses_congr (hbody i)]
  rw [occurrences, hmarks, List.map_map]
  exact List.map_congr_left fun j _ => by simp [hbody, henclosing]

section Mark

variable (h : span 0 text = some (body, after))
include h

theorem marks_mark : marks ('$' :: '{' :: text) =
    0 :: ((marks body).map (· + 2) ++ (marks after).map (· + (body.length + 3))) := by
  have hopening : isMark ('$' :: '{' :: text) = true := rfl
  rw [marks_cons, hopening, marks_cons, isMark_of_ne (by decide), eq_of_span h, marks_append]
  simp [Function.comp_def, Nat.add_assoc]

theorem bodyAt?_mark : bodyAt? ('$' :: '{' :: text) 0 = some body := by
  rw [bodyAt?_eq, List.drop_succ_cons, List.drop_succ_cons, List.drop_zero, h]
  rfl

-- A `${` in a body has the same body there and in the whole text.
theorem exists_bodyAt?_inside {i : Nat} (hi : i ∈ marks body) :
    ∃ inner, bodyAt? body i = some inner ∧ bodyAt? ('$' :: '{' :: text) (i + 2) = some inner ∧
      i + 2 + inner.length < body.length := by
  obtain ⟨tail, htail⟩ := exists_of_mem_marks hi
  have hbody : body = (body.take i ++ ['$']) ++ '{' :: tail := by
    rw [List.append_assoc, List.singleton_append, ← htail, List.take_append_drop]
  have hdrop : body.drop (i + 2) = tail := by
    rw [← List.drop_drop, htail]
    rfl
  have hlength := congrArg List.length htail
  simp only [List.length_drop, List.length_cons] at hlength
  have hspan := h
  rw [hbody] at hspan
  obtain ⟨inner, rest, hinner⟩ := exists_span_of_mem_body hspan
  have hfits := congrArg List.length (eq_of_span hinner)
  simp only [List.length_append, List.length_cons] at hfits
  refine ⟨inner, ?_, ?_, by omega⟩
  · rw [bodyAt?_eq, hdrop, hinner]
    rfl
  · rw [bodyAt?_eq, List.drop_succ_cons, List.drop_succ_cons, eq_of_span h,
      List.drop_append_of_le_length (by omega), hdrop, span_append hinner]
    rfl

theorem bodyAt?_behind (i : Nat) :
    bodyAt? ('$' :: '{' :: text) (i + (body.length + 3)) = bodyAt? after i := by
  have hwhole : '$' :: '{' :: text = '$' :: '{' :: body ++ ['}'] ++ after := by
    simp [eq_of_span h]
  have hplace : i + (body.length + 3) + 2 = ('$' :: '{' :: body ++ ['}']).length + (i + 2) := by
    simp only [List.length_append, List.length_cons, List.length_nil]
    omega
  rw [bodyAt?, bodyAt?, hwhole, hplace, List.drop_length_add_append]

-- In a body there is one `${` more around every place.
theorem enclosing_inside {j : Nat} (hj : j ∈ marks body) :
    enclosing ('$' :: '{' :: text) (j + 2) = enclosing body j + 1 := by
  obtain ⟨_, -, -, hfits⟩ := exists_bodyAt?_inside h hj
  have hfirst : encloses ('$' :: '{' :: text) 0 (j + 2) = true := by
    rw [encloses_of_bodyAt? (bodyAt?_mark h)]
    exact decide_eq_true (by omega)
  have hinside : ((marks body).countP fun i => encloses ('$' :: '{' :: text) (i + 2) (j + 2)) =
      enclosing body j := by
    refine List.countP_congr fun i hi => ?_
    obtain ⟨inner, hbody, hwhole, -⟩ := exists_bodyAt?_inside h hi
    rw [encloses_congr (hwhole.trans hbody.symm)]
  have hbehind : ((marks after).countP fun i =>
      encloses ('$' :: '{' :: text) (i + (body.length + 3)) (j + 2)) = 0 := by
    refine List.countP_eq_zero.mpr fun i _ => ?_
    rw [encloses_of_lt (by omega)]
    exact Bool.false_ne_true
  rw [enclosing, marks_mark h, List.countP_cons, List.countP_append, List.countP_map,
    List.countP_map]
  simp only [Function.comp_def, hfirst, hinside, hbehind, if_true, Nat.add_zero]

theorem enclosing_behind (j : Nat) :
    enclosing ('$' :: '{' :: text) (j + (body.length + 3)) = enclosing after j := by
  have hfirst : encloses ('$' :: '{' :: text) 0 (j + (body.length + 3)) = false := by
    rw [encloses_of_bodyAt? (bodyAt?_mark h)]
    exact decide_eq_false (by omega)
  have hinside : ((marks body).countP fun i =>
      encloses ('$' :: '{' :: text) (i + 2) (j + (body.length + 3))) = 0 := by
    refine List.countP_eq_zero.mpr fun i hi => ?_
    obtain ⟨inner, -, hwhole, hfits⟩ := exists_bodyAt?_inside h hi
    rw [encloses_of_bodyAt? hwhole, decide_eq_true_eq]
    omega
  have hbehind : ((marks after).countP fun i =>
      encloses ('$' :: '{' :: text) (i + (body.length + 3)) (j + (body.length + 3))) =
        enclosing after j := by
    refine List.countP_congr fun i _ => ?_
    rw [encloses_congr (bodyAt?_behind h i)]
  rw [enclosing, marks_mark h, List.countP_cons, List.countP_append, List.countP_map,
    List.countP_map]
  simp [Function.comp_def, hfirst, hinside, hbehind]

-- The references of a text that starts with one: that one, those in it and those behind it.
theorem occurrences_mark : occurrences ('$' :: '{' :: text) =
    (some body, 0) :: ((occurrences body).map (fun o => (o.1, o.2 + 1)) ++ occurrences after) := by
  have hfirst : enclosing ('$' :: '{' :: text) 0 = 0 := by
    refine List.countP_eq_zero.mpr fun i _ => ?_
    rw [encloses_of_lt (by omega)]
    exact Bool.false_ne_true
  have hinside : (marks body).map (fun j => (bodyAt? ('$' :: '{' :: text) (j + 2),
      enclosing ('$' :: '{' :: text) (j + 2))) =
        (occurrences body).map fun o => (o.1, o.2 + 1) := by
    rw [occurrences, List.map_map]
    refine List.map_congr_left fun j hj => ?_
    obtain ⟨inner, hbody, hwhole, -⟩ := exists_bodyAt?_inside h hj
    rw [hwhole, enclosing_inside h hj, Function.comp, hbody]
  have hbehind : (marks after).map (fun j =>
      (bodyAt? ('$' :: '{' :: text) (j + (body.length + 3)),
        enclosing ('$' :: '{' :: text) (j + (body.length + 3)))) = occurrences after :=
    List.map_congr_left fun j _ => by rw [bodyAt?_behind h, enclosing_behind h]
  rw [occurrences, marks_mark h, List.map_cons, List.map_append, List.map_map, List.map_map,
    bodyAt?_mark h, hfirst, ← hinside, ← hbehind]
  rfl

end Mark

end FlowExpr.Dependency
