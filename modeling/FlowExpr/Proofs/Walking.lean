import FlowExpr.Path.Walk
import FlowExpr.Proofs.Digits

namespace FlowExpr

-- An index as a name: the one that it is written with.
def Segment.named : Segment → Segment
  | .index i => .property (toString i.toNat)
  | segment => segment

namespace Path

variable {v : Value} {segment : Segment} {first second : Path}

-- A length is a number, whatever it is the length of.
theorem exists_of_asksLength (h : asksLength v segment = true) :
    ∃ n, step v segment = .ok (.int n) := by
  unfold asksLength at h
  split at h
  · rw [beq_iff_eq] at h
    exact ⟨_, by rw [step, if_pos h]⟩
  · rw [beq_iff_eq] at h
    exact ⟨_, by rw [step, if_pos h]⟩
  · simp at h

-- The walk does not look at a length, but what it reports is what a step from that number fails
-- with. Only a computed key is refused before the value is looked at.
theorem endAtLength_eq_get (n : Int64) (h : ∀ key, second.head? ≠ some (.computed key))
    (path : String) : endAtLength (.int n) second path = get (.int n) second path := by
  cases second with
  | nil => rfl
  | cons segment rest =>
      cases segment with
      | property name | index i => rfl
      | computed key => exact absurd rfl (h key)

-- A walk is the walk along its first part and then, from where that leads, along the rest. The first
-- of the two that fails tells how the whole fails.
theorem get_append (h : ∀ key, second.head? ≠ some (.computed key)) (v : Value) (first : Path)
    (path : String) :
    get v (first ++ second) path =
      (get v first path).bind fun next => get next second path := by
  induction first generalizing v with
  | nil => rfl
  | cons segment rest ih =>
      rw [List.cons_append, get, get]
      cases hstep : step v segment with
      | error failure => rfl
      | ok next =>
          dsimp only
          by_cases hlength : asksLength v segment = true
          · rw [if_pos hlength, if_pos hlength]
            cases rest with
            | nil =>
                obtain ⟨n, hn⟩ := exists_of_asksLength hlength
                obtain rfl : next = .int n := Except.ok.inj (hstep.symm.trans hn)
                exact endAtLength_eq_get n h path
            | cons following more => rfl
          · rw [if_neg hlength, if_neg hlength]
            exact ih next

-- Nothing can be looked up in the length of a list, and the second walk says so.
theorem get_append_length :
    let root : Value := .object [("items", .array [.bool true, .null])]
    get root ([.property "items", .property "length"] ++ [.index 0]) "items.length[0]" =
        (get root [.property "items", .property "length"] "items.length[0]").bind
          (fun next => get next [.index 0] "items.length[0]") ∧
      get root ([.property "items", .property "length"] ++ [.index 0]) "items.length[0]" =
        .error ⟨"items.length[0]", "0", "number", .notIndexable⟩ := by
  intro root
  have happend : get root ([.property "items", .property "length"] ++ [.index 0])
      "items.length[0]" = (get root [.property "items", .property "length"] "items.length[0]").bind
        (fun next => get next [.index 0] "items.length[0]") :=
    get_append (by simp) root _ _
  refine ⟨happend, ?_⟩
  rw [happend]
  rfl

theorem text_named (segment : Segment) : segment.named.text = segment.text := by
  cases segment <;> rfl

theorem toString_ne_length (n : Nat) : toString n ≠ "length" := by
  intro h
  have hdigits : (toString n).toList = Nat.toDigits 10 n := Nat.toList_repr
  have hletter : 'l' ∈ Nat.toDigits 10 n := by
    rw [← hdigits, h]
    decide
  exact absurd (Text.isDigit_of_mem_toDigits 'l' hletter) (by decide)

-- No value tells an index from the name that it is written with.
theorem step_named (v : Value) (segment : Segment) : step v segment.named = step v segment := by
  cases segment with
  | property name | computed key => rfl
  | index i =>
      have hname := toString_ne_length i.toNat
      have hdigits : (toString i.toNat).toList = Nat.toDigits 10 i.toNat := Nat.toList_repr
      cases v with
      | array items =>
          simp only [Segment.named, step, if_neg hname, hdigits, Text.readUnsigned?_toDigits,
            Option.bind_some]
      | string s => simp only [Segment.named, step, if_neg hname]
      | undefined | null | bool | int | float | object => rfl

theorem asksLength_named (v : Value) (segment : Segment) :
    asksLength v segment.named = asksLength v segment := by
  cases segment with
  | property name | computed key => rfl
  | index i =>
      have hname := beq_eq_false_iff_ne.mpr (toString_ne_length i.toNat)
      cases v with
      | array items | string s => exact hname
      | undefined | null | bool | int | float | object => rfl

theorem endAtLength_named (length : Value) (segments : Path) (path : String) :
    endAtLength length (segments.map Segment.named) path = endAtLength length segments path := by
  cases segments with
  | nil => rfl
  | cons segment rest => rw [List.map_cons, endAtLength, endAtLength, text_named]

theorem get_map_named (v : Value) (segments : Path) (path : String) :
    get v (segments.map Segment.named) path = get v segments path := by
  induction segments generalizing v with
  | nil => rfl
  | cons segment rest ih =>
      rw [List.map_cons, get, get, step_named, asksLength_named, text_named]
      cases step v segment with
      | error failure => rfl
      | ok next => simp only [endAtLength_named, ih]

-- Paths that differ only in which of their indices are written as names lead to the same value, or
-- fail with the same error.
theorem get_eq_of_named (h : first.map Segment.named = second.map Segment.named) (v : Value)
    (path : String) : get v first path = get v second path :=
  calc get v first path
    _ = get v (first.map Segment.named) path := (get_map_named v first path).symm
    _ = get v (second.map Segment.named) path := by rw [h]
    _ = get v second path := get_map_named v second path

-- Either of `rows[1]["0"]` and `rows["1"][0]` leads to the field `0` of the second row.
theorem get_eq_of_named_rows :
    let root : Value := .object [("rows", .array [.null, .object [("0", .string "x")]])]
    let brackets : Path := [.property "rows", .index 1, .property "0"]
    let names : Path := [.property "rows", .property "1", .index 0]
    get root brackets "rows" = get root names "rows" ∧
      get root names "rows" = .ok (.string "x") := by
  intro root brackets names
  have hnamed : get root brackets "rows" = get root names "rows" :=
    get_eq_of_named (by decide) root "rows"
  exact ⟨hnamed, hnamed.symm.trans rfl⟩

end Path

end FlowExpr
