import FlowExpr.Outcome
import FlowExpr.Tree.Element

namespace FlowExpr.Element

variable {t : Token} {run tokens : List Token}

theorem mem_of_mem_consHead {runs : List (List Token)} {head : Token}
    (hrun : run ∈ consHead head runs) (ht : t ∈ run) : t = head ∨ ∃ run ∈ runs, t ∈ run := by
  cases runs with
  | nil =>
      rw [consHead, List.mem_singleton] at hrun
      rw [hrun] at ht
      exact .inl (List.mem_singleton.mp ht)
  | cons first rest =>
      rcases List.mem_cons.mp hrun with rfl | hrun
      · rcases List.mem_cons.mp ht with rfl | ht
        · exact .inl rfl
        · exact .inr ⟨first, by simp, ht⟩
      · exact .inr ⟨run, List.mem_cons_of_mem first hrun, ht⟩

theorem mem_of_splitCommas {depth : Int} (hrun : run ∈ splitCommas depth tokens) (ht : t ∈ run) :
    t ∈ tokens := by
  fun_induction splitCommas depth tokens generalizing run with
  | case1 => simp_all
  | case2 | case3 | case5 =>
      rename_i ih
      rcases mem_of_mem_consHead hrun ht with rfl | ⟨run', hrun', ht'⟩
      · exact List.mem_cons_self
      · exact List.mem_cons_of_mem _ (ih hrun' ht')
  | case4 =>
      rename_i ih
      rcases List.mem_cons.mp hrun with rfl | hrun
      · simp at ht
      · exact List.mem_cons_of_mem _ (ih hrun ht)

theorem mem_splitCommas_of_segments (h : run ∈ segments tokens) : run ∈ splitCommas 0 tokens := by
  unfold segments at h
  dsimp only at h
  split at h
  · exact (List.dropLast_sublist _).mem h
  · exact h

theorem mem_of_splitColon {depth : Int} {key value : List Token}
    (h : splitColon depth tokens = some (key, value)) (ht : t ∈ value) : t ∈ tokens := by
  fun_induction splitColon depth tokens generalizing key with
  | case1 => simp at h
  | case4 =>
      simp only [Option.some.injEq, Prod.mk.injEq] at h
      rw [h.2]
      exact List.mem_cons_of_mem _ ht
  | case2 | case3 | case5 =>
      rename_i ih
      simp only [Option.map_eq_some_iff, Prod.mk.injEq, Prod.exists] at h
      obtain ⟨_, _, hrest, _, rfl⟩ := h
      exact List.mem_cons_of_mem _ (ih hrest)

theorem kind_of_keyOf {name : String} (h : keyOf t = .ok name) : t.kind ≠ .punctuation := by
  intro hkind
  simp [keyOf, hkind] at h

-- What a segment can be: a value to be spread, a value under a key in an object, or a value on its
-- own in any other group.
theorem ofSegment_cases {group : Group} {segment : List Token} {e : Element}
    (h : ofSegment group segment = .ok e) :
    (∃ dots value, segment = dots :: value ∧ dots.isPunctuation "..." = true ∧ value ≠ [] ∧
      e = .spread value) ∨
    (group = .object ∧ ∃ key name value, keyOf name = .ok key ∧
      splitColon 0 segment = some ([name], value) ∧ value ≠ [] ∧ e = .keyed key value) ∨
    (group ≠ .object ∧ segment ≠ [] ∧ e = .single segment) := by
  cases segment with
  | nil => simp [ofSegment] at h
  | cons t rest =>
      rw [ofSegment] at h
      by_cases hdots : t.isPunctuation "..." = true
      · rw [if_pos hdots] at h
        split at h
        · simp at h
        · rename_i hne
          exact .inl ⟨t, rest, rfl, hdots, by simpa using hne, (Except.ok.inj h).symm⟩
      rw [if_neg hdots] at h
      by_cases hobject : group = .object
      · rw [if_pos hobject, ofKeyed] at h
        split at h
        · simp at h
        · rename_i name value hcolon
          split at h
          · simp at h
          · split at h
            · simp at h
            · rename_i key hkey hne
              exact .inr (.inl ⟨hobject, key, name, value, hkey, hcolon, by simpa using hne,
                (Except.ok.inj h).symm⟩)
        · simp at h
      · rw [if_neg hobject] at h
        exact .inr (.inr ⟨hobject, by simp, (Except.ok.inj h).symm⟩)

theorem mem_of_ofSegment {group : Group} {segment : List Token} {e : Element}
    (h : ofSegment group segment = .ok e) (ht : t ∈ e.run) : t ∈ segment := by
  rcases ofSegment_cases h with ⟨dots, value, rfl, _, _, rfl⟩ |
    ⟨_, key, name, value, _, hcolon, _, rfl⟩ | ⟨_, _, rfl⟩
  · exact List.mem_cons_of_mem dots ht
  · exact mem_of_splitColon hcolon ht
  · exact ht

theorem exists_of_ofSegments {group : Group} {found : List (List Token)} {elements : List Element}
    {e : Element} (h : ofSegments group found = .ok elements) (he : e ∈ elements) :
    ∃ segment ∈ found, ofSegment group segment = .ok e := by
  induction found generalizing elements with
  | nil =>
      simp only [ofSegments, Except.ok.injEq] at h
      simp [← h] at he
  | cons segment rest ih =>
      unfold ofSegments at h
      split at h
      · simp at h
      · rename_i first hfirst
        obtain ⟨more, hmore, rfl⟩ := Outcome.map_eq_ok_iff.mp h
        rcases List.mem_cons.mp he with rfl | he
        · exact ⟨segment, by simp, hfirst⟩
        · obtain ⟨segment', hmem, hsegment'⟩ := ih hmore he
          exact ⟨segment', List.mem_cons_of_mem _ hmem, hsegment'⟩

-- The tokens of an element are tokens of its group.
theorem mem_of_split {group : Group} {elements : List Element} {e : Element}
    (h : split group tokens = .ok elements) (he : e ∈ elements) (ht : t ∈ e.run) :
    t ∈ tokens := by
  obtain ⟨segment, hsegment, hof⟩ := exists_of_ofSegments h he
  exact mem_of_splitCommas (mem_splitCommas_of_segments hsegment) (mem_of_ofSegment hof ht)

end FlowExpr.Element
