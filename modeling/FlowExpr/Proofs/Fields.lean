import FlowExpr.Fields
import Mathlib.Data.List.Induction
import Mathlib.Data.List.Nodup

namespace FlowExpr.Fields

variable {α : Type} {name : String} {fields more merged other : List (String × α)}

-- What is left when fields are written one after another: every name stands where it was first
-- written, and has the value that was last written.
structure IsMerged (written merged : List (String × α)) : Prop where
  order : names merged = (names written).eraseDups
  last : ∀ name, get? name merged = get? name written.reverse

section Order

variable {words : List String}

theorem eraseDups_concat (words : List String) (word : String) :
    (words ++ [word]).eraseDups =
      if word ∈ words then words.eraseDups else words.eraseDups ++ [word] := by
  rw [List.eraseDups_append]
  by_cases h : word ∈ words <;> simp [List.removeAll, h, List.eraseDups_cons]

theorem nodup_eraseDups (words : List String) : words.eraseDups.Nodup := by
  induction words using List.reverseRecOn with
  | nil => exact List.nodup_nil
  | append_singleton words word ih =>
      rw [eraseDups_concat]
      by_cases h : word ∈ words
      · rwa [if_pos h]
      · rw [if_neg h, ← List.concat_eq_append, List.nodup_concat, List.mem_eraseDups]
        exact ⟨h, ih⟩

theorem eraseDups_of_nodup (h : words.Nodup) : words.eraseDups = words := by
  induction words using List.reverseRecOn with
  | nil => rfl
  | append_singleton words word ih =>
      rw [← List.concat_eq_append, List.nodup_concat] at h
      rw [eraseDups_concat, if_neg h.1, ih h.2]

theorem eraseDups_append_eraseDups (words further : List String) :
    (words ++ further.eraseDups).eraseDups = (words ++ further).eraseDups := by
  induction further using List.reverseRecOn with
  | nil => rfl
  | append_singleton further word ih =>
      rw [eraseDups_concat, ← List.append_assoc, eraseDups_concat]
      by_cases h : word ∈ further
      · rw [if_pos h, if_pos (List.mem_append_right words h)]
        exact ih
      · rw [if_neg h, ← List.append_assoc, eraseDups_concat, ih]
        simp only [List.mem_append, List.mem_eraseDups]

theorem eraseDups_append_self (words : List String) :
    (words ++ words).eraseDups = words.eraseDups := by
  have hnone : words.removeAll words = [] := List.filter_eq_nil_iff.mpr (by simp)
  rw [List.eraseDups_append, hnone, List.eraseDups_nil, List.append_nil]

end Order

theorem names_append (fields more : List (String × α)) :
    names (fields ++ more) = names fields ++ names more :=
  List.map_append

theorem get?_append (name : String) (fields more : List (String × α)) :
    get? name (fields ++ more) = (get? name fields).or (get? name more) := by
  induction fields with
  | nil => rfl
  | cons field rest ih =>
      obtain ⟨first, value⟩ := field
      rw [List.cons_append, get?, get?]
      by_cases h : first = name
      · rw [if_pos h, if_pos h, Option.some_or]
      · rw [if_neg h, if_neg h, ih]

theorem get?_eq_none (h : name ∉ names fields) : get? name fields = none := by
  induction fields with
  | nil => rfl
  | cons field rest ih =>
      obtain ⟨first, value⟩ := field
      rw [names, List.map_cons, List.mem_cons, not_or] at h
      rw [get?, if_neg (Ne.symm h.1), ih h.2]

theorem mem_of_get? {value : α} (h : get? name fields = some value) : (name, value) ∈ fields := by
  induction fields with
  | nil => simp [get?] at h
  | cons field rest ih =>
      obtain ⟨first, old⟩ := field
      rw [get?] at h
      by_cases hname : first = name
      · rw [if_pos hname] at h
        rw [← hname, Option.some.inj h]
        exact List.mem_cons_self
      · rw [if_neg hname] at h
        exact List.mem_cons_of_mem _ (ih h)

-- A field is found under its name if no other has that name.
theorem get?_of_mem {value : α} (hnodup : (names fields).Nodup) (h : (name, value) ∈ fields) :
    get? name fields = some value := by
  induction fields with
  | nil => exact absurd h List.not_mem_nil
  | cons field rest ih =>
      obtain ⟨first, old⟩ := field
      obtain ⟨hfirst, hrest⟩ : first ∉ names rest ∧ (names rest).Nodup := List.nodup_cons.mp hnodup
      rw [get?]
      rcases List.mem_cons.mp h with heq | hmem
      · rw [(Prod.mk.inj heq).1, (Prod.mk.inj heq).2, if_pos rfl]
      · have hname : name ∈ names rest := List.mem_map_of_mem hmem
        have hne : first ≠ name := fun heq => hfirst (heq ▸ hname)
        rw [if_neg hne, ih hrest hmem]

theorem get?_insert (written : String) (value : α) (fields : List (String × α)) (name : String) :
    get? name (insert written value fields) =
      (get? name [(written, value)]).or (get? name fields) := by
  by_cases h : written = name
  · rw [h, get?_insert_self, get?, if_pos rfl, Option.some_or]
  · rw [get?_insert_of_ne (Ne.symm h), get?, if_neg h]
    rfl

-- A name that is not there yet comes last.
theorem names_insert (name : String) (value : α) (fields : List (String × α)) :
    names (insert name value fields) =
      if name ∈ names fields then names fields else names fields ++ [name] := by
  induction fields with
  | nil => rfl
  | cons field rest ih =>
      obtain ⟨first, old⟩ := field
      simp only [names] at ih
      by_cases h : first = name
      · simp [insert, names, h]
      · by_cases hrest : name ∈ rest.map Prod.fst
        · simp [insert, names, h, ih, hrest]
        · simp [insert, names, h, Ne.symm h, ih, hrest]

theorem ofList_append (fields more : List (String × α)) :
    ofList (fields ++ more) = extend (ofList fields) more :=
  List.foldl_append

theorem IsMerged.concat (h : IsMerged fields merged) (name : String) (value : α) :
    IsMerged (fields ++ [(name, value)]) (insert name value merged) where
  order := by
    have hnames : names (fields ++ [(name, value)]) = names fields ++ [name] :=
      names_append fields _
    rw [names_insert, h.order, hnames, eraseDups_concat]
    simp only [List.mem_eraseDups]
  last other := by
    rw [get?_insert, h.last, List.reverse_append, get?_append]
    rfl

theorem isMerged_ofList (fields : List (String × α)) : IsMerged fields (ofList fields) := by
  induction fields using List.reverseRecOn with
  | nil => exact ⟨rfl, fun _ => rfl⟩
  | append_singleton fields field ih =>
      rw [ofList_append]
      exact ih.concat field.1 field.2

-- Fields under different names are known by the order of the names and by what is found there.
theorem eq_of_names (hnodup : (names fields).Nodup) (hnames : names fields = names other)
    (hvalues : ∀ name, get? name fields = get? name other) : fields = other := by
  induction fields generalizing other with
  | nil => exact (List.map_eq_nil_iff.mp hnames.symm).symm
  | cons field rest ih =>
      obtain ⟨first, value⟩ := field
      cases other with
      | nil => simp [names] at hnames
      | cons field' rest' =>
          obtain ⟨first', value'⟩ := field'
          obtain ⟨rfl, hrest⟩ : first = first' ∧ names rest = names rest' :=
            List.cons.inj hnames
          obtain ⟨hfirst, hnodup⟩ : first ∉ names rest ∧ (names rest).Nodup :=
            List.nodup_cons.mp hnodup
          obtain rfl : value = value' := by simpa [get?] using hvalues first
          have hvalues' : ∀ name, get? name rest = get? name rest' := by
            intro name
            by_cases h : first = name
            · rw [← h, get?_eq_none hfirst, get?_eq_none (hrest ▸ hfirst)]
            · simpa [get?, h] using hvalues name
          rw [ih hnodup hrest hvalues']

namespace IsMerged

theorem nodup (h : IsMerged fields merged) : (names merged).Nodup := by
  rw [h.order]
  exact nodup_eraseDups _

-- Nothing else can be left.
theorem unique (h : IsMerged fields merged) (hother : IsMerged fields other) : merged = other := by
  apply eq_of_names h.nodup (h.order.trans hother.order.symm)
  exact fun name => (h.last name).trans (hother.last name).symm

end IsMerged

theorem get?_reverse (h : (names fields).Nodup) (name : String) :
    get? name fields.reverse = get? name fields := by
  induction fields with
  | nil => rfl
  | cons field rest ih =>
      obtain ⟨first, value⟩ := field
      obtain ⟨hfirst, hrest⟩ : first ∉ names rest ∧ (names rest).Nodup := List.nodup_cons.mp h
      rw [List.reverse_cons, get?_append, ih hrest]
      by_cases hname : first = name
      · rw [← hname, get?_eq_none hfirst]
        simp [get?]
      · simp [get?, hname]

-- Fields under different names stay as they are.
theorem ofList_of_nodup (h : (names fields).Nodup) : ofList fields = fields :=
  (isMerged_ofList fields).unique
    ⟨(eraseDups_of_nodup h).symm, fun name => (get?_reverse h name).symm⟩

-- It makes no difference whether some of the fields have been merged before.
theorem ofList_append_ofList (fields more : List (String × α)) :
    ofList (fields ++ ofList more) = ofList (fields ++ more) := by
  have hmore := isMerged_ofList more
  have hwhole := isMerged_ofList (fields ++ ofList more)
  have hmerged : IsMerged (fields ++ more) (ofList (fields ++ ofList more)) := by
    refine ⟨?_, fun name => ?_⟩
    · rw [hwhole.order, names_append, names_append, hmore.order, eraseDups_append_eraseDups]
    · rw [hwhole.last, List.reverse_append, List.reverse_append, get?_append, get?_append,
        get?_reverse hmore.nodup, hmore.last]
  exact hmerged.unique (isMerged_ofList _)

-- Fields that are written again leave the same.
theorem ofList_append_self (fields : List (String × α)) :
    ofList (fields ++ fields) = ofList fields := by
  have hfields := isMerged_ofList fields
  have htwice := isMerged_ofList (fields ++ fields)
  have hmerged : IsMerged fields (ofList (fields ++ fields)) := by
    refine ⟨?_, fun name => ?_⟩
    · rw [htwice.order, names_append, eraseDups_append_self]
    · rw [htwice.last, List.reverse_append, get?_append, Option.or_self]
  exact hmerged.unique hfields

end FlowExpr.Fields
