namespace FlowExpr.Outcome

variable {ε δ α β : Type} {x y : Except ε α} {b : β}

-- What it takes for a step to succeed, with what comes before it.
theorem map_eq_ok_iff {f : α → β} : x.map f = .ok b ↔ ∃ a, x = .ok a ∧ f a = b := by
  cases x <;> simp [Except.map]

theorem bind_eq_ok_iff {f : α → Except ε β} : x.bind f = .ok b ↔ ∃ a, x = .ok a ∧ f a = .ok b := by
  cases x <;> simp [Except.bind]

-- The outcome is no error of a certain kind.
def Avoids (p : ε → Bool) (x : Except ε α) : Prop :=
  ∀ e, x = .error e → p e = false

variable {p : ε → Bool}

theorem avoids_ok (a : α) : Avoids p (.ok a) :=
  nofun

theorem avoids_error {e : ε} (h : p e = false) : Avoids p (.error e : Except ε α) := by
  rintro _ ⟨⟩
  exact h

-- A run avoids a kind of error if each of its steps does. What a step returns is known to the next.
theorem Avoids.bind {f : α → Except ε β} (h : Avoids p x)
    (hnext : ∀ a, x = .ok a → Avoids p (f a)) : Avoids p (x.bind f) := by
  cases x with
  | error e => exact avoids_error (h e rfl)
  | ok a => exact hnext a rfl

theorem Avoids.map (h : Avoids p x) (f : α → β) : Avoids p (x.map f) := by
  cases x with
  | error e => exact avoids_error (h e rfl)
  | ok a => exact avoids_ok (f a)

-- The outcome is an error of a certain kind.
def Raises (q : ε → Prop) (x : Except ε α) : Prop :=
  ∃ e, q e ∧ x = .error e

variable {q : ε → Prop}

theorem Raises.bind (h : Raises q x) (f : α → Except ε β) : Raises q (x.bind f) := by
  obtain ⟨e, he, rfl⟩ := h
  exact ⟨e, he, rfl⟩

theorem Raises.map (h : Raises q x) (f : α → β) : Raises q (x.map f) := by
  obtain ⟨e, he, rfl⟩ := h
  exact ⟨e, he, rfl⟩

section CutsOff

variable {σ τ : Type} {stopped : σ → Prop} {stopped' : τ → Prop}

-- The first result is the second one, unless it was stopped on the way.
def CutsOff (stopped : σ → Prop) (s s' : σ) : Prop :=
  s = s' ∨ stopped s

theorem CutsOff.refl (s : σ) : CutsOff stopped s s :=
  .inl rfl

theorem CutsOff.eq_of_not {s s' : σ} (h : CutsOff stopped s s') (hs : ¬stopped s) : s = s' :=
  h.resolve_right hs

theorem CutsOff.apply {s s' : σ} (h : CutsOff stopped s s') (f : σ → τ)
    (hf : stopped s → stopped' (f s)) : CutsOff stopped' (f s) (f s') :=
  h.imp (congrArg f) hf

-- Steps of which each is cut off at most make a run that is cut off at most.
theorem CutsOff.bind {f g : α → Except ε β} (h : CutsOff (Raises q) x y)
    (hnext : ∀ a, CutsOff (Raises q) (f a) (g a)) : CutsOff (Raises q) (x.bind f) (y.bind g) := by
  rcases h with rfl | hraises
  · cases x with
    | error e => exact .refl _
    | ok a => exact hnext a
  · exact .inr (hraises.bind f)

theorem CutsOff.map (h : CutsOff (Raises q) x y) (f : α → β) :
    CutsOff (Raises q) (x.map f) (y.map f) :=
  h.apply (Except.map f) fun hraises => hraises.map f

end CutsOff

theorem mapError_ok (f : ε → δ) (a : α) : (.ok a : Except ε α).mapError f = .ok a :=
  rfl

theorem mapError_error (f : ε → δ) (e : ε) :
    (.error e : Except ε α).mapError f = .error (f e) :=
  rfl

-- Two outcomes that are the same but for what is dropped from an error.
theorem mapError_eq_iff {f : ε → δ} :
    x.mapError f = y.mapError f ↔
      (∃ a, x = .ok a ∧ y = .ok a) ∨ ∃ c d, x = .error c ∧ y = .error d ∧ f c = f d := by
  cases x <;> cases y <;> simp [mapError_ok, mapError_error, eq_comm]

theorem bind_mapError_eq {f : ε → δ} {g g' : α → Except ε β} (h : x.mapError f = y.mapError f)
    (hnext : ∀ a, (g a).mapError f = (g' a).mapError f) :
    (x.bind g).mapError f = (y.bind g').mapError f := by
  obtain ⟨a, rfl, rfl⟩ | ⟨c, d, rfl, rfl, hcd⟩ := mapError_eq_iff.mp h
  · exact hnext a
  · exact congrArg Except.error hcd

theorem map_mapError_eq {f : ε → δ} (g : α → β) (h : x.mapError f = y.mapError f) :
    (x.map g).mapError f = (y.map g).mapError f := by
  obtain ⟨a, rfl, rfl⟩ | ⟨c, d, rfl, rfl, hcd⟩ := mapError_eq_iff.mp h
  · rfl
  · exact congrArg Except.error hcd

end FlowExpr.Outcome
