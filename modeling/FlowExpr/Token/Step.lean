import FlowExpr.Outcome
import FlowExpr.Text.Cursor
import FlowExpr.Token.Fault

namespace FlowExpr.Token

open Text (Cursor)

-- One reading step: what was read, or why nothing was, and the place that it ended at. A failed
-- step has a place too, so that reading can go on from there.
structure Step (α : Type) where
  result : Except LexError α
  after : Cursor

namespace Step

variable {α β : Type}

def map (f : α → β) (s : Step α) : Step β :=
  ⟨s.result.map f, s.after⟩

theorem exists_of_map_ok {f : α → β} {s : Step α} {b : β} {after : Cursor}
    (h : s.map f = ⟨.ok b, after⟩) : ∃ a, s = ⟨.ok a, after⟩ ∧ f a = b := by
  obtain ⟨result, place⟩ := s
  obtain ⟨hresult, rfl⟩ := mk.inj h
  obtain ⟨a, rfl, hb⟩ := Outcome.map_eq_ok_iff.mp hresult
  exact ⟨a, rfl, hb⟩

end Step

def fail {α : Type} (fault : Fault) (position : Nat) (after : Cursor) : Step α :=
  ⟨.error ⟨fault, some position⟩, after⟩

end FlowExpr.Token
