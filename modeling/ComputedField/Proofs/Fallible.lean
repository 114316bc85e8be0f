/-!
# Steps that may fail

What is known of the parts of a computation when the whole of it has a result.
-/

namespace ComputedField

variable {ε α β : Type} {x : Except ε α}

theorem ok_of_bind {f : α → Except ε β} {b : β} (h : x >>= f = .ok b) :
    ∃ a, x = .ok a ∧ f a = .ok b := by
  cases x with
  | error e => cases h
  | ok a => exact ⟨a, rfl, h⟩

theorem bind_of_ok {f : α → Except ε β} {a : α} {y : Except ε β} (h : x = .ok a) (hf : f a = y) :
    x >>= f = y := by
  rw [h]
  exact hf

theorem ok_of_map {f : α → β} {b : β} (h : x.map f = .ok b) : ∃ a, x = .ok a ∧ f a = b := by
  cases x with
  | error e => cases h
  | ok a =>
    cases h
    exact ⟨a, rfl, rfl⟩

end ComputedField
