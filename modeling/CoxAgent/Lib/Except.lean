import Mathlib.Logic.Basic

-- When computations that may fail succeed.
namespace Except

variable {ε ε' α β : Type} {x : Except ε α}

theorem bind_eq_ok {f : α → Except ε β} {b : β} :
    (x >>= f) = .ok b ↔ ∃ a, x = .ok a ∧ f a = .ok b := by
  cases x <;> simp [bind, Except.bind]

theorem map_eq_ok {f : α → β} {b : β} : x.map f = .ok b ↔ ∃ a, x = .ok a ∧ f a = b := by
  cases x <;> simp [Except.map]

theorem mapError_eq_ok {f : ε → ε'} {a : α} : x.mapError f = .ok a ↔ x = .ok a := by
  cases x
  case error => constructor <;> intro h <;> cases h
  case ok    => constructor <;> intro h <;> cases h <;> rfl

-- Both fail with the same error, or the results are related.
inductive Rel (R : α → β → Prop) : Except ε α → Except ε β → Prop
  | ok {a b} : R a b → Rel R (.ok a) (.ok b)
  | error (e) : Rel R (.error e) (.error e)

end Except
