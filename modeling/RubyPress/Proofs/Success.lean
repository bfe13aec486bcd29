import Mathlib.Tactic

/-!
# Steps that succeed

A computation of several steps succeeds if each of them does, and its result tells what each of them
gave.
-/

namespace RubyPress

variable {ε α β : Type} {result : Except ε α} {value : β}

theorem bind_eq_ok {next : α → Except ε β} :
    result >>= next = .ok value ↔ ∃ first, result = .ok first ∧ next first = .ok value := by
  cases result <;> simp [bind, Except.bind]

theorem map_eq_ok {f : α → β} :
    result.map f = .ok value ↔ ∃ first, result = .ok first ∧ f first = value := by
  cases result <;> simp [Except.map]

theorem functor_map_eq_ok {f : α → β} :
    f <$> result = .ok value ↔ ∃ first, result = .ok first ∧ f first = value :=
  map_eq_ok

/-- A result put behind another. -/
theorem bind_pair_eq_ok {first : β} {other : α} :
    (do return (first, ← result)) = .ok (value, other) ↔ first = value ∧ result = .ok other := by
  cases result <;> simp [bind, Except.bind, pure, Except.pure]

end RubyPress
