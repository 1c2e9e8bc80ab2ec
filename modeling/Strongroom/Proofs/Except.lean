import Mathlib

/-! When an outcome that was made from others is a value, and what the others were then; and
outcomes that agree but for what the values are. -/

namespace Except

variable {ε α β : Type}

theorem map_eq_ok {f : α → β} {x : Except ε α} {b : β} :
    x.map f = .ok b ↔ ∃ a, x = .ok a ∧ f a = b := by
  cases x <;> simp [Except.map]

theorem map_eq_error {f : α → β} {x : Except ε α} {e : ε} :
    x.map f = .error e ↔ x = .error e := by
  cases x <;> simp [Except.map]

theorem bind_eq_ok {f : α → Except ε β} {x : Except ε α} {b : β} :
    x.bind f = .ok b ↔ ∃ a, x = .ok a ∧ f a = .ok b := by
  cases x <;> simp [Except.bind]

theorem bind_eq_error {f : α → Except ε β} {x : Except ε α} {e : ε} :
    x.bind f = .error e ↔ x = .error e ∨ ∃ a, x = .ok a ∧ f a = .error e := by
  cases x <;> simp [Except.bind]

inductive Parallel (R : α → α → Prop) : Except ε α → Except ε α → Prop
  | error (fault : ε) : Parallel R (.error fault) (.error fault)
  | ok {a a' : α} (h : R a a') : Parallel R (.ok a) (.ok a')

theorem Parallel.refl {R : α → α → Prop} (hR : ∀ a, R a a) (x : Except ε α) : Parallel R x x := by
  cases x with
  | error fault => exact .error fault
  | ok a => exact .ok (hR a)

theorem Parallel.bind_same {R : α → α → Prop} {x : Except ε β} {f f' : β → Except ε α}
    (h : ∀ b, Parallel R (f b) (f' b)) : Parallel R (x >>= f) (x >>= f') := by
  cases x with
  | error fault => exact .error fault
  | ok b => exact h b

end Except
