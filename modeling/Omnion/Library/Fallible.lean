import Mathlib.Tactic.TypeStar

/-!
# Computations that may fail

What is known of the parts of a computation that has answered.
-/

namespace Fallible

universe v

variable {ε : Type*} {α β : Type v} {x : Except ε α} {f : α → Except ε β} {b : β}

theorem bind_eq_ok : (x >>= f) = .ok b ↔ ∃ a, x = .ok a ∧ f a = .ok b := by
  cases x <;> simp [bind, Except.bind]

theorem map_eq_ok {g : α → β} : x.map g = .ok b ↔ ∃ a, x = .ok a ∧ g a = b := by
  cases x <;> simp [Except.map]

theorem check_bind_eq_ok {β : Type} {check : Except ε Unit} {y : Except ε β} {b : β} :
    (check >>= fun _ => y) = .ok b ↔ check = .ok () ∧ y = .ok b := by
  rw [bind_eq_ok]
  exact ⟨fun ⟨_, hcheck, hy⟩ => ⟨hcheck, hy⟩, fun h => ⟨(), h⟩⟩

end Fallible
