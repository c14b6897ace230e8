import Mathlib.Data.Int.Notation
import Mathlib.Data.Nat.Notation
import Omnion.Library.Fallible

/-!
# Checked arithmetic

Computations on 64-bit integers and on words that may refuse their input, and that stop where a
result does not fit: there a build with overflow checks panics, and one without them goes on with
another number.
-/

namespace Checked

universe u

/-- Why a computation stops. -/
inductive Halt (ε : Type u) where
  | refused (e : ε)
  | overflow
  deriving DecidableEq

variable {ε : Type u} {α β : Type} {x : Except (Halt ε) α} {f : α → Except (Halt ε) β} {e : ε} {p : Prop} [Decidable p]
  {n m : ℤ}

/-- `i64::MIN`. -/
def i64Min : ℤ := -0x8000000000000000

/-- `i64::MAX`. -/
def i64Max : ℤ := 0x7fffffffffffffff

/-- The number is an `i64`. -/
def FitsI64 (n : ℤ) : Prop := i64Min ≤ n ∧ n ≤ i64Max

instance (n : ℤ) : Decidable (FitsI64 n) := inferInstanceAs (Decidable (_ ∧ _))

/-- A result that is to be an `i64`. -/
def i64 (n : ℤ) : Except (Halt ε) ℤ := if FitsI64 n then .ok n else .error .overflow

/-- A condition on the input. -/
def ensure (p : Prop) [Decidable p] (e : ε) : Except (Halt ε) Unit := if p then .ok () else .error (.refused e)

/-- A difference that is not to be negative. -/
def sub (n m : ℕ) : Except (Halt ε) ℕ := if m ≤ n then .ok (n - m) else .error .overflow

/-- A word shifted to the left, by less than its width. -/
def shiftLeft {width : ℕ} (x : BitVec width) (n : ℕ) : Except (Halt ε) (BitVec width) :=
  if n < width then .ok (x <<< n) else .error .overflow

@[simp] theorem i64_eq_ok : (i64 n : Except (Halt ε) ℤ) = .ok m ↔ FitsI64 n ∧ n = m := by
  rw [i64]
  split <;> simp [*]

@[simp] theorem i64_eq_overflow : (i64 n : Except (Halt ε) ℤ) = .error .overflow ↔ ¬ FitsI64 n := by
  rw [i64]
  split <;> simp [*]

@[simp] theorem ensure_eq_ok : ensure p e = .ok () ↔ p := by
  rw [ensure]
  split <;> simp [*]

@[simp] theorem ensure_ne_overflow : ensure p e ≠ .error .overflow := by
  rw [ensure]
  split <;> simp

theorem sub_of_le {n m : ℕ} (h : m ≤ n) : (sub n m : Except (Halt ε) ℕ) = .ok (n - m) := if_pos h

theorem bind_eq_overflow :
    (x >>= f) = .error .overflow ↔ x = .error .overflow ∨ ∃ a, x = .ok a ∧ f a = .error .overflow := by
  cases x <;> simp [bind, Except.bind]

/-! ### Checks, one after the other -/

variable {check : Except (Halt ε) Unit} {y : Except (Halt ε) β}

theorem check_bind_eq_overflow :
    (check >>= fun _ => y) = .error .overflow ↔ check = .error .overflow ∨ check = .ok () ∧ y = .error .overflow := by
  cases check <;> simp [bind, Except.bind]

end Checked
