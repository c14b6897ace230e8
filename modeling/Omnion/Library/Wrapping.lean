import Mathlib.Algebra.BigOperators.Group.List.Basic
import Mathlib.Algebra.Ring.Int.Defs
import Mathlib.Data.Int.Notation

/-!
# Sums of machine integers

A sum that is taken modulo `2 * half` at every step, into the range from `-half` to `half`, is
the sum taken modulo `2 * half` once. It is a given number just when that number is in the range
and the exact sum is the number but for a multiple of `2 * half`.
-/

namespace Wrapping

variable {half : ℕ} {a b : ℤ} {l : List ℤ}

/-- The number in the range with the same remainder. -/
def wrap (half : ℕ) (n : ℤ) : ℤ := n.bmod (2 * half)

/-- The number is in the range. -/
def Fits (half : ℕ) (n : ℤ) : Prop := -half ≤ n ∧ n < half

theorem wrap_eq_iff (hhalf : 0 < half) : wrap half a = b ↔ Fits half b ∧ (2 * half : ℤ) ∣ a - b := by
  rw [wrap, Int.bmod_eq_iff (by omega), Fits]
  have hlow : ((2 * half : ℕ) : ℤ) / 2 = half := by omega
  have hhigh : (((2 * half : ℕ) : ℤ) + 1) / 2 = half := by omega
  rw [hlow, hhigh, and_assoc]
  push_cast
  rw [← Int.dvd_neg, Int.neg_sub]

theorem wrap_add_wrap : wrap half (wrap half a + b) = wrap half (a + b) := Int.bmod_add_bmod

theorem foldl_wrap {α : Type*} (half : ℕ) (f : α → ℤ) (l : List α) (a : ℤ) :
    l.foldl (fun sum x => wrap half (sum + f x)) (wrap half a) = wrap half (a + (l.map f).sum) := by
  induction l generalizing a with
  | nil => simp
  | cons x l ih => rw [List.foldl_cons, wrap_add_wrap, ih, List.map_cons, List.sum_cons, add_assoc]

end Wrapping
