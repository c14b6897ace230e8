import Mathlib.Data.Nat.Notation

/-!
# Prefixes of words

The first bits of a word, the highest one first, and the words that mask them.

## What is proved

* `and_mask_eq_iff` — two words are the same under a mask just when they have the prefix in
  common.
* `and_mask_eq_self_iff` — a word is unchanged by a mask just when nothing stands after the
  prefix.
-/

namespace Prefixes

variable {width : ℕ} {x y : BitVec width} {n : ℕ}

/-- The first `n` bits of a word. -/
def mask (width n : ℕ) : BitVec width := BitVec.allOnes width <<< (width - n)

/-- The words begin with the same `n` bits. -/
def Share (n : ℕ) (x y : BitVec width) : Prop := ∀ i < n, x.getMsbD i = y.getMsbD i

instance (n : ℕ) (x y : BitVec width) : Decidable (Share n x y) :=
  inferInstanceAs (Decidable (∀ i < n, _))

/-- No bit after the first `n` is set. -/
def Network (n : ℕ) (x : BitVec width) : Prop := ∀ i, n ≤ i → x.getMsbD i = false

theorem getMsbD_mask (hn : n ≤ width) (i : ℕ) : (mask width n).getMsbD i = decide (i < n) := by
  rw [mask, BitVec.getMsbD_shiftLeft, BitVec.getMsbD_allOnes]
  exact decide_eq_decide.mpr (by omega)

/-- **The same under a mask.** -/
theorem and_mask_eq_iff (hn : n ≤ width) : x &&& mask width n = y &&& mask width n ↔ Share n x y := by
  constructor
  · intro h i hi
    have hbit := congrArg (·.getMsbD i) h
    simpa [getMsbD_mask hn, hi] using hbit
  · intro h
    refine BitVec.eq_of_getMsbD_eq fun i _ => ?_
    rw [BitVec.getMsbD_and, BitVec.getMsbD_and, getMsbD_mask hn]
    by_cases hi : i < n
    · rw [h i hi]
    · simp [hi]

/-- **Unchanged by a mask.** -/
theorem and_mask_eq_self_iff (hn : n ≤ width) : x &&& mask width n = x ↔ Network n x := by
  constructor
  · intro h i hi
    have hbit := congrArg (·.getMsbD i) h
    simpa [getMsbD_mask hn, Nat.not_lt.mpr hi] using hbit.symm
  · intro h
    refine BitVec.eq_of_getMsbD_eq fun i _ => ?_
    rw [BitVec.getMsbD_and, getMsbD_mask hn]
    by_cases hi : i < n
    · simp [hi]
    · simp [hi, h i (Nat.le_of_not_lt hi)]

theorem network_width (x : BitVec width) : Network width x := fun i hi => BitVec.getMsbD_of_ge x i hi

theorem network_zero : Network 0 x ↔ x = 0 := by
  constructor
  · exact fun h => BitVec.eq_of_getMsbD_eq fun i _ => by simp [h i (Nat.zero_le i)]
  · rintro rfl i -
    simp

end Prefixes
