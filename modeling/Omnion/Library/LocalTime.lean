import Mathlib.Data.Int.LeastGreatest

/-!
# Clocks with an offset

A clock shows at instant `t` the reading `t + offset t`. Where the offset falls the
clock is put back, and readings come twice; where it rises the clock is put forward, and
readings are skipped. `Denotes offset reading x` says which instant a reading stands
for: the first at which the clock shows it, and when it never does, the instant it would
be with the offset in force before the clock passed it.

## What is proved

* `Denotes.unique` — a reading stands for one instant.
-/

namespace LocalTime

variable {offset : ℤ → ℤ} {reading x y : ℤ}

/-- What the clock shows at an instant. -/
def clock (offset : ℤ → ℤ) (t : ℤ) : ℤ := t + offset t

/-- The instant a reading stands for. -/
inductive Denotes (offset : ℤ → ℤ) (reading : ℤ) : ℤ → Prop where
  /-- The clock shows it, at `t` for the first time. -/
  | read {t : ℤ} : clock offset t = reading → (∀ u, clock offset u = reading → t ≤ u) →
      Denotes offset reading t
  /-- The clock never shows it, and passes it at `t`. -/
  | skipped {t : ℤ} : (∀ u, clock offset u ≠ reading) → reading < clock offset t →
      (∀ u, u < t → clock offset u < reading) → Denotes offset reading (reading - offset (t - 1))

theorem Denotes.unique (hx : Denotes offset reading x) (hy : Denotes offset reading y) : x = y := by
  cases hx with
  | read ht hfirst =>
    cases hy with
    | read hu hfirst' => exact le_antisymm (hfirst _ hu) (hfirst' _ ht)
    | skipped hnever hpast hbefore => exact absurd ht (hnever _)
  | @skipped t hnever hpast hbefore =>
    cases hy with
    | read hu hfirst' => exact absurd hu (hnever _)
    | @skipped u hnever' hpast' hbefore' =>
      have htu : ¬ t < u := fun h => lt_asymm hpast (hbefore' t h)
      have hut : ¬ u < t := fun h => lt_asymm hpast' (hbefore u h)
      rw [show t = u by omega]

theorem Denotes.exists_offset (h : Denotes offset reading x) : ∃ u, x = reading - offset u := by
  cases h with
  | read ht hfirst => exact ⟨x, by unfold clock at ht; omega⟩
  | skipped hnever hpast hbefore => exact ⟨_, rfl⟩

end LocalTime
