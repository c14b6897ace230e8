import Mathlib.Data.Int.Notation
import Mathlib.Data.Nat.Notation
import Mathlib.Logic.Function.Basic

/-!
# Counters with a life

A store of counters by key. An increment makes a counter that is not there and gives it its
life; it does not prolong the life of one that is. A counter that nobody increments after its
deadline has counted every increment of its key.
-/

namespace Counters

variable {κ : Type*} [DecidableEq κ]

structure Counter where
  count : ℕ
  /-- The last instant at which it is there. -/
  expiresAt : ℤ

/-- The counters by key. -/
abbrev Store (κ : Type*) := κ → Option Counter

/-- The counter that is there for a key. -/
def live (store : Store κ) (key : κ) (now : ℤ) : Option Counter :=
  (store key).filter fun counter => now ≤ counter.expiresAt

/-- Increment the counter of a key; the new count comes back. -/
def increment (store : Store κ) (key : κ) (lifetime now : ℤ) : ℕ × Store κ :=
  match live store key now with
  | none => (1, Function.update store key (some { count := 1, expiresAt := now + lifetime }))
  | some counter => (counter.count + 1, Function.update store key (some { counter with count := counter.count + 1 }))

/-- The counter of a key stands at a number, and stays there until the deadline. -/
inductive Stands (store : Store κ) (key : κ) (deadline : ℤ) : ℕ → Prop where
  | absent : store key = none → Stands store key deadline 0
  /-- The counter outlives the deadline. -/
  | present {counter : Counter} : store key = some counter → deadline ≤ counter.expiresAt →
      Stands store key deadline counter.count

variable {store : Store κ} {key other : κ} {deadline lifetime now : ℤ} {n : ℕ}

theorem Stands.increment (h : Stands store key deadline n) (hnow : now ≤ deadline) (hlife : deadline ≤ now + lifetime) :
    (Counters.increment store key lifetime now).1 = n + 1 ∧
      Stands (Counters.increment store key lifetime now).2 key deadline (n + 1) := by
  cases h with
  | absent hnone =>
    have hlive : live store key now = none := by simp [live, hnone]
    rw [Counters.increment, hlive]
    have hnew : Stands (Function.update store key (some ⟨1, now + lifetime⟩)) key deadline 1 :=
      .present (Function.update_self ..) hlife
    exact ⟨rfl, hnew⟩
  | @present counter hsome hstays =>
    have hlive : live store key now = some counter := by
      rw [live, hsome, Option.filter_some, if_pos]
      exact decide_eq_true (Int.le_trans hnow hstays)
    rw [Counters.increment, hlive]
    have hmore : Stands (Function.update store key (some { counter with count := counter.count + 1 })) key deadline
        (counter.count + 1) := .present (Function.update_self ..) hstays
    exact ⟨rfl, hmore⟩

theorem Stands.increment_of_ne (h : Stands store key deadline n) (hne : key ≠ other) :
    Stands (Counters.increment store other lifetime now).2 key deadline n := by
  have hkey : (Counters.increment store other lifetime now).2 key = store key := by
    rw [Counters.increment]
    split
    · exact Function.update_of_ne hne _ _
    · exact Function.update_of_ne hne _ _
  cases h with
  | absent hnone => exact .absent (hkey.trans hnone)
  | present hsome hstays => exact .present (hkey.trans hsome) hstays

end Counters
