import Mathlib.Data.Finset.Card
import Mathlib.Logic.Relation

/-!
# Walking a chain, cutting cycles

A partial function `next : α → Option α` is followed from a starting point until
it ends or comes back to a point it has met. `chain next n seen (some a)` lists
the points met, `seen` being those met before; the fuel `n` bounds the walk.

With fuel for every point of a finite set that the walk cannot leave, the walk
meets exactly the points that can be reached (`mem_chain_iff`), so a cycle cut by
the walk loses nothing.
-/

namespace Walk

open Relation

variable {α : Type*} [DecidableEq α] (next : α → Option α)

/-- One link of the chain. -/
def Link (a b : α) : Prop := next a = some b

/-- The points met from a cursor on, stopping at a point already `seen`. -/
def chain : ℕ → List α → Option α → List α
  | 0, _, _ => []
  | _ + 1, _, none => []
  | n + 1, seen, some a => if a ∈ seen then [] else a :: chain n (a :: seen) (next a)

variable {next}

theorem reaches_of_mem_chain {n : ℕ} {seen : List α} {a b : α}
    (h : b ∈ chain next n seen (some a)) : ReflTransGen (Link next) a b := by
  induction n generalizing seen a with
  | zero => simp [chain] at h
  | succ n ih =>
    simp only [chain] at h
    split_ifs at h
    · simp at h
    rcases List.mem_cons.mp h with rfl | h
    · exact .refl
    · cases hn : next a with
      | none => rw [hn] at h; cases n <;> simp [chain] at h
      | some c => rw [hn] at h; exact .head hn (ih h)

theorem chain_nodup (n : ℕ) (seen : List α) (c : Option α) :
    (chain next n seen c).Nodup ∧ ∀ b ∈ chain next n seen c, b ∉ seen := by
  induction n generalizing seen c with
  | zero => simp [chain]
  | succ n ih =>
    cases c with
    | none => simp [chain]
    | some a =>
      simp only [chain]
      split_ifs with ha
      · simp
      obtain ⟨hnd, hns⟩ := ih (a :: seen) (next a)
      refine ⟨List.nodup_cons.mpr ⟨fun h => hns a h (List.mem_cons_self ..), hnd⟩, ?_⟩
      intro b hb
      rcases List.mem_cons.mp hb with rfl | hb
      · exact ha
      · exact fun h => hns b hb (List.mem_cons_of_mem _ h)

variable {U : Finset α}

/-- With fuel for the points of `U` not yet seen, the walk starts with its start. -/
theorem mem_chain_self {n : ℕ} {seen : List α} {a : α} (ha : a ∈ U) (hs : a ∉ seen)
    (hn : (U \ seen.toFinset).card ≤ n) : a ∈ chain next n seen (some a) := by
  cases n with
  | zero =>
    have : a ∈ U \ seen.toFinset := by simp [ha, hs]
    rw [Finset.card_eq_zero.mp (Nat.le_zero.mp hn)] at this
    simp at this
  | succ n => simp [chain, hs]

theorem card_after {seen : List α} {a : α} (ha : a ∈ U) (hs : a ∉ seen) :
    (U \ (a :: seen).toFinset).card + 1 = (U \ seen.toFinset).card := by
  have hmem : a ∈ U \ seen.toFinset := by simp [ha, hs]
  have heq : U \ (a :: seen).toFinset = (U \ seen.toFinset).erase a := by
    ext b
    simp only [List.toFinset_cons, Finset.mem_sdiff, Finset.mem_insert, Finset.mem_erase]
    tauto
  rw [heq, Finset.card_erase_add_one hmem]

/-- What the walk meets is closed under `next`, but for the points seen before it. -/
theorem next_mem_chain (hU : ∀ a ∈ U, ∀ b, next a = some b → b ∈ U) {n : ℕ} {seen : List α}
    {a : α} (ha : a ∈ U) (hn : (U \ seen.toFinset).card ≤ n) {b c : α}
    (hb : b ∈ chain next n seen (some a)) (hbc : next b = some c) :
    c ∈ chain next n seen (some a) ∨ c ∈ seen := by
  induction n generalizing seen a with
  | zero => simp [chain] at hb
  | succ n ih =>
    simp only [chain] at hb ⊢
    split_ifs at hb ⊢ with hs
    · simp at hb
    have hcard : (U \ (a :: seen).toFinset).card ≤ n := by have := card_after ha hs; omega
    rcases List.mem_cons.mp hb with rfl | hb
    · -- the start itself: what follows it begins the rest of the walk, unless it was seen
      by_cases hc : c ∈ b :: seen
      · rcases List.mem_cons.mp hc with rfl | hc
        · exact .inl (List.mem_cons_self ..)
        · exact .inr hc
      · rw [hbc]
        exact .inl (List.mem_cons_of_mem _ (mem_chain_self (hU _ ha _ hbc) hc hcard))
    · cases hna : next a with
      | none => rw [hna] at hb; cases n <;> simp [chain] at hb
      | some d =>
        rw [hna] at hb
        rcases ih (hU _ ha _ hna) hcard hb with h | h
        · exact .inl (List.mem_cons_of_mem _ h)
        · rcases List.mem_cons.mp h with rfl | h
          · exact .inl (List.mem_cons_self ..)
          · exact .inr h

/-- **The walk meets exactly what can be reached**, given fuel for every point of
a finite set it cannot leave. -/
theorem mem_chain_iff (hU : ∀ a ∈ U, ∀ b, next a = some b → b ∈ U) {n : ℕ} {a b : α}
    (ha : a ∈ U) (hn : U.card ≤ n) :
    b ∈ chain next n [] (some a) ↔ ReflTransGen (Link next) a b := by
  refine ⟨reaches_of_mem_chain, fun h => ?_⟩
  have hn' : (U \ ([] : List α).toFinset).card ≤ n := by simpa using hn
  induction h with
  | refl => exact mem_chain_self ha (by simp) hn'
  | tail _ hbc ih => simpa using next_mem_chain hU ha hn' ih hbc

end Walk
