import Mathlib.Algebra.Order.BigOperators.Group.Finset
import Mathlib.Data.Set.Card
import Mathlib.Logic.Function.Basic
import Mathlib.Logic.Relation

/-!
# Parent links

A partial function `parent : α → Option α`, read as links from a node to the one
above it. `climb parent k a` is the node `k` links above `a`.

A node is within height `n` when it has no more than `n` links above it; all
nodes being so says that the links are acyclic and that nobody has more than `n`
ancestors (`within_iff`). Hanging a node below a new parent keeps that bound just
when no path from a descendant through the moved node up the new chain exceeds it
(`within_update_iff`).
-/

namespace Forest

open Relation

variable {α : Type*} (parent : α → Option α)

/-- The node `k` links above `a`. -/
def climb : ℕ → α → Option α
  | 0, a => some a
  | k + 1, a => (parent a).bind (climb k)

/-- `b` is an ancestor of `a`. -/
def Above (a b : α) : Prop := TransGen (fun x y => parent x = some y) a b

/-- No more than `n` links lead up from `a`. -/
def Within (n : ℕ) (a : α) : Prop := climb parent (n + 1) a = none

variable {parent}

theorem climb_add (m n : ℕ) (a : α) :
    climb parent (m + n) a = (climb parent m a).bind (climb parent n) := by
  induction m generalizing a with
  | zero => rw [Nat.zero_add]; rfl
  | succ m ih =>
    rw [Nat.add_right_comm]
    simp only [climb]
    cases parent a with
    | none => rfl
    | some b => exact ih b

theorem climb_eq_none_mono {m n : ℕ} {a : α} (h : climb parent m a = none) (hmn : m ≤ n) :
    climb parent n a = none := by
  obtain ⟨k, rfl⟩ := Nat.exists_eq_add_of_le hmn
  rw [climb_add, h]
  rfl

/-- Who has a node `k` links above is not within height `n < k`. -/
theorem Within.lt_of_climb {n k : ℕ} {a b : α} (h : Within parent n a)
    (hb : climb parent k a = some b) :
    k < n + 1 := by
  by_contra hk
  rw [climb_eq_none_mono h (Nat.le_of_not_lt hk)] at hb
  exact absurd hb (by simp)

/-- An ancestor is some number of links above. -/
theorem above_iff {a b : α} : Above parent a b ↔ ∃ k, climb parent (k + 1) a = some b := by
  constructor
  · intro h
    induction h with
    | single h => exact ⟨0, by rw [climb, h]; rfl⟩
    | tail _ hbc ih =>
      obtain ⟨k, hk⟩ := ih
      refine ⟨k + 1, ?_⟩
      rw [climb_add (k + 1) 1, hk, Option.bind_some, climb, hbc]
      rfl
  · rintro ⟨k, hk⟩
    induction k generalizing a with
    | zero =>
      rw [climb] at hk
      obtain ⟨c, hc, hcb⟩ := Option.bind_eq_some_iff.mp hk
      cases hcb
      exact .single hc
    | succ k ih =>
      rw [climb] at hk
      obtain ⟨c, hc, hcb⟩ := Option.bind_eq_some_iff.mp hk
      exact .head hc (ih hcb)

theorem climb_inj (hacyc : ∀ b, ¬ Above parent b b) {a b : α} {i j : ℕ} (hi : climb parent i a = some b)
    (hj : climb parent j a = some b) : i = j := by
  have key : ∀ i j, i < j → climb parent i a = some b → climb parent j a = some b → False := by
    intro i j hij hi hj
    obtain ⟨k, rfl⟩ := Nat.exists_eq_add_of_lt hij
    rw [Nat.add_assoc, climb_add, hi] at hj
    exact hacyc b (above_iff.mpr ⟨k, hj⟩)
  rcases Nat.lt_trichotomy i j with h | h | h
  · exact (key i j h hi hj).elim
  · exact h
  · exact (key j i h hj hi).elim

theorem acyclic_of_bounded {n : ℕ} {a : α} (h : ∀ k, climb parent k a = some a → k ≤ n) : ¬ Above parent a a := by
  intro hc
  obtain ⟨k, hk⟩ := above_iff.mp hc
  have hround : ∀ m, climb parent (m * (k + 1)) a = some a := by
    intro m
    induction m with
    | zero => rw [Nat.zero_mul]; rfl
    | succ m ih => rw [Nat.succ_mul, climb_add, ih, Option.bind_some, hk]
  have hle := h _ (hround (n + 1))
  have : n + 1 ≤ (n + 1) * (k + 1) := Nat.le_mul_of_pos_right _ (by omega)
  omega

theorem Within.acyclic {n : ℕ} {a : α} (h : Within parent n a) : ¬ Above parent a a :=
  acyclic_of_bounded fun _ hk => Nat.le_of_lt_succ (h.lt_of_climb hk)

/-! ### Nodes below others -/

theorem climb_snoc {k : ℕ} {d c a : α} (h : climb parent k d = some c) (hc : parent c = some a) :
    climb parent (k + 1) d = some a := by
  rw [climb_add k 1, h, Option.bind_some, climb, hc]
  rfl

/-- Neither of two nodes is above the other, nor are they the same. -/
def Apart (parent : α → Option α) (a b : α) : Prop :=
  (∀ k, climb parent k a ≠ some b) ∧ ∀ k, climb parent k b ≠ some a

theorem Apart.symm {a b : α} (h : Apart parent a b) : Apart parent b a := ⟨h.2, h.1⟩

theorem Apart.child {a b c : α} (h : Apart parent a b) (hc : parent c = some a) : Apart parent c b := by
  constructor
  · intro k hk
    cases k with
    | zero =>
      obtain rfl := Option.some.inj hk
      exact h.2 1 (climb_snoc rfl hc)
    | succ k =>
      rw [climb, hc] at hk
      exact h.1 k hk
  · exact fun k hk => h.2 (k + 1) (climb_snoc hk hc)

theorem apart_of_children {a b c : α} (hacyc : ¬ Above parent a a) (hb : parent b = some a) (hc : parent c = some a)
    (hne : b ≠ c) : Apart parent b c := by
  have key : ∀ {b c : α}, parent b = some a → parent c = some a → b ≠ c → ∀ k, climb parent k b ≠ some c := by
    intro b c hb hc hne k hk
    cases k with
    | zero => exact hne (Option.some.inj hk)
    | succ k =>
      rw [climb, hb] at hk
      exact hacyc (above_iff.mpr ⟨k, climb_snoc hk hc⟩)
  exact ⟨key hb hc hne, key hc hb hne.symm⟩

/-- A bounded climb meets no more than `n` ancestors. -/
theorem Within.encard_le {n : ℕ} {a : α} (h : Within parent n a) :
    {b | Above parent a b}.encard ≤ n := by
  classical
  let met : Finset α := (Finset.range n).biUnion fun k => (climb parent (k + 1) a).toFinset
  have hsub : {b | Above parent a b} ⊆ (met : Set α) := by
    intro b hb
    obtain ⟨k, hk⟩ := above_iff.mp hb
    have hlt := h.lt_of_climb hk
    simp only [met, Finset.coe_biUnion, Set.mem_iUnion]
    exact ⟨k, by simp; omega, by simp [hk]⟩
  apply (Set.encard_le_encard hsub).trans
  rw [Set.encard_coe_eq_coe_finsetCard]
  have hcard : met.card ≤ (Finset.range n).card * 1 :=
    Finset.card_biUnion_le_card_mul _ _ 1 fun k _ => by cases climb parent (k + 1) a <;> simp
  rw [Finset.card_range, Nat.mul_one] at hcard
  exact_mod_cast hcard

/-- **All nodes are within height `n`** just when the links are acyclic and nobody
has more than `n` ancestors. -/
theorem within_iff {n : ℕ} :
    (∀ a, Within parent n a) ↔
      ∀ a, ¬ Above parent a a ∧ {b | Above parent a b}.encard ≤ n := by
  refine ⟨fun h a => ⟨(h a).acyclic, (h a).encard_le⟩, fun h a => ?_⟩
  by_contra hne
  -- the `n + 1` nodes met on the way up are distinct ancestors
  have hall : ∀ k, k < n + 1 → ∃ b, climb parent (k + 1) a = some b := by
    intro k hk
    refine Option.ne_none_iff_exists'.mp fun hn => hne ?_
    exact climb_eq_none_mono hn (by omega)
  have : Nonempty α := ⟨a⟩
  choose! f hf using hall
  have hinj : Set.InjOn f (Finset.range (n + 1)) := by
    intro i hi j hj hij
    have hi := hf i (by simpa using hi)
    have hj := hf j (by simpa using hj)
    rw [← hij] at hj
    have := climb_inj (fun b => (h b).1) hi hj
    omega
  have hsub : f '' (Finset.range (n + 1)) ⊆ {b | Above parent a b} := by
    rintro _ ⟨k, hk, rfl⟩
    exact above_iff.mpr ⟨k, hf k (by simpa using hk)⟩
  have hle := (Set.encard_le_encard hsub).trans (h a).2
  rw [hinj.encard_image, Set.encard_coe_eq_coe_finsetCard, Finset.card_range] at hle
  have : n + 1 ≤ n := by exact_mod_cast hle
  omega

/-! ### Hanging a node below a new parent -/

section Update

variable [DecidableEq α] {x : α} {q : Option α}

theorem climb_update_of_avoids {d : α} (h : ∀ k, climb parent k d ≠ some x) (k : ℕ) :
    climb (Function.update parent x q) k d = climb parent k d := by
  induction k generalizing d with
  | zero => rfl
  | succ k ih =>
    have hd : d ≠ x := fun he => h 0 (by rw [he]; rfl)
    rw [climb, climb, Function.update_of_ne hd]
    cases hp : parent d with
    | none => rfl
    | some e =>
      refine ih fun j hj => h (j + 1) ?_
      rw [climb, hp]
      exact hj

theorem climb_update_of_meets {d : α} {k : ℕ} (hk : climb parent k d = some x)
    (hfirst : ∀ i < k, climb parent i d ≠ some x) (j : ℕ) :
    climb (Function.update parent x q) (k + 1 + j) d =
      q.bind (climb (Function.update parent x q) j) := by
  induction k generalizing d with
  | zero =>
    cases hk
    rw [Nat.zero_add, Nat.add_comm, climb, Function.update_self]
  | succ k ih =>
    have hd : d ≠ x := fun he => hfirst 0 (by omega) (by rw [he]; rfl)
    rw [climb] at hk
    obtain ⟨e, he, hek⟩ := Option.bind_eq_some_iff.mp hk
    rw [show k + 1 + 1 + j = (k + 1 + j) + 1 by omega, climb, Function.update_of_ne hd, he,
      Option.bind_some]
    refine ih hek fun i hi hix => hfirst (i + 1) (by omega) ?_
    rw [climb, he]
    exact hix

/-- **When a move keeps the bound**: the moved node being nowhere above its new
parent, every node stays within height `n` just when the way from a node below it,
through it and up the new chain is never longer than `n`. -/
theorem within_update_iff {n : ℕ} (hall : ∀ a, Within parent n a)
    (havoid : ∀ p ∈ q, ∀ k, climb parent k p ≠ some x) :
    (∀ d, Within (Function.update parent x q) n d) ↔
      ∀ p ∈ q, ∀ d k j, climb parent k d = some x → climb parent j p ≠ none → k + 1 + j ≤ n := by
  have hacyc : ∀ a, ¬ Above parent a a := fun a => (hall a).acyclic
  have hnew : ∀ {d k}, climb parent k d = some x → ∀ j,
      climb (Function.update parent x q) (k + 1 + j) d = q.bind (climb parent j) := by
    intro d k hk j
    rw [climb_update_of_meets hk fun i hi hix => absurd (climb_inj hacyc hix hk) (by omega)]
    cases q with
    | none => rfl
    | some p => exact climb_update_of_avoids (havoid p rfl) j
  constructor
  · intro h p hp d k j hk hj
    obtain ⟨b, hb⟩ := Option.ne_none_iff_exists'.mp hj
    have hclimb := (hnew hk j).trans (by rw [Option.mem_def.mp hp, Option.bind_some, hb])
    have := (h d).lt_of_climb hclimb
    omega
  · intro h d
    by_cases hmeets : ∃ k, climb parent k d = some x
    · obtain ⟨k, hk⟩ := hmeets
      have hkn := (hall d).lt_of_climb hk
      obtain ⟨j, hj⟩ := Nat.exists_eq_add_of_le (show k + 1 ≤ n + 1 by omega)
      rw [Within, hj, hnew hk]
      cases hq : q with
      | none => rfl
      | some p =>
        by_contra hne
        have := h p hq d k j hk hne
        omega
    · rw [Within, climb_update_of_avoids fun k hk => hmeets ⟨k, hk⟩]
      exact hall d

end Update

end Forest
