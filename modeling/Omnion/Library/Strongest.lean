import Mathlib.Data.List.Basic
import Mathlib.Order.Lattice

/-!
# Keeping the strongest entry

An accumulator holds at most one entry. A new entry replaces it only when it is
strictly stronger, strength being a rank in a linear order (`keep`, and `pick`
over a list). On a tie the entry that came first stays, so the entry kept depends
on the order of the list, but its rank does not (`rank_pick_eq`): two lists with
the same members keep entries of the same rank, however they order and repeat
them.
-/

namespace Strongest

variable {α κ : Type*} [LinearOrder κ] (rank : α → κ)

/-- Keep the stronger of the entry held and the candidate. -/
def keep : Option α → α → Option α
  | none, a => some a
  | some b, a => if rank b < rank a then some a else some b

/-- The entry held after a list of candidates. -/
def pick (l : List α) : Option α := l.foldl (keep rank) none

/-- What `keep` leaves: one of the two, and nothing stronger than it. -/
theorem keep_some (b a : α) :
    ∃ c, keep rank (some b) a = some c ∧ (c = a ∨ c = b) ∧ rank b ≤ rank c ∧ rank a ≤ rank c := by
  simp only [keep]
  split_ifs with h
  · exact ⟨a, rfl, .inl rfl, h.le, le_rfl⟩
  · exact ⟨b, rfl, .inr rfl, le_rfl, not_lt.mp h⟩

theorem foldl_keep_some (l : List α) (b : α) :
    ∃ c, l.foldl (keep rank) (some b) = some c ∧ (c ∈ l ∨ c = b) ∧ rank b ≤ rank c ∧
      ∀ a ∈ l, rank a ≤ rank c := by
  induction l generalizing b with
  | nil => exact ⟨b, rfl, .inr rfl, le_rfl, by simp⟩
  | cons a l ih =>
    obtain ⟨c, hc, hcm, hbc, hac⟩ := keep_some rank b a
    obtain ⟨d, hd, hdm, hcd, hl⟩ := ih c
    refine ⟨d, by rw [List.foldl_cons, hc, hd], ?_, hbc.trans hcd, ?_⟩
    · rcases hdm with h | rfl
      · exact .inl (List.mem_cons_of_mem _ h)
      · exact hcm.imp (fun h => by simp [h]) id
    · intro x hx
      rcases List.mem_cons.mp hx with rfl | hx
      · exact hac.trans hcd
      · exact hl x hx

theorem pick_eq_none {l : List α} : pick rank l = none ↔ l = [] := by
  cases l with
  | nil => simp [pick]
  | cons a l =>
    obtain ⟨c, hc, -⟩ := foldl_keep_some rank l a
    simp [pick, keep, hc]

theorem of_pick_eq_some {l : List α} {c : α} (h : pick rank l = some c) :
    c ∈ l ∧ ∀ a ∈ l, rank a ≤ rank c := by
  cases l with
  | nil => simp [pick] at h
  | cons b l =>
    obtain ⟨d, hd, hdm, hbd, hl⟩ := foldl_keep_some rank l b
    have hcd : d = c := Option.some.inj (hd.symm.trans h)
    subst hcd
    refine ⟨by rcases hdm with h | rfl <;> simp [*], fun a ha => ?_⟩
    rcases List.mem_cons.mp ha with rfl | ha
    · exact hbd
    · exact hl a ha

/-- **Order and repetition do not matter**: lists with the same members keep
entries of the same rank. -/
theorem rank_pick_eq {l l' : List α} (h : ∀ a, a ∈ l ↔ a ∈ l') :
    (pick rank l).map rank = (pick rank l').map rank := by
  cases hl : pick rank l with
  | none =>
    obtain rfl := (pick_eq_none rank).mp hl
    have : l' = [] := List.eq_nil_iff_forall_not_mem.mpr fun a ha => by simpa using (h a).mpr ha
    simp [this, pick]
  | some c =>
    cases hl' : pick rank l' with
    | none =>
      obtain rfl := (pick_eq_none rank).mp hl'
      exact absurd ((h c).mp (of_pick_eq_some rank hl).1) (by simp)
    | some c' =>
      obtain ⟨hc, hmax⟩ := of_pick_eq_some rank hl
      obtain ⟨hc', hmax'⟩ := of_pick_eq_some rank hl'
      exact congrArg some (le_antisymm (hmax' c ((h c).mp hc)) (hmax c' ((h c').mpr hc')))

end Strongest
