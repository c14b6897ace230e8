import Mathlib.Data.List.Count
import Omnion.Library.Sorting

/-!
# Reading a log by a cursor

Items have keys in a linear order. A reader keeps a cursor: it takes the next items
above the cursor in the order of their keys, handles them, and moves the cursor to the
last of them. `Exact visible cursor handled` says that the items handled are the visible
ones up to the cursor, each once. Moving the cursor keeps it, and so do items that come
into sight above the cursor; an item that comes into sight below it is never handled.
-/

namespace Cursor

open Sorting

variable {α κ : Type*} [LinearOrder κ] {key : α → κ} {cursor last k : κ} {batch : ℕ} {l : List α} {a b : α}

/-! ### Taking the next items -/

/-- The next items above the cursor, at most `batch` of them. -/
def next (key : α → κ) (cursor : κ) (batch : ℕ) (l : List α) : List α :=
  (sortBy key (l.filter fun a => cursor < key a)).take batch

theorem mem_of_mem_next (h : a ∈ next key cursor batch l) : a ∈ l ∧ cursor < key a := by
  simpa using mem_sortBy.mp (List.mem_of_mem_take h)

theorem pairwise_next : (next key cursor batch l).Pairwise fun a b => key a ≤ key b :=
  (pairwise_sortBy key _).sublist (List.take_sublist _ _)

theorem nodup_next (h : (l.map key).Nodup) : ((next key cursor batch l).map key).Nodup := by
  have hsorted := ((sortBy_perm key (l.filter fun a => cursor < key a)).map key).nodup_iff.mpr
    (h.sublist (List.filter_sublist.map key))
  exact hsorted.sublist ((List.take_sublist _ _).map key)

theorem mem_next_of_le (hinj : ∀ a ∈ l, ∀ b ∈ l, key a = key b → a = b)
    (hb : b ∈ next key cursor batch l)
    (ha : a ∈ l) (hcursor : cursor < key a) (hle : key a ≤ key b) : a ∈ next key cursor batch l := by
  have hsorted : a ∈ sortBy key (l.filter fun a => cursor < key a) :=
    mem_sortBy.mpr (List.mem_filter.mpr ⟨ha, decide_eq_true hcursor⟩)
  have hpairwise := pairwise_sortBy key (l.filter fun a => cursor < key a)
  rw [← List.take_append_drop batch (sortBy key _)] at hsorted hpairwise
  rcases List.mem_append.mp hsorted with htake | hdrop
  · exact htake
  · -- what is left is not less than what was taken
    have hge := (List.pairwise_append.mp hpairwise).2.2 b hb a hdrop
    obtain rfl := hinj a ha b (mem_of_mem_next hb).1 (le_antisymm hle hge)
    exact hb

/-- **What is taken** are the items above the cursor up to the last one taken. -/
theorem mem_next_iff (hinj : ∀ a ∈ l, ∀ b ∈ l, key a = key b → a = b)
    (hlast : (next key cursor batch l).getLast? = some b) :
    a ∈ next key cursor batch l ↔ a ∈ l ∧ cursor < key a ∧ key a ≤ key b := by
  have hb := List.mem_of_getLast? hlast
  constructor
  · intro ha
    obtain ⟨hmem, hcursor⟩ := mem_of_mem_next ha
    refine ⟨hmem, hcursor, ?_⟩
    obtain ⟨rest, hrest⟩ := List.getLast?_eq_some_iff.mp hlast
    have hpairwise : (next key cursor batch l).Pairwise fun a b => key a ≤ key b := pairwise_next
    rw [hrest] at ha hpairwise
    rcases List.mem_append.mp ha with ha | ha
    · exact (List.pairwise_append.mp hpairwise).2.2 a ha b (List.mem_singleton_self b)
    · rw [List.mem_singleton.mp ha]
  · rintro ⟨hmem, hcursor, hle⟩
    exact mem_next_of_le hinj hb hmem hcursor hle

theorem next_ne_nil (hbatch : 0 < batch) (ha : a ∈ l) (hcursor : cursor < key a) :
    next key cursor batch l ≠ [] := by
  intro hnil
  have hsorted : a ∈ sortBy key (l.filter fun a => cursor < key a) :=
    mem_sortBy.mpr (List.mem_filter.mpr ⟨ha, decide_eq_true hcursor⟩)
  rcases List.take_eq_nil_iff.mp hnil with hzero | hnone
  · omega
  · rw [hnone] at hsorted
    exact absurd hsorted List.not_mem_nil

/-! ### Handling each item once -/

variable {visible visible' : κ → Prop} {handled taken : List κ}

/-- The items handled are the visible ones up to the cursor, each once. -/
def Exact (visible : κ → Prop) (cursor : κ) (handled : List κ) : Prop :=
  handled.Nodup ∧ ∀ k, k ∈ handled ↔ visible k ∧ k ≤ cursor

theorem Exact.appear (h : Exact visible cursor handled) (hgrow : ∀ k, visible k → visible' k)
    (hnew : ∀ k, visible' k → visible k ∨ cursor < k) : Exact visible' cursor handled := by
  refine ⟨h.1, fun k => (h.2 k).trans ⟨fun ⟨hk, hle⟩ => ⟨hgrow k hk, hle⟩, fun ⟨hk, hle⟩ => ?_⟩⟩
  exact ⟨(hnew k hk).resolve_right (not_lt.mpr hle), hle⟩

theorem Exact.advance (h : Exact visible cursor handled) (hle : cursor ≤ last) (hnodup : taken.Nodup)
    (htaken : ∀ k, k ∈ taken ↔ visible k ∧ cursor < k ∧ k ≤ last) :
    Exact visible last (handled ++ taken) := by
  constructor
  · refine List.nodup_append.mpr ⟨h.1, hnodup, fun k hk k' hk' heq => ?_⟩
    exact absurd ((h.2 k).mp hk).2 (not_le.mpr (heq ▸ ((htaken k').mp hk').2.1))
  · intro k
    rw [List.mem_append, h.2, htaken]
    constructor
    · rintro (⟨hk, hcursor⟩ | ⟨hk, -, hlast⟩)
      · exact ⟨hk, hcursor.trans hle⟩
      · exact ⟨hk, hlast⟩
    · rintro ⟨hk, hlast⟩
      rcases le_or_gt k cursor with hcursor | hcursor
      · exact .inl ⟨hk, hcursor⟩
      · exact .inr ⟨hk, hcursor, hlast⟩

theorem Exact.count (h : Exact visible cursor handled) (hk : visible k) :
    handled.count k = if k ≤ cursor then 1 else 0 := by
  rw [h.1.count]
  exact if_congr ((h.2 k).trans (and_iff_right hk)) rfl rfl

end Cursor
