import Mathlib.Data.List.Infix

/-!
# First occurrences

The first place at which a pattern occurs in a text.

## What is proved

* `find_eq_none_iff` — a pattern is not found just when it does not occur.
* `First.unique` — a text is split at the first occurrence of a pattern in one way.
-/

namespace Search

variable {α : Type*} [DecidableEq α] {pat before before' after after' text : List α} {n : ℕ}

/-- The offset of the first occurrence of a pattern. -/
def find (pat : List α) : List α → Option ℕ
  | [] => if pat = [] then some 0 else none
  | a :: rest => if pat.isPrefixOf (a :: rest) then some 0 else (find pat rest).map (· + 1)

/-- A pattern that follows a text is its first occurrence there. -/
def First (pat before : List α) : Prop := ¬ pat <:+: (before ++ pat).dropLast

instance : Decidable (First pat before) := inferInstanceAs (Decidable (¬ _))

omit [DecidableEq α] in
theorem First.nil (hpat : pat ≠ []) : First pat [] := by
  intro h
  have hlength := h.length_le
  rw [List.nil_append, List.length_dropLast] at hlength
  have := List.length_pos_of_ne_nil hpat
  omega

omit [DecidableEq α] in
/-- A text that ends with its pattern begins with it just when it still does without its
last item. -/
theorem first_cons {a : α} (hpat : pat ≠ []) :
    First pat (a :: before) ↔ ¬ pat <+: a :: (before ++ pat) ∧ First pat before := by
  have hcons : (a :: before ++ pat).dropLast = a :: (before ++ pat).dropLast :=
    List.dropLast_cons_of_ne_nil (List.append_ne_nil_of_right_ne_nil _ hpat)
  have hbegins : pat <+: a :: (before ++ pat).dropLast ↔ pat <+: a :: (before ++ pat) := by
    rw [← hcons]
    constructor
    · exact fun h => h.trans (List.dropLast_prefix _)
    · intro h
      refine List.prefix_of_prefix_length_le h (List.dropLast_prefix _) ?_
      rw [List.length_dropLast, List.cons_append, List.length_cons, List.length_append]
      omega
  rw [First, hcons, List.infix_cons_iff, not_or, hbegins]
  rfl

theorem find_append (hpat : pat ≠ []) (h : First pat before) :
    find pat (before ++ (pat ++ after)) = some before.length := by
  induction before with
  | nil =>
    obtain ⟨a, rest, rfl⟩ := List.exists_cons_of_ne_nil hpat
    have hpre : (a :: rest).isPrefixOf (a :: (rest ++ after)) = true :=
      List.isPrefixOf_iff_prefix.mpr ⟨after, rfl⟩
    rw [List.nil_append, List.cons_append, find, if_pos hpre]
    rfl
  | cons a before ih =>
    obtain ⟨hhere, hrest⟩ := (first_cons hpat).mp h
    have hnot : ¬ pat <+: a :: (before ++ (pat ++ after)) := by
      intro hpre
      refine hhere (List.prefix_of_prefix_length_le hpre ?_ ?_)
      · exact ⟨after, by rw [List.cons_append, List.append_assoc]⟩
      · rw [List.length_cons, List.length_append]
        omega
    rw [List.cons_append, find, if_neg (mt List.isPrefixOf_iff_prefix.mp hnot), ih hrest]
    rfl

theorem exists_of_find (hpat : pat ≠ []) (h : find pat text = some n) :
    ∃ before after, text = before ++ (pat ++ after) ∧ before.length = n ∧ First pat before := by
  induction text generalizing n with
  | nil =>
    rw [find, if_neg hpat] at h
    cases h
  | cons a rest ih =>
    rw [find] at h
    split_ifs at h with hpre
    · obtain ⟨after, hafter⟩ := List.isPrefixOf_iff_prefix.mp hpre
      exact ⟨[], after, hafter.symm, Option.some.inj h, First.nil hpat⟩
    · obtain ⟨m, hm, rfl⟩ := Option.map_eq_some_iff.mp h
      obtain ⟨before, after, rfl, rfl, hfirst⟩ := ih hm
      refine ⟨a :: before, after, rfl, rfl, (first_cons hpat).mpr ⟨fun hhere => hpre ?_, hfirst⟩⟩
      refine List.isPrefixOf_iff_prefix.mpr (hhere.trans ⟨after, ?_⟩)
      rw [List.cons_append, List.append_assoc]

theorem find_eq_none_iff : find pat text = none ↔ ¬ pat <:+: text := by
  induction text with
  | nil => by_cases h : pat = [] <;> simp [find, h]
  | cons a rest ih =>
    rw [find, List.infix_cons_iff, not_or, ← ih]
    split_ifs with hpre
    · simp [List.isPrefixOf_iff_prefix.mp hpre]
    · simp [mt List.isPrefixOf_iff_prefix.mpr hpre]

theorem First.unique (hpat : pat ≠ []) (h : First pat before) (h' : First pat before')
    (heq : before ++ (pat ++ after) = before' ++ (pat ++ after')) :
    before = before' ∧ after = after' := by
  have hfind : find pat (before ++ (pat ++ after)) = some before.length := find_append hpat h
  rw [heq, find_append hpat h'] at hfind
  obtain ⟨hbefore, hrest⟩ := List.append_inj heq (Option.some.inj hfind).symm
  exact ⟨hbefore, List.append_cancel_left hrest⟩

end Search
