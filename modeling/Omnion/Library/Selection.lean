import Mathlib.Data.List.Basic
import Mathlib.Data.List.Perm.Basic

/-!
# The first and the last entry that meet a test

`List.find?` answers the first entry of a list that meets a test. Which one that is depends
on the order of the list just when two different entries meet the test. Where the entries
write a part of a state one after the other, the last one that does decides.
-/

namespace Selection

variable {α : Type*} {p : α → Bool} {l l' : List α}

/-- No two different entries meet the test. -/
def Unambiguous (p : α → Bool) (l : List α) : Prop := ∀ a ∈ l, ∀ b ∈ l, p a = true → p b = true → a = b

theorem exists_perm_find? {a : α} (ha : a ∈ l) (hp : p a = true) : ∃ l' : List α, l'.Perm l ∧ l'.find? p = some a := by
  obtain ⟨before, after, rfl⟩ := List.append_of_mem ha
  exact ⟨a :: (before ++ after), List.perm_middle.symm, List.find?_cons_of_pos hp⟩

theorem find?_eq_of_perm (h : Unambiguous p l) (hperm : l'.Perm l) : l'.find? p = l.find? p := by
  cases hl : l.find? p with
  | none =>
    rw [List.find?_eq_none] at hl ⊢
    exact fun a ha => hl a (hperm.subset ha)
  | some a =>
    have ha := List.mem_of_find?_eq_some hl
    cases hl' : l'.find? p with
    | none =>
      have hnone := List.find?_eq_none.mp hl' a (hperm.symm.subset ha)
      exact absurd (List.find?_some hl) hnone
    | some b =>
      have hb := hperm.subset (List.mem_of_find?_eq_some hl')
      rw [h a ha b hb (List.find?_some hl) (List.find?_some hl')]

/-- **The order matters** just when two different entries meet the test. -/
theorem find?_perm_iff : (∀ l' : List α, l'.Perm l → l'.find? p = l.find? p) ↔ Unambiguous p l := by
  constructor
  · intro h a ha b hb hpa hpb
    obtain ⟨la, hla, hfa⟩ := exists_perm_find? ha hpa
    obtain ⟨lb, hlb, hfb⟩ := exists_perm_find? hb hpb
    have hab : some a = some b := by rw [← hfa, ← hfb, h la hla, h lb hlb]
    exact Option.some.inj hab
  · exact fun h l' hperm => find?_eq_of_perm h hperm

/-- **A part of a state is what the last entry writes** that writes it at all. -/
theorem get_foldl {σ γ : Type*} (get : σ → γ) {step : σ → α → σ} {value : α → γ}
    (hstep : ∀ s a, get (step s a) = if p a then value a else get s) (l : List α) (s : σ) :
    get (l.foldl step s) = ((l.findRev? p).map value).getD (get s) := by
  induction l generalizing s with
  | nil => rfl
  | cons a l ih =>
    rw [List.foldl_cons, ih, hstep, List.findRev?]
    cases l.findRev? p with
    | some b => rfl
    | none => cases p a <;> rfl

end Selection
