import Mathlib.Data.List.Destutter
import Mathlib.Data.List.Sort

/-!
# Stable sorting by a key

`sortBy key` sorts a list by a key in a linear order, and leaves entries of one key in
the order they had (`filter_sortBy`). The sorted list therefore depends on the order of
the list only as far as entries share a key: `sortBy_eq_of_perm`. Entries may be
left out before or after: `sortBy_filter`.
-/

namespace Sorting

variable {α β κ : Type*} [LinearOrder κ] {key : α → κ} {l l' : List α}

/-- Sort by a key, keeping the order of entries of one key. -/
def sortBy (key : α → κ) (l : List α) : List α := l.insertionSort fun a b => key a ≤ key b

instance instTotalKeyLe : Std.Total fun a b : α => key a ≤ key b := ⟨fun _ _ => le_total _ _⟩

instance instIsTransKeyLe : IsTrans α fun a b => key a ≤ key b := ⟨fun _ _ _ => le_trans⟩

theorem sortBy_perm (key : α → κ) (l : List α) : (sortBy key l).Perm l := List.perm_insertionSort _ l

@[simp] theorem mem_sortBy {a : α} : a ∈ sortBy key l ↔ a ∈ l := (sortBy_perm key l).mem_iff

theorem nodup_map_take_sortBy {β : Type*} {f : α → β} (h : (l.map f).Nodup) (n : ℕ) :
    (((sortBy key l).take n).map f).Nodup :=
  (((sortBy_perm key l).map f).nodup_iff.mpr h).sublist ((List.take_sublist _ _).map _)

theorem pairwise_sortBy (key : α → κ) (l : List α) : (sortBy key l).Pairwise fun a b => key a ≤ key b :=
  List.pairwise_insertionSort _ l

theorem map_sortBy (key : α → κ) (key' : β → κ) {f : α → β} (h : ∀ a, key' (f a) = key a) (l : List α) :
    (sortBy key l).map f = sortBy key' (l.map f) :=
  List.map_insertionSort _ _ f l fun a _ b _ => by rw [h, h]

/-- **Stability**: the entries of one key stay in the order they had. -/
theorem filter_sortBy (key : α → κ) (l : List α) (k : κ) :
    ((sortBy key l).filter fun a => key a = k) = l.filter fun a => key a = k := by
  have hkeys : (l.filter fun a => key a = k).Pairwise fun a b => key a ≤ key b := by
    apply List.pairwise_of_forall_mem_list
    intro a ha b hb
    simp only [List.mem_filter, decide_eq_true_eq] at ha hb
    exact (ha.2.trans hb.2.symm).le
  have hsub : (l.filter fun a => key a = k).Sublist (sortBy key l) :=
    List.sublist_insertionSort hkeys List.filter_sublist
  have hlength : ((sortBy key l).filter fun a => key a = k).length = (l.filter fun a => key a = k).length :=
    ((sortBy_perm key l).filter _).length_eq
  have hfilter := hsub.filter fun a => key a = k
  rw [List.filter_filter] at hfilter
  simp only [Bool.and_self] at hfilter
  exact (hfilter.eq_of_length hlength.symm).symm

theorem pairwise_sortBy_of {S : α → α → Prop} (h : l.Pairwise S) :
    (sortBy key l).Pairwise fun a b => key a < key b ∨ key a = key b ∧ S a b := by
  rw [List.pairwise_iff_forall_sublist] at h ⊢
  intro a b hab
  have hle : key a ≤ key b := List.pairwise_iff_forall_sublist.mp (pairwise_sortBy key l) hab
  rcases hle.lt_or_eq with hlt | heq
  · exact .inl hlt
  · have hkey := hab.filter fun c => key c = key b
    rw [filter_sortBy] at hkey
    simp only [List.filter_cons, heq, decide_true, if_true, List.filter_nil] at hkey
    exact .inr ⟨heq, h (hkey.trans List.filter_sublist)⟩

/-- **An entry is among the first** just when fewer come before it, by the key and then in the list. -/
theorem mem_take_sortBy {pos : α → ℕ} (h : l.Pairwise fun a b => pos a < pos b) {b : α} (hb : b ∈ l) (n : ℕ) :
    b ∈ (sortBy key l).take n ↔
      (l.filter fun a => key a < key b ∨ key a = key b ∧ pos a < pos b).length < n := by
  have hpair : (sortBy key l).Pairwise fun a b => key a < key b ∨ key a = key b ∧ pos a < pos b :=
    pairwise_sortBy_of h
  have hcount := ((sortBy_perm key l).filter fun a => key a < key b ∨ key a = key b ∧ pos a < pos b).length_eq
  obtain ⟨before, after, hsplit⟩ := List.append_of_mem (mem_sortBy.mpr hb : b ∈ sortBy key l)
  rw [hsplit] at hpair hcount ⊢
  obtain ⟨-, hafter, hbefore⟩ := List.pairwise_append.mp hpair
  have hfirst : ∀ a ∈ before, key a < key b ∨ key a = key b ∧ pos a < pos b :=
    fun a ha => hbefore a ha b List.mem_cons_self
  have hrest : ∀ a ∈ b :: after, ¬ (key a < key b ∨ key a = key b ∧ pos a < pos b) := by
    refine List.forall_mem_cons.mpr ⟨by simp, fun a ha hahead => ?_⟩
    have hbehind := (List.pairwise_cons.mp hafter).1 a ha
    rcases hahead with hlt | ⟨heq, hpos⟩
    · rcases hbehind with hgt | ⟨heq, -⟩
      · exact lt_asymm hlt hgt
      · exact absurd heq hlt.ne'
    · rcases hbehind with hgt | ⟨-, hpos'⟩
      · exact absurd heq hgt.ne'
      · exact lt_asymm hpos hpos'
  rw [List.filter_append, List.filter_eq_self.mpr fun a ha => decide_eq_true (hfirst a ha),
    List.filter_eq_nil_iff.mpr fun a ha => by simpa using hrest a ha, List.append_nil] at hcount
  rw [← hcount]
  constructor
  · intro hmem
    by_contra hmany
    rw [List.take_append_of_le_length (not_lt.mp hmany)] at hmem
    exact hrest b List.mem_cons_self (hfirst b (List.mem_of_mem_take hmem))
  · intro hfew
    obtain ⟨m, hm⟩ := Nat.exists_eq_add_of_lt hfew
    rw [hm, Nat.add_assoc, List.take_length_add_append, List.take_succ_cons]
    exact List.mem_append_right _ List.mem_cons_self

theorem mem_take_sortBy_filter [DecidableEq α] {p : α → Bool} (hnodup : l.Nodup) {b : α} (hb : b ∈ l)
    (hp : p b = true) (n : ℕ) : b ∈ (sortBy key (l.filter p)).take n ↔
      (l.filter fun a => p a ∧ (key a < key b ∨ key a = key b ∧ l.idxOf a < l.idxOf b)).length < n := by
  have hpos : l.Pairwise fun a b => l.idxOf a < l.idxOf b := by
    rw [List.pairwise_iff_getElem]
    intro i j hi hj hlt
    rwa [hnodup.idxOf_getElem, hnodup.idxOf_getElem]
  rw [mem_take_sortBy (hpos.sublist List.filter_sublist) (List.mem_filter.mpr ⟨hb, hp⟩), List.filter_filter]
  simp only [Bool.decide_and, Bool.decide_eq_true, Bool.and_comm]

theorem sortBy_eq_of_perm (hperm : l.Perm l') (heq : ∀ a ∈ l, ∀ b ∈ l, key a = key b → a = b) :
    sortBy key l = sortBy key l' := by
  refine List.Perm.eq_of_pairwise (fun a b ha hb hab hba => ?_) (pairwise_sortBy key l) (pairwise_sortBy key l')
    ((sortBy_perm key l).trans (hperm.trans (sortBy_perm key l').symm))
  exact heq a (mem_sortBy.mp ha) b (hperm.mem_iff.mpr (mem_sortBy.mp hb)) (le_antisymm hab hba)

theorem mem_destutter_ne [DecidableEq α] {v : α} : v ∈ l.destutter (· ≠ ·) ↔ v ∈ l := by
  refine ⟨fun h => (List.destutter_sublist (· ≠ ·) l).subset h, fun h => ?_⟩
  cases l with
  | nil => cases h
  | cons a l =>
    rw [List.destutter_cons']
    induction l generalizing a with
    | nil => exact h
    | cons b l ih =>
      by_cases hab : a = b
      · subst hab
        rw [List.destutter'_cons_neg _ (not_not.mpr rfl)]
        exact ih a (by simpa using h)
      · rw [List.destutter'_cons_pos _ hab]
        rcases List.mem_cons.mp h with rfl | h
        · exact List.mem_cons_self
        · exact List.mem_cons_of_mem _ (ih b h)

theorem of_head?_sortBy {a : α} (h : (sortBy key l).head? = some a) :
    a ∈ l ∧ ∀ b ∈ l, key a ≤ key b := by
  refine ⟨mem_sortBy.mp (List.mem_of_mem_head? h), fun b hb => ?_⟩
  obtain ⟨rest, hsorted⟩ := List.head?_eq_some_iff.mp h
  have hpairwise := pairwise_sortBy key l
  rw [hsorted, List.pairwise_cons] at hpairwise
  rw [← (sortBy_perm key l).mem_iff, hsorted, List.mem_cons] at hb
  rcases hb with rfl | hb
  · exact le_rfl
  · exact hpairwise.1 b hb

theorem head?_sortBy_eq_none : (sortBy key l).head? = none ↔ l = [] := by
  rw [List.head?_eq_none_iff]
  constructor
  · intro h
    exact (List.Perm.nil_eq (h ▸ sortBy_perm key l)).symm
  · rintro rfl
    rfl

theorem head?_sortBy_cons {a : α} (h : ∀ b ∈ l, key a ≤ key b) :
    (sortBy key (a :: l)).head? = some a := by
  rw [sortBy, List.insertionSort_cons_of_forall_rel _ h, List.head?_cons]

/-- Inserting into a sorted list and leaving entries out. -/
theorem filter_orderedInsert (p : α → Bool) (a : α) (hl : l.Pairwise fun a b => key a ≤ key b) :
    (l.orderedInsert (fun a b => key a ≤ key b) a).filter p =
      if p a then (l.filter p).orderedInsert (fun a b => key a ≤ key b) a else l.filter p := by
  induction l with
  | nil => cases hp : p a <;> simp [hp]
  | cons b l ih =>
    obtain ⟨hb, hl⟩ := List.pairwise_cons.mp hl
    by_cases hab : key a ≤ key b
    · -- every entry the test keeps comes after the one that is inserted
      have hfirst : ((b :: l).filter p).orderedInsert (fun a b => key a ≤ key b) a = a :: (b :: l).filter p := by
        cases hkept : (b :: l).filter p with
        | nil => rfl
        | cons c rest =>
          have hc : c ∈ b :: l := (List.mem_filter.mp (hkept ▸ List.mem_cons_self)).1
          refine List.orderedInsert_cons_of_le _ _ ?_
          rcases List.mem_cons.mp hc with rfl | hc
          · exact hab
          · exact hab.trans (hb c hc)
      rw [hfirst, List.orderedInsert_cons_of_le (fun a b => key a ≤ key b) l hab, List.filter_cons (x := a)]
    · rw [List.orderedInsert_of_not_le (fun a b => key a ≤ key b) l hab, List.filter_cons, List.filter_cons, ih hl]
      cases hpa : p a <;> cases hpb : p b <;> simp [hab]

theorem sortBy_filter (key : α → κ) (p : α → Bool) (l : List α) :
    (sortBy key l).filter p = sortBy key (l.filter p) := by
  induction l with
  | nil => rfl
  | cons a l ih =>
    have hcons : sortBy key (a :: l) = (sortBy key l).orderedInsert (fun a b => key a ≤ key b) a := rfl
    rw [hcons, filter_orderedInsert p a (pairwise_sortBy key l), ih, List.filter_cons]
    split_ifs <;> rfl

theorem head?_sortBy_filter {p : α → Bool} {a : α} (h : (sortBy key l).head? = some a) (ha : p a = true) :
    (sortBy key (l.filter p)).head? = some a := by
  obtain ⟨rest, hsorted⟩ := List.head?_eq_some_iff.mp h
  rw [← sortBy_filter, hsorted, List.filter_cons_of_pos ha, List.head?_cons]

end Sorting
