import Mathlib.Data.List.Nodup
import Std.Data.TreeMap.Lemmas

/-!
# Maps from lists

A list of things with keys, each of which is to be read as a value, becomes a map, or the first error of a reading. Of
two things with one key the last stays.
-/

namespace Keyed

open Std (TreeMap)

variable {α κ β ε : Type} [Ord κ]
variable {key : α → κ} {read : α → Except ε β} {value : α → β} {l l' : List α} {m m' : TreeMap κ β} {k : κ} {v : β}

/-- One more thing. -/
def put (key : α → κ) (value : α → β) (m : TreeMap κ β) (a : α) : TreeMap κ β := m.insert (key a) (value a)

/-- The map of a list. -/
def ofAll (key : α → κ) (value : α → β) (l : List α) : TreeMap κ β := l.foldl (put key value) ∅

/-- The map of a list whose things are read one after the other. -/
def readAll (key : α → κ) (read : α → Except ε β) (l : List α) : Except ε (TreeMap κ β) :=
  l.foldlM (fun m a => do return m.insert (key a) (← read a)) ∅

theorem readAll_map {α' : Type} (g : α' → α) (l : List α') :
    readAll key read (l.map g) = readAll (fun a => key (g a)) (fun a => read (g a)) l := by
  rw [readAll, readAll, List.foldlM_map]

theorem readAll_of_read (h : ∀ a ∈ l, read a = .ok (value a)) : readAll key read l = .ok (ofAll key value l) := by
  have hfold : ∀ m, l.foldlM (fun m a => do return m.insert (key a) (← read a)) m =
      Except.ok (ε := ε) (l.foldl (put key value) m) := by
    induction l with
    | nil => exact fun _ => rfl
    | cons a l ih =>
      rw [List.forall_mem_cons] at h
      intro m
      rw [List.foldlM_cons, h.1]
      exact ih h.2 _
  exact hfold ∅

variable [Std.TransOrd κ] [Std.LawfulEqOrd κ]

theorem read_of_readAll (h : readAll key read l = .ok m) (hk : m[k]? = some v) :
    ∃ a ∈ l, key a = k ∧ read a = .ok v := by
  have hfold : ∀ m₀, l.foldlM (fun m a => do return m.insert (key a) (← read a)) m₀ = Except.ok (ε := ε) m →
      m₀[k]? = some v ∨ ∃ a ∈ l, key a = k ∧ read a = .ok v := by
    clear h
    induction l with
    | nil =>
      rintro m₀ hm
      cases hm
      exact .inl hk
    | cons a l ih =>
      intro m₀ hm
      rw [List.foldlM_cons] at hm
      cases hread : read a with
      | error e =>
        rw [hread] at hm
        cases hm
      | ok w =>
        rw [hread] at hm
        rcases ih _ hm with hput | ⟨b, hb, hread⟩
        · rw [TreeMap.getElem?_insert] at hput
          split_ifs at hput with hkey
          · refine .inr ⟨a, List.mem_cons_self, Std.LawfulEqOrd.eq_of_compare hkey, ?_⟩
            rw [hread, Option.some.inj hput]
          · exact .inl hput
        · exact .inr ⟨b, List.mem_cons_of_mem a hb, hread⟩
  rcases hfold ∅ h with hempty | hread
  · simp at hempty
  · exact hread

/-- The map of a list whose keys are distinct. -/
theorem getElem?_ofAll (h : (l.map key).Nodup) : (ofAll key value l)[k]? = some v ↔
    ∃ a ∈ l, key a = k ∧ value a = v := by
  have hfold : ∀ m : TreeMap κ β, (∀ a ∈ l, m[key a]? = none) → ((l.foldl (put key value) m)[k]? = some v ↔
      m[k]? = some v ∨ ∃ a ∈ l, key a = k ∧ value a = v) := by
    induction l with
    | nil => simp
    | cons a l ih =>
      rw [List.map_cons, List.nodup_cons] at h
      intro m hm
      rw [List.forall_mem_cons] at hm
      have hrest : ∀ b ∈ l, (put key value m a)[key b]? = none := by
        intro b hb
        rw [put, TreeMap.getElem?_insert, if_neg, hm.2 b hb]
        exact fun hkey => h.1 (List.mem_map.mpr ⟨b, hb, (Std.LawfulEqOrd.eq_of_compare hkey).symm⟩)
      rw [List.foldl_cons, ih h.2 _ hrest, put, TreeMap.getElem?_insert]
      by_cases hkey : compare (key a) k = .eq
      · have hsame := Std.LawfulEqOrd.eq_of_compare hkey
        subst hsame
        simp [hm.1]
      · have hne : key a ≠ k := fun hsame => hkey (hsame ▸ Std.ReflOrd.compare_self)
        simp [hkey, hne]
  rw [ofAll, hfold ∅ (by simp)]
  simp

theorem toList_eq_iff : m.toList = m'.toList ↔ ∀ k : κ, m[k]? = m'[k]? := by
  constructor
  · intro h k
    refine Option.ext fun v => ?_
    rw [← TreeMap.mem_toList_iff_getElem?_eq_some, ← TreeMap.mem_toList_iff_getElem?_eq_some, h]
  · exact fun h => (TreeMap.Equiv.of_forall_constGet?_eq h).toList_eq

theorem perm_toList_ofAll (h : (l.map key).Nodup) :
    (ofAll key value l).toList.Perm (l.map fun a => (key a, value a)) := by
  have hnodup : (ofAll key value l).toList.Nodup := by
    refine (ofAll key value l).distinct_keys_toList.imp ?_
    rintro a b hne rfl
    exact hne Std.ReflOrd.compare_self
  have hlist : (l.map fun a => (key a, value a)).Nodup := by
    refine List.Nodup.of_map Prod.fst ?_
    rwa [List.map_map]
  refine (List.perm_ext_iff_of_nodup hnodup hlist).mpr fun entry => ?_
  rw [TreeMap.mem_toList_iff_getElem?_eq_some, getElem?_ofAll h, List.mem_map]
  exact exists_congr fun a => and_congr_right fun _ => (Prod.mk.injEq ..).symm ▸ Iff.rfl

theorem toList_ofAll (h : (l.map key).Nodup) (hm : ∀ k v, m[k]? = some v ↔ ∃ a ∈ l, key a = k ∧ value a = v) :
    (ofAll key value l).toList = m.toList := by
  refine toList_eq_iff.mpr fun k => Option.ext fun v => ?_
  rw [getElem?_ofAll h, hm]

theorem nodup_keys (m : TreeMap κ β) : (m.toList.map Prod.fst).Nodup := by
  refine List.pairwise_map.mpr (m.distinct_keys_toList.imp ?_)
  exact fun hne heq => hne (heq ▸ Std.ReflOrd.compare_self)

/-- **A map is the map of its entries**, whatever their order. -/
theorem toList_ofAll_entries {l : List (κ × β)} (h : l.Perm m.toList) :
    (ofAll Prod.fst Prod.snd l).toList = m.toList := by
  refine toList_ofAll ((h.map Prod.fst).nodup_iff.mpr (nodup_keys m)) fun k v => ?_
  rw [← TreeMap.mem_toList_iff_getElem?_eq_some, ← h.mem_iff]
  constructor
  · exact fun hentry => ⟨(k, v), hentry, rfl, rfl⟩
  · rintro ⟨⟨k', v'⟩, hentry, rfl, rfl⟩
    exact hentry

end Keyed
