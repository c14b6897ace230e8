import Mathlib.Data.List.Basic
import Mathlib.Data.List.Nodup

/-!
# Tables with a primary key

A table is a list of rows no two of which share their key. Statements on it are
an insert that refuses a key in use, an update of the rows that meet a test, and a
delete of those. Updates keep each row's key, so what a table says is the partial
map `find?` from keys to rows; each statement has a lemma that says what it does
to that map. `Grows R` says of two states of a table that every row is kept, and
has changed as `R` allows.
-/

/-- Rows with distinct keys. -/
structure Table (α : Type*) {κ : Type*} (key : α → κ) where
  rows : List α
  nodup : (rows.map key).Nodup

namespace Table

variable {α κ : Type*} {key : α → κ}

instance : Membership α (Table α key) := ⟨fun t a => a ∈ t.rows⟩

theorem mem_def {t : Table α key} {a : α} : a ∈ t ↔ a ∈ t.rows := Iff.rfl

/-- The table without rows. -/
def empty : Table α key := ⟨[], List.nodup_nil⟩

theorem eq_of_key {t : Table α key} {a b : α} (ha : a ∈ t) (hb : b ∈ t) (h : key a = key b) : a = b :=
  List.inj_on_of_nodup_map t.nodup ha hb h

/-- Update the rows that meet a test. -/
def update (t : Table α key) (p : α → Bool) (f : α → α) (hf : ∀ a, key (f a) = key a) :
    Table α key where
  rows := t.rows.map fun a => if p a then f a else a
  nodup := by
    have hkey : (fun a => key (if p a then f a else a)) = key := by
      funext a
      split
      · exact hf a
      · rfl
    rw [List.map_map, show key ∘ _ = key from hkey]
    exact t.nodup

/-- Delete the rows that meet a test. -/
def delete (t : Table α key) (p : α → Bool) : Table α key where
  rows := t.rows.filter fun a => !p a
  nodup := (t.nodup.sublist ((List.filter_sublist).map key))

theorem mem_update {t : Table α key} {p : α → Bool} {f : α → α} {hf : ∀ a, key (f a) = key a} {b : α} :
    b ∈ t.update p f hf ↔ ∃ a ∈ t, (if p a then f a else a) = b := by
  simp [mem_def, update]

theorem exists_mem_update {t : Table α key} {p : α → Bool} {f : α → α} (hf : ∀ a, key (f a) = key a)
    {a : α} (ha : a ∈ t) :
    ∃ b ∈ t.update p f hf, key b = key a := by
  refine ⟨_, mem_update.mpr ⟨a, ha, rfl⟩, ?_⟩
  split
  · exact hf a
  · rfl

theorem mem_delete {t : Table α key} {p : α → Bool} {a : α} :
    a ∈ t.delete p ↔ a ∈ t ∧ p a = false := by
  simp [mem_def, delete]

theorem keys_filterMap {β : Type*} {key' : β → κ} {f : α → Option β}
    (h : ∀ a b, f a = some b → key' b = key a) :
    ∀ l : List α, ((l.filterMap f).map key').Sublist (l.map key)
  | [] => List.Sublist.slnil
  | a :: l => by
    rw [List.filterMap_cons]
    cases hf : f a with
    | none => exact (keys_filterMap h l).cons _
    | some b =>
      rw [List.map_cons, List.map_cons, h a b hf]
      exact (keys_filterMap h l).cons_cons _

/-- As many rows of `t` meet a test as rows of `u` meet another, when they are the same rows. -/
theorem length_filter_congr {t u : Table α key} {p q : α → Bool}
    (h : ∀ a, (a ∈ t ∧ p a = true) ↔ (a ∈ u ∧ q a = true)) :
    (t.rows.filter p).length = (u.rows.filter q).length := by
  have hnodup : ∀ (v : Table α key) (r : α → Bool), (v.rows.filter r).Nodup := fun v r =>
    (List.Nodup.of_map key v.nodup).sublist List.filter_sublist
  refine ((List.perm_ext_iff_of_nodup (hnodup t p) (hnodup u q)).mpr fun a => ?_).length_eq
  rw [List.mem_filter, List.mem_filter]
  exact h a

theorem length_filter_succ {t : Table α key} {p q : α → Bool} {a : α} (ha : a ∈ t) (hp : p a = false)
    (hq : ∀ b ∈ t, q b = true ↔ p b = true ∨ b = a) :
    (t.rows.filter q).length = (t.rows.filter p).length + 1 := by
  have hnodup : t.rows.Nodup := List.Nodup.of_map key t.nodup
  have hcons : (a :: t.rows.filter p).Nodup :=
    List.nodup_cons.mpr ⟨by simp [hp], hnodup.sublist List.filter_sublist⟩
  rw [((List.perm_ext_iff_of_nodup (hnodup.sublist List.filter_sublist) hcons).mpr fun b => ?_).length_eq,
    List.length_cons]
  rw [List.mem_filter, List.mem_cons, List.mem_filter]
  constructor
  · rintro ⟨hb, hqb⟩
    exact ((hq b hb).mp hqb).symm.imp_right fun hpb => ⟨hb, hpb⟩
  · rintro (rfl | ⟨hb, hpb⟩)
    · exact ⟨ha, (hq b ha).mpr (.inr rfl)⟩
    · exact ⟨hb, (hq b hb).mpr (.inl hpb)⟩

/-! ### Rows over time -/

/-- Every row of `t` is still there in `u`, and has changed as `R` allows. -/
def Grows (R : α → α → Prop) (t u : Table α key) : Prop := ∀ a ∈ t, ∃ b ∈ u, key b = key a ∧ R a b

variable {R : α → α → Prop} {t u v : Table α key}

theorem Grows.refl (hR : ∀ a, R a a) : t.Grows R t := fun a ha => ⟨a, ha, rfl, hR a⟩

theorem Grows.trans (hR : ∀ a b c, R a b → R b c → R a c) (h : t.Grows R u) (h' : u.Grows R v) :
    t.Grows R v := by
  intro a ha
  obtain ⟨b, hb, hkey, hab⟩ := h a ha
  obtain ⟨c, hc, hkey', hbc⟩ := h' b hb
  exact ⟨c, hc, hkey'.trans hkey, hR a b c hab hbc⟩

theorem Grows.update {p : α → Bool} {f : α → α} (hf : ∀ a, key (f a) = key a) (hR : ∀ a, R a a)
    (h : ∀ a ∈ t, p a = true → R a (f a)) : t.Grows R (t.update p f hf) := by
  intro a ha
  refine ⟨_, mem_update.mpr ⟨a, ha, rfl⟩, ?_, ?_⟩
  · split
    · exact hf a
    · rfl
  · split
    · exact h a ha ‹_›
    · exact hR a

variable [DecidableEq κ]

/-- The row with a key. -/
def find? (t : Table α key) (k : κ) : Option α := t.rows.find? fun a => key a = k

theorem find?_eq_some {t : Table α key} {k : κ} {a : α} : t.find? k = some a ↔ a ∈ t ∧ key a = k := by
  constructor
  · intro h
    exact ⟨List.mem_of_find?_eq_some h, by simpa using List.find?_some h⟩
  · rintro ⟨ha, rfl⟩
    cases h : t.find? (key a) with
    | none =>
      have := List.find?_eq_none.mp h a ha
      simp at this
    | some b =>
      have hb := List.mem_of_find?_eq_some h
      have hk : key b = key a := by simpa using List.find?_some h
      rw [eq_of_key hb ha hk]

theorem find?_eq_none {t : Table α key} {k : κ} : t.find? k = none ↔ ∀ a ∈ t, key a ≠ k := by
  simp [find?, List.find?_eq_none, mem_def]

theorem find?_key {t : Table α key} {a : α} (ha : a ∈ t) : t.find? (key a) = some a :=
  find?_eq_some.mpr ⟨ha, rfl⟩

/-- Insert a row, unless its key is in use. -/
def insert? (t : Table α key) (a : α) : Option (Table α key) :=
  if h : key a ∈ t.rows.map key then none
  else some ⟨t.rows ++ [a], by
    rw [List.map_append, List.nodup_append]
    refine ⟨t.nodup, List.nodup_singleton _, ?_⟩
    intro x hx y hy hxy
    obtain rfl := List.mem_singleton.mp hy
    exact h (hxy ▸ hx)⟩

theorem insert?_eq_some {t u : Table α key} {a : α} (h : t.insert? a = some u) :
    t.find? (key a) = none ∧ u.rows = t.rows ++ [a] := by
  simp only [insert?] at h
  split_ifs at h with hk
  cases h
  refine ⟨find?_eq_none.mpr fun b hb hbk => hk ?_, rfl⟩
  exact List.mem_map.mpr ⟨b, hb, hbk⟩

theorem mem_insert? {t u : Table α key} {a b : α} (h : t.insert? a = some u) :
    b ∈ u ↔ b ∈ t ∨ b = a := by
  rw [mem_def, (insert?_eq_some h).2, List.mem_append, List.mem_singleton, mem_def]

theorem find?_insert? {t u : Table α key} {a : α} (h : t.insert? a = some u) (k : κ) :
    u.find? k = if key a = k then some a else t.find? k := by
  obtain ⟨hnone, hrows⟩ := insert?_eq_some h
  rw [find?, hrows, List.find?_append]
  split_ifs with hk
  · rw [← hk]
    change (t.find? (key a)).or _ = _
    rw [hnone]
    simp
  · simp [find?, hk]

theorem Grows.insert? {a : α} (hR : ∀ a, R a a) (h : t.insert? a = some u) : t.Grows R u :=
  fun b hb => ⟨b, (mem_insert? h).mpr (.inl hb), rfl, hR b⟩

theorem find?_update (t : Table α key) (p : α → Bool) (f : α → α) (hf : ∀ a, key (f a) = key a)
    (k : κ) :
    (t.update p f hf).find? k = (t.find? k).map fun a => if p a then f a else a := by
  have hkey : ∀ a, key (if p a then f a else a) = key a := by
    intro a
    split
    · exact hf a
    · rfl
  rw [find?, update, List.find?_map]
  simp only [Function.comp_def, hkey]
  rfl

theorem find?_delete {t : Table α key} {p : α → Bool} {k : κ} (h : ∀ a, key a = k → p a = false) :
    (t.delete p).find? k = t.find? k := by
  rw [find?, delete, List.find?_filter, find?]
  congr 1
  funext a
  by_cases hk : key a = k
  · simp [hk, h a hk]
  · simp [hk]

end Table
