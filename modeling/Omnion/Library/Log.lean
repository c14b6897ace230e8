import Omnion.Library.Cursor

/-!
# A log written by transactions

A transaction inserts an item into a log. The item has its key from then on, counted up, and comes
into sight when the transaction commits: not in the order of the keys. `Log.Reading` says of a
reader with a cursor that the items it has read are the next ones in sight. Inserts and rollbacks
keep that, and so does a commit of items above what was read.
-/

/-- What is seen, and what open transactions have inserted. -/
structure Log (α : Type*) where
  nextId : ℤ := 1
  /-- The items of open transactions. -/
  inflight : List (ℕ × α) := []
  committed : List α := []

namespace Log

variable {α : Type*}

/-- A transaction inserts an item. -/
def insert (l : Log α) (tx : ℕ) (item : ℤ → α) : Log α :=
  { l with nextId := l.nextId + 1, inflight := l.inflight ++ [(tx, item l.nextId)] }

/-- A transaction commits. -/
def commit (l : Log α) (tx : ℕ) : Log α :=
  { l with
    committed := l.committed ++ (l.inflight.filter (·.1 = tx)).map (·.2)
    inflight := l.inflight.filter (·.1 ≠ tx) }

/-- A transaction is rolled back. -/
def rollback (l : Log α) (tx : ℕ) : Log α := { l with inflight := l.inflight.filter (·.1 ≠ tx) }

variable (key : α → ℤ)

/-- The key is in sight. -/
def Visible (l : Log α) (k : ℤ) : Prop := ∃ a ∈ l.committed, key a = k

/-- The keys in use. -/
def keys (l : Log α) : List ℤ := l.committed.map key ++ l.inflight.map (key ·.2)

/-- The keys in use are distinct, and below the next one. -/
structure Proper (l : Log α) : Prop where
  nodup : (l.keys key).Nodup
  below : ∀ k ∈ l.keys key, k < l.nextId

/-- What is read are the items in sight after the cursor, up to `last`. -/
def Reading (l : Log α) (cursor : ℤ) (items : List α) (last : ℤ) : Prop :=
  cursor < last ∧ (items.map key).Nodup ∧ ∀ k, k ∈ items.map key ↔ l.Visible key k ∧ cursor < k ∧ k ≤ last

variable {key} {l : Log α} {tx : ℕ} {cursor last k : ℤ} {items : List α}

theorem Proper.empty : Proper key ({} : Log α) where
  nodup := List.nodup_nil
  below := fun _ hk => nomatch hk

theorem Proper.insert (h : l.Proper key) {item : ℤ → α} (hitem : ∀ k, key (item k) = k) (tx : ℕ) :
    (l.insert tx item).Proper key := by
  have hkeys : (l.insert tx item).keys key = l.keys key ++ [l.nextId] := by
    simp [keys, Log.insert, hitem]
  constructor
  · rw [hkeys]
    refine List.nodup_append.mpr ⟨h.nodup, List.nodup_singleton _, fun a ha b hb heq => ?_⟩
    have hlt := h.below a ha
    rw [List.mem_singleton.mp hb] at heq
    omega
  · intro k hk
    change k < l.nextId + 1
    rw [hkeys, List.mem_append, List.mem_singleton] at hk
    rcases hk with hk | rfl
    · have hlt := h.below k hk
      omega
    · omega

theorem Proper.commit (h : l.Proper key) (tx : ℕ) : (l.commit tx).Proper key := by
  have hperm : ((l.commit tx).keys key).Perm (l.keys key) := by
    have hsplit := (List.filter_append_perm (fun x : ℕ × α => decide (x.1 = tx)) l.inflight).map (key ·.2)
    rw [List.map_append] at hsplit
    simp only [keys, Log.commit, List.map_append, List.map_map, List.append_assoc]
    refine List.Perm.append_left _ ?_
    simpa [Function.comp_def] using hsplit
  exact ⟨hperm.nodup_iff.mpr h.nodup, fun k hk => h.below k (hperm.mem_iff.mp hk)⟩

theorem Proper.rollback (h : l.Proper key) (tx : ℕ) : (l.rollback tx).Proper key := by
  have hsub : ((l.rollback tx).keys key).Sublist (l.keys key) :=
    (List.Sublist.refl _).append (List.filter_sublist.map _)
  exact ⟨h.nodup.sublist hsub, fun k hk => h.below k (hsub.mem hk)⟩

theorem Proper.inj (h : l.Proper key) : ∀ a ∈ l.committed, ∀ b ∈ l.committed, key a = key b → a = b := fun _ ha _ hb =>
  List.inj_on_of_nodup_map (List.nodup_append.mp h.nodup).1 ha hb

theorem visible_commit : (l.commit tx).Visible key k ↔ l.Visible key k ∨ ∃ x ∈ l.inflight, x.1 = tx ∧ key x.2 = k := by
  simp only [Visible, commit, List.mem_append, List.mem_map, List.mem_filter, decide_eq_true_eq]
  constructor
  · rintro ⟨a, ha | ⟨x, ⟨hx, htx⟩, rfl⟩, hk⟩
    · exact .inl ⟨a, ha, hk⟩
    · exact .inr ⟨x, hx, htx, hk⟩
  · rintro (⟨a, ha, hk⟩ | ⟨x, hx, htx, hk⟩)
    · exact ⟨a, .inl ha, hk⟩
    · exact ⟨x.2, .inr ⟨x, ⟨hx, htx⟩, rfl⟩, hk⟩

/-- **The next items are read.** -/
theorem Proper.reading (h : l.Proper key) {batch : ℕ} {a : α}
    (hlast : (Cursor.next key cursor batch l.committed).getLast? = some a) :
    l.Reading key cursor (Cursor.next key cursor batch l.committed) (key a) := by
  have hmem : ∀ b, b ∈ Cursor.next key cursor batch l.committed ↔ _ := fun b => Cursor.mem_next_iff h.inj hlast
  refine ⟨(Cursor.mem_of_mem_next (List.mem_of_getLast? hlast)).2, Cursor.nodup_next
    (List.nodup_append.mp h.nodup).1, fun k => ?_⟩
  rw [List.mem_map]
  constructor
  · rintro ⟨b, hb, rfl⟩
    obtain ⟨hseen, hbetween⟩ := (hmem b).mp hb
    exact ⟨⟨b, hseen, rfl⟩, hbetween⟩
  · rintro ⟨⟨b, hseen, rfl⟩, hbetween⟩
    exact ⟨b, (hmem b).mpr ⟨hseen, hbetween⟩, rfl⟩

/-- **A commit above what was read** leaves it the next items. -/
theorem Reading.commit (h : l.Reading key cursor items last) (hlate : ∀ x ∈ l.inflight, x.1 = tx → last < key x.2) :
    (l.commit tx).Reading key cursor items last := by
  refine ⟨h.1, h.2.1, fun k => (h.2.2 k).trans ⟨fun ⟨hk, hbetween⟩ => ⟨visible_commit.mpr (.inl hk), hbetween⟩,
    fun ⟨hk, hbetween⟩ => ?_⟩⟩
  refine ⟨(visible_commit.mp hk).resolve_right fun ⟨x, hx, htx, hkey⟩ => ?_, hbetween⟩
  exact absurd hbetween.2 (not_le.mpr (hkey ▸ hlate x hx htx))

end Log
