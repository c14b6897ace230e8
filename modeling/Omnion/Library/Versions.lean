import Mathlib.Data.Option.Basic
import Mathlib.Logic.Function.Basic
import Mathlib.Tactic.SplitIfs

/-!
# Rows that transactions write before they commit

A row has the version everybody reads. Once a transaction has written it, the row has a
second version that only this transaction sees, and is locked: nobody else writes it until
the transaction commits or rolls back. `Rows.write`, `Rows.commit` and `Rows.rollback` are
these three steps.

A unique index gives a version the key it is entered under, or none where the index is
partial. An entry is refused while another row may come to have the key: its version has it
in the eyes of the transaction, or somebody else has written a version that does. Then no
two rows ever share a key: the index is `Unique`, whatever transactions run at once.
-/

namespace Versions

variable {κ ι α β : Type*}

structure Row (ι α : Type*) where
  committed : Option α := none
  /-- Who has written the row and not ended, and its version: `none` where it deleted the row. -/
  held : Option (ι × Option α) := none

/-- The rows of a table by their primary key. -/
abbrev Rows (κ ι α : Type*) := κ → Row ι α

section Steps

variable [DecidableEq ι] {i j : ι} {x : Row ι α} {v own : Option α}

/-- What a transaction sees of a row. -/
def Row.seen (x : Row ι α) (i : ι) : Option α :=
  match x.held with
  | some (j, own) => if j = i then own else x.committed
  | none => x.committed

/-- Nobody else has written the row. -/
def Row.free (x : Row ι α) (i : ι) : Bool := x.held.all (·.1 = i)

/-- The transaction has written the row. -/
def Row.mine (x : Row ι α) (i : ι) : Bool := x.held.any (·.1 = i)

section Row

attribute [local simp] Row.seen Row.free Row.mine

theorem Row.seen_of_held (h : x.held = some (i, own)) : x.seen i = own := by simp [h]

theorem Row.seen_of_not_mine (h : x.mine i = false) : x.seen i = x.committed := by
  cases hx : x.held with
  | none => simp [hx]
  | some w =>
    have hne : w.1 ≠ i := by simpa [hx] using h
    simp [hx, hne]

theorem Row.mine_iff : x.mine i = true ↔ ∃ own, x.held = some (i, own) := by
  cases hx : x.held with
  | none => simp [hx]
  | some w =>
    obtain ⟨j, own⟩ := w
    simp [hx]

theorem Row.mine_of_held (h : x.held = some (i, own)) : x.mine i = true := mine_iff.mpr ⟨own, h⟩

theorem Row.not_mine_of_held (h : x.held = some (j, own)) (hne : j ≠ i) : x.mine i = false := by
  simp [h, hne]

theorem Row.eq_of_free (h : x.free i = true) (hx : x.held = some (j, own)) : j = i := by
  simpa [hx] using h

end Row

theorem Row.held_of_free (h : x.free i = true) (hmine : x.mine i = false) : x.held = none := by
  cases hx : x.held with
  | none => rfl
  | some w =>
    obtain rfl := Row.eq_of_free h hx
    rw [Row.mine_of_held hx] at hmine
    cases hmine

theorem Row.seen_cases (x : Row ι α) (i : ι) :
    x.held = some (i, x.seen i) ∨ x.mine i = false ∧ x.seen i = x.committed := by
  cases hmine : x.mine i with
  | true =>
    obtain ⟨own, hx⟩ := mine_iff.mp hmine
    exact .inl (by rw [seen_of_held hx, hx])
  | false => exact .inr ⟨rfl, seen_of_not_mine hmine⟩

variable {rows rows' : Rows κ ι α} {k l : κ}

/-- A transaction commits: its versions are everybody's. -/
def Rows.commit (rows : Rows κ ι α) (i : ι) : Rows κ ι α :=
  fun k => if (rows k).mine i then { committed := (rows k).seen i } else rows k

/-- A transaction rolls back: its versions are gone. -/
def Rows.rollback (rows : Rows κ ι α) (i : ι) : Rows κ ι α :=
  fun k => if (rows k).mine i then { committed := (rows k).committed } else rows k

@[simp] theorem Rows.committed_commit : (rows.commit i k).committed = (rows k).seen i := by
  unfold commit
  split_ifs with h
  · rfl
  · exact (Row.seen_of_not_mine (by simpa using h)).symm

@[simp] theorem Rows.committed_rollback : (rows.rollback i k).committed = (rows k).committed := by
  unfold rollback
  split_ifs <;> rfl

theorem Rows.held_commit :
    (rows.commit i k).held = some (j, own) ↔ (rows k).held = some (j, own) ∧ j ≠ i := by
  unfold commit
  cases hx : (rows k).held with
  | none => simp [Row.mine, hx]
  | some w => by_cases hw : w.1 = i <;> grind [Row.mine]

theorem Rows.held_rollback :
    (rows.rollback i k).held = some (j, own) ↔ (rows k).held = some (j, own) ∧ j ≠ i := by
  unfold rollback
  cases hx : (rows k).held with
  | none => simp [Row.mine, hx]
  | some w => by_cases hw : w.1 = i <;> grind [Row.mine]

/-- What everybody reads. -/
def Rows.read (rows : Rows κ ι α) : κ → Option α := fun k => (rows k).committed

/-- What a transaction sees. -/
def Rows.view (rows : Rows κ ι α) (i : ι) : κ → Option α := fun k => (rows k).seen i

@[simp] theorem Rows.read_commit : (rows.commit i).read = rows.view i := funext fun _ => committed_commit

@[simp] theorem Rows.read_rollback : (rows.rollback i).read = rows.read := funext fun _ => committed_rollback

theorem Rows.view_of_held (h : (rows k).held = some (i, own)) : rows.view i k = own := Row.seen_of_held h

theorem Rows.view_of_not_held (h : ∀ own, (rows k).held ≠ some (i, own)) : rows.view i k = rows.read k := by
  rcases (rows k).seen_cases i with hheld | ⟨-, hseen⟩
  · exact absurd hheld (h _)
  · exact hseen

theorem Rows.mem_of_seen {ids : List κ} {v : α} (hids : ∀ k, k ∉ ids → rows k = {}) (h : (rows k).seen i = some v) :
    k ∈ ids := by
  by_contra hk
  rw [hids k hk] at h
  cases h

/-- A row that is not there is not there after a commit, -/
theorem Rows.commit_of_empty (h : rows k = {}) : rows.commit i k = {} := by simp [commit, Row.mine, h]

/-- nor after a rollback. -/
theorem Rows.rollback_of_empty (h : rows k = {}) : rows.rollback i k = {} := by simp [rollback, Row.mine, h]

/-- A step of transaction `i` leaves the rows the others hold as they are, and gives them none. -/
def Untouched (i : ι) (rows rows' : Rows κ ι α) : Prop :=
  ∀ j, j ≠ i → ∀ k own, (rows k).held = some (j, own) ∨ (rows' k).held = some (j, own) → rows' k = rows k

omit [DecidableEq ι] in
theorem Untouched.refl : Untouched i rows rows := fun _ _ _ _ _ => rfl

theorem untouched_commit : Untouched i rows (rows.commit i) := by
  intro j hj k own hheld
  have hk : (rows k).held = some (j, own) := hheld.elim id fun h => (Rows.held_commit.mp h).1
  simp [Rows.commit, Row.not_mine_of_held hk hj]

theorem untouched_rollback : Untouched i rows (rows.rollback i) := by
  intro j hj k own hheld
  have hk : (rows k).held = some (j, own) := hheld.elim id fun h => (Rows.held_rollback.mp h).1
  simp [Rows.rollback, Row.not_mine_of_held hk hj]

theorem Untouched.seen (h : Untouched i rows rows') (hj : j ≠ i)
    (hcommitted : (rows' k).committed = (rows k).committed) : (rows' k).seen j = (rows k).seen j := by
  rcases (rows k).seen_cases j with hheld | ⟨hmine, hseen⟩
  · rw [h j hj k _ (.inl hheld)]
  · rcases (rows' k).seen_cases j with hheld' | ⟨-, hseen'⟩
    · rw [h j hj k _ (.inr hheld')]
    · rw [hseen', hseen, hcommitted]

/-- A statement of a transaction writes the rows it sees that meet a test. -/
def Rows.change (rows : Rows κ ι α) (i : ι) (p : κ → α → Bool) (f : α → Option α) : Rows κ ι α := fun k =>
  match (rows k).seen i with
  | some a => if p k a then { rows k with held := some (i, f a) } else rows k
  | none => rows k

variable {p : κ → α → Bool} {f : α → Option α}

@[simp] theorem Rows.read_change : (rows.change i p f).read = rows.read := by
  funext k
  simp only [read, change]
  split
  · split_ifs <;> rfl
  · rfl

theorem Rows.view_change : (rows.change i p f).view i k = (rows.view i k).bind fun a =>
    if p k a then f a else some a := by
  unfold view change
  split
  · rename_i a hseen
    rw [hseen, Option.bind_some]
    split_ifs
    · exact Row.seen_of_held rfl
    · exact hseen
  · rename_i hseen
    rw [hseen]
    rfl

/-- Whoever holds a row after the statement held it before, or has written it now. -/
theorem Rows.held_change (h : (rows.change i p f k).held = some (j, own)) :
    (rows k).held = some (j, own) ∨ j = i ∧ ∃ a, rows.view i k = some a ∧ p k a = true ∧ own = f a := by
  unfold change at h
  split at h
  · rename_i a hseen
    split_ifs at h with hp
    · cases h
      exact .inr ⟨rfl, a, hseen, hp, rfl⟩
    · exact .inl h
  · exact .inl h

theorem Rows.held_change_of {a : α} (hseen : rows.view i k = some a) (hp : p k a = true) :
    (rows.change i p f k).held = some (i, f a) := by
  have hseen : (rows k).seen i = some a := hseen
  simp [change, hseen, hp]

theorem Rows.change_of_not (h : ∀ a, rows.view i k = some a → p k a = false) : rows.change i p f k = rows k := by
  unfold change
  split
  · rename_i a hseen
    rw [if_neg (by rw [h a hseen]; exact Bool.false_ne_true)]
  · rfl

theorem Rows.change_of_empty (h : rows k = {}) : rows.change i p f k = {} := by
  refine (change_of_not fun a hseen => ?_).trans h
  rw [view, h] at hseen
  cases hseen

theorem untouched_change (h : ∀ k a, rows.view i k = some a → p k a = true → (rows k).free i = true) :
    Untouched i rows (rows.change i p f) := by
  intro j hj k own hheld
  refine Rows.change_of_not fun a hseen => ?_
  by_contra hp
  have hfree := h k a hseen (by simpa using hp)
  rcases hheld with hheld | hheld
  · exact hj (Row.eq_of_free hfree hheld)
  · rcases Rows.held_change hheld with hheld | ⟨rfl, -⟩
    · exact hj (Row.eq_of_free hfree hheld)
    · exact hj rfl

end Steps

section Write

variable [DecidableEq κ] {rows : Rows κ ι α} {i : ι} {k l : κ} {v : Option α}

/-- A transaction writes a row. -/
def Rows.write (rows : Rows κ ι α) (i : ι) (k : κ) (v : Option α) : Rows κ ι α :=
  Function.update rows k { rows k with held := some (i, v) }

@[simp] theorem Rows.write_self : rows.write i k v k = { rows k with held := some (i, v) } :=
  Function.update_self ..

theorem Rows.write_of_ne (h : l ≠ k) : rows.write i k v l = rows l := Function.update_of_ne h ..

@[simp] theorem Rows.committed_write : (rows.write i k v l).committed = (rows l).committed := by
  by_cases h : l = k
  · rw [h, write_self]
  · rw [write_of_ne h]

@[simp] theorem Rows.read_write : (rows.write i k v).read = rows.read := funext fun _ => committed_write

theorem Rows.held_write_self : (rows.write i k v k).held = some (i, v) := congrArg Row.held write_self

theorem Rows.held_write {j : ι} {own : Option α} (h : (rows.write i k v l).held = some (j, own)) :
    l = k ∧ j = i ∧ own = v ∨ l ≠ k ∧ (rows l).held = some (j, own) := by
  by_cases hl : l = k
  · subst hl
    rw [write_self] at h
    cases h
    exact .inl ⟨rfl, rfl, rfl⟩
  · exact .inr ⟨hl, by rwa [write_of_ne hl] at h⟩

theorem Rows.view_write_self [DecidableEq ι] : (rows.write i k v).view i k = v := view_of_held held_write_self

theorem Rows.view_write_of_ne [DecidableEq ι] (h : l ≠ k) : (rows.write i k v).view i l = rows.view i l :=
  congrArg (Row.seen · i) (write_of_ne h)

theorem untouched_write [DecidableEq ι] (h : (rows k).free i = true) : Untouched i rows (rows.write i k v) := by
  intro j hj l own hheld
  by_cases hl : l = k
  · subst hl
    rcases hheld with hheld | hheld
    · exact absurd (Row.eq_of_free h hheld) hj
    · rw [Rows.write_self] at hheld
      exact absurd (congrArg Prod.fst (Option.some.inj hheld)).symm hj
  · exact Rows.write_of_ne hl

/-- A statement outside any transaction gives a row a version that everybody reads, or takes the row away. -/
def Rows.put (rows : Rows κ ι α) (k : κ) (v : Option α) : Rows κ ι α := Function.update rows k { committed := v }

@[simp] theorem Rows.put_self : rows.put k v k = { committed := v } := Function.update_self ..

theorem Rows.put_of_ne (h : l ≠ k) : rows.put k v l = rows l := Function.update_of_ne h ..

theorem Rows.read_put : (rows.put k v).read = Function.update rows.read k v := by
  funext l
  by_cases hl : l = k
  · subst hl
    simp [read]
  · simp [read, put_of_ne hl, hl]

theorem Rows.held_put {j : ι} {own : Option α} (h : (rows.put k v l).held = some (j, own)) :
    l ≠ k ∧ (rows l).held = some (j, own) := by
  by_cases hl : l = k
  · subst hl
    rw [put_self] at h
    cases h
  · exact ⟨hl, by rwa [put_of_ne hl] at h⟩

theorem untouched_put (h : (rows k).held = none) : Untouched i rows (rows.put k v) := by
  intro j _ l own hheld
  by_cases hl : l = k
  · subst hl
    simp [h] at hheld
  · exact Rows.put_of_ne hl

end Write

/-! ### Unique indexes -/

section Index

variable [DecidableEq ι] [DecidableEq β] {key : α → Option β} {i : ι} {b : β} {x : Row ι α}

/-- The row has the key in the eyes of the transaction. -/
def Row.clashes (key : α → Option β) (i : ι) (b : β) (x : Row ι α) : Bool := (x.seen i).any (key · = some b)

/-- Neither in the eyes of the transaction nor in a version that is not committed the row has the key. -/
def Row.vacant (key : α → Option β) (i : ι) (b : β) (x : Row ι α) : Bool :=
  !x.clashes key i b && !(x.held.any fun w => w.2.any (key · = some b))

theorem Row.vacant_iff : x.vacant key i b = true ↔
    (∀ v, x.seen i = some v → key v ≠ some b) ∧ ∀ j v, x.held = some (j, some v) → key v ≠ some b := by
  simp only [vacant, clashes, Bool.and_eq_true, Bool.not_eq_true', Option.any_eq_false, decide_eq_false_iff_not,
    Prod.forall]
  exact and_congr_right fun _ => ⟨fun h j v hv => h j (some v) hv v rfl, fun h j own hown v hv => h j v (hv ▸ hown)⟩

variable {rows : Rows κ ι α} {k : κ} {v : Option α}

/-- **The index**: where a transaction has written a version with a key, no other row may come to have it. -/
def Unique (key : α → Option β) (rows : Rows κ ι α) : Prop :=
  ∀ i k v b, (rows k).held = some (i, some v) → key v = some b →
    ∀ l, l ≠ k → (rows l).vacant key i b = true

/-- No two rows that everybody reads share a key. -/
def Distinct (key : α → Option β) (rows : Rows κ ι α) : Prop :=
  ∀ k l v w b, (rows k).committed = some v → (rows l).committed = some w → key v = some b → key w = some b → k = l

omit [DecidableEq ι] [DecidableEq β] in
theorem Distinct.of_read {rows' : Rows κ ι α} (h : Distinct key rows) (hread : rows'.read = rows.read) :
    Distinct key rows' :=
  fun k l v w b hv hw => h k l v w b ((congrFun hread k).symm.trans hv) ((congrFun hread l).symm.trans hw)

theorem Row.vacant_of_committed {x' : Row ι α} (h : x.vacant key i b = true)
    (hseen : ∀ v, x'.seen i = some v → key v = some b → x.seen i = some v)
    (hheld : ∀ j v, x'.held = some (j, some v) → key v = some b → x.held = some (j, some v)) :
    x'.vacant key i b = true := by
  obtain ⟨h1, h2⟩ := vacant_iff.mp h
  exact vacant_iff.mpr ⟨fun v hv hb => h1 v (hseen v hv hb) hb, fun j v hv hb => h2 j v (hheld j v hv hb) hb⟩

theorem Unique.rollback (h : Unique key rows) : Unique key (rows.rollback i) := by
  intro j m w b hm hb l hl
  obtain ⟨hm, hj⟩ := Rows.held_rollback.mp hm
  refine Row.vacant_of_committed (h j m w b hm hb l hl) (fun u hu _ => ?_) fun a u hu _ => (Rows.held_rollback.mp hu).1
  rwa [untouched_rollback.seen hj Rows.committed_rollback] at hu

theorem Unique.commit (h : Unique key rows) : Unique key (rows.commit i) := by
  intro j m w b hm hb l hl
  obtain ⟨hm, hj⟩ := Rows.held_commit.mp hm
  have hold := h j m w b hm hb l hl
  cases hmine : (rows l).mine i with
  | false => rwa [show rows.commit i l = rows l by simp [Rows.commit, hmine]]
  | true =>
    obtain ⟨own, hl⟩ := Row.mine_iff.mp hmine
    -- what `i` has written has another key, and is what `j` sees now
    have hown := (Row.vacant_iff.mp hold).2 i
    have hrow : rows.commit i l = { committed := own } := by simp [Rows.commit, hmine, Row.seen_of_held hl]
    rw [hrow]
    refine Row.vacant_iff.mpr ⟨fun u hu => hown u ?_, nofun⟩
    rw [hl, show own = some u by simpa [Row.seen] using hu]

theorem Unique.distinct_commit (h : Unique key rows) (hd : Distinct key rows) : Distinct key (rows.commit i) := by
  -- a version with the key that `i` has written, against any other row
  have hmine : ∀ k l v w b, (rows k).held = some (i, some v) → (rows l).seen i = some w → key v = some b →
      key w = some b → k = l := by
    intro k l v w b hk hl hv hw
    by_contra hne
    exact (Row.vacant_iff.mp (h i k v b hk hv l (Ne.symm hne))).1 w hl hw
  intro k l v w b hk hl hv hw
  rw [Rows.committed_commit] at hk hl
  rcases (rows k).seen_cases i with hheld | ⟨-, hseen⟩
  · exact hmine k l v w b (by rw [hheld, hk]) hl hv hw
  · rcases (rows l).seen_cases i with hheld' | ⟨-, hseen'⟩
    · exact (hmine l k w v b (by rw [hheld', hl]) hk hw hv).symm
    · exact hd k l v w b (hseen ▸ hk) (hseen' ▸ hl) hv hw

/-- No other row may come to have the key of a version that a transaction sees and may write. -/
theorem Unique.vacant_of_seen (h : Unique key rows) (hd : Distinct key rows) {a : α} (hfree : (rows k).free i = true)
    (hseen : (rows k).seen i = some a) (hb : key a = some b) : ∀ l, l ≠ k → (rows l).vacant key i b = true := by
  intro l hl
  rcases (rows k).seen_cases i with hheld | ⟨hmine, hcommitted⟩
  · exact h i k a b (hheld.trans (by rw [hseen])) hb l hl
  · have hnone := Row.held_of_free hfree hmine
    refine Row.vacant_iff.mpr ⟨fun v hv hvb => ?_, fun j v hv hvb => ?_⟩
    · rcases (rows l).seen_cases i with hheld' | ⟨-, hcommitted'⟩
      · exact (Row.vacant_iff.mp (h i l v b (hheld'.trans (by rw [hv])) hvb k hl.symm)).1 a hseen hb
      · exact hl (hd k l a v b (hcommitted ▸ hseen) (hcommitted' ▸ hv) hb hvb).symm
    · refine (Row.vacant_iff.mp (h j l v b hv hvb k hl.symm)).1 a ?_ hb
      rw [Row.seen, hnone, ← hseen, Row.seen, hnone]

/-- A statement that keeps the keys of what it writes keeps the index. -/
theorem Unique.change (h : Unique key rows) (hd : Distinct key rows) {p : κ → α → Bool} {f : α → Option α}
    (hfree : ∀ k a, rows.view i k = some a → p k a = true → (rows k).free i = true)
    (hkey : ∀ a c, f a = some c → key c = key a) : Unique key (rows.change i p f) := by
  intro j m w b hm hb l hl
  have hvacant : (rows l).vacant key j b = true := by
    rcases Rows.held_change hm with hold | ⟨rfl, a, hseen, hp, hf⟩
    · exact h j m w b hold hb l hl
    · exact h.vacant_of_seen hd (hfree m a hseen hp) hseen ((hkey a w hf.symm).symm.trans hb) l hl
  obtain ⟨hsees, hholds⟩ := Row.vacant_iff.mp hvacant
  refine Row.vacant_iff.mpr ⟨fun v hv hvb => ?_, fun j' v hv hvb => ?_⟩
  · by_cases hj : j = i
    · subst hj
      rw [show (rows.change j p f l).seen j = _ from Rows.view_change] at hv
      obtain ⟨a, hseen, hv⟩ := Option.bind_eq_some_iff.mp hv
      split_ifs at hv with hp
      · exact hsees a hseen ((hkey a v hv).symm.trans hvb)
      · exact hsees a hseen (Option.some.inj hv ▸ hvb)
    · rw [(untouched_change hfree).seen hj (congrFun Rows.read_change l)] at hv
      exact hsees v hv hvb
  · rcases Rows.held_change hv with hold | ⟨rfl, a, hseen, hp, hf⟩
    · exact hholds j' v hold hvb
    · have hab := (hkey a v hf.symm).symm.trans hvb
      rcases (rows l).seen_cases j' with hheld | ⟨hmine, hcommitted⟩
      · exact hholds j' a (hheld.trans (by rw [show (rows l).seen j' = some a from hseen])) hab
      · refine hsees a ?_ hab
        rw [← hseen, Rows.view, Row.seen, Row.seen, Row.held_of_free (hfree l a hseen hp) hmine]

variable [DecidableEq κ]

/-- A row is given a version whose key, if it has one, no other row may come to have. -/
theorem Unique.put (h : Unique key rows) (hvacant : ∀ w b, v = some w → key w = some b → ∀ l, l ≠ k →
    (rows l).vacant key i b = true) :
    Unique key (rows.put k v) := by
  intro j m w b hm hb l hl
  obtain ⟨hmk, hold⟩ := Rows.held_put hm
  by_cases hlk : l = k
  · subst hlk
    rw [Rows.put_self]
    refine Row.vacant_iff.mpr ⟨fun u hu hub => ?_, nofun⟩
    exact (Row.vacant_iff.mp (hvacant u b (by simpa [Row.seen] using hu) hub m hmk)).2 j w hold hb
  · rw [Rows.put_of_ne hlk]
    exact h j m w b hold hb l hl

theorem Distinct.put (h : Distinct key rows) (hnone : ∀ l own, (rows l).held ≠ some (i, own))
    (hvacant : ∀ w b, v = some w → key w = some b → ∀ l, l ≠ k → (rows l).vacant key i b = true) : Distinct key
      (rows.put k v) := by
  have hnew : ∀ l u w b, v = some u → (rows l).committed = some w → key u = some b → key w = some b → l = k := by
    intro l u w b hu hl hub hwb
    by_contra hne
    exact (Row.vacant_iff.mp (hvacant u b hu hub l hne)).1 w ((Rows.view_of_not_held (hnone l)).trans hl) hwb
  intro l m u w b hl hm hub hwb
  by_cases hlk : l = k <;> by_cases hmk : m = k
  · rw [hlk, hmk]
  · rw [hlk, Rows.put_self] at hl
    rw [Rows.put_of_ne hmk] at hm
    exact absurd (hnew m u w b hl hm hub hwb) hmk
  · rw [hmk, Rows.put_self] at hm
    rw [Rows.put_of_ne hlk] at hl
    exact absurd (hnew l w u b hm hl hwb hub) hlk
  · rw [Rows.put_of_ne hlk] at hl
    rw [Rows.put_of_ne hmk] at hm
    exact h l m u w b hl hm hub hwb

/-- A transaction writes a version whose key, if it has one, no other row may come to have. -/
theorem Unique.write (h : Unique key rows) (hfree : (rows k).free i = true)
    (hvacant : ∀ w b, v = some w → key w = some b → ∀ l, l ≠ k → (rows l).vacant key i b = true) :
    Unique key (rows.write i k v) := by
  intro j m w b hm hb l hl
  by_cases hmk : m = k
  · subst hmk
    rw [Rows.write_self] at hm
    cases hm
    rw [Rows.write_of_ne hl]
    exact hvacant w b rfl hb l hl
  · rw [Rows.write_of_ne hmk] at hm
    have hold := h j m w b hm hb l hl
    by_cases hlk : l = k
    · subst hlk
      -- the new version has another key, or the row of `j` would not have been vacant
      have hkey : ∀ u, v = some u → key u ≠ some b := fun u hu hub =>
        (Row.vacant_iff.mp (hvacant u b hu hub m hmk)).2 j w hm hb
      rw [Rows.write_self]
      refine Row.vacant_iff.mpr ⟨fun u hu hub => ?_, fun a u hu hub => ?_⟩
      · by_cases hij : i = j
        · subst hij
          exact hkey u (by simpa [Row.seen] using hu) hub
        · have hcommitted : (rows l).seen j = (rows l).committed := by
            rcases (rows l).seen_cases j with hheld | ⟨-, hseen⟩
            · exact absurd (Row.eq_of_free hfree hheld).symm hij
            · exact hseen
          refine (Row.vacant_iff.mp hold).1 u ?_ hub
          rw [hcommitted]
          simpa [Row.seen, hij] using hu
      · cases hu
        exact hkey u rfl hub
    · rwa [Rows.write_of_ne hlk]

end Index

end Versions
