import Mathlib.Data.List.Basic
import Mathlib.Data.List.Infix

/-!
# Nested maps

Values that may have entries, each a value again, read and written at paths of keys. A write
makes a map of whatever stands in its way. After a list of writes, a path has what the last
of those that reach it left there (`left_writes`): a write reaches what is on its path, and
what is below or above it.
-/

namespace Nested

variable {K V : Type*}

/-- A write at `path` changes what is at `other`. -/
def Reaches (path other : List K) : Prop := path <+: other ∨ other <+: path

theorem reaches_cons {k l : K} {path other : List K} :
    Reaches (k :: path) (l :: other) ↔ k = l ∧ Reaches path other := by
  simp only [Reaches, List.cons_prefix_cons, eq_comm (a := l), ← and_or_left]

theorem reaches_nil (path : List K) : Reaches [] path := .inl List.nil_prefix

variable [DecidableEq K]

instance (path other : List K) : Decidable (Reaches path other) := inferInstanceAs (Decidable (_ ∨ _))

def last (l : List (List K × V)) (path : List K) : Option (List K × V) := (l.filter fun w => Reaches w.1 path).getLast?

theorem last_concat (l : List (List K × V)) (w : List K × V) (path : List K) :
    last (l ++ [w]) path = if Reaches w.1 path then some w else last l path := by
  rw [last, List.filter_append]
  split_ifs with h
  · rw [List.filter_cons_of_pos (by simpa using h), List.filter_nil, List.getLast?_concat]
  · rw [List.filter_cons_of_neg (by simpa using h), List.filter_nil, List.append_nil]
    rfl

/-- Values with entries. -/
structure Nest (K V : Type*) where
  /-- The entries of a value; a value that is no map has none. -/
  entries : V → List (K × V)
  node : List (K × V) → V
  entries_node : ∀ l, entries (node l) = l

/-- The value at a path. -/
def Nest.read (n : Nest K V) (v : V) : List K → Option V
  | [] => some v
  | k :: path => ((n.entries v).lookup k).bind fun inner => n.read inner path

theorem Nest.read_append (n : Nest K V) (v : V) (path rest : List K) :
    n.read v (path ++ rest) = (n.read v path).bind fun inner => n.read inner rest := by
  induction path generalizing v with
  | nil => rfl
  | cons k path ih =>
    rw [List.cons_append, read, read, Option.bind_assoc]
    exact Option.bind_congr fun inner _ => ih inner

/-! ### Entries -/

variable [LT K] [DecidableLT K]

/-- Entries with one put in: in its place, or before the first of a greater key. -/
def put (k : K) (v : V) : List (K × V) → List (K × V)
  | [] => [(k, v)]
  | (l, w) :: rest =>
    if k = l then (k, v) :: rest
    else if k < l then (k, v) :: (l, w) :: rest
    else (l, w) :: put k v rest

variable {k l : K} {v w : V} {entries : List (K × V)}

theorem lookup_put_self : (put k v entries).lookup k = some v := by
  fun_induction put k v entries with
  | case1 => simp
  | case2 w rest => simp
  | case3 l w rest hne hlt => simp
  | case4 l w rest hne hge ih => rw [List.lookup_cons, beq_false_of_ne hne, ih]

theorem lookup_put_of_ne (h : l ≠ k) : (put k v entries).lookup l = entries.lookup l := by
  have hlk : (l == k) = false := beq_false_of_ne h
  fun_induction put k v entries with
  | case1 => simp [List.lookup_cons, hlk]
  | case2 w rest => simp [List.lookup_cons, hlk]
  | case3 m w rest hne hlt => simp [List.lookup_cons, hlk]
  | case4 m w rest hne hge ih => rw [List.lookup_cons, List.lookup_cons, ih]

/-! ### Writes -/

namespace Nest

variable (n : Nest K V)

/-- A value with another put at a path. -/
def write (value v : V) : List K → V
  | [] => value
  | k :: path => n.node (put k (write value (((n.entries v).lookup k).getD (n.node [])) path) (n.entries v))

/-- The writes of a list, one after another. -/
def writes (v : V) (l : List (List K × V)) : V := l.foldl (fun v w => n.write w.2 v w.1) v

variable {n} {value : V} {path other rest : List K}

theorem write_congr (h : n.entries v = n.entries w) : n.write value v (k :: path) = n.write value w (k :: path) := by
  rw [write, write, h]

theorem read_write_append : n.read (n.write value v path) (path ++ rest) = n.read value rest := by
  induction path generalizing v with
  | nil => rfl
  | cons k path ih =>
    rw [write, List.cons_append, read, n.entries_node, lookup_put_self]
    exact ih

theorem read_write_above (h : other <+: path) (hne : other ≠ path) :
    ∃ entries, n.read (n.write value v path) other = some (n.node entries) := by
  induction path generalizing v other with
  | nil => exact absurd (List.prefix_nil.mp h) hne
  | cons k path ih =>
    cases other with
    | nil => exact ⟨_, rfl⟩
    | cons l other =>
      obtain ⟨rfl, hprefix⟩ := List.cons_prefix_cons.mp h
      rw [write, read, n.entries_node, lookup_put_self]
      exact ih hprefix fun heq => hne (heq ▸ rfl)

/-- What a write does not reach it leaves. -/
theorem read_write_of_not_reaches (h : ¬ Reaches path other) :
    n.read (n.write value v path) other = n.read v other := by
  induction path generalizing v other with
  | nil => exact absurd (reaches_nil other) h
  | cons k path ih =>
    cases other with
    | nil => exact absurd (.inr List.nil_prefix) h
    | cons l other =>
      rw [write, read, read, n.entries_node]
      by_cases heq : l = k
      · subst heq
        have hrest : ¬ Reaches path other := fun hr => h (reaches_cons.mpr ⟨rfl, hr⟩)
        rw [lookup_put_self]
        refine (ih hrest).trans ?_
        rcases (n.entries v).lookup l with _ | inner
        · -- Nothing was there, and a new map has nothing but the write.
          cases other with
          | nil => exact absurd (.inr List.nil_prefix) hrest
          | cons m other =>
            rw [Option.getD_none, read, n.entries_node]
            rfl
        · rfl
      · rw [lookup_put_of_ne heq]

/-- What a write leaves at a path it reaches. -/
def Left (n : Nest K V) (w : List K × V) (path : List K) (found : Option V) : Prop :=
  (∃ rest, path = w.1 ++ rest ∧ found = n.read w.2 rest) ∨
    (path <+: w.1 ∧ path ≠ w.1) ∧ ∃ entries, found = some (n.node entries)

theorem left_write (h : Reaches path other) : n.Left (path, value) other (n.read (n.write value v path) other) := by
  by_cases hbelow : path <+: other
  · obtain ⟨rest, rfl⟩ := hbelow
    exact .inl ⟨rest, rfl, read_write_append⟩
  · have habove : other <+: path := h.resolve_left hbelow
    have hne : other ≠ path := fun heq => hbelow (heq ▸ List.prefix_rfl)
    exact .inr ⟨⟨habove, hne⟩, read_write_above habove hne⟩

theorem writes_concat (v : V) (l : List (List K × V)) (w : List K × V) :
    n.writes v (l ++ [w]) = n.write w.2 (n.writes v l) w.1 := by
  rw [writes, List.foldl_append]
  rfl

/-- **Writes**: what is at a path is what the last of those that reach it left. -/
theorem left_writes {l : List (List K × V)} {w : List K × V} (h : last l path = some w) (v : V) :
    n.Left w path (n.read (n.writes v l) path) := by
  induction l using List.reverseRecOn with
  | nil => cases h
  | append_singleton l w' ih =>
    rw [last_concat] at h
    rw [writes_concat]
    split_ifs at h with hreach
    · rw [← Option.some.inj h]
      exact left_write hreach
    · rw [read_write_of_not_reaches hreach]
      exact ih h

theorem read_writes_of_none {l : List (List K × V)} (h : last l path = none) (v : V) :
    n.read (n.writes v l) path = n.read v path := by
  induction l using List.reverseRecOn with
  | nil => rfl
  | append_singleton l w ih =>
    rw [last_concat] at h
    split_ifs at h with hreach
    rw [writes_concat, read_write_of_not_reaches hreach, ih h]

end Nest

end Nested
