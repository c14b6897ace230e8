import Mathlib.Data.Nat.Notation
import Mathlib.Data.List.Basic

/-!
# Guarded computations

Computations on slices and on words of 64 bits that stop where the machine would: an element or a slice outside, a sum
or a product that does not fit, a division by zero; or where a loop has used up the turns it was given. `Yields` says
that a computation comes to an end with a value that has a property, with a rule for every way to build one.
-/

namespace Guarded

/-- Why a computation stops. -/
inductive Trap where
  | outside
  | overflow
  | divideByZero
  | exhausted
  deriving DecidableEq

variable {α β : Type}

/-- The greatest word. -/
def wordMax : ℕ := 0xffffffffffffffff

/-- One more than the length of the longest slice. -/
def sliceLimit : ℕ := 0x8000000000000000

/-- An element. -/
def index (l : List α) (i : ℕ) : Except Trap α :=
  match l[i]? with
  | some a => .ok a
  | none => .error .outside

/-- The elements from one place to another, where there are such. -/
def range (l : List α) (start stop : ℕ) : Option (List α) :=
  if start ≤ stop ∧ stop ≤ l.length then some ((l.drop start).take (stop - start)) else none

/-- The elements from one place to another. -/
def slice (l : List α) (start stop : ℕ) : Except Trap (List α) :=
  match range l start stop with
  | some part => .ok part
  | none => .error .outside

/-- A sum. -/
def add (a b : ℕ) : Except Trap ℕ := if a + b ≤ wordMax then .ok (a + b) else .error .overflow

/-- A difference. -/
def sub (a b : ℕ) : Except Trap ℕ := if b ≤ a then .ok (a - b) else .error .overflow

/-- A product. -/
def mul (a b : ℕ) : Except Trap ℕ := if a * b ≤ wordMax then .ok (a * b) else .error .overflow

/-- A quotient. -/
def div (a b : ℕ) : Except Trap ℕ := if b = 0 then .error .divideByZero else .ok (a / b)

/-- A sum that is absent when it does not fit. -/
def checkedAdd (a b : ℕ) : Option ℕ := if a + b ≤ wordMax then some (a + b) else none

/-- A product that is absent when it does not fit. -/
def checkedMul (a b : ℕ) : Option ℕ := if a * b ≤ wordMax then some (a * b) else none

/-- A sum, or the greatest word. -/
def saturatingAdd (a b : ℕ) : ℕ := min (a + b) wordMax

/-- A product, or the greatest word. -/
def saturatingMul (a b : ℕ) : ℕ := min (a * b) wordMax

variable {l part : List α} {start stop i a b c : ℕ}

theorem range_eq_some :
    range l start stop = some part ↔ start ≤ stop ∧ stop ≤ l.length ∧ part = (l.drop start).take (stop - start) := by
  rw [range]
  split_ifs with h
  · simp [h, eq_comm]
  · rw [not_and] at h
    simp only [false_iff]
    exact fun hpart => h hpart.1 hpart.2.1

theorem length_of_range (h : range l start stop = some part) : part.length = stop - start := by
  obtain ⟨-, hstop, rfl⟩ := range_eq_some.mp h
  rw [List.length_take, List.length_drop]
  omega

/-- A part lies at a place. -/
def Lies (l : List α) (start : ℕ) (part : List α) : Prop := part <+: l.drop start

instance [DecidableEq α] (l : List α) (start : ℕ) (part : List α) : Decidable (Lies l start part) :=
  inferInstanceAs (Decidable (part <+: l.drop start))

theorem Lies.append_iff {part' : List α} :
    Lies l start (part ++ part') ↔ Lies l start part ∧ Lies l (start + part.length) part' := by
  rw [Lies, Lies, Lies, ← List.drop_drop]
  constructor
  · rintro ⟨rest, hrest⟩
    rw [← hrest, List.append_assoc]
    exact ⟨List.prefix_append _ _, by rw [List.drop_left]; exact List.prefix_append _ _⟩
  · rintro ⟨⟨rest, hrest⟩, hlast⟩
    rw [← hrest, List.drop_left] at hlast
    rw [← hrest]
    exact (List.prefix_append_right_inj part).mpr hlast

theorem Lies.le_length (h : Lies l start part) (hne : part ≠ []) : start + part.length ≤ l.length := by
  have hlength := List.IsPrefix.length_le h
  have hpos := List.length_pos_iff.mpr hne
  rw [List.length_drop] at hlength
  omega

theorem range_of_lies (h : Lies l start part) (hstart : start ≤ l.length) :
    range l start (start + part.length) = some part := by
  have hlength := List.IsPrefix.length_le h
  rw [List.length_drop] at hlength
  refine range_eq_some.mpr ⟨Nat.le_add_right _ _, by omega, ?_⟩
  rw [Nat.add_sub_cancel_left]
  exact List.prefix_iff_eq_take.mp h

theorem checkedAdd_eq_some : checkedAdd a b = some c ↔ a + b ≤ wordMax ∧ c = a + b := by
  rw [checkedAdd]
  split_ifs with h <;> simp [h, eq_comm]

theorem checkedMul_eq_some : checkedMul a b = some c ↔ a * b ≤ wordMax ∧ c = a * b := by
  rw [checkedMul]
  split_ifs with h <;> simp [h, eq_comm]

/-! ### What a computation yields -/

/-- A computation comes to an end with a value that has a property. -/
def Yields (m : Except Trap α) (p : α → Prop) : Prop := ∃ a, m = .ok a ∧ p a

variable {m : Except Trap α} {f : α → Except Trap β} {p : α → Prop} {q : β → Prop}

theorem yields_pure {x : α} (h : p x) : Yields (pure x) p := ⟨x, rfl, h⟩

@[simp] theorem ok_bind (x : α) (f : α → Except Trap β) : (Except.ok x >>= f) = f x := rfl

theorem Yields.bind (hm : Yields m p) (hf : ∀ x, p x → Yields (f x) q) : Yields (m >>= f) q := by
  obtain ⟨x, rfl, hx⟩ := hm
  exact hf x hx

theorem Yields.map {g : α → β} (hm : Yields m p) (hg : ∀ x, p x → q (g x)) : Yields (g <$> m) q := by
  obtain ⟨x, rfl, hx⟩ := hm
  exact ⟨g x, rfl, hg x hx⟩

theorem Yields.mono {p' : α → Prop} (hm : Yields m p) (h : ∀ x, p x → p' x) : Yields m p' := by
  obtain ⟨x, rfl, hx⟩ := hm
  exact ⟨x, rfl, h x hx⟩

theorem yields_ite {P : Prop} [Decidable P] {m' : Except Trap α} (hpos : P → Yields m p) (hneg : ¬ P → Yields m' p) :
    Yields (if P then m else m') p := by
  split_ifs with h
  · exact hpos h
  · exact hneg h

theorem ite_ok {P : Prop} [Decidable P] {m' : Except Trap α} {x : α} (hpos : P → m = .ok x) (hneg : ¬ P → m' = .ok x) :
    (if P then m else m') = .ok x := by
  split_ifs with h
  · exact hpos h
  · exact hneg h

theorem mapM_yields {l : List α} {f : α → Except Trap β} {r : α → β → Prop} (h : ∀ a ∈ l, Yields (f a) (r a)) :
    Yields (l.mapM f) fun out => List.Forall₂ r l out := by
  induction l with
  | nil => exact yields_pure .nil
  | cons a l ih =>
    rw [List.forall_mem_cons] at h
    rw [List.mapM_cons]
    exact h.1.bind fun b hb => (ih h.2).bind fun out hout => yields_pure (.cons hb hout)

theorem index_yields (h : i < l.length) : Yields (index l i) (· = l[i]) := by
  refine ⟨l[i], ?_, rfl⟩
  rw [index, List.getElem?_eq_getElem h]

theorem slice_yields (hle : start ≤ stop) (hstop : stop ≤ l.length) :
    Yields (slice l start stop) (· = (l.drop start).take (stop - start)) := by
  refine ⟨_, ?_, rfl⟩
  rw [slice, range, if_pos ⟨hle, hstop⟩]

theorem add_eq (h : a + b ≤ wordMax) : add a b = .ok (a + b) := if_pos h

theorem add_yields (h : a + b ≤ wordMax) : Yields (add a b) (· = a + b) := ⟨a + b, add_eq h, rfl⟩

theorem sub_yields (h : b ≤ a) : Yields (sub a b) (· = a - b) := ⟨a - b, if_pos h, rfl⟩

theorem mul_yields (h : a * b ≤ wordMax) : Yields (mul a b) (· = a * b) := ⟨a * b, if_pos h, rfl⟩

theorem div_yields (h : b ≠ 0) : Yields (div a b) (· = a / b) := ⟨a / b, if_neg h, rfl⟩

/-! ### Loops -/

/-- A loop whose turns go on with a state, or end with a value. -/
def loop {σ : Type} (turn : σ → Except Trap (σ ⊕ α)) : ℕ → σ → Except Trap α
  | 0, _ => .error .exhausted
  | turns + 1, s => do
    match ← turn s with
    | .inl s => loop turn turns s
    | .inr a => pure a

/-- What a turn is to yield: a state with the invariant that is less, or a value with the property. -/
def Turns {σ : Type} (inv : σ → Prop) (μ : σ → ℕ) (p : α → Prop) (s : σ) : σ ⊕ α → Prop
  | .inl s' => inv s' ∧ μ s' < μ s
  | .inr a => p a

/-- A computation that may take so many turns comes to a value with a property, always the same when the turns are more
than a bound. -/
def Settles (bound : ℕ) (m : ℕ → Except Trap α) (p : α → Prop) : Prop :=
  ∃ a, p a ∧ ∀ turns, bound < turns → m turns = .ok a

section Settles

variable {bound : ℕ} {m' m'' : ℕ → Except Trap α}

theorem settles_of_yields (h : Yields m p) (bound : ℕ) : Settles bound (fun _ => m) p := by
  obtain ⟨a, hm, ha⟩ := h
  exact ⟨a, ha, fun _ _ => hm⟩

theorem Settles.mono {p' : α → Prop} (hm : Settles bound m' p) (h : ∀ a, p a → p' a) : Settles bound m' p' := by
  obtain ⟨a, ha, hm⟩ := hm
  exact ⟨a, h a ha, hm⟩

theorem settles_ite {P : Prop} [Decidable P] (hpos : P → Settles bound m' p) (hneg : ¬ P → Settles bound m'' p) :
    Settles bound (fun turns => if P then m' turns else m'' turns) p := by
  split_ifs with h
  · exact hpos h
  · exact hneg h

theorem settles_bind {f : α → ℕ → Except Trap β} (hm : Yields m p) (hf : ∀ a, p a → Settles bound (f a) q) :
    Settles bound (fun turns => m >>= fun a => f a turns) q := by
  obtain ⟨a, rfl, ha⟩ := hm
  exact hf a ha

theorem Settles.bind {f : α → ℕ → Except Trap β} (hm : Settles bound m' p) (hf : ∀ a, p a → Settles bound (f a) q) :
    Settles bound (fun turns => m' turns >>= fun a => f a turns) q := by
  obtain ⟨a, ha, hm⟩ := hm
  obtain ⟨b, hb, hf⟩ := hf a ha
  refine ⟨b, hb, fun turns hturns => ?_⟩
  have hm : m' turns = .ok a := hm turns hturns
  have hf : f a turns = .ok b := hf turns hturns
  dsimp only
  rw [hm, ok_bind, hf]

/-- **A loop ends**, with one value however many turns it may take, when each turn settles and makes its state less. -/
theorem settles_loop {σ : Type} {turn : ℕ → σ → Except Trap (σ ⊕ α)} {inv : σ → Prop} {μ : σ → ℕ}
    (hturn : ∀ s, inv s → Settles bound (fun turns => turn turns s) (Turns inv μ p s)) {s : σ} (hs : inv s)
    (hμ : μ s ≤ bound) : Settles bound (fun turns => loop (turn turns) turns s) p := by
  have hloop : ∃ a, p a ∧ ∀ turns, bound < turns → ∀ left, μ s < left → loop (turn turns) left s = .ok a := by
    clear hμ
    induction hμ : μ s using Nat.strongRecOn generalizing s with
    | ind n ih =>
      obtain ⟨r, hturns, hr⟩ := hturn s hs
      cases r with
      | inl s' =>
        obtain ⟨hs', hless⟩ := hturns
        obtain ⟨a, ha, hloop⟩ := ih (μ s') (hμ ▸ hless) hs' rfl
        refine ⟨a, ha, fun turns hbound left hle => ?_⟩
        obtain ⟨left, rfl⟩ := Nat.exists_eq_add_of_lt hle
        have hr : turn turns s = .ok (.inl s') := hr turns hbound
        rw [loop, hr]
        exact hloop turns hbound _ (by omega)
      | inr a =>
        refine ⟨a, hturns, fun turns hbound left hle => ?_⟩
        obtain ⟨left, rfl⟩ := Nat.exists_eq_add_of_lt hle
        have hr : turn turns s = .ok (.inr a) := hr turns hbound
        rw [loop, hr]
        rfl
  obtain ⟨a, ha, hloop⟩ := hloop
  exact ⟨a, ha, fun turns hturns => hloop turns hturns turns (Nat.lt_of_le_of_lt hμ hturns)⟩

theorem loop_settles {σ : Type} {turn : σ → Except Trap (σ ⊕ α)} {inv : σ → Prop} {μ : σ → ℕ}
    (hturn : ∀ s, inv s → Yields (turn s) (Turns inv μ p s)) {s : σ} (hs : inv s) (hμ : μ s ≤ bound) :
    Settles bound (fun turns => loop turn turns s) p :=
  settles_loop (fun s hs => settles_of_yields (hturn s hs) bound) hs hμ

end Settles

theorem loop_of_turn {σ : Type} {turn : σ → Except Trap (σ ⊕ α)} {s s' : σ} {turns : ℕ} {a : α}
    (hturn : turn s = .ok (.inl s')) (h : loop turn turns s = .ok a) : ∃ turns, loop turn turns s' = .ok a := by
  cases turns with
  | zero => cases h
  | succ turns =>
    rw [loop, hturn] at h
    exact ⟨turns, h⟩

theorem loop_keeps {σ : Type} {turn : σ → Except Trap (σ ⊕ α)} {inv : σ → Prop}
    (hgoes : ∀ s s', inv s → turn s = .ok (.inl s') → inv s') (hends : ∀ s a, inv s → turn s = .ok (.inr a) → p a)
    {s : σ} {turns : ℕ} {a : α} (hs : inv s) (h : loop turn turns s = .ok a) : p a := by
  induction turns generalizing s with
  | zero => cases h
  | succ turns ih =>
    rw [loop] at h
    cases hturn : turn s with
    | error e =>
      rw [hturn] at h
      cases h
    | ok r =>
      rw [hturn] at h
      cases r with
      | inl s' => exact ih (hgoes s s' hs hturn) h
      | inr a' =>
        cases h
        exact hends s _ hs hturn

theorem turn_of_loop {σ : Type} {turn : σ → Except Trap (σ ⊕ α)} {s : σ} {turns : ℕ} {a : α}
    (h : loop turn turns s = .ok a) : ∃ r, turn s = .ok r := by
  cases turns with
  | zero => cases h
  | succ turns =>
    rw [loop] at h
    cases hturn : turn s with
    | error e =>
      rw [hturn] at h
      cases h
    | ok r => exact ⟨r, rfl⟩

end Guarded
