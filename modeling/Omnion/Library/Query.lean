import Mathlib.Init

/-!
# Calls on a database

A call reads and writes a state and answers a value or an error. Writes made
before an error stay, unless the calls are in one `transaction`.

`Returns c s a t` says that call `c` in state `s` succeeds with `a` and leaves
state `t`. It is given for each way to build a call, as a simp set: a successful
call is taken apart from its parts' successes. A call that only reads and then makes
one statement or one transaction is `Atomic`: refused, it has changed nothing.
-/

/-- A call on a state `σ` that answers a value or an error. -/
def Query (σ ε α : Type*) := σ → Except ε α × σ

namespace Query

universe v

variable {σ ε : Type*} {α β : Type v}

instance : Monad (Query σ ε) where
  pure a := fun s => (.ok a, s)
  bind c f := fun s =>
    match c s with
    | (.ok a, t) => f a t
    | (.error e, t) => (.error e, t)

/-- Answer an error. -/
def fail (e : ε) : Query σ ε α := fun s => (.error e, s)

/-- A pure check. -/
def check (r : Except ε α) : Query σ ε α := fun s => (r, s)

/-- Go on only when `p` holds. -/
def require (p : Prop) [Decidable p] (e : ε) : Query σ ε PUnit := check (if p then .ok ⟨⟩ else .error e)

def read (f : σ → α) : Query σ ε α := fun s => (.ok (f s), s)

/-- One statement: it changes the state, or is refused and changes nothing. -/
def statement (f : σ → Except ε (α × σ)) : Query σ ε α := fun s =>
  match f s with
  | .ok (a, t) => (.ok a, t)
  | .error e => (.error e, s)

/-- The value of an optional row, or an error when there is none. -/
def orFail (e : ε) : Option α → Query σ ε α
  | some a => pure a
  | none => fail e

/-- Several calls that change the state only together. -/
def transaction (c : Query σ ε α) : Query σ ε α := fun s =>
  match c s with
  | (.ok a, t) => (.ok a, t)
  | (.error e, _) => (.error e, s)

/-- Make a call and look at its answer, also when it is an error. -/
def attempt (c : Query σ ε α) : Query σ ε (Except ε α) := fun s =>
  match c s with
  | (r, t) => (.ok r, t)

/-- The call succeeds in `s` with `a` and leaves `t`. -/
def Returns (c : Query σ ε α) (s : σ) (a : α) (t : σ) : Prop := c s = (.ok a, t)

variable {s t u : σ} {a : α} {b : β}

@[simp] theorem returns_pure {a' : α} :
    (pure a' : Query σ ε α).Returns s a t ↔ a' = a ∧ s = t := by
  simp [Returns, pure]

@[simp] theorem returns_bind {c : Query σ ε α} {f : α → Query σ ε β} :
    (c >>= f).Returns s b u ↔ ∃ a t, c.Returns s a t ∧ (f a).Returns t b u := by
  simp only [Returns, bind]
  rcases c s with ⟨_ | a, t⟩
  · simp
  · simp [and_assoc]

@[simp] theorem returns_map {c : Query σ ε α} {f : α → β} :
    (f <$> c).Returns s b u ↔ ∃ a, c.Returns s a u ∧ f a = b := by
  change (c >>= fun a => pure (f a)).Returns s b u ↔ _
  rw [returns_bind]
  constructor
  · rintro ⟨a, t, hc, hp⟩
    obtain ⟨hab, rfl⟩ := returns_pure.mp hp
    exact ⟨a, hc, hab⟩
  · rintro ⟨a, hc, hab⟩
    exact ⟨a, u, hc, returns_pure.mpr ⟨hab, rfl⟩⟩

@[simp] theorem returns_fail {e : ε} : ¬ (fail e : Query σ ε α).Returns s a t := by
  simp [Returns, fail]

@[simp] theorem returns_check {r : Except ε α} :
    (check r : Query σ ε α).Returns s a t ↔ r = .ok a ∧ s = t := by
  simp [Returns, check]

@[simp] theorem returns_require {p : Prop} [Decidable p] {e : ε} {a : PUnit} :
    (require p e : Query σ ε PUnit).Returns s a t ↔ p ∧ s = t := by
  rw [require, returns_check]
  split <;> simp [*]

@[simp] theorem returns_read {f : σ → α} : (read f : Query σ ε α).Returns s a t ↔ f s = a ∧ s = t := by
  simp [Returns, read]

@[simp] theorem returns_statement {f : σ → Except ε (α × σ)} :
    (statement f).Returns s a t ↔ f s = .ok (a, t) := by
  simp only [Returns, statement]
  rcases f s with _ | ⟨a, t⟩
  · simp
  · simp

@[simp] theorem returns_orFail {e : ε} {o : Option α} :
    (orFail e o : Query σ ε α).Returns s a t ↔ o = some a ∧ s = t := by
  cases o with
  | none => simp [orFail]
  | some a' => simp [orFail]

@[simp] theorem returns_transaction {c : Query σ ε α} :
    c.transaction.Returns s a t ↔ c.Returns s a t := by
  simp only [Returns, transaction]
  rcases c s with ⟨_ | a, t⟩
  · simp
  · simp

@[simp] theorem returns_attempt {c : Query σ ε α} {r : Except ε α} :
    c.attempt.Returns s r t ↔ c s = (r, t) := by
  simp [Returns, attempt, Prod.ext_iff]

/-! ### Calls that change nothing -/

/-- The call changes nothing. -/
def Reads (c : Query σ ε α) : Prop := ∀ s, (c s).2 = s

/-- Refused, the call has changed nothing. -/
def Atomic (c : Query σ ε α) : Prop := ∀ s e t, c s = (.error e, t) → t = s

theorem reads_pure {a : α} : (pure a : Query σ ε α).Reads := fun _ => rfl

theorem reads_check {r : Except ε α} : (check r : Query σ ε α).Reads := fun _ => rfl

theorem reads_read {f : σ → α} : (read f : Query σ ε α).Reads := fun _ => rfl

theorem reads_require {p : Prop} [Decidable p] {e : ε} : (require p e : Query σ ε PUnit).Reads :=
  fun _ => rfl

theorem reads_orFail {e : ε} {o : Option α} : (orFail e o : Query σ ε α).Reads := by
  cases o with
  | none => exact fun _ => rfl
  | some a => exact fun _ => rfl

theorem Reads.bind {c : Query σ ε α} {f : α → Query σ ε β} (hc : c.Reads) (hf : ∀ a, (f a).Reads) :
    (c >>= f).Reads := by
  intro s
  have hs := hc s
  simp only [Bind.bind]
  rcases hcs : c s with ⟨_ | a, t⟩
  · rw [hcs] at hs
    exact hs
  · rw [hcs] at hs
    exact (hf a t).trans hs

theorem atomic_statement {f : σ → Except ε (α × σ)} : (statement f).Atomic := by
  intro s e t h
  simp only [statement] at h
  split at h
  · simp at h
  · exact (Prod.ext_iff.mp h).2.symm

theorem Reads.bind_atomic {c : Query σ ε α} {f : α → Query σ ε β} (hc : c.Reads)
    (hf : ∀ a, (f a).Atomic) :
    (c >>= f).Atomic := by
  intro s e t h
  have hs := hc s
  simp only [Bind.bind] at h
  rcases hcs : c s with ⟨_ | a, u⟩
  · rw [hcs] at h hs
    exact (Prod.ext_iff.mp h).2.symm.trans hs
  · rw [hcs] at h hs
    obtain rfl : u = s := hs
    exact hf a u e t h

end Query
