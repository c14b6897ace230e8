import Mathlib.Data.List.Basic
import Omnion.Library.Fallible

/-!
# Readers

A reader takes items off an input, from an offset on. It answers an item and the
offset after it, refuses the input, or stops for one of two reasons of its own: it has
read outside the input, or it is out of fuel (a reader of nested items is given by
recursion on the depth it may go to).

## What is proved

* `Finishes` — a reader needs no fuel.
* `Reads` — a reader reads a word as an item, whatever stands before and after it.
* `Yields` — a reader stays within its input, and what it answers it has read from a word for it.
* `Below` — more fuel changes nothing.

Each is given for every way to build a reader.
-/

universe v

/-- Why a reader stops without an item. -/
inductive Stop (ε : Type*) where
  | refused (e : ε)
  | outside
  | exhausted
  deriving DecidableEq

/-- What stays within its input in two parts does so in the first, and in the second after it. -/
theorem Stop.bind_ne_outside {ε : Type*} {α β : Type v} {x : Except (Stop ε) α} {f : α → Except (Stop ε) β} :
    (x >>= f) ≠ .error .outside ↔ x ≠ .error .outside ∧ ∀ a, x = .ok a → f a ≠ .error .outside := by
  cases x <;> simp [bind, Except.bind]

/-- A reader of items `α` from an input of tokens `τ`. -/
def Reader (τ ε α : Type*) := List τ → ℕ → Except (Stop ε) (α × ℕ)

namespace Reader

variable {τ ε : Type*} {α β : Type v}

instance : Monad (Reader τ ε) where
  pure a := fun _ offset => .ok (a, offset)
  bind r f := fun input offset =>
    match r input offset with
    | .ok (a, next) => f a input next
    | .error stop => .error stop

/-- Do not accept the input. -/
def refuse (e : ε) : Reader τ ε α := fun _ _ => .error (.refused e)

/-- Stop without fuel. -/
def exhaust : Reader τ ε α := fun _ _ => .error .exhausted

def token {τ : Type v} (e : ε) : Reader τ ε τ := fun input offset =>
  match input[offset]? with
  | some t => .ok (t, offset + 1)
  | none => .error (.refused e)

/-- An item, a number of times. -/
def many (r : Reader τ ε α) : ℕ → Reader τ ε (List α)
  | 0 => pure []
  | n + 1 => do
    let a ← r
    let rest ← many r n
    pure (a :: rest)

variable {r r' : Reader τ ε α} {f f' : α → Reader τ ε β} {input rest word word' : List τ}
  {offset next limit : ℕ} {a : α} {b : β} {e : ε}

theorem pure_apply : (pure a : Reader τ ε α) input offset = .ok (a, offset) := rfl

theorem bind_apply :
    (r >>= f) input offset =
      match r input offset with
      | .ok (a, next) => f a input next
      | .error stop => .error stop := rfl

theorem bind_eq_ok {last : ℕ} : (r >>= f) input offset = .ok (b, last) ↔
    ∃ a next, r input offset = .ok (a, next) ∧ f a input next = .ok (b, last) := by
  rw [bind_apply]
  cases r input offset with
  | error stop => simp
  | ok p =>
    obtain ⟨a, next⟩ := p
    simp [and_assoc]

theorem bind_eq_error {stop : Stop ε} : (r >>= f) input offset = .error stop ↔
    r input offset = .error stop ∨ ∃ a next, r input offset = .ok (a, next) ∧ f a input next = .error stop := by
  rw [bind_apply]
  cases r input offset with
  | error stop' => simp
  | ok p =>
    obtain ⟨a, next⟩ := p
    simp [and_assoc]

theorem token_eq_ok {τ : Type v} {t : τ} {input : List τ} {e : ε} :
    (token e : Reader τ ε τ) input offset = .ok (t, next) ↔ input[offset]? = some t ∧ next = offset + 1 := by
  simp only [token]
  cases input[offset]? with
  | none => simp
  | some t' => simp [eq_comm]

theorem token_ne_outside {τ : Type v} {input : List τ} {e : ε} :
    (token e : Reader τ ε τ) input offset ≠ .error .outside := by
  rw [token]
  cases input[offset]? <;> simp

theorem token_ne_exhausted {τ : Type v} {input : List τ} {e : ε} :
    (token e : Reader τ ε τ) input offset ≠ .error .exhausted := by
  rw [token]
  cases input[offset]? <;> simp

/-! ### Without nesting -/

/-- The reader does not run out of fuel. -/
def Finishes (r : Reader τ ε α) : Prop := ∀ input offset, r input offset ≠ .error .exhausted

theorem finishes_pure : (pure a : Reader τ ε α).Finishes := fun _ _ => by simp [pure_apply]

theorem finishes_refuse : (refuse e : Reader τ ε α).Finishes := fun _ _ => by simp [refuse]

theorem Finishes.bind (hr : r.Finishes) (hf : ∀ a, (f a).Finishes) : (r >>= f).Finishes := by
  intro input offset h
  rcases bind_eq_error.mp h with hfirst | ⟨a, next, -, hsecond⟩
  · exact hr input offset hfirst
  · exact hf a input next hsecond

/-! ### Reading a word -/

/-- The reader reads a word as an item, in every input shorter than `limit`. -/
def Reads (limit : ℕ) (r : Reader τ ε α) (word : List τ) (a : α) : Prop :=
  ∀ before after, (before ++ word ++ after).length < limit →
    r (before ++ word ++ after) before.length = .ok (a, before.length + word.length)

theorem reads_pure : (pure a : Reader τ ε α).Reads limit [] a := fun _ _ _ => rfl

theorem reads_token {τ : Type v} {t : τ} {e : ε} : (token e : Reader τ ε τ).Reads limit [t] t := by
  intro before after _
  exact token_eq_ok.mpr ⟨by simp, rfl⟩

theorem Reads.bind (hr : r.Reads limit word a) (hf : (f a).Reads limit word' b) :
    (r >>= f).Reads limit (word ++ word') b := by
  intro before after hlimit
  refine bind_eq_ok.mpr ⟨a, before.length + word.length, ?_, ?_⟩
  · simpa using hr before (word' ++ after) (by simpa using hlimit)
  · simpa [Nat.add_assoc] using hf (before ++ word) after (by simpa using hlimit)

theorem Reads.bind_pure (hr : r.Reads limit word a) {g : α → β} :
    (r >>= fun a => Pure.pure (g a)).Reads limit word (g a) := by
  simpa using hr.bind (f := fun a => Pure.pure (g a)) reads_pure

theorem Reads.start (hr : r.Reads limit word a) (hlimit : (word ++ rest).length < limit) :
    r (word ++ rest) 0 = .ok (a, word.length) := by
  simpa using hr [] rest hlimit

/-! ### What is read -/

/-- In inputs shorter than `limit` the reader stays within the input, and what it answers it has
read from a word for it. -/
structure Yields (limit : ℕ) (r : Reader τ ε α) (P : List τ → α → Prop) : Prop where
  inside : ∀ {input : List τ} {offset : ℕ}, input.length < limit → offset ≤ input.length →
    r input offset ≠ .error .outside
  word : ∀ {input : List τ} {offset next : ℕ} {a : α}, input.length < limit → offset ≤ input.length →
    r input offset = .ok (a, next) → ∃ word, word <+: input.drop offset ∧ next = offset + word.length ∧ P word a

section Yields

variable {P : List τ → α → Prop} {Q : List τ → β → Prop}

theorem yields_pure (h : P [] a) : (pure a : Reader τ ε α).Yields limit P where
  inside _ _ := by simp [pure_apply]
  word _ _ hread := by
    cases hread
    exact ⟨[], List.nil_prefix, rfl, h⟩

theorem yields_refuse : (refuse e : Reader τ ε α).Yields limit P where
  inside _ _ := by simp [refuse]
  word _ _ hread := by cases hread

theorem yields_exhaust : (exhaust : Reader τ ε α).Yields limit P where
  inside _ _ := by simp [exhaust]
  word _ _ hread := by cases hread

theorem yields_token {τ : Type v} {e : ε} : (token e : Reader τ ε τ).Yields limit fun word t => word = [t] where
  inside _ _ := token_ne_outside
  word {input offset _ _} _ _ hread := by
    obtain ⟨ht, rfl⟩ := token_eq_ok.mp hread
    obtain ⟨hlt, rfl⟩ := List.getElem?_eq_some_iff.mp ht
    refine ⟨[input[offset]], ?_, rfl, rfl⟩
    rw [List.drop_eq_getElem_cons hlt]
    exact List.prefix_append [_] _

theorem le_of_word (hoffset : offset ≤ input.length) (h : word <+: input.drop offset) :
    offset + word.length ≤ input.length := by
  have := h.length_le
  rw [List.length_drop] at this
  omega

theorem Yields.bind (hr : r.Yields limit P)
    (hf : ∀ a word, P word a → (f a).Yields limit fun word' b => Q (word ++ word') b) :
    (r >>= f).Yields limit Q where
  inside hlimit hoffset h := by
    rcases bind_eq_error.mp h with hfirst | ⟨a, next, hfirst, hsecond⟩
    · exact hr.inside hlimit hoffset hfirst
    · obtain ⟨word, hword, rfl, hP⟩ := hr.word hlimit hoffset hfirst
      exact (hf a word hP).inside hlimit (le_of_word hoffset hword) hsecond
  word {input _ _ _} hlimit hoffset hread := by
    obtain ⟨a, next, hfirst, hsecond⟩ := bind_eq_ok.mp hread
    obtain ⟨word, hstart, rfl, hP⟩ := hr.word hlimit hoffset hfirst
    obtain ⟨word', hword', rfl, hQ⟩ := (hf a word hP).word hlimit (le_of_word hoffset hstart) hsecond
    obtain ⟨rest, hword⟩ := hstart
    refine ⟨word ++ word', ?_, by rw [List.length_append, Nat.add_assoc], hQ⟩
    rw [← List.drop_drop, ← hword, List.drop_left] at hword'
    rw [← hword]
    exact (List.prefix_append_right_inj word).mpr hword'

theorem Yields.mono {P' : List τ → α → Prop} (hr : r.Yields limit P) (h : ∀ word a, P word a → P' word a) :
    r.Yields limit P' where
  inside := hr.inside
  word hlimit hoffset hread := by
    obtain ⟨word, hword, hnext, hP⟩ := hr.word hlimit hoffset hread
    exact ⟨word, hword, hnext, h word _ hP⟩

theorem Yields.many {S : List τ → List α → Prop} (hr : r.Yields limit P) (hnil : S [] [])
    (hcons : ∀ {word word' a as}, P word a → S word' as → S (word ++ word') (a :: as)) (n : ℕ) :
    (r.many n).Yields limit fun word as => as.length = n ∧ S word as := by
  induction n with
  | zero => exact yields_pure ⟨rfl, hnil⟩
  | succ n ih =>
    refine hr.bind fun a word hP => ih.bind fun as word' hS => yields_pure ⟨by simp [hS.1], ?_⟩
    rw [List.append_nil]
    exact hcons hP hS.2

end Yields

/-! ### Where it stops -/

/-- Of a number of items, the reader stops at one, after those before it. -/
theorem many_eq_error {stop : Stop ε} {n : ℕ} : r.many n input offset = .error stop ↔
    ∃ j < n, ∃ as next, r.many j input offset = .ok (as, next) ∧ r input next = .error stop := by
  induction n generalizing offset with
  | zero => simp [many, pure_apply]
  | succ n ih =>
    have hfirst : r.many (n + 1) input offset = .error stop ↔ r input offset = .error stop ∨
        ∃ a next, r input offset = .ok (a, next) ∧ r.many n input next = .error stop := by
      simp [many, bind_eq_error, pure_apply]
    rw [hfirst]
    constructor
    · rintro (h | ⟨a, next, h, hrest⟩)
      · exact ⟨0, by omega, [], offset, rfl, h⟩
      · obtain ⟨j, hj, as, last, has, hstop⟩ := ih.mp hrest
        exact ⟨j + 1, by omega, a :: as, last, bind_eq_ok.mpr ⟨a, next, h, bind_eq_ok.mpr ⟨as, last, has, rfl⟩⟩, hstop⟩
    · rintro ⟨_ | j, hj, as, last, has, hstop⟩
      · cases has
        exact .inl hstop
      · obtain ⟨a, next, h, hrest⟩ := bind_eq_ok.mp has
        obtain ⟨as', last', has', hlast⟩ := bind_eq_ok.mp hrest
        cases hlast
        exact .inr ⟨a, next, h, ih.mpr ⟨j, by omega, as', last, has', hstop⟩⟩

/-- Pairs of items end where twice as many items do. -/
theorem ends_many_pairs (n : ℕ) (offset : ℕ) :
    (many (do
      let a ← r
      let b ← r
      pure (a, b)) n input offset).map (·.2) = (r.many (2 * n) input offset).map (·.2) := by
  induction n generalizing offset with
  | zero => rfl
  | succ n ih =>
    simp only [Nat.mul_succ, many, bind_apply, pure_apply]
    cases r input offset with
    | error stop => rfl
    | ok p =>
      cases hsecond : r input p.2 with
      | error stop =>
        simp only [hsecond]
        rfl
      | ok q =>
        have hrest := ih q.2
        simp only [hsecond] at hrest ⊢
        revert hrest
        cases many _ n input q.2 <;> cases r.many (2 * n) input q.2 <;> simp [Except.map]

theorem many_pairs_eq_error {stop : Stop ε} {n : ℕ} :
    many (do
      let a ← r
      let b ← r
      pure (a, b)) n input offset = .error stop ↔ r.many (2 * n) input offset = .error stop := by
  have h := @ends_many_pairs _ _ _ r input n offset
  revert h
  cases many _ n input offset <;> cases r.many (2 * n) input offset <;> simp +contextual [Except.map]

theorem many_pairs_eq_ok : ∀ {pairs : List (α × α)} {offset : ℕ},
    r.many (pairs.flatMap fun p => [p.1, p.2]).length input offset = .ok (pairs.flatMap fun p => [p.1, p.2], next) →
    many (do
      let a ← r
      let b ← r
      pure (a, b)) pairs.length input offset = .ok (pairs, next)
  | [], offset, h => by
    cases h
    rfl
  | (a, b) :: pairs, offset, h => by
    obtain ⟨a', _, ha, h⟩ := bind_eq_ok.mp h
    obtain ⟨_, _, hrest, h⟩ := bind_eq_ok.mp h
    cases h
    obtain ⟨b', _, hb, hrest⟩ := bind_eq_ok.mp hrest
    obtain ⟨_, _, hpairs, h⟩ := bind_eq_ok.mp hrest
    cases h
    exact bind_eq_ok.mpr ⟨(a, b), _, bind_eq_ok.mpr ⟨a, _, ha, bind_eq_ok.mpr ⟨b, _, hb, rfl⟩⟩,
      bind_eq_ok.mpr ⟨pairs, _, many_pairs_eq_ok hpairs, rfl⟩⟩

/-! ### More fuel -/

/-- The readers agree, but where the first runs out of fuel. -/
def Below (r r' : Reader τ ε α) : Prop :=
  ∀ input offset, r input offset = .error .exhausted ∨ r input offset = r' input offset

theorem Below.refl (r : Reader τ ε α) : r.Below r := fun _ _ => .inr rfl

theorem below_exhaust : (exhaust : Reader τ ε α).Below r := fun _ _ => .inl rfl

theorem Below.bind (hr : r.Below r') (hf : ∀ a, (f a).Below (f' a)) : (r >>= f).Below (r' >>= f') := by
  intro input offset
  rcases hr input offset with hnone | hsame
  · exact .inl (bind_eq_error.mpr (.inl hnone))
  · rw [bind_apply, bind_apply, ← hsame]
    cases r input offset with
    | error stop => exact .inr rfl
    | ok p => exact hf p.1 input p.2

theorem Below.many (hr : r.Below r') (n : ℕ) : (r.many n).Below (r'.many n) := by
  induction n with
  | zero => exact .refl _
  | succ n ih => exact hr.bind fun _ => ih.bind fun _ => .refl _

theorem Below.eq (h : r.Below r') (hr : r input offset ≠ .error .exhausted) :
    r' input offset = r input offset :=
  ((h input offset).resolve_left hr).symm

end Reader
