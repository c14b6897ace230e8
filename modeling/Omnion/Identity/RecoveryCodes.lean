import Mathlib.Data.List.Nodup
import Omnion.Identity.Factors
import Omnion.Library.Exclusion

/-!
# The set of recovery codes

`confirm_totp` and `refresh_recovery_codes` of `crates/identity/src/mfa.rs`: any number of
them, taken apart into their statements and interleaved in any order.

## The model

A call deletes the codes of the account and inserts ten new ones, one by one; to confirm a
factor first verifies its code and updates the factor. A call may stop between any two
statements. Each code has the call that issued it, and `none` for those there at the start.
A call notes whether the account had a usable code when it began.

## What is proved

* `run_oneSet` — when the calls have settled, the unused codes of an account are of one call
  and at most ten, and no call that failed has left it without: in the runs where a call
  deletes only while no other is between its delete and its end, and none that deleted
  usable codes fails before its first new one.
* `two_sets` — two calls that both delete before they insert leave two sets.
-/

namespace Omnion.Identity.RecoveryCodes

/-- `RECOVERY_CODE_COUNT`. -/
def recoveryCodeCount : ℕ := 10

/-- How far a call has come. `had` says that the account had a usable code when it began. -/
inductive Stage where
  | idle
  /-- The code of the factor was verified. -/
  | verified (userId factorId : Uuid) (had : Bool)
  | ready (userId : Uuid) (had : Bool)
  /-- The codes were deleted, usable ones if `removed`, and these were inserted. -/
  | issuing (userId : Uuid) (had removed : Bool) (codes : List String)
  | issued (userId : Uuid) (had : Bool) (codes : List String)
  /-- The call was refused, or a statement failed, or it was dropped. -/
  | failed (userId : Uuid) (had : Bool)

namespace Stage

/-- The account of a call between its delete and its end. -/
def inside : Stage → Option Uuid
  | .issuing userId _ _ _ => some userId
  | _ => none

/-- The account that had a usable code when the call began. -/
def had : Stage → Option Uuid
  | .verified userId _ had | .ready userId had | .issuing userId had _ _ | .issued userId had _
  | .failed userId had => if had then some userId else none
  | .idle => none

/-- The account of a call that is still to make a statement. -/
def busy : Stage → Option Uuid
  | .verified userId _ _ | .ready userId _ | .issuing userId _ _ _ => some userId
  | _ => none

theorem busy_of_inside {p : Stage} {userId : Uuid} (h : p.inside = some userId) : p.busy = some userId := by
  cases p with
  | issuing => exact h
  | _ => cases h

end Stage

/-- The two tables, the clock and the calls. -/
structure Store where
  /-- `mfa_factors`. -/
  factors : Table MfaFactor MfaFactor.id
  /-- `mfa_recovery_codes`. -/
  codes : Table RecoveryCode RecoveryCode.id
  issuer : Uuid → Option ℕ
  now : Instant
  calls : ℕ → Stage

namespace Store

/-- Call `i` goes on to a stage. -/
def move (s : Store) (i : ℕ) (p : Stage) : Store := { s with calls := Function.update s.calls i p }

/-- The unused codes of an account. -/
def unused (s : Store) (userId : Uuid) : List RecoveryCode :=
  s.codes.rows.filter fun c => c.userId = userId && c.usedAt.isNone

/-- The account has a usable code. -/
def usable (s : Store) (userId : Uuid) : Bool := !(s.unused userId).isEmpty

/-- The codes of an account are deleted. -/
def delete (s : Store) (userId : Uuid) : Store := { s with codes := s.codes.delete (·.userId = userId) }

/-- A row is stored for a call. -/
def store (s : Store) (i : ℕ) (id : Uuid) (rows : Table RecoveryCode RecoveryCode.id) : Store :=
  { s with codes := rows, issuer := Function.update s.issuer id (some i) }

/-- A code is inserted; the last one ends the call. -/
def insert (hashes : Hashes) (s : Store) (i : ℕ) (userId : Uuid) (had removed : Bool) (codes : List String)
    (id : Uuid) (code : String) : Option Store :=
  if s.codes.rows.any fun c => c.userId = userId && c.codeHash = hashRecoveryCode hashes code then
    some (s.move i (.failed userId had))
  else (s.codes.insert? { id, userId, codeHash := hashRecoveryCode hashes code, usedAt := none }).map fun rows =>
    (s.store i id rows).move i
      (if (codes ++ [code]).length = recoveryCodeCount then .issued userId had (codes ++ [code])
      else .issuing userId had removed (codes ++ [code]))

/-- Where calls begin: the codes there are of one set. -/
def start (factors : Table MfaFactor MfaFactor.id) (codes : Table RecoveryCode RecoveryCode.id) (now : Instant) :
    Store where
  factors := factors
  codes := codes
  issuer := fun _ => none
  now := now
  calls := fun _ => .idle

end Store

/-- The statements of the calls, and the clock. -/
inductive Event where
  /-- A call of `refresh_recovery_codes` begins. -/
  | refresh (i : ℕ) (userId : Uuid)
  /-- A call of `confirm_totp` begins: it finds the factor and verifies the code. -/
  | confirm (i : ℕ) (userId factorId : Uuid) (code : String) (unixSeconds : ℤ)
  | confirmed (i : ℕ)
  | delete (i : ℕ)
  | insert (i : ℕ) (id : Uuid) (code : String)
  | stop (i : ℕ)
  | tick (now : Instant)

/-- The call that makes the statement. -/
def Event.call : Event → Option ℕ
  | .refresh i _ | .confirm i .. | .confirmed i | .delete i | .insert i .. | .stop i => some i
  | .tick _ => none

/-- One statement of one call. -/
def recoveryStep (hashes : Hashes) (box : SecretBox) (s : Store) : Event → Option Store
  | .refresh i userId =>
    match s.calls i with
    | .idle => some (s.move i (.ready userId (s.usable userId)))
    | _ => none
  | .confirm i userId factorId code unixSeconds =>
    match s.calls i with
    | .idle =>
      match confirmable hashes box s.factors userId factorId code unixSeconds with
      | .ok () => some (s.move i (.verified userId factorId (s.usable userId)))
      | .error _ => some (s.move i (.failed userId (s.usable userId)))
    | _ => none
  | .confirmed i =>
    match s.calls i with
    | .verified userId factorId had =>
      some { s.move i (.ready userId had) with factors := confirmFactor s.factors factorId s.now }
    | _ => none
  | .delete i =>
    match s.calls i with
    | .ready userId had => some ((s.delete userId).move i (.issuing userId had (s.usable userId) []))
    | _ => none
  | .insert i id code =>
    match s.calls i with
    | .issuing userId had removed codes => s.insert hashes i userId had removed codes id code
    | _ => none
  | .stop i =>
    match s.calls i with
    | .verified userId _ had | .ready userId had | .issuing userId had _ _ => some (s.move i (.failed userId had))
    | _ => none
  | .tick now => if s.now ≤ now then some { s with now } else none

namespace Store

open Exclusion

variable {hashes : Hashes} {box : SecretBox} {s t : Store} {userId : Uuid} {i : ℕ} {had removed : Bool}
  {codes : List String} {p : Stage} {c : RecoveryCode}

/-- Which accounts the calls are between their delete and their end for. -/
def inside (s : Store) : ℕ → Option Uuid := fun i => (s.calls i).inside

/-- **One set of codes**: the unused codes of an account are of one call and not too many, and
an account that had some when a call began that failed has some. -/
structure OneSet (s : Store) (userId : Uuid) : Prop where
  issuer : ∀ a ∈ s.unused userId, ∀ b ∈ s.unused userId, s.issuer a.id = s.issuer b.id
  few : (s.unused userId).length ≤ recoveryCodeCount
  kept : ∀ i, s.calls i = .failed userId true → s.usable userId = true

/-- **The steps allowed**: a call deletes only while no other call of the account is between
its delete and its end, and does not fail before its first new code if it deleted a usable
one. -/
def Orderly (s : Store) : Event → Prop
  | .delete i => ∀ userId had, s.calls i = .ready userId had → Free s.inside i userId
  | .stop i => ∀ userId had, s.calls i ≠ .issuing userId had true []
  | _ => True

/-- What holds of an account while no call is between its delete and its end. -/
structure Settled (s : Store) (userId : Uuid) : Prop where
  issuer : ∀ a ∈ s.unused userId, ∀ b ∈ s.unused userId, s.issuer a.id = s.issuer b.id
  few : (s.unused userId).length ≤ recoveryCodeCount
  kept : ∀ j, (s.calls j).had = some userId → s.usable userId = true

/-- What holds of an account while call `i` is between its delete and its end. -/
structure Issuing (s : Store) (i : ℕ) (userId : Uuid) (removed : Bool) (codes : List String) : Prop where
  /-- The codes are its own, and unused. -/
  own : ∀ c ∈ s.codes, c.userId = userId → s.issuer c.id = some i ∧ c.usedAt = none
  /-- They are as many as it inserted. -/
  length : (s.unused userId).length = codes.length
  /-- Who had a code lost it to the delete, or found a new one. -/
  kept : ∀ j, (s.calls j).had = some userId → removed = true ∨ codes ≠ []

/-- **The invariant**: an account is settled, or one call is replacing its codes. -/
structure Inv (s : Store) : Prop where
  exclusive : Guarded s.inside fun _ => True
  settled : ∀ userId, (∀ i, s.inside i ≠ some userId) → s.Settled userId
  issuing : ∀ i userId had removed codes, s.calls i = .issuing userId had removed codes →
    s.Issuing i userId removed codes ∧ codes.length < recoveryCodeCount

/-! ### What a statement leaves alone -/

theorem inside_move : (s.move i p).inside = Function.update s.inside i p.inside := by
  funext j
  exact Function.apply_update (fun _ => Stage.inside) s.calls i p j

theorem move_self : (s.move i p).calls i = p := Function.update_self ..

theorem move_of_ne {j : ℕ} (hj : j ≠ i) : (s.move i p).calls j = s.calls j := Function.update_of_ne hj ..

/-- A statement moves its own call only. -/
theorem calls_of_step {e : Event} {j : ℕ} (hs : recoveryStep hashes box s e = some t) (hj : e.call ≠ some j) :
    t.calls j = s.calls j := by
  have hmove : ∀ {s : Store} {i : ℕ} {p : Stage}, some i ≠ some j → (s.move i p).calls j = s.calls j :=
    fun hi => move_of_ne fun hji => hi (congrArg some hji.symm)
  cases e with
  | insert i id code =>
    simp only [recoveryStep] at hs
    split at hs
    · simp only [insert] at hs
      split_ifs at hs
      · cases hs
        exact hmove hj
      · obtain ⟨rows, -, rfl⟩ := Option.map_eq_some_iff.mp hs
        exact hmove hj
      · obtain ⟨rows, -, rfl⟩ := Option.map_eq_some_iff.mp hs
        exact hmove hj
    · cases hs
  | tick now =>
    simp only [recoveryStep] at hs
    split_ifs at hs
    cases hs
    rfl
  | _ =>
    simp only [recoveryStep] at hs
    repeat' split at hs
    all_goals first
      | (obtain rfl := Option.some.inj hs; exact hmove hj)
      | cases hs

theorem had_move (hp : p.had = (s.calls i).had) (j : ℕ) : ((s.move i p).calls j).had = (s.calls j).had := by
  simp only [move, Function.update_apply]
  split_ifs with hj
  · rw [hp, hj]
  · rfl

theorem mem_unused : c ∈ s.unused userId ↔ c ∈ s.codes ∧ c.userId = userId ∧ c.usedAt = none := by
  simp [unused, Table.mem_def]

theorem usable_iff : s.usable userId = true ↔ s.unused userId ≠ [] := by
  simp [usable]

theorem Settled.congr (h : s.Settled userId) (hunused : t.unused userId = s.unused userId)
    (hissuer : ∀ c ∈ s.unused userId, t.issuer c.id = s.issuer c.id)
    (hhad : ∀ j, (t.calls j).had = some userId → (s.calls j).had = some userId ∨ s.usable userId = true) :
    t.Settled userId where
  issuer a ha b hb := by
    rw [hunused] at ha hb
    rw [hissuer a ha, hissuer b hb]
    exact h.issuer a ha b hb
  few := hunused ▸ h.few
  kept j hj := by
    rw [usable, hunused]
    exact (hhad j hj).elim (h.kept j) id

theorem Issuing.congr (h : s.Issuing i userId removed codes) (hunused : t.unused userId = s.unused userId)
    (hrows : ∀ c ∈ t.codes, c.userId = userId → c ∈ s.codes ∧ t.issuer c.id = s.issuer c.id)
    (hhad : ∀ j, (t.calls j).had = some userId → (s.calls j).had = some userId ∨ s.usable userId = true) :
    t.Issuing i userId removed codes where
  own c hc huser := by
    obtain ⟨hold, hissuer⟩ := hrows c hc huser
    rw [hissuer]
    exact h.own c hold huser
  length := hunused ▸ h.length
  kept j hj := by
    rcases hhad j hj with hold | husable
    · exact h.kept j hold
    · refine .inr fun hnil => usable_iff.mp husable (List.eq_nil_of_length_eq_zero ?_)
      rw [h.length, hnil, List.length_nil]

theorem Issuing.settled (h : s.Issuing i userId removed codes) (hfew : codes.length ≤ recoveryCodeCount)
    (hlost : codes = [] → removed = false) : s.Settled userId where
  issuer a ha b hb := by
    obtain ⟨ha, hauser, -⟩ := mem_unused.mp ha
    obtain ⟨hb, hbuser, -⟩ := mem_unused.mp hb
    rw [(h.own a ha hauser).1, (h.own b hb hbuser).1]
  few := h.length ▸ hfew
  kept j hj := by
    have hcodes : codes ≠ [] := by
      rcases h.kept j hj with hremoved | hcodes
      · intro hnil
        rw [hlost hnil] at hremoved
        cases hremoved
      · exact hcodes
    refine usable_iff.mpr fun hnil => hcodes (List.eq_nil_of_length_eq_zero ?_)
    rw [← h.length, hnil, List.length_nil]

/-! ### The statements -/

/-- A call goes on that is not between its delete and its end. What it notes is so. -/
theorem Inv.move (h : Inv s) (hi : (s.calls i).inside = none) (hp : p.inside = none)
    (hhad : ∀ userId, p.had = some userId → (s.calls i).had = some userId ∨ s.usable userId = true) :
    Inv (s.move i p) := by
  have hinside : (s.move i p).inside = s.inside := by
    rw [inside_move, hp, ← hi]
    exact Function.update_eq_self i s.inside
  have hhads : ∀ userId j, ((s.move i p).calls j).had = some userId →
      (s.calls j).had = some userId ∨ s.usable userId = true := by
    intro userId j hj
    simp only [Store.move, Function.update_apply] at hj
    split_ifs at hj with hji
    · exact hji ▸ hhad userId hj
    · exact .inl hj
  exact {
    exclusive := hinside ▸ h.exclusive
    settled := fun userId hfree =>
      (h.settled userId (hinside ▸ hfree)).congr rfl (fun _ _ => rfl) (hhads userId)
    issuing := fun j userId had removed codes hj => by
      have hne : j ≠ i := by
        rintro rfl
        rw [move_self] at hj
        rw [hj] at hp
        cases hp
      rw [move_of_ne hne] at hj
      obtain ⟨hissuing, hfew⟩ := h.issuing j userId had removed codes hj
      exact ⟨hissuing.congr rfl (fun _ hc _ => ⟨hc, rfl⟩) (hhads userId), hfew⟩ }

theorem mem_delete : c ∈ (s.delete userId).codes ↔ c ∈ s.codes ∧ c.userId ≠ userId := by
  rw [delete, Table.mem_delete, decide_eq_false_iff_not]

theorem unused_delete_of_ne {other : Uuid} (hne : other ≠ userId) :
    (s.delete userId).unused other = s.unused other := by
  simp only [delete, unused, Table.delete, List.filter_filter]
  refine List.filter_congr fun c _ => ?_
  by_cases huser : c.userId = other
  · simp [huser, hne]
  · simp [huser]

/-- A call deletes the codes of an account that no other call is replacing. -/
theorem Inv.delete (h : Inv s) (hi : s.calls i = .ready userId had) (hfree : Free s.inside i userId) :
    Inv ((s.delete userId).move i (.issuing userId had (s.usable userId) [])) := by
  have hnobody : ∀ j, s.inside j ≠ some userId := by
    intro j hj
    by_cases hji : j = i
    · rw [hji, inside, hi] at hj
      cases hj
    · exact hfree j hji hj
  have hhads : ∀ j, (((s.delete userId).move i (.issuing userId had (s.usable userId) [])).calls j).had =
      (s.calls j).had := had_move (by rw [Store.delete, hi]; rfl)
  exact {
    exclusive := by
      rw [inside_move]
      exact h.exclusive.enter hfree trivial
    settled := fun other hnone => by
      rw [inside_move] at hnone
      have hne : other ≠ userId := by
        rintro rfl
        exact hnone i (Function.update_self ..)
      have hother : ∀ j, s.inside j ≠ some other := by
        intro j hj
        by_cases hji : j = i
        · rw [hji, inside, hi] at hj
          cases hj
        · exact hnone j (by rwa [Function.update_of_ne hji])
      exact (h.settled other hother).congr (unused_delete_of_ne hne) (fun _ _ => rfl) fun j hj => .inl (hhads j ▸ hj)
    issuing := fun j other had' removed codes hj => by
      by_cases hji : j = i
      · subst hji
        rw [move_self] at hj
        obtain ⟨rfl, rfl, rfl, rfl⟩ := Stage.issuing.inj hj
        have hnone : (s.delete userId).unused userId = [] := by
          refine List.eq_nil_iff_forall_not_mem.mpr fun c hc => ?_
          obtain ⟨hc, huser, -⟩ := mem_unused.mp hc
          exact (mem_delete.mp hc).2 huser
        refine ⟨⟨fun c hc huser => absurd huser (mem_delete.mp hc).2, ?_, fun k hk => .inl ?_⟩, by decide⟩
        · exact List.length_eq_zero_iff.mpr hnone
        · exact (h.settled _ hnobody).kept k (hhads k ▸ hk)
      · rw [move_of_ne hji] at hj
        have hne : other ≠ userId := by
          rintro rfl
          exact hnobody j (by rw [inside, show s.calls j = _ from hj]; rfl)
        obtain ⟨hissuing, hfew⟩ := h.issuing j other had' removed codes hj
        exact ⟨hissuing.congr (unused_delete_of_ne hne) (fun c hc _ => ⟨(mem_delete.mp hc).1, rfl⟩)
          fun k hk => .inl (hhads k ▸ hk), hfew⟩ }

/-- A call ends that was replacing the codes of an account. -/
theorem Inv.leave (h : Inv s) (hi : s.calls i = .issuing userId had removed codes)
    (hlost : codes = [] → removed = false) (hp : p.inside = none) (hhad : p.had = (s.calls i).had) :
    Inv (s.move i p) := by
  obtain ⟨hissuing, hfew⟩ := h.issuing i userId had removed codes hi
  have hhads := had_move hhad
  exact {
    exclusive := by
      rw [inside_move, hp]
      exact h.exclusive.leave fun _ _ _ => trivial
    settled := fun other hnone => by
      rw [inside_move, hp] at hnone
      by_cases hother : other = userId
      · rw [hother]
        exact (hissuing.settled hfew.le hlost).congr rfl (fun _ _ => rfl) fun j hj => .inl (hhads j ▸ hj)
      · refine (h.settled other fun j hj => ?_).congr rfl (fun _ _ => rfl) fun j hj => .inl (hhads j ▸ hj)
        by_cases hji : j = i
        · rw [hji, inside, hi] at hj
          exact hother (Option.some.inj hj).symm
        · exact hnone j (by rwa [Function.update_of_ne hji])
    issuing := fun j other had' removed' codes' hj => by
      have hne : j ≠ i := by
        rintro rfl
        rw [move_self] at hj
        rw [hj] at hp
        cases hp
      rw [move_of_ne hne] at hj
      obtain ⟨hother, hfew'⟩ := h.issuing j other had' removed' codes' hj
      exact ⟨hother.congr rfl (fun _ hc _ => ⟨hc, rfl⟩) fun k hk => .inl (hhads k ▸ hk), hfew'⟩ }

section Insert

variable {id : Uuid} {codeHash code : String} {rows : Table RecoveryCode RecoveryCode.id}

theorem mem_store (hrows : s.codes.insert? { id, userId, codeHash, usedAt := none } = some rows) :
    c ∈ rows ↔ c ∈ s.codes ∨ c = { id, userId, codeHash, usedAt := none } := Table.mem_insert? hrows

theorem issuer_store (hrows : s.codes.insert? { id, userId, codeHash, usedAt := none } = some rows) (hc : c ∈ s.codes) :
    (s.store i id rows).issuer c.id = s.issuer c.id := by
  have hnone := Table.find?_eq_none.mp (Table.insert?_eq_some hrows).1 c hc
  exact Function.update_of_ne hnone ..

theorem unused_store (hrows : s.codes.insert? { id, userId, codeHash, usedAt := none } = some rows) (other : Uuid) :
    (s.store i id rows).unused other =
      s.unused other ++ if userId = other then [{ id, userId, codeHash, usedAt := none }] else [] := by
  simp only [unused, store, (Table.insert?_eq_some hrows).2, List.filter_append]
  congr 1
  simp [List.filter_singleton]

theorem Issuing.store (h : s.Issuing i userId removed codes)
    (hrows : s.codes.insert? { id, userId, codeHash, usedAt := none } = some rows) (code : String) :
    (s.store i id rows).Issuing i userId removed (codes ++ [code]) where
  own c hc huser := by
    rcases (mem_store hrows).mp hc with hc | rfl
    · rw [issuer_store hrows hc]
      exact h.own c hc huser
    · exact ⟨Function.update_self .., rfl⟩
  length := by
    rw [unused_store hrows, if_pos rfl, List.length_append, List.length_append, h.length]
    rfl
  kept _ _ := .inr (by simp)

/-- A call inserts a code, and goes on or is done. -/
theorem Inv.store (h : Inv s) (hi : s.calls i = .issuing userId had removed codes)
    (hrows : s.codes.insert? { id, userId, codeHash, usedAt := none } = some rows) (code : String)
    (hhad : p.had = (s.calls i).had)
    (hp : p.inside = none ∨ p = .issuing userId had removed (codes ++ [code]) ∧ codes.length + 1 < recoveryCodeCount) :
    Inv ((s.store i id rows).move i p) := by
  obtain ⟨hissuing, hfew⟩ := h.issuing i userId had removed codes hi
  have hinside : s.inside i = some userId := by rw [inside, hi]; rfl
  have hhads : ∀ j, (((s.store i id rows).move i p).calls j).had = (s.calls j).had := had_move hhad
  have hsame : ∀ j, (((s.store i id rows).move i p).calls j).had = ((s.store i id rows).calls j).had := had_move hhad
  have hown : ((s.store i id rows).move i p).Issuing i userId removed (codes ++ [code]) :=
    (hissuing.store hrows code).congr rfl (fun _ hc _ => ⟨hc, rfl⟩) fun j hj => .inl (hsame j ▸ hj)
  have hunused : ∀ other, other ≠ userId → ((s.store i id rows).move i p).unused other = s.unused other := by
    intro other hne
    refine (unused_store (i := i) hrows other).trans ?_
    rw [if_neg hne.symm, List.append_nil]
  exact {
    exclusive := by
      rw [inside_move]
      refine h.exclusive.update (fun _ _ _ => trivial) fun k hk => ⟨?_, trivial⟩
      rcases hp with hnone | ⟨rfl, -⟩
      · rw [hnone] at hk
        cases hk
      · rw [← Option.some.inj hk]
        exact h.exclusive.free hinside
    settled := fun other hnone => by
      rw [inside_move] at hnone
      by_cases hother : other = userId
      · rw [hother]
        refine hown.settled ?_ (by simp)
        rw [List.length_append, List.length_singleton]
        exact hfew
      · have hfree : ∀ j, s.inside j ≠ some other := by
          intro j hj
          by_cases hji : j = i
          · rw [hji, hinside] at hj
            exact hother (Option.some.inj hj).symm
          · exact hnone j (by rw [Function.update_of_ne hji]; exact hj)
        exact (h.settled other hfree).congr (hunused other hother)
          (fun c hc => issuer_store hrows (mem_unused.mp hc).1) fun j hj => .inl (hhads j ▸ hj)
    issuing := fun j other had' removed' codes' hj => by
      by_cases hji : j = i
      · subst hji
        rw [move_self] at hj
        rcases hp with hnone | ⟨rfl, hmore⟩
        · rw [hj] at hnone
          cases hnone
        · obtain ⟨rfl, rfl, rfl, rfl⟩ := Stage.issuing.inj hj
          refine ⟨hown, ?_⟩
          rwa [List.length_append, List.length_singleton]
      · rw [move_of_ne hji] at hj
        obtain ⟨hissuing', hfew'⟩ := h.issuing j other had' removed' codes' hj
        have hne : other ≠ userId := by
          rintro rfl
          exact hji (h.exclusive.exclusive j i other (by rw [inside, show s.calls j = _ from hj]; rfl) hinside)
        refine ⟨hissuing'.congr (hunused other hne) (fun c hc huser => ?_) fun k hk => .inl (hhads k ▸ hk), hfew'⟩
        rcases (mem_store hrows).mp hc with hc | rfl
        · exact ⟨hc, issuer_store hrows hc⟩
        · exact absurd huser.symm hne }

end Insert

theorem Inv.insert (h : Inv s) (hi : s.calls i = .issuing userId had removed codes) {id : Uuid} {code : String}
    (hs : s.insert hashes i userId had removed codes id code = some t) : Inv t := by
  obtain ⟨hissuing, hfew⟩ := h.issuing i userId had removed codes hi
  simp only [Store.insert] at hs
  split_ifs at hs with hused
  · cases hs
    refine h.leave hi (fun hnil => ?_) rfl (by rw [hi]; rfl)
    -- a code of the account that is in the way is one the call inserted
    obtain ⟨c, hc, hcode⟩ := List.any_eq_true.mp hused
    simp only [Bool.and_eq_true, decide_eq_true_eq] at hcode
    have hmem : c ∈ s.unused userId := mem_unused.mpr ⟨hc, hcode.1, (hissuing.own c hc hcode.1).2⟩
    have hlength := List.length_pos_of_mem hmem
    rw [hissuing.length, hnil] at hlength
    cases hlength
  · obtain ⟨rows, hrows, rfl⟩ := Option.map_eq_some_iff.mp hs
    exact h.store hi hrows code (by rw [hi]; rfl) (.inl rfl)
  · obtain ⟨rows, hrows, rfl⟩ := Option.map_eq_some_iff.mp hs
    rename_i hlast
    rw [List.length_append, List.length_singleton] at hlast
    exact h.store hi hrows code (by rw [hi]; rfl) (.inr ⟨rfl, by omega⟩)

/-! ### The runs -/

/-- Every allowed step keeps the invariant. -/
theorem Inv.step {e : Event} (h : Inv s) (hok : s.Orderly e) (hs : recoveryStep hashes box s e = some t) : Inv t := by
  have hbegin : ∀ {userId other : Uuid}, (if s.usable userId then some userId else none) = some other →
      s.usable other = true := by
    intro userId other hother
    split_ifs at hother with husable
    exact Option.some.inj hother ▸ husable
  cases e with
  | refresh i userId =>
    simp only [recoveryStep] at hs
    split at hs
    · rename_i hi
      cases hs
      exact h.move (by rw [hi]; rfl) rfl fun _ hhad => .inr (hbegin hhad)
    · cases hs
  | confirm i userId factorId code unixSeconds =>
    simp only [recoveryStep] at hs
    split at hs
    · rename_i hi
      split at hs
      · cases hs
        exact h.move (by rw [hi]; rfl) rfl fun _ hhad => .inr (hbegin hhad)
      · cases hs
        exact h.move (by rw [hi]; rfl) rfl fun _ hhad => .inr (hbegin hhad)
    · cases hs
  | confirmed i =>
    simp only [recoveryStep] at hs
    split at hs
    · rename_i userId factorId had hi
      cases hs
      have hmoved := h.move (i := i) (p := .ready userId had) (by rw [hi]; rfl) rfl
        fun _ hhad => .inl (by rw [hi]; exact hhad)
      exact ⟨hmoved.exclusive, fun other hnone => (hmoved.settled other hnone).congr rfl (fun _ _ => rfl) fun _ => .inl,
        fun j other had removed codes hj => ⟨(hmoved.issuing j other had removed codes hj).1.congr rfl
          (fun _ hc _ => ⟨hc, rfl⟩) fun _ => .inl, (hmoved.issuing j other had removed codes hj).2⟩⟩
    · cases hs
  | delete i =>
    simp only [recoveryStep] at hs
    split at hs
    · rename_i userId had hi
      cases hs
      exact h.delete hi (hok userId had hi)
    · cases hs
  | insert i id code =>
    simp only [recoveryStep] at hs
    split at hs
    · rename_i hi
      exact h.insert hi hs
    · cases hs
  | stop i =>
    simp only [recoveryStep] at hs
    split at hs
    · rename_i hi
      cases hs
      exact h.move (by rw [hi]; rfl) rfl fun _ hhad => .inl (by rw [hi]; exact hhad)
    · rename_i hi
      cases hs
      exact h.move (by rw [hi]; rfl) rfl fun _ hhad => .inl (by rw [hi]; exact hhad)
    · rename_i userId had removed codes hi
      cases hs
      refine h.leave hi (fun hnil => Bool.eq_false_iff.mpr fun hremoved => ?_) rfl (by rw [hi]; rfl)
      exact hok userId had (by rw [hi, hnil, hremoved])
    · cases hs
  | tick now =>
    simp only [recoveryStep] at hs
    split_ifs at hs
    cases hs
    exact ⟨h.exclusive, fun other hnone => (h.settled other hnone).congr rfl (fun _ _ => rfl) fun _ => .inl,
      fun j other had removed codes hj => ⟨(h.issuing j other had removed codes hj).1.congr rfl
        (fun _ hc _ => ⟨hc, rfl⟩) fun _ => .inl, (h.issuing j other had removed codes hj).2⟩⟩

/-- **One set of recovery codes**: over any interleaving of calls, failures and the clock in
which a call deletes only while no other call of the account is between its delete and its
end, and none that deleted a usable code fails before its first new one, once the calls of an
account have settled its unused codes are of one call, at most ten, and not lost. -/
theorem run_oneSet {factors : Table MfaFactor MfaFactor.id} {rows : Table RecoveryCode RecoveryCode.id} {now : Instant}
    {es : List Event} (hfew : ∀ userId, ((start factors rows now).unused userId).length ≤ recoveryCodeCount)
    (h : Transition.Run (recoveryStep hashes box) Orderly (start factors rows now) es s)
    (hsettled : ∀ i, (s.calls i).busy ≠ some userId) : s.OneSet userId := by
  have hstart : Inv (start factors rows now) :=
    ⟨guarded_none, fun _ _ => ⟨fun _ _ _ _ => rfl, hfew _, fun _ hj => by cases hj⟩, fun _ _ _ _ _ hj => by cases hj⟩
  have hinv := h.invariant hstart fun _ _ _ hx hok hs => hx.step hok hs
  have hnone : ∀ i, s.inside i ≠ some userId :=
    fun i hi => hsettled i (Stage.busy_of_inside hi)
  obtain ⟨hissuer, hfew, hkept⟩ := hinv.settled userId hnone
  exact ⟨hissuer, hfew, fun i hi => hkept i (by rw [hi]; rfl)⟩

/-- The hashes of two recovery codes, `ABCDE-FGHJK` and `LMNPQ-RSTUV`. -/
def recoveryHashes : Hashes where
  sha256 message :=
    if message = asciiBytes "omnion.recovery.v1ABCDEFGHJK".toList then
      ⟨[0xbb, 0xb3, 0x70, 0x80, 0xfa, 0x3c, 0xd2, 0xdf, 0xcf, 0x7e, 0x6f, 0xf0, 0x1e, 0x91, 0x02, 0x4c,
      0x47, 0xad, 0xbc, 0xc9, 0xf3, 0x09, 0xfa, 0xd4, 0xa6, 0x39, 0xa7, 0x4b, 0x9b, 0x9a, 0xcb, 0x5b], rfl⟩
    else
      ⟨[0x72, 0xac, 0x3e, 0x02, 0x58, 0x2f, 0x86, 0x02, 0x24, 0xc7, 0x47, 0xb4, 0x4c, 0xcb, 0x44, 0x24,
      0x91, 0x39, 0x71, 0xd4, 0x82, 0x11, 0x2c, 0xc9, 0xb6, 0x49, 0x1d, 0xd8, 0x34, 0x75, 0x4e, 0xfb], rfl⟩
  hmacSha1 := Factors.Store.knownHashes.hmacSha1
  hmacSha256 := Factors.Store.knownHashes.hmacSha256

/-- Two calls delete the codes before either inserts one, and then are dropped. -/
def crossed : List Event :=
  [.refresh 0 7, .refresh 1 7, .delete 0, .delete 1, .insert 0 50 "ABCDE-FGHJK", .insert 1 51 "LMNPQ-RSTUV", .stop 0,
    .stop 1]

/-- Where only the first two calls make statements, and these are over, all are. -/
theorem settled_of_two (userId : Uuid) {ok : Store → Event → Prop} {es : List Event}
    (h : Transition.Run (recoveryStep hashes box) ok s es t)
    (hidle : ∀ i, s.calls i = .idle) (hes : ∀ e ∈ es, e.call = some 0 ∨ e.call = some 1)
    (hover : (t.calls 0).busy = none ∧ (t.calls 1).busy = none) (i : ℕ) : (t.calls i).busy ≠ some userId := by
  have hother : i ≠ 0 → i ≠ 1 → t.calls i = .idle := by
    intro h0 h1
    rw [← hidle i]
    refine h.keeps (f := fun x => x.calls i) fun e he x y hs => calls_of_step hs fun hi => ?_
    rcases hes e he with he | he <;> rw [he] at hi
    · exact h0 (Option.some.inj hi).symm
    · exact h1 (Option.some.inj hi).symm
  by_cases h0 : i = 0
  · rw [h0, hover.1]
    exact fun hbusy => by cases hbusy
  · by_cases h1 : i = 1
    · rw [h1, hover.2]
      exact fun hbusy => by cases hbusy
    · rw [hother h0 h1]
      exact fun hbusy => by cases hbusy

/-- The account has a code of each. -/
theorem two_sets :
    ¬ ∀ (hashes : Hashes) (box : SecretBox) (factors : Table MfaFactor MfaFactor.id)
        (rows : Table RecoveryCode RecoveryCode.id) (now : Instant) (es : List Event) (s : Store) (userId : Uuid),
      (∀ userId, ((start factors rows now).unused userId).length ≤ recoveryCodeCount) →
        Transition.Run (recoveryStep hashes box) Transition.Any (start factors rows now) es s →
          (∀ i, (s.calls i).busy ≠ some userId) → s.OneSet userId := by
  intro h
  let first : RecoveryCode := ⟨50, 7, "bbb37080fa3cd2dfcf7e6ff01e91024c47adbcc9f309fad4a639a74b9b9acb5b", none⟩
  let second : RecoveryCode := ⟨51, 7, "72ac3e02582f860224c747b44ccb4424913971d482112cc9b6491dd834754efb", none⟩
  have hexec : (Transition.exec (recoveryStep recoveryHashes Factors.Store.unitTestBox)
    (start .empty .empty 0) crossed).map
      (fun s => (s.unused 7, s.issuer 50, s.issuer 51, (s.calls 0).busy, (s.calls 1).busy)) =
        some ([first, second], some 0, some 1, none, none) := by decide +kernel
  obtain ⟨s, hs, hstate⟩ := Transition.Run.of_exec_map hexec
  simp only [Prod.mk.injEq] at hstate
  obtain ⟨hunused, hissuer, hissuer', hover⟩ := hstate
  have hsettled := settled_of_two 7 hs (fun _ => rfl) (by decide) hover
  have hone := (h recoveryHashes Factors.Store.unitTestBox .empty .empty 0 crossed s 7 (fun _ => Nat.zero_le _)
    hs hsettled).issuer
    first (by simp [hunused]) second (by simp [hunused])
  rw [hissuer, hissuer'] at hone
  exact absurd hone (by decide)

/-- A call replaces the one code of an account, and is dropped after its first new code. -/
def dropped : List Event := [.refresh 0 7, .delete 0, .insert 0 51 "LMNPQ-RSTUV", .stop 0]

/-- The code at the start. -/
def oneCode : Table RecoveryCode RecoveryCode.id where
  rows := [⟨50, 7, "bbb37080fa3cd2dfcf7e6ff01e91024c47adbcc9f309fad4a639a74b9b9acb5b", none⟩]
  nodup := by decide

/-- The account has the new code. -/
theorem run_oneSet_dropped :
    ∃ s, Transition.Run (recoveryStep recoveryHashes Factors.Store.unitTestBox) Orderly
      (start .empty oneCode 0) dropped s ∧
      (s.unused 7).map (·.id) = [51] ∧ s.OneSet 7 := by
  have hrun : ∃ s, Transition.Run (recoveryStep recoveryHashes Factors.Store.unitTestBox) Orderly
      (start .empty oneCode 0)
      dropped s ∧ ((s.unused 7).map (·.id), (s.calls 0).busy, (s.calls 1).busy) = ([51], none, none) := by
    refine ⟨_, .cons trivial rfl (.cons (fun userId had _ j hj => ?_) rfl (.cons trivial rfl
      (.cons (fun userId had hstage => ?_) rfl .nil))), ?_⟩
    · rw [inside_move, Function.update_of_ne hj]
      exact fun hinside => by cases hinside
    · cases hstage
    · decide +kernel
  obtain ⟨s, hrun, hstate⟩ := hrun
  obtain ⟨hunused, hover⟩ := Prod.mk.inj hstate
  have hsettled := settled_of_two 7 hrun (fun _ => rfl) (by decide) (Prod.mk.inj hover)
  refine ⟨s, hrun, hunused, run_oneSet (fun userId => ?_) hrun hsettled⟩
  exact (List.length_filter_le _ _).trans (by decide)

end Store

end Omnion.Identity.RecoveryCodes
