import Omnion.Identity.SignIn
import Omnion.Library.Exclusion

/-!
# Guessing a password

The statements of `sign_in` taken apart: any number of calls on one account, interleaved in any
order.

## The model

A call reads the account, counts the failures of its address, looks at the lock it read and
checks the password. A wrong one is counted, registered in the account's row and recorded in
the log, by three statements; a right one clears the row and is recorded. What other code
records in the log comes from outside, and time passes. It is kept when wrong passwords were
checked since the account was last locked, how often it was locked, and for each lock a right
password removed how often it had been as that password was checked.

## What is proved

* `run_fewGuesses` — in no window are more wrong passwords checked than the threshold allows
  before the account is locked, and no lock is removed by a password checked after it: in the
  runs where a wrong password is checked only while every other is in the log, and a right one
  only while the account is not locked.
* `sixth_guess` — six calls that all read the account before any is counted check six wrong
  passwords where five are allowed.
-/

namespace Omnion.Identity.Guessing

open Security SignIn

/-- How far a call has come. -/
inductive Stage where
  | idle
  | read (request : Request) (account : UserRow)
  | admitted (request : Request) (account : UserRow)
  /-- The account, as it was read, has this hash and is not locked. -/
  | unlocked (request : Request) (account : UserRow) (hash : String)
  | wrong (request : Request) (account : UserRow)
  | counted (request : Request) (account : UserRow) (failures : ℕ)
  /-- The failure was registered, and is to be recorded. -/
  | registered (request : Request) (refusal : Refusal)
  /-- The password is right; the account had been locked so often. -/
  | right (request : Request) (account : UserRow) (locks : ℕ)
  /-- What the call came to is to be recorded. -/
  | recording (request : Request) (refusal : Refusal)
  | answered (answer : SignInOutcome)

/-- A call has checked a wrong password that is not in the log. -/
def Stage.inside : Stage → Option Unit
  | .wrong .. | .counted .. | .registered .. => some ()
  | _ => none

/-- The tables, the calls, and what was checked and removed. -/
structure Store where
  tables : Tables
  calls : ℕ → Stage
  /-- When wrong passwords were checked since the account was last locked. -/
  guesses : List Instant
  locks : ℕ
  /-- For each lock removed: how often the account had been locked as the password was checked
  that removed it, and which lock it was. -/
  removals : List (ℕ × ℕ)

/-- The statements of the calls, and what happens meanwhile. -/
inductive Event where
  | read (i : ℕ) (request : Request)
  | address (i : ℕ)
  | lock (i : ℕ)
  | check (i : ℕ)
  | count (i : ℕ)
  | register (i : ℕ)
  | clear (i : ℕ)
  | record (i : ℕ)
  /-- Something else is recorded in the log. -/
  | other (userId : Option Uuid) (ip : Option String) (outcome : Outcome) (reason : Option String)
  | tick (now : Instant)

namespace Store

/-- Call `i` goes on to a stage. -/
def move (s : Store) (i : ℕ) (p : Stage) : Store := { s with calls := Function.update s.calls i p }

/-- Before the first call. -/
def start (tables : Tables) : Store where
  tables := tables
  calls := fun _ => .idle
  guesses := []
  locks := 0
  removals := []

/-- `register_failure` of a call for which so many failures count. -/
def register (lockout : EnforcedLockout) (s : Store) (count : ℤ) : Store :=
  { s with
    tables := { s.tables with account := registerFailure lockout s.tables.account count s.tables.now }
    guesses := if lockout.attempts ≤ count then [] else s.guesses
    locks := if lockout.attempts ≤ count then s.locks + 1 else s.locks }

/-- `clear_failures` of a call whose password was checked when the account had been locked so
often. -/
def clear (s : Store) (locks : ℕ) : Store :=
  { s with
    tables := { s.tables with account := clearFailures s.tables.account }
    removals := if s.tables.account.locked s.tables.now then s.removals ++ [(locks, s.locks)] else s.removals }

end Store

/-- One statement of one call. -/
def guessStep (lockout : EnforcedLockout) (verify : String → String → Bool) (s : Store) : Event → Option Store
  | .read i request =>
    match s.calls i with
    | .idle => some (s.move i (.read request s.tables.account))
    | _ => none
  | .address i =>
    match s.calls i with
    | .read request account =>
      let userId := if account.passwordHash.isSome then some account.id else none
      match addressRefusal lockout s.tables.attempts userId request s.tables.now with
      | some refusal => some (s.move i (.recording request refusal))
      | none => some (s.move i (.admitted request account))
    | _ => none
  | .lock i =>
    match s.calls i with
    | .admitted request account =>
      match account.passwordHash with
      | none => some (s.move i (.recording request ⟨none, .failed, some "unknown address", .invalidCredentials⟩))
      | some hash =>
        match lockRefusal lockout account s.tables.now with
        | some refusal => some (s.move i (.recording request refusal))
        | none => some (s.move i (.unlocked request account hash))
    | _ => none
  | .check i =>
    match s.calls i with
    | .unlocked request account hash =>
      if verify request.password hash = false then
        some { s.move i (.wrong request account) with guesses := s.guesses ++ [s.tables.now] }
      else
        match statusRefusal account with
        | some refusal => some (s.move i (.recording request refusal))
        | none => some (s.move i (.right request account s.locks))
    | _ => none
  | .count i =>
    match s.calls i with
    | .wrong request account => some (s.move i (.counted request account (s.tables.failures lockout)))
    | _ => none
  | .register i =>
    match s.calls i with
    | .counted request _ failures =>
      let s' := s.register lockout (failuresIncluding failures)
      some (s'.move i (.registered request (failureRefusal lockout s'.tables.account s.tables.now)))
    | _ => none
  | .clear i =>
    match s.calls i with
    | .right request account locks => some ((s.clear locks).move i (.recording request (acceptance account request)))
    | _ => none
  | .record i =>
    match s.calls i with
    | .registered request refusal | .recording request refusal =>
      some { s.move i (.answered refusal.answer) with tables := s.tables.refuse request refusal }
    | _ => none
  | .other userId ip outcome reason => some { s with tables := s.tables.record userId ip outcome reason }
  | .tick now => if s.tables.now ≤ now then some { s with tables := { s.tables with now } } else none

namespace Store

open Exclusion

variable {lockout : EnforcedLockout} {verify : String → String → Bool} {s t : Store} {i : ℕ} {p : Stage}

/-- Whether a call has checked a wrong password that is not in the log. -/
def inside (s : Store) : ℕ → Option Unit := fun i => (s.calls i).inside

/-- **The bounds**: in no window more wrong passwords than the threshold says, until the account
is locked; and a lock is removed only by a password checked before it. -/
structure Bounded (lockout : EnforcedLockout) (s : Store) : Prop where
  guesses : ∀ now, (s.guesses.countP fun guess => lockout.windowStart now < guess && guess ≤ now) ≤ lockout.attempts
  removals : ∀ removal ∈ s.removals, removal.1 < removal.2

/-- **The steps allowed**: a wrong password is checked only while every other is in the log, and
a right one only while the account is not locked; and the failures counted fit in an `i32`. -/
def Orderly (lockout : EnforcedLockout) (verify : String → String → Bool) (s : Store) : Event → Prop
  | .check i => ∀ request account hash, s.calls i = .unlocked request account hash →
      if verify request.password hash = false then Free s.inside i () else s.tables.account.locked s.tables.now = false
  | .count _ => s.tables.failures lockout < 0x7fffffff
  | _ => True

def guessesSince (s : Store) (start : Instant) : ℕ := s.guesses.countP fun guess => start < guess

/-- The guesses of any window that ends now or later are in the log, but for so many, and are at
most so many. -/
def Within (lockout : EnforcedLockout) (s : Store) (missing : ℕ) (bound : ℤ) : Prop :=
  ∀ later, s.tables.now ≤ later →
    s.guessesSince (lockout.windowStart later) ≤
      failuresInWindow lockout s.tables.attempts s.tables.account.id later + missing ∧
      s.guessesSince (lockout.windowStart later) ≤ bound

/-- How many guesses there may be in a window while a call is at a stage. -/
def allowance (lockout : EnforcedLockout) : Stage → ℤ
  | .wrong .. => lockout.attempts
  | .counted _ _ failures => failures + 1
  | _ => lockout.attempts - 1

/-- **The invariant**: the guesses are in the log, but for one while a call is about to record
it; and a right password is of before the lock there may be. -/
structure Inv (lockout : EnforcedLockout) (s : Store) : Prop where
  bounded : Bounded lockout s
  past : ∀ guess ∈ s.guesses, guess ≤ s.tables.now
  /-- One call at a time has a guess to record. -/
  exclusive : Guarded s.inside fun _ => True
  free : (∀ i, s.inside i = none) → Within lockout s 0 (lockout.attempts - 1)
  busy : ∀ i, s.inside i = some () → Within lockout s 1 (allowance lockout (s.calls i))
  fits : ∀ i request account failures, s.calls i = .counted request account failures → failures < 0x7fffffff
  /-- What is recorded of a guess counts. -/
  counts : ∀ i request refusal, s.calls i = .registered request refusal →
    refusal.userId = some s.tables.account.id ∧ (refusal.outcome = .failed ∨ refusal.outcome = .locked)
  /-- A right password was checked before the account was locked. -/
  right : ∀ i request account locks, s.calls i = .right request account locks →
    locks ≤ s.locks ∧ (s.tables.account.locked s.tables.now = true → locks < s.locks)

/-! ### Windows -/

theorem inside_move : (s.move i p).inside = Function.update s.inside i p.inside := by
  funext j
  exact Function.apply_update (fun _ => Stage.inside) s.calls i p j

theorem calls_move {j : ℕ} : (s.move i p).calls j = if j = i then p else s.calls j := Function.update_apply ..

theorem Within.mono {missing missing' : ℕ} {bound bound' : ℤ} (h : Within lockout s missing bound)
    (hguesses : t.guesses = s.guesses) (hnow : s.tables.now ≤ t.tables.now)
    (hrows : ∀ later, t.tables.now ≤ later → s.guessesSince (lockout.windowStart later) ≤
      failuresInWindow lockout s.tables.attempts s.tables.account.id later + missing →
        s.guessesSince (lockout.windowStart later) ≤
          failuresInWindow lockout t.tables.attempts t.tables.account.id later + missing')
    (hbound : bound ≤ bound') : Within lockout t missing' bound' := by
  intro later hlater
  obtain ⟨hlog, hfew⟩ := h later (Int.le_trans hnow hlater)
  simp only [guessesSince, hguesses] at hrows hlog hfew ⊢
  exact ⟨hrows later hlater hlog, Int.le_trans hfew hbound⟩

theorem failuresInWindow_append (attempts : List Attempt) (attempt : Attempt) (userId : Uuid) (now : Instant) :
    failuresInWindow lockout (attempts ++ [attempt]) userId now =
      failuresInWindow lockout attempts userId now +
        if attempt.counts userId && lockout.windowStart now < attempt.createdAt then 1 else 0 := by
  rw [failuresInWindow, countedSince_append, List.length_append, failuresInWindow, countedSince, countedSince,
    List.filter_singleton]
  split_ifs with h
  · rw [h]
    rfl
  · rw [Bool.not_eq_true] at h
    rw [h]
    rfl

theorem counts_failureRefusal (account : UserRow) (now : Instant) :
    (failureRefusal lockout account now).userId = some account.id ∧
      ((failureRefusal lockout account now).outcome = .failed ∨
        (failureRefusal lockout account now).outcome = .locked) := by
  simp only [failureRefusal]
  split
  · exact ⟨rfl, .inr rfl⟩
  · exact ⟨rfl, .inl rfl⟩

/-! ### The statements -/

/-- A call goes on that has no guess to record. -/
theorem Inv.move (h : Inv lockout s) (hi : (s.calls i).inside = none) (hp : p.inside = none)
    (hright : ∀ request account locks, p = .right request account locks →
      locks ≤ s.locks ∧ (s.tables.account.locked s.tables.now = true → locks < s.locks)) :
    Inv lockout (s.move i p) := by
  have hinside : (s.move i p).inside = s.inside := by
    rw [inside_move, hp, ← hi]
    exact Function.update_eq_self i s.inside
  have hcalls : ∀ j, (s.move i p).calls j = s.calls j ∨ (s.move i p).calls j = p := by
    intro j
    rw [calls_move]
    split_ifs
    · exact .inr rfl
    · exact .inl rfl
  exact {
    bounded := ⟨h.bounded.guesses, h.bounded.removals⟩
    past := h.past
    exclusive := hinside ▸ h.exclusive
    free := fun hnone => h.free (hinside ▸ hnone)
    busy := fun j hj => by
      rcases hcalls j with hsame | hsame
      · rw [hsame]
        exact h.busy j (hinside ▸ hj)
      · rw [inside, hsame, hp] at hj
        cases hj
    fits := fun j request account failures hj => by
      rcases hcalls j with hsame | hsame <;> rw [hsame] at hj
      · exact h.fits j request account failures hj
      · rw [hj] at hp
        cases hp
    counts := fun j request refusal hj => by
      rcases hcalls j with hsame | hsame <;> rw [hsame] at hj
      · exact h.counts j request refusal hj
      · rw [hj] at hp
        cases hp
    right := fun j request account locks hj => by
      rcases hcalls j with hsame | hsame <;> rw [hsame] at hj
      · exact h.right j request account locks hj
      · exact hright request account locks hj }

/-- A row is recorded, or time passes. -/
theorem Inv.later (h : Inv lockout s) {attempts : List Attempt} {now : Instant} (hnow : s.tables.now ≤ now)
    (hrows : ∀ later, failuresInWindow lockout s.tables.attempts s.tables.account.id later ≤
      failuresInWindow lockout attempts s.tables.account.id later) :
    Inv lockout { s with tables := { s.tables with attempts, now } } := by
  have hlocked : s.tables.account.locked now = true → s.tables.account.locked s.tables.now = true := by
    intro hlocked
    rw [UserRow.locked, Option.any_eq_true] at hlocked ⊢
    obtain ⟨last, hlast, hlt⟩ := hlocked
    exact ⟨last, hlast, decide_eq_true (Int.lt_of_le_of_lt hnow (of_decide_eq_true hlt))⟩
  have hmore : ∀ (missing : ℕ) later, now ≤ later → s.guessesSince (lockout.windowStart later) ≤
      failuresInWindow lockout s.tables.attempts s.tables.account.id later + missing →
        s.guessesSince (lockout.windowStart later) ≤
          failuresInWindow lockout attempts s.tables.account.id later + missing :=
    fun _ later _ hle => Nat.le_trans hle (Nat.add_le_add_right (hrows later) _)
  exact {
    bounded := ⟨h.bounded.guesses, h.bounded.removals⟩
    past := fun guess hguess => Int.le_trans (h.past guess hguess) hnow
    exclusive := h.exclusive
    free := fun hnone => (h.free hnone).mono rfl hnow (hmore 0) Int.le_rfl
    busy := fun j hj => (h.busy j hj).mono rfl hnow (hmore 1) Int.le_rfl
    fits := h.fits
    counts := h.counts
    right := fun j request account locks hj =>
      ⟨(h.right j request account locks hj).1, fun hnow => (h.right j request account locks hj).2 (hlocked hnow)⟩ }

/-- A call that has a guess to record, or checks one, goes on: it alone. -/
theorem Inv.alone {s t : Store} (h : Inv lockout s) (hi : Free s.inside i ())
    (ht : t.inside = Function.update s.inside i p.inside)
    (hcalls : ∀ j, t.calls j = if j = i then p else s.calls j) (hbounded : Bounded lockout t)
    (hpast : ∀ guess ∈ t.guesses, guess ≤ t.tables.now)
    (hfree : p.inside = none → Within lockout t 0 (lockout.attempts - 1))
    (hbusy : p.inside = some () → Within lockout t 1 (allowance lockout p))
    (hfits : ∀ request account failures, p = .counted request account failures → failures < 0x7fffffff)
    (hid : t.tables.account.id = s.tables.account.id)
    (hcounts : ∀ request refusal, p = .registered request refusal →
      refusal.userId = some s.tables.account.id ∧ (refusal.outcome = .failed ∨ refusal.outcome = .locked))
    (hlocks : s.locks ≤ t.locks)
    (hright : t.tables.account.locked t.tables.now = true →
      s.tables.account.locked s.tables.now = true ∨ s.locks < t.locks)
    (hp : ∀ request account locks, p ≠ .right request account locks) : Inv lockout t where
  bounded := hbounded
  past := hpast
  exclusive := by
    rw [ht]
    exact h.exclusive.update (fun _ _ _ => trivial) fun k _ => ⟨hi, trivial⟩
  free hnone := by
    have hnone := hnone i
    rw [ht, Function.update_self] at hnone
    exact hfree hnone
  busy j hj := by
    by_cases hji : j = i
    · subst hji
      rw [ht, Function.update_self] at hj
      rw [hcalls, if_pos rfl]
      exact hbusy hj
    · rw [ht, Function.update_of_ne hji] at hj
      exact absurd hj (hi j hji)
  fits j request account failures hj := by
    rw [hcalls] at hj
    split_ifs at hj
    · exact hfits request account failures hj
    · exact h.fits j request account failures hj
  counts j request refusal hj := by
    rw [hid]
    rw [hcalls] at hj
    split_ifs at hj
    · exact hcounts request refusal hj
    · exact h.counts j request refusal hj
  right j request account locks hj := by
    rw [hcalls] at hj
    split_ifs at hj
    · exact absurd hj (hp request account locks)
    · obtain ⟨hle, hlt⟩ := h.right j request account locks hj
      refine ⟨Nat.le_trans hle hlocks, fun hlocked => ?_⟩
      rcases hright hlocked with hlocked | hmore
      · exact Nat.lt_of_lt_of_le (hlt hlocked) hlocks
      · exact Nat.lt_of_le_of_lt hle hmore

/-- A wrong password is checked while every other is in the log. -/
theorem Inv.guess (h : Inv lockout s) {request : Request} {account : UserRow} (hi : (s.calls i).inside = none)
    (hfree : Free s.inside i ()) :
    Inv lockout { s.move i (.wrong request account) with guesses := s.guesses ++ [s.tables.now] } := by
  have hnone : ∀ j, s.inside j = none := by
    intro j
    by_cases hji : j = i
    · rw [hji]
      exact hi
    · exact Option.eq_none_iff_forall_ne_some.mpr fun k => hfree j hji
  have hwithin := h.free hnone
  refine h.alone (p := .wrong request account) hfree inside_move (fun j => calls_move)
    ⟨fun now => ?_, h.bounded.removals⟩ (fun guess hguess => ?_)
    nofun (fun _ later hlater => ?_) (fun _ _ _ hp => by cases hp) rfl (fun _ _ hp => by cases hp) (Nat.le_refl _) .inl
    fun _ _ _ hp => by cases hp
  · rw [List.countP_append, List.countP_singleton]
    by_cases hnow : s.tables.now ≤ now
    · have hle : (s.guesses.countP fun guess => lockout.windowStart now < guess && guess ≤ now) ≤
          s.guessesSince (lockout.windowStart now) :=
        List.countP_mono_left fun guess _ hguess => (Bool.and_eq_true _ _ ▸ hguess).1
      have hfew := (hwithin now hnow).2
      split_ifs <;> omega
    · have hold := h.bounded.guesses now
      rw [if_neg (by simp [hnow])]
      exact hold
  · rcases List.mem_append.mp hguess with hguess | hguess
    · exact h.past guess hguess
    · rw [List.mem_singleton.mp hguess]
      exact Int.le_rfl
  · obtain ⟨hlog, hfew⟩ := hwithin later hlater
    simp only [guessesSince, List.countP_append, List.countP_singleton, allowance, Store.move] at hlog hfew ⊢
    split_ifs
    · exact ⟨by omega, by omega⟩
    · exact ⟨by omega, by omega⟩

/-- A call with a guess counts the failures: with its own guess, all that are in the window. -/
theorem Inv.count (h : Inv lockout s) {request : Request} {account : UserRow} (hi : s.calls i = .wrong request account)
    (hfits : s.tables.failures lockout < 0x7fffffff) :
    Inv lockout (s.move i (.counted request account (s.tables.failures lockout))) := by
  have hinside : s.inside i = some () := by rw [inside, hi]; rfl
  refine h.alone (h.exclusive.free hinside) inside_move (fun j => calls_move) ⟨h.bounded.guesses, h.bounded.removals⟩
    h.past nofun (fun _ later hlater => ?_) (fun _ _ _ hp => by cases hp; exact hfits) rfl (fun _ _ hp => by cases hp)
    (Nat.le_refl _) .inl fun _ _ _ hp => by cases hp
  have hlog := (h.busy i hinside later hlater).1
  have hall : s.guessesSince (lockout.windowStart later) ≤ s.tables.failures lockout + 1 :=
    Nat.le_trans hlog (Nat.add_le_add_right (failuresInWindow_le hlater) 1)
  refine ⟨hlog, ?_⟩
  exact Int.ofNat_le.mpr hall

/-- A call with a guess registers the failure. -/
theorem Inv.register (h : Inv lockout s) {request : Request} {account : UserRow} {failures : ℕ} {count : ℤ}
    (hi : s.calls i = .counted request account failures) (hcount : count = failures + 1) :
    Inv lockout ((s.register lockout count).move i
      (.registered request (failureRefusal lockout (s.register lockout count).tables.account s.tables.now))) := by
  have hinside : s.inside i = some () := by rw [inside, hi]; rfl
  have hpos := lockout.attempts_range.1
  refine h.alone (h.exclusive.free hinside) inside_move (fun j => calls_move) ⟨fun now => ?_, h.bounded.removals⟩
    (fun guess hguess => ?_) nofun (fun _ later hlater => ?_) (fun _ _ _ hp => by cases hp) rfl
    (fun _ refusal hp => ?_) ?_ (fun hlocked => ?_) fun _ _ _ hp => by cases hp
  · simp only [Store.move, Store.register]
    split_ifs
    · exact Int.le_trans (Int.natCast_nonneg 0) (by omega)
    · exact h.bounded.guesses now
  · simp only [Store.move, Store.register] at hguess
    split_ifs at hguess
    · cases hguess
    · exact h.past guess hguess
  · -- there is no guess since a lock, and without one fewer than the threshold were counted
    obtain ⟨hlog, hfew⟩ := h.busy i hinside later hlater
    rw [hi] at hfew
    simp only [allowance] at hfew
    simp only [guessesSince, Store.move, Store.register, allowance] at hlog hfew ⊢
    split_ifs with hreached
    · exact ⟨Nat.zero_le _, by simp; omega⟩
    · exact ⟨hlog, by omega⟩
  · cases hp
    exact counts_failureRefusal ..
  · simp only [Store.move, Store.register]
    split_ifs <;> omega
  · rcases locked_registerFailure hlocked with hbefore | hreached
    · exact .inl hbefore
    · simp only [Store.move, Store.register, if_pos hreached]
      exact .inr (Nat.lt_succ_self _)

/-- A call with a guess records it. -/
theorem Inv.recorded (h : Inv lockout s) {request : Request} {refusal : Refusal}
    (hi : s.calls i = .registered request refusal) :
    Inv lockout { s.move i (.answered refusal.answer) with tables := s.tables.refuse request refusal } := by
  have hinside : s.inside i = some () := by rw [inside, hi]; rfl
  obtain ⟨huser, houtcome⟩ := h.counts i request refusal hi
  refine h.alone (h.exclusive.free hinside) inside_move (fun j => calls_move) ⟨h.bounded.guesses, h.bounded.removals⟩
    h.past (fun _ later hlater => ?_) nofun (fun _ _ _ hp => by cases hp) rfl (fun _ _ hp => by cases hp)
    (Nat.le_refl _) .inl fun _ _ _ hp => by cases hp
  obtain ⟨hlog, hfew⟩ := h.busy i hinside later hlater
  rw [hi] at hfew
  refine ⟨?_, hfew⟩
  change s.guessesSince _ ≤ failuresInWindow lockout (s.tables.attempts ++ [_]) s.tables.account.id later + 0
  rw [failuresInWindow_append]
  by_cases hwindow : lockout.windowStart later < s.tables.now
  · have hcounts :
        (s.tables.row refusal.userId request.ip refusal.outcome refusal.reason).counts s.tables.account.id = true := by
      simp only [Attempt.counts, Tables.row, huser, decide_true, Bool.true_and]
      rcases houtcome with houtcome | houtcome <;> simp [houtcome]
    rw [if_pos (by rw [hcounts, Bool.true_and]; exact decide_eq_true hwindow)]
    exact hlog
  · -- the window begins after every guess
    have hzero : s.guessesSince (lockout.windowStart later) = 0 := by
      refine List.countP_eq_zero.mpr fun guess hguess hlt => hwindow ?_
      exact Int.lt_of_lt_of_le (of_decide_eq_true hlt) (h.past guess hguess)
    rw [hzero]
    exact Nat.zero_le _

/-- A call whose password is right clears the account, which was locked since, if it is. -/
theorem Inv.clear (h : Inv lockout s) {request : Request} {account : UserRow} {locks : ℕ}
    (hi : s.calls i = .right request account locks) : Inv lockout (s.clear locks) where
  bounded := ⟨h.bounded.guesses, fun removal hremoval => by
    simp only [Store.clear] at hremoval
    split_ifs at hremoval with hlocked
    · rcases List.mem_append.mp hremoval with hremoval | hremoval
      · exact h.bounded.removals removal hremoval
      · rw [List.mem_singleton.mp hremoval]
        exact (h.right i request account locks hi).2 hlocked
    · exact h.bounded.removals removal hremoval⟩
  past := h.past
  exclusive := h.exclusive
  free := h.free
  busy := h.busy
  fits := h.fits
  counts := h.counts
  right j request account locks hj := ⟨(h.right j request account locks hj).1, fun hlocked => by cases hlocked⟩

/-! ### The runs -/

/-- Every allowed step keeps the invariant. -/
theorem Inv.step {e : Event} (h : Inv lockout s) (hok : s.Orderly lockout verify e)
    (hs : guessStep lockout verify s e = some t) : Inv lockout t := by
  have hrow : ∀ userId ip outcome reason,
      Inv lockout { s with tables := s.tables.record userId ip outcome reason } := by
    intro userId ip outcome reason
    refine h.later (Int.le_refl _) fun later => ?_
    rw [failuresInWindow_append]
    exact Nat.le_add_right ..
  cases e with
  | read i request =>
    simp only [guessStep] at hs
    split at hs
    · rename_i hi
      cases hs
      exact h.move (by rw [hi]; rfl) rfl fun _ _ _ hp => by cases hp
    · cases hs
  | address i =>
    simp only [guessStep] at hs
    split at hs
    · rename_i hi
      split at hs
      · cases hs
        exact h.move (by rw [hi]; rfl) rfl fun _ _ _ hp => by cases hp
      · cases hs
        exact h.move (by rw [hi]; rfl) rfl fun _ _ _ hp => by cases hp
    · cases hs
  | lock i =>
    simp only [guessStep] at hs
    split at hs
    · rename_i hi
      split at hs
      · cases hs
        exact h.move (by rw [hi]; rfl) rfl fun _ _ _ hp => by cases hp
      · split at hs
        · cases hs
          exact h.move (by rw [hi]; rfl) rfl fun _ _ _ hp => by cases hp
        · cases hs
          exact h.move (by rw [hi]; rfl) rfl fun _ _ _ hp => by cases hp
    · cases hs
  | check i =>
    simp only [guessStep] at hs
    split at hs
    · rename_i request account hash hi
      have hallowed := hok request account hash hi
      split_ifs at hs with hverify
      · cases hs
        rw [if_pos hverify] at hallowed
        exact h.guess (by rw [hi]; rfl) hallowed
      · rw [if_neg hverify] at hallowed
        split at hs
        · cases hs
          exact h.move (by rw [hi]; rfl) rfl fun _ _ _ hp => by cases hp
        · cases hs
          refine h.move (by rw [hi]; rfl) rfl fun _ _ _ hp => ?_
          cases hp
          exact ⟨Nat.le_refl _, fun hlocked => by rw [hallowed] at hlocked; cases hlocked⟩
    · cases hs
  | count i =>
    simp only [guessStep] at hs
    split at hs
    · rename_i request account hi
      cases hs
      exact h.count hi hok
    · cases hs
  | register i =>
    simp only [guessStep] at hs
    split at hs
    · rename_i request account failures hi
      cases hs
      exact h.register hi (failuresIncluding_eq (h.fits i request account failures hi))
    · cases hs
  | clear i =>
    simp only [guessStep] at hs
    split at hs
    · rename_i request account locks hi
      cases hs
      refine (h.clear hi).move ?_ rfl fun _ _ _ hp => by cases hp
      change (s.calls i).inside = none
      rw [hi]
      rfl
    · cases hs
  | record i =>
    simp only [guessStep] at hs
    split at hs
    · rename_i request refusal hi
      cases hs
      exact h.recorded hi
    · rename_i request refusal hi
      cases hs
      refine (hrow ..).move ?_ rfl fun _ _ _ hp => by cases hp
      change (s.calls i).inside = none
      rw [hi]
      rfl
    · cases hs
  | other userId ip outcome reason =>
    cases hs
    exact hrow userId ip outcome reason
  | tick now =>
    simp only [guessStep] at hs
    split_ifs at hs with hnow
    cases hs
    exact h.later hnow fun _ => Nat.le_refl _

theorem inv_start (lockout : EnforcedLockout) (tables : Tables) : Inv lockout (start tables) where
  bounded := ⟨fun _ => by have := lockout.attempts_range.1; simp [start]; omega, fun _ hremoval => by cases hremoval⟩
  past _ hguess := by cases hguess
  exclusive := guarded_none
  free _ _ _ := ⟨Nat.zero_le _, by have := lockout.attempts_range.1; simp [guessesSince, start]; omega⟩
  busy _ hi := by cases hi
  fits _ _ _ _ hi := by cases hi
  counts _ _ _ hi := by cases hi
  right _ _ _ _ hi := by cases hi

/-- **Lockout under concurrency**: over any interleaving of calls in which a wrong password is
checked only while every other is in the log, and a right one only while the account is not
locked, no window has more wrong passwords than the threshold says until the account is locked,
and no lock is removed by a password checked after it was set. -/
theorem run_fewGuesses {tables : Tables} {es : List Event}
    (h : Transition.Run (guessStep lockout verify) (Orderly lockout verify) (start tables) es s) : Bounded lockout s :=
  (h.invariant (inv_start lockout tables) fun _ _ _ hx hok hs => hx.step hok hs).bounded

/-- The statements of a call up to the check of the password. -/
def upToCheck (i : ℕ) (password : String) : List Event :=
  [.read i { password, ip := none, denied := none, factor := false }, .address i, .lock i]

/-- Six calls read the account, and then check wrong passwords. -/
def sixAtOnce : List Event :=
  (List.range 6).flatMap (fun i => upToCheck i "12345678") ++ (List.range 6).map .check

/-- Six wrong passwords are checked where five lock the account. -/
theorem sixth_guess :
    ¬ ∀ (lockout : EnforcedLockout) (verify : String → String → Bool) (tables : Tables) (es : List Event) (s : Store),
      Transition.Run (guessStep lockout verify) Transition.Any (start tables) es s → Bounded lockout s := by
  intro h
  have hexec : (Transition.exec (guessStep defaultLockout checkPassword) (start ⟨activeAccount, [], 0⟩) sixAtOnce).map
      (·.guesses) = some [0, 0, 0, 0, 0, 0] := by decide +kernel
  obtain ⟨s, hs, hguesses⟩ := Transition.Run.of_exec_map hexec
  have hfive := (h defaultLockout checkPassword ⟨activeAccount, [], 0⟩ sixAtOnce s hs).guesses 0
  rw [hguesses] at hfive
  exact absurd hfive (by decide)

/-- One failure locks the account. -/
def strictLockout : EnforcedLockout where
  attempts := 1
  lockoutMinutes := 15
  windowSeconds := 900
  attempts_range := by decide
  minutes_range := by decide
  window_range := by decide

/-- A wrong password locks the account; the right one is refused, and when the lock is over it
is not. -/
def inTurn : List Event :=
  upToCheck 0 "12345678" ++ [Event.check 0, .count 0, .register 0, .record 0] ++
    upToCheck 1 "correct horse" ++ [Event.record 1] ++
    [Event.tick 960000000] ++ upToCheck 2 "correct horse" ++ [Event.check 2, .clear 2, .record 2]

/-- The account was locked once, and is open again. -/
theorem run_fewGuesses_inTurn :
    ∃ s, Transition.Run (guessStep strictLockout checkPassword) (Orderly strictLockout checkPassword)
        (start ⟨activeAccount, [], 0⟩) inTurn s ∧
      (s.locks = 1 ∧ s.tables.account.lockedUntil = none) ∧ Bounded strictLockout s := by
  have hrun : ∃ s, Transition.Run (guessStep strictLockout checkPassword) (Orderly strictLockout checkPassword)
      (start ⟨activeAccount, [], 0⟩) inTurn s ∧ (s.locks, s.tables.account.lockedUntil) = (1, none) := by
    refine ⟨_, .cons trivial rfl (.cons trivial rfl (.cons trivial rfl (.cons (fun request account hash hi => ?_) rfl
      (.cons ?_ rfl (.cons trivial rfl (.cons trivial rfl (.cons trivial rfl (.cons trivial rfl (.cons trivial rfl
      (.cons trivial rfl (.cons trivial rfl (.cons trivial rfl (.cons trivial rfl (.cons trivial rfl
      (.cons (fun request account hash hi => ?_) rfl (.cons trivial rfl (.cons trivial rfl .nil))))))))))))))))), ?_⟩
    · cases hi
      rw [if_pos (by decide)]
      intro j hj
      simp only [inside_move, Function.update_of_ne hj]
      exact fun hinside => by cases hinside
    · change Tables.failures _ _ < _
      decide +kernel
    · cases hi
      rw [if_neg (by decide)]
      decide +kernel
    · decide +kernel
  obtain ⟨s, hrun, hstate⟩ := hrun
  exact ⟨s, hrun, Prod.mk.inj hstate, run_fewGuesses hrun⟩

end Store

end Omnion.Identity.Guessing
