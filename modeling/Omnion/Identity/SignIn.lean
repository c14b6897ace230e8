import Mathlib.Data.List.Nodup
import Mathlib.Data.List.Perm.Subperm
import Omnion.Library.Run
import Omnion.Security.Lockout

/-!
# Signing in

`sign_in` of `crates/identity/src/signin.rs`, with an administrator's unlock: the checks in
their order, what each attempt leaves in the log and in the account's row, and when the
account is locked.

## The model

One account. Attempts on it are made one after the other; what else is recorded in the log
(on other accounts, or by a second factor) comes from outside, and time passes. What the
address lists say of an address, whether the account holds a confirmed factor, and the check
of a password are arguments.

## What is proved

* `run_restarts` — after an unlock or a right password the account is locked again only at the
  last of `attempts` wrong passwords since, all in the window: in the runs where the attempts
  counted at such a lock are of wrong passwords since then.
* `locked_again` — after an unlock, one wrong password locks the account again.

## Honest scope

The thresholds in force do not change.
-/

namespace Omnion.Identity

open Security

/-- What a sign-in attempt did. -/
inductive SignInOutcome where
  /-- The password matched; a second factor may be demanded. -/
  | authenticated (challenge : Bool)
  /-- Unknown address or wrong password. -/
  | invalidCredentials
  /-- Password was correct but the account is not active. -/
  | accountDisabled (status : String)
  | accountLocked (last : Instant) (newlyLocked : Bool) (attempts : ℤ)
  /-- The address is refused before any password check. -/
  | ipBlocked (reason rule : String)

namespace SignIn

/-- An attempt to sign in. -/
structure Request where
  password : String
  ip : Option String
  /-- Why the address lists refuse the address: the reason and the rule. -/
  denied : Option (String × String)
  /-- The account holds a confirmed factor. -/
  factor : Bool

/-- A refusal: how the attempt is recorded, and what is answered. -/
structure Refusal where
  userId : Option Uuid
  outcome : Outcome
  reason : Option String
  answer : SignInOutcome

/-- Failures recorded for an address in the last minutes. -/
def recentFailuresFromAddress (attempts : List Attempt) (ip : String) (windowMinutes : ℤ) (now : Instant) : ℕ :=
  attempts.countP fun attempt => attempt.ip = some ip && (attempt.outcome = .failed || attempt.outcome = .locked) &&
    now - windowMinutes * 60000000 < attempt.createdAt

/-- The address is refused: by the lists, or because it has failed too often. -/
def addressRefusal (lockout : EnforcedLockout) (attempts : List Attempt) (userId : Option Uuid) (request : Request)
    (now : Instant) : Option Refusal :=
  match request.denied with
  | some (reason, rule) => some ⟨userId, .blocked, some s!"address {reason}: {rule}", .ipBlocked reason rule⟩
  | none => request.ip.bind fun ip =>
    let failures := recentFailuresFromAddress attempts ip lockout.lockoutMinutes now
    let limit := lockout.attempts * 3
    if limit ≤ failures then
      some ⟨userId, .blocked, some s!"{failures} recent failures from this address (limit {limit})",
        .ipBlocked "address_failures" ip⟩
    else none

/-- The account, as it was read, is locked. -/
def lockRefusal (lockout : EnforcedLockout) (account : UserRow) (now : Instant) : Option Refusal :=
  (account.lockedUntil.filter fun last => now < last).map fun last =>
    ⟨some account.id, .locked, some "the account is locked", .accountLocked last false lockout.attempts⟩

/-- `as i32`, and `i32` arithmetic. -/
def toI32 (n : ℤ) : ℤ := n.bmod 0x100000000

/-- The failures, with the attempt being judged. -/
def failuresIncluding (failures : ℕ) : ℤ := toI32 (toI32 failures + 1)

/-- The update of `register_failure`: count the failure, and lock the account at the threshold. -/
def registerFailure (lockout : EnforcedLockout) (account : UserRow) (count : ℤ) (now : Instant) : UserRow :=
  { account with
    failedSignInCount := count
    lockedUntil := if lockout.attempts ≤ count then some (now + lockout.lockoutMinutes * 60000000)
      else account.lockedUntil }

/-- How a wrong password is recorded and answered, once the failure is registered. -/
def failureRefusal (lockout : EnforcedLockout) (account : UserRow) (now : Instant) : Refusal :=
  let reason := some s!"attempt {account.failedSignInCount} of {lockout.attempts}"
  match account.lockedUntil.filter fun last => now < last with
  | some last => ⟨some account.id, .locked, reason, .accountLocked last true lockout.attempts⟩
  | none => ⟨some account.id, .failed, reason, .invalidCredentials⟩

/-- The account, as it was read, is not active. -/
def statusRefusal (account : UserRow) : Option Refusal :=
  if account.status = "active" then none
  else some ⟨some account.id, .failed, some s!"account status {account.status}", .accountDisabled account.status⟩

/-- Clear the failure counter after a successful sign-in. -/
def clearFailures (account : UserRow) : UserRow := { account with failedSignInCount := 0, lockedUntil := none }

/-- How a right password is recorded and answered. -/
def acceptance (account : UserRow) (request : Request) : Refusal :=
  if request.factor then ⟨some account.id, .mfaRequired, none, .authenticated true⟩
  else ⟨some account.id, .success, none, .authenticated false⟩

/-- The row of the account, the log and the clock. -/
structure Tables where
  /-- The row of `users`. -/
  account : UserRow
  /-- `sign_in_attempts`. -/
  attempts : List Attempt
  now : Instant

namespace Tables

/-- The row an attempt leaves. -/
def row (t : Tables) (userId : Option Uuid) (ip : Option String) (outcome : Outcome) (reason : Option String) :
    Attempt where
  id := t.attempts.length
  userId := userId
  ip := ip
  outcome := outcome
  reason := reason
  createdAt := t.now

/-- `record_attempt`. -/
def record (t : Tables) (userId : Option Uuid) (ip : Option String) (outcome : Outcome) (reason : Option String) :
    Tables :=
  { t with attempts := t.attempts ++ [t.row userId ip outcome reason] }

/-- A refusal is recorded. -/
def refuse (t : Tables) (request : Request) (refusal : Refusal) : Tables :=
  t.record refusal.userId request.ip refusal.outcome refusal.reason

/-- The failures of the account in the window. -/
def failures (t : Tables) (lockout : EnforcedLockout) : ℕ :=
  failuresInWindow lockout t.attempts t.account.id t.now

/-- The refusals before the password is checked: the address, an unknown address, a lock. -/
def refusal (t : Tables) (lockout : EnforcedLockout) (request : Request) : Option Refusal :=
  let userId := if t.account.passwordHash.isSome then some t.account.id else none
  (addressRefusal lockout t.attempts userId request t.now).or <|
    if t.account.passwordHash.isSome then lockRefusal lockout t.account t.now
    else some ⟨none, .failed, some "unknown address", .invalidCredentials⟩

/-- The password is checked, and is wrong. -/
def wrong (t : Tables) (lockout : EnforcedLockout) (verify : String → String → Bool) (request : Request) : Bool :=
  (t.refusal lockout request).isNone && t.account.passwordHash.any fun hash => !verify request.password hash

/-- The account with the failure registered. -/
def failed (t : Tables) (lockout : EnforcedLockout) : Tables :=
  { t with account := registerFailure lockout t.account (failuresIncluding (t.failures lockout)) t.now }

/-- `sign_in`. -/
def signIn (t : Tables) (lockout : EnforcedLockout) (verify : String → String → Bool) (request : Request) :
    SignInOutcome × Tables :=
  match t.refusal lockout request with
  | some refusal => (refusal.answer, t.refuse request refusal)
  | none =>
    if t.wrong lockout verify request then
      let refusal := failureRefusal lockout (t.failed lockout).account t.now
      (refusal.answer, (t.failed lockout).refuse request refusal)
    else
      match statusRefusal t.account with
      | some refusal => (refusal.answer, t.refuse request refusal)
      | none =>
        let accepted := acceptance t.account request
        (accepted.answer, { t with account := clearFailures t.account }.refuse request accepted)

end Tables

/-! ### Runs -/

/-- What happened to the account. -/
inductive Happening where
  | wrong (attempt : Attempt)
  /-- An administrator unlocked it, or the password was right. -/
  | reset
  | locked (now : Instant)
  deriving DecidableEq

/-- The wrong passwords since the last reset, if there was one. -/
def sinceReset (history : List Happening) : Option (List Attempt) :=
  history.foldl (fun since happening =>
    match happening with
    | .wrong attempt => since.map (· ++ [attempt])
    | .reset => some []
    | .locked _ => since) none

/-- **A clean restart**: after a reset the account is locked only once there were as many wrong
passwords since, in the window, as the threshold says. -/
def CleanRestart (lockout : EnforcedLockout) (history : List Happening) : Prop :=
  ∀ past now, past ++ [.locked now] <+: history → ∀ wrongs, sinceReset past = some wrongs →
    lockout.attempts ≤ (wrongs.filter fun attempt => lockout.windowStart now < attempt.createdAt).length

/-- The tables, and what happened. -/
structure Store where
  tables : Tables
  history : List Happening

/-- What may happen. -/
inductive Event where
  /-- An attempt to sign in to the account. -/
  | attempt (request : Request)
  | unlock
  /-- Something else is recorded in the log. -/
  | record (userId : Option Uuid) (ip : Option String) (outcome : Outcome) (reason : Option String)
  | tick (now : Instant)

/-- An attempt, and what it leaves in the history. -/
def Store.attempt (s : Store) (lockout : EnforcedLockout) (verify : String → String → Bool) (request : Request) :
    Store :=
  let result := s.tables.signIn lockout verify request
  { tables := result.2
    history := s.history ++
      if s.tables.wrong lockout verify request then
        let refusal := failureRefusal lockout (s.tables.failed lockout).account s.tables.now
        .wrong (s.tables.row refusal.userId request.ip refusal.outcome refusal.reason) ::
          if (s.tables.failed lockout).account.locked s.tables.now then [.locked s.tables.now] else []
      else if (result.1 matches .authenticated _) then [.reset] else [] }

def signInStep (lockout : EnforcedLockout) (verify : String → String → Bool) (s : Store) : Event → Option Store
  | .attempt request => some (s.attempt lockout verify request)
  | .unlock =>
    let (unlocked, account) := unlockAccount s.tables.account s.tables.now
    some { s with
      tables := { s.tables with account }
      history := s.history ++ if unlocked then [.reset] else [] }
  | .record userId ip outcome reason => some { s with tables := s.tables.record userId ip outcome reason }
  | .tick now => if s.tables.now ≤ now then some { s with tables := { s.tables with now } } else none

variable {lockout : EnforcedLockout} {verify : String → String → Bool} {s t : Store} {request : Request}

/-- **The steps allowed**: when a wrong password after a reset brings the failures to the
threshold, every attempt counted is a wrong password since that reset. -/
def Store.Orderly (lockout : EnforcedLockout) (verify : String → String → Bool) (s : Store) : Event → Prop
  | .attempt request => s.tables.wrong lockout verify request = true →
      lockout.attempts ≤ s.tables.failures lockout + 1 → ∀ wrongs, sinceReset s.history = some wrongs →
        ∀ attempt ∈ countedSince s.tables.attempts s.tables.account.id (lockout.windowStart s.tables.now),
          attempt ∈ wrongs
  | _ => True

instance (lockout : EnforcedLockout) (verify : String → String → Bool) (s : Store) :
    ∀ e, Decidable (s.Orderly lockout verify e)
  | .attempt _ => inferInstanceAs (Decidable (_ → _ → ∀ wrongs ∈ sinceReset s.history, _))
  | .unlock | .record .. | .tick _ => inferInstanceAs (Decidable True)

/-- Rows have their positions. -/
def Positioned (attempts : List Attempt) : Prop := attempts.map (·.id) = List.range attempts.length

/-- **The invariant**: the rows of the log are told apart, and every restart was clean. -/
structure Inv (lockout : EnforcedLockout) (s : Store) : Prop where
  positioned : Positioned s.tables.attempts
  clean : CleanRestart lockout s.history

/-! ### The history -/

theorem sinceReset_append (history : List Happening) (happening : Happening) :
    sinceReset (history ++ [happening]) = match happening with
      | .wrong attempt => (sinceReset history).map (· ++ [attempt])
      | .reset => some []
      | .locked _ => sinceReset history := by
  rw [sinceReset, List.foldl_append]
  rfl

theorem CleanRestart.append {history : List Happening} (h : CleanRestart lockout history) {happening : Happening}
    (hlocked : ∀ now, happening ≠ .locked now) : CleanRestart lockout (history ++ [happening]) := by
  intro past now hpast
  rcases List.prefix_concat_iff.mp hpast with heq | hpast
  · exact absurd (List.append_inj_right' heq rfl) (by simpa using (hlocked now).symm)
  · exact h past now hpast

theorem CleanRestart.locked {history : List Happening} (h : CleanRestart lockout history) {now : Instant}
    (hnow : ∀ wrongs, sinceReset history = some wrongs →
      lockout.attempts ≤ (wrongs.filter fun attempt => lockout.windowStart now < attempt.createdAt).length) :
    CleanRestart lockout (history ++ [.locked now]) := by
  intro past last hpast
  rcases List.prefix_concat_iff.mp hpast with heq | hpast
  · obtain ⟨rfl, hlast⟩ := List.append_inj' heq rfl
    obtain rfl : last = now := by simpa using hlast
    exact hnow
  · exact h past last hpast

/-! ### The threshold -/

theorem toI32_le {n : ℤ} (h : -0x80000000 ≤ n) : toI32 n ≤ n := by
  simp only [toI32, Int.bmod]
  split <;> omega

theorem le_toI32 (n : ℤ) : -0x80000000 ≤ toI32 n := by
  simp only [toI32, Int.bmod]
  split <;> omega

theorem failuresIncluding_le (failures : ℕ) : failuresIncluding failures ≤ failures + 1 := by
  have hlow := le_toI32 failures
  have hcast : toI32 failures ≤ failures := toI32_le (by omega)
  have hsum : toI32 (toI32 failures + 1) ≤ toI32 failures + 1 := toI32_le (by omega)
  rw [failuresIncluding]
  omega

theorem failuresIncluding_eq {failures : ℕ} (h : failures < 0x7fffffff) :
    failuresIncluding failures = failures + 1 := by
  have hcast : toI32 failures = failures := by
    simp only [toI32, Int.bmod]
    split <;> omega
  rw [failuresIncluding, hcast]
  simp only [toI32, Int.bmod]
  split <;> omega

/-- The account is locked until an instant that has not come: it has the lock, or is at the
threshold. -/
theorem locked_registerFailure {account : UserRow} {count : ℤ} {now : Instant}
    (h : (registerFailure lockout account count now).locked now = true) :
    account.locked now = true ∨ lockout.attempts ≤ count := by
  by_cases hcount : lockout.attempts ≤ count
  · exact .inr hcount
  · rw [UserRow.locked, registerFailure, if_neg hcount] at h
    exact .inl h

theorem lockRefusal_eq_none {account : UserRow} {now : Instant} :
    lockRefusal lockout account now = none ↔ account.locked now = false := by
  cases h : account.lockedUntil <;> simp [lockRefusal, UserRow.locked, h]

theorem locked_of_wrong {t : Tables} (h : t.wrong lockout verify request = true) : t.account.locked t.now = false := by
  simp only [Tables.wrong, Bool.and_eq_true, Option.isNone_iff_eq_none, Tables.refusal, Option.or_eq_none_iff] at h
  obtain ⟨⟨-, hrefusal⟩, hhash⟩ := h
  rw [if_pos (by revert hhash; cases t.account.passwordHash <;> simp)] at hrefusal
  exact lockRefusal_eq_none.mp hrefusal

theorem attempts_le_of_locked {t : Tables} (hwrong : t.wrong lockout verify request = true)
    (hlocked : (t.failed lockout).account.locked t.now = true) : lockout.attempts ≤ t.failures lockout + 1 := by
  rcases locked_registerFailure hlocked with hbefore | hcount
  · rw [locked_of_wrong hwrong] at hbefore
    cases hbefore
  · exact Int.le_trans hcount (failuresIncluding_le _)

/-! ### The steps -/

theorem positioned_record {t : Tables} {userId : Option Uuid} {ip : Option String} {outcome : Outcome}
    {reason : Option String}
    (h : Positioned t.attempts) : Positioned (t.record userId ip outcome reason).attempts := by
  simp only [Positioned, Tables.record, List.map_append, List.length_append, List.length_singleton, List.range_succ]
  rw [h]
  rfl

theorem positioned_refuse {t : Tables} {refusal : Refusal} (h : Positioned t.attempts) :
    Positioned (t.refuse request refusal).attempts := positioned_record h

@[simp] theorem failed_attempts (t : Tables) : (t.failed lockout).attempts = t.attempts := by
  cases t
  rfl

theorem positioned_signIn {t : Tables} (h : Positioned t.attempts) :
    Positioned (t.signIn lockout verify request).2.attempts := by
  rw [Tables.signIn]
  split
  · exact positioned_refuse h
  · split_ifs
    · exact positioned_refuse (by rwa [failed_attempts])
    · split
      · exact positioned_refuse h
      · exact positioned_refuse (t := { t with account := clearFailures t.account }) h

/-- Attempts counted that all are of some wrong passwords are no more than these. -/
theorem counted_le {attempts wrongs : List Attempt} {userId : Uuid} {start : Instant}
    (hpositioned : Positioned attempts)
    (hwrongs : ∀ attempt ∈ countedSince attempts userId start, attempt ∈ wrongs) :
    (countedSince attempts userId start).length ≤ (wrongs.filter fun attempt => start < attempt.createdAt).length := by
  have hnodup : (countedSince attempts userId start).Nodup :=
    (List.Nodup.of_map _ (hpositioned ▸ List.nodup_range)).filter _
  refine (hnodup.subperm fun attempt hattempt => ?_).length_le
  have hcounted := (List.mem_filter.mp hattempt).2
  exact List.mem_filter.mpr ⟨hwrongs attempt hattempt, (Bool.and_eq_true _ _ ▸ hcounted).2⟩

theorem Inv.attempt (h : Inv lockout s) (hok : s.Orderly lockout verify (.attempt request)) :
    Inv lockout (s.attempt lockout verify request) where
  positioned := positioned_signIn h.positioned
  clean := by
    simp only [Store.attempt]
    split_ifs with hwrong hlocked hreset
    · -- the wrong password locks: it and those counted are enough
      rw [List.append_cons]
      refine CleanRestart.locked (h.clean.append fun _ h => by cases h) fun wrongs hwrongs => ?_
      rw [sinceReset_append] at hwrongs
      obtain ⟨before, hbefore, rfl⟩ := Option.map_eq_some_iff.mp hwrongs
      have hcount := attempts_le_of_locked hwrong hlocked
      have hle := counted_le h.positioned (hok hwrong hcount before hbefore)
      have hin : lockout.windowStart s.tables.now < s.tables.now := lockout.windowStart_lt _
      simp only [List.filter_append, List.length_append, List.filter_singleton, Tables.row, hin, decide_true, cond_true,
        List.length_singleton]
      rw [Tables.failures, failuresInWindow] at hcount
      omega
    · exact h.clean.append fun _ h => by cases h
    · exact h.clean.append fun _ h => by cases h
    · rw [List.append_nil]
      exact h.clean

/-- Every allowed step keeps the invariant. -/
theorem Inv.step {e : Event} (h : Inv lockout s) (hok : s.Orderly lockout verify e)
    (hs : signInStep lockout verify s e = some t) : Inv lockout t := by
  cases e with
  | attempt request =>
    cases hs
    exact h.attempt hok
  | unlock =>
    cases hs
    refine ⟨h.positioned, ?_⟩
    simp only
    split_ifs
    · exact h.clean.append fun _ h => by cases h
    · rw [List.append_nil]
      exact h.clean
  | record userId ip outcome reason =>
    cases hs
    exact ⟨positioned_record h.positioned, h.clean⟩
  | tick now =>
    simp only [signInStep] at hs
    split_ifs at hs
    cases hs
    exact ⟨h.positioned, h.clean⟩

/-- Before the first attempt. -/
def Store.start (account : UserRow) (now : Instant) : Store := ⟨⟨account, [], now⟩, []⟩

/-- **Lockout restarts clean**: over any run of attempts, unlocks and other recorded attempts in
which the attempts counted at a lock after a reset are of wrong passwords since that reset, the
account is locked after a reset only once there were as many wrong passwords since, in the
window, as the threshold says. -/
theorem run_restarts {account : UserRow} {now : Instant} {es : List Event}
    (h : Transition.Run (signInStep lockout verify) (Store.Orderly lockout verify) (.start account now) es s) :
    CleanRestart lockout s.history := by
  have hstart : Inv lockout (.start account now) := by
    refine ⟨rfl, fun past last hpast => ?_⟩
    simp [Store.start] at hpast
  exact (h.invariant hstart fun _ _ _ hx hok hs => hx.step hok hs).clean

/-- An active account, whose password is `correct horse`. -/
def activeAccount : UserRow where
  id := 7
  passwordHash := some
    "$argon2id$v=19$m=19456,t=2,p=1$b21uaW9uLXNhbHQtMDAwMQ$EZOhXzL0TnVSJ73VmWYnIFqPZYpElsoBC/HtQTB9ZFo"
  status := "active"
  lockedUntil := none
  failedSignInCount := 0

/-- The check of a password against the hash of that account. -/
def checkPassword (password _hash : String) : Bool := password = "correct horse"

def attemptWith (password : String) : Event := .attempt { password, ip := none, denied := none, factor := false }

/-- The thresholds where nobody has saved any. -/
def defaultLockout : EnforcedLockout := .ofPolicy LockoutPolicy.default

/-- Five wrong passwords, an unlock, and another wrong password. -/
def unlockedThenWrong : List Event := List.replicate 5 (attemptWith "12345678") ++ [.unlock, attemptWith "12345678"]

/-- The account is locked again, after one wrong password. -/
theorem locked_again :
    ¬ ∀ (lockout : EnforcedLockout) (verify : String → String → Bool) (account : UserRow) (now : Instant)
        (es : List Event) (s : Store),
      Transition.Run (signInStep lockout verify) Transition.Any (.start account now) es s →
        CleanRestart lockout s.history := by
  intro h
  have hexec : (Transition.exec (signInStep defaultLockout checkPassword)
    (.start activeAccount 0) unlockedThenWrong).map
      (fun s => (s.history.getLast?, (sinceReset s.history.dropLast).map List.length)) =
        some (some (.locked 0), some 1) := by decide +kernel
  obtain ⟨s, hs, hstate⟩ := Transition.Run.of_exec_map hexec
  obtain ⟨hlast, hsince⟩ := Prod.mk.inj hstate
  obtain ⟨wrongs, hwrongs, hlength⟩ := Option.map_eq_some_iff.mp hsince
  have hhistory : s.history.dropLast ++ [.locked 0] = s.history := List.dropLast_append_getLast? _ hlast
  have hclean := h defaultLockout checkPassword activeAccount 0 unlockedThenWrong s hs
  have hfive : defaultLockout.attempts = 5 := rfl
  have hpast : s.history.dropLast ++ [.locked 0] <+: s.history := ⟨[], (List.append_nil _).trans hhistory⟩
  have hattempts := hclean s.history.dropLast 0 hpast wrongs hwrongs
  have hfew := List.length_filter_le (fun attempt => decide (defaultLockout.windowStart 0 < attempt.createdAt)) wrongs
  omega

/-- Five wrong passwords; when the lock is over, the right one, and five wrong ones again. -/
def lockedTwice : List Event :=
  List.replicate 5 (attemptWith "12345678") ++ [.tick 960000000, attemptWith "correct horse"] ++
    List.replicate 5 (attemptWith "12345678")

/-- The account is locked by the fifth wrong password after the right one. -/
theorem run_restarts_lockedTwice :
    ∃ s, Transition.Run (signInStep defaultLockout checkPassword) (Store.Orderly defaultLockout checkPassword)
        (.start activeAccount 0) lockedTwice s ∧
      (s.history.getLast? = some (.locked 960000000) ∧ (sinceReset s.history).map List.length = some 5) ∧
      CleanRestart defaultLockout s.history := by
  have hexec : (Transition.exec (fun s e =>
      if decide (s.Orderly defaultLockout checkPassword e) = true then signInStep defaultLockout checkPassword s e
      else none) (.start activeAccount 0) lockedTwice).map
        (fun s => (s.history.getLast?, (sinceReset s.history).map List.length)) =
          some (some (.locked 960000000), some 5) := by decide +kernel
  obtain ⟨s, hrun, hstate⟩ := Transition.Run.of_exec_of_map (fun _ _ => of_decide_eq_true) hexec
  exact ⟨s, hrun, Prod.mk.inj hstate, run_restarts hrun⟩

end SignIn

end Omnion.Identity
