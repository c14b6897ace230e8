import Omnion.Core.Json
import Omnion.Core.Text

/-!
# The lockout policy

`lockout.rs` and `enforce.rs` of `crates/security`, and what `limiter_store.rs` does with the
sign-in log: which thresholds are in force, how many failures count, and how an account is
unlocked.

## The model

A policy in range is a subtype, so the thresholds in force carry their ranges.

## What is proved

* `failuresInWindow_le` — what counts shrinks as time passes.
-/

namespace Omnion.Security

/-- One organization's brute-force policy. -/
structure LockoutPolicy where
  /-- How far back failures are counted, in seconds. -/
  windowSeconds : ℤ
  /-- How many failures inside that window lock the account. -/
  attempts : ℤ
  /-- How long the lock lasts, in minutes. -/
  lockoutMinutes : ℤ
  /-- Whether the delay between failures grows as the count does. -/
  progressiveDelay : Bool
  baseDelaySeconds : ℤ
  /-- Whether a successful sign-in clears the counter. -/
  resetOnSuccess : Bool

namespace LockoutPolicy

/-- Every threshold is in its range. -/
structure InRange (policy : LockoutPolicy) : Prop where
  /-- `MIN_WINDOW_SECONDS..=MAX_WINDOW_SECONDS`. -/
  window : 60 ≤ policy.windowSeconds ∧ policy.windowSeconds ≤ 86400
  /-- `MIN_ATTEMPTS..=MAX_ATTEMPTS`. -/
  attempts : 1 ≤ policy.attempts ∧ policy.attempts ≤ 50
  /-- `MIN_LOCKOUT_MINUTES..=MAX_LOCKOUT_MINUTES`. -/
  minutes : 1 ≤ policy.lockoutMinutes ∧ policy.lockoutMinutes ≤ 1440
  /-- `MIN_DELAY_SECONDS..=MAX_DELAY_SECONDS`. -/
  delay : 1 ≤ policy.baseDelaySeconds ∧ policy.baseDelaySeconds ≤ 60

/-- The policy nobody has changed. -/
def default : { policy : LockoutPolicy // policy.InRange } where
  val := {
    windowSeconds := 900
    attempts := 5
    lockoutMinutes := 15
    progressiveDelay := true
    baseDelaySeconds := 2
    resetOnSuccess := true }
  property := ⟨by decide, by decide, by decide, by decide⟩

end LockoutPolicy

/-! ### The thresholds in force -/

/-- The thresholds a sign-in consumes. -/
structure EnforcedLockout where
  /-- How many failures inside the window lock the account. -/
  attempts : ℤ
  /-- How long the lock lasts, in minutes. -/
  lockoutMinutes : ℤ
  /-- How far back failures count, in seconds. -/
  windowSeconds : ℤ
  attempts_range : 1 ≤ attempts ∧ attempts ≤ 50
  minutes_range : 1 ≤ lockoutMinutes ∧ lockoutMinutes ≤ 1440
  window_range : 60 ≤ windowSeconds ∧ windowSeconds ≤ 86400

def EnforcedLockout.ofPolicy (policy : { policy : LockoutPolicy // policy.InRange }) : EnforcedLockout where
  attempts := policy.val.attempts
  lockoutMinutes := policy.val.lockoutMinutes
  windowSeconds := policy.val.windowSeconds
  attempts_range := policy.property.attempts
  minutes_range := policy.property.minutes
  window_range := policy.property.window

/-! ### The sign-in log and the account -/

/-- What an attempt came to. -/
inductive Outcome where
  | success | failed | locked | blocked | mfaRequired
  deriving DecidableEq

/-- A row of `sign_in_attempts`. -/
structure Attempt where
  id : ℕ
  /-- The account, when the address matches one. -/
  userId : Option Uuid
  ip : Option String
  outcome : Outcome
  reason : Option String
  createdAt : Instant
  deriving DecidableEq

/-- The attempt counts for the account: it `failed`, or was `locked` or `blocked`. -/
def Attempt.counts (userId : Uuid) (attempt : Attempt) : Bool :=
  attempt.userId = some userId && (attempt.outcome = .failed || attempt.outcome = .locked || attempt.outcome = .blocked)

/-- Where the failure window begins: `now() - make_interval(secs => ..)`. -/
def EnforcedLockout.windowStart (lockout : EnforcedLockout) (now : Instant) : Instant :=
  now - max 1 (min lockout.windowSeconds 86400) * 1000000

theorem EnforcedLockout.windowStart_mono (lockout : EnforcedLockout) {now later : Instant} (h : now ≤ later) :
    lockout.windowStart now ≤ lockout.windowStart later := Int.sub_le_sub_right h _

theorem EnforcedLockout.windowStart_lt (lockout : EnforcedLockout) (now : Instant) : lockout.windowStart now < now := by
  have h := lockout.window_range
  rw [windowStart]
  exact Int.sub_lt_self now (by omega)

/-- The attempts that count for an account, since an instant. -/
def countedSince (attempts : List Attempt) (userId : Uuid) (start : Instant) : List Attempt :=
  attempts.filter fun attempt => attempt.counts userId && start < attempt.createdAt

/-- `failures_in_window`: failures counted for one account inside the window. -/
def failuresInWindow (lockout : EnforcedLockout) (attempts : List Attempt) (userId : Uuid) (now : Instant) : ℕ :=
  (countedSince attempts userId (lockout.windowStart now)).length

/-- A row of `users`, as far as a sign-in reads it. -/
structure UserRow where
  id : Uuid
  passwordHash : Option String
  /-- `active`, `invited` or `disabled`. -/
  status : String
  /-- Until when the account is locked. -/
  lockedUntil : Option Instant
  failedSignInCount : ℤ

/-- The account is locked. -/
def UserRow.locked (row : UserRow) (now : Instant) : Bool := row.lockedUntil.any fun last => now < last

/-- `unlock_account`: unlock one account, clearing the counter with it. -/
def unlockAccount (row : UserRow) (now : Instant) : Bool × UserRow :=
  if row.locked now then (true, { row with lockedUntil := none, failedSignInCount := 0 }) else (false, row)

theorem countedSince_append (attempts : List Attempt) (attempt : Attempt) (userId : Uuid) (start : Instant) :
    countedSince (attempts ++ [attempt]) userId start =
      countedSince attempts userId start ++ countedSince [attempt] userId start := List.filter_append ..

theorem failuresInWindow_le {lockout : EnforcedLockout} {attempts : List Attempt} {userId : Uuid} {now later : Instant}
    (h : now ≤ later) :
    failuresInWindow lockout attempts userId later ≤ failuresInWindow lockout attempts userId now := by
  have hstart := lockout.windowStart_mono h
  refine (List.monotone_filter_right attempts fun attempt hattempt => ?_).length_le
  simp only [Bool.and_eq_true, decide_eq_true_eq] at hattempt ⊢
  exact ⟨hattempt.1, Int.lt_of_le_of_lt hstart hattempt.2⟩

end Omnion.Security
