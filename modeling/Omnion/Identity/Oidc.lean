import Mathlib.Data.List.DropRight
import Omnion.Core.Json
import Omnion.Identity.Validity

/-!
# The claims of an ID token

`verify_claims` of `crates/identity/src/sso/oidc.rs`. JSON numbers are read as `i64`, so an
integer above `i64::MAX` is no number to it, and the skew is added to an expiry and taken from
the other times in 64 bits.

## What is proved

* `verifyClaims_right_iff` — when the arithmetic stays in 64 bits and what is accepted are the
  tokens of this issuer, audience and nonce whose times, as whole numbers of any size, are in
  the window.
* `great_expiry` — it does not for a token that expires at the end of time.
-/

namespace Omnion.Oidc

open Checked Validity

/-- Clock skew tolerated when times are checked, in seconds. -/
def clockSkewSeconds : ℤ := 60

/-- `IdentityError::InvalidProvider`. -/
def invalidProvider (message : String) : Except (Halt String) Unit := .error (.refused message)

/-- The claims of a token. -/
structure Claims where
  values : List (String × Json)

namespace Claims

variable (claims : Claims)

/-- A claim that is read as `i64`. -/
def getI64 (key : String) : Option ℤ := (claims.values.lookup key).bind Json.asI64

/-- The `exp` claim. -/
def expiresAt : Option ℤ := claims.getI64 "exp"

/-- The `aud` claim, a string or an array of strings. -/
def audiences : List String :=
  match claims.values.lookup "aud" with
  | some (.string text) => [text]
  | some (.array items) => items.filterMap Json.asStr
  | _ => []

/-- The `iss` claim. -/
def issuer : Option String := (claims.values.lookup "iss").bind Json.asStr

/-- The `nonce` claim. -/
def nonce : Option String := (claims.values.lookup "nonce").bind Json.asStr

end Claims

/-- `trim_end_matches('/')`. -/
def trimSlashes (text : String) : List Char := text.toList.rdropWhile (· == '/')

def checkIssuer (claims : Claims) (expectedIssuer : String) : Except (Halt String) Unit :=
  match claims.issuer with
  | some issuer =>
    ensure (trimSlashes issuer = trimSlashes expectedIssuer) "the token comes from a different issuer"
  | none => invalidProvider "the token names no issuer"

/-- The nonce is the one this sign-in issued, if it issued one. -/
def checkNonce (claims : Claims) : Option String → Except (Halt String) Unit
  | none => .ok ()
  | some expected =>
    match claims.nonce with
    | some nonce => ensure (nonce = expected) "the token carries a different nonce than this sign-in issued"
    | none => invalidProvider "the token carries no nonce"

/-- Check the registered claims: expiry, audience, issuer and the nonce the challenge issued. -/
def verifyClaims (claims : Claims) (expectedIssuer expectedAudience : String) (expectedNonce : Option String)
    (nowUnix : ℤ) : Except (Halt String) Unit := do
  ensure claims.expiresAt.isSome "the token has no expiry"
  ends clockSkewSeconds nowUnix "the token has expired" claims.expiresAt
  begins clockSkewSeconds nowUnix "the token is issued in the future" (claims.getI64 "iat")
  begins clockSkewSeconds nowUnix "the token is not valid yet" (claims.getI64 "nbf")
  ensure (expectedAudience ∈ claims.audiences) "the token is not for this application"
  checkIssuer claims expectedIssuer
  checkNonce claims expectedNonce

/-! ### What is to be accepted -/

variable {claims : Claims} {expectedIssuer expectedAudience : String} {expectedNonce : Option String} {nowUnix : ℤ}

/-- Issuer, audience and nonce are the expected ones. -/
structure Matches (claims : Claims) (expectedIssuer expectedAudience : String) (expectedNonce : Option String) :
    Prop where
  audience : expectedAudience ∈ claims.audiences
  /-- The issuer, but for slashes at the end. -/
  issuer : ∃ issuer, claims.issuer = some issuer ∧ trimSlashes issuer = trimSlashes expectedIssuer
  /-- The nonce, if there is to be one. -/
  nonce : ∀ expected, expectedNonce = some expected → claims.nonce = some expected

/-- An integer of 64 bits, signed or not. -/
def integerOf (value : Json) : Option ℤ :=
  match value with
  | .number (.int n) => if i64Min ≤ n ∧ n ≤ 0xffffffffffffffff then some n else none
  | _ => none

/-- A time that the token carries. -/
def Claims.time (claims : Claims) (key : String) : Option ℤ := (claims.values.lookup key).bind integerOf

/-- A time is not ahead of the clock. -/
def Begun (claims : Claims) (key : String) (nowUnix : ℤ) : Prop :=
  ∀ start, claims.time key = some start → start - clockSkewSeconds ≤ nowUnix

/-- The times of the token, as integers, lie in the window. -/
structure InWindow (claims : Claims) (nowUnix : ℤ) : Prop where
  expiry : ∃ expiry, claims.time "exp" = some expiry ∧ nowUnix ≤ expiry + clockSkewSeconds
  /-- It is not issued in the future. -/
  issuedAt : Begun claims "iat" nowUnix
  notBefore : Begun claims "nbf" nowUnix

/-- The check does not overflow, and accepts what is to be accepted. -/
def Right (claims : Claims) (expectedIssuer expectedAudience : String) (expectedNonce : Option String)
    (nowUnix : ℤ) : Prop :=
  verifyClaims claims expectedIssuer expectedAudience expectedNonce nowUnix ≠ .error .overflow ∧
    (verifyClaims claims expectedIssuer expectedAudience expectedNonce nowUnix = .ok () ↔
      Matches claims expectedIssuer expectedAudience expectedNonce ∧ InWindow claims nowUnix)

/-! ### When it is -/

/-- A time of at most `i64::MAX` is not ahead of the clock. -/
def ReadBegun (claims : Claims) (key : String) (nowUnix : ℤ) : Prop :=
  ∀ start, claims.time key = some start → start ≤ i64Max → start - clockSkewSeconds ≤ nowUnix

/-- The skew can be taken from a time. -/
def Far (claims : Claims) (key : String) : Prop :=
  ∀ start, claims.time key = some start → i64Min ≤ start - clockSkewSeconds

/-- The token has an expiry of at most `i64::MAX`, and has not expired. -/
def Unexpired (claims : Claims) (nowUnix : ℤ) : Prop :=
  ∃ expiry, claims.time "exp" = some expiry ∧ expiry ≤ i64Max ∧ nowUnix ≤ expiry + clockSkewSeconds

/-- The times are as far from the limits as it takes. -/
structure Covered (claims : Claims) (expectedIssuer expectedAudience : String) (expectedNonce : Option String)
    (nowUnix : ℤ) : Prop where
  /-- The skew can be added to the expiry. -/
  expiry : ∀ expiry, claims.time "exp" = some expiry → expiry ≤ i64Max → expiry + clockSkewSeconds ≤ i64Max
  /-- It can be taken from `iat`, unless the token has expired. -/
  issuedAt : Unexpired claims nowUnix → Far claims "iat"
  /-- It can be taken from `nbf`, unless the token has expired or is issued in the future. -/
  notBefore : Unexpired claims nowUnix → ReadBegun claims "iat" nowUnix → Far claims "nbf"
  /-- With an expiry above `i64::MAX`, something else is wrong. -/
  greatExpiry : ∀ expiry, claims.time "exp" = some expiry → i64Max < expiry → nowUnix ≤ expiry + clockSkewSeconds →
    Matches claims expectedIssuer expectedAudience expectedNonce →
      ¬ (Begun claims "iat" nowUnix ∧ Begun claims "nbf" nowUnix)
  /-- No other time above `i64::MAX` is ahead of the clock, unless something else is wrong. -/
  greatStart : Unexpired claims nowUnix → Matches claims expectedIssuer expectedAudience expectedNonce →
    ReadBegun claims "iat" nowUnix → ReadBegun claims "nbf" nowUnix →
      Begun claims "iat" nowUnix ∧ Begun claims "nbf" nowUnix

theorem asI64_eq_some {value : Json} {n : ℤ} : value.asI64 = some n ↔ integerOf value = some n ∧ n ≤ i64Max := by
  unfold Json.asI64 integerOf i64Min i64Max
  split
  · split_ifs <;> simp <;> omega
  · simp

theorem Claims.getI64_eq_some {key : String} {n : ℤ} :
    claims.getI64 key = some n ↔ claims.time key = some n ∧ n ≤ i64Max := by
  simp [Claims.getI64, Claims.time, Option.bind_eq_some_iff, asI64_eq_some, ← and_assoc, exists_and_right]

theorem Claims.le_time {key : String} {n : ℤ} (h : claims.time key = some n) : i64Min ≤ n := by
  obtain ⟨value, -, hvalue⟩ := Option.bind_eq_some_iff.mp h
  unfold integerOf at hvalue
  split at hvalue
  · split_ifs at hvalue with hrange
    exact Option.some.inj hvalue ▸ hrange.1
  · cases hvalue

theorem checkIssuer_eq_ok : checkIssuer claims expectedIssuer = .ok () ↔
    ∃ issuer, claims.issuer = some issuer ∧ trimSlashes issuer = trimSlashes expectedIssuer := by
  unfold checkIssuer
  split <;> simp [invalidProvider, *]

theorem checkNonce_eq_ok : checkNonce claims expectedNonce = .ok () ↔
    ∀ expected, expectedNonce = some expected → claims.nonce = some expected := by
  unfold checkNonce
  split
  · simp
  · split <;> simp [invalidProvider, *]

theorem checkIssuer_ne_overflow : checkIssuer claims expectedIssuer ≠ .error .overflow := by
  unfold checkIssuer
  split <;> simp [invalidProvider]

theorem checkNonce_ne_overflow : checkNonce claims expectedNonce ≠ .error .overflow := by
  unfold checkNonce
  split
  · simp
  · split <;> simp [invalidProvider]

/-- **What is accepted.** -/
theorem verifyClaims_eq_ok : verifyClaims claims expectedIssuer expectedAudience expectedNonce nowUnix = .ok () ↔
    (∃ expiry, claims.expiresAt = some expiry ∧ FitsI64 (expiry + clockSkewSeconds) ∧
      nowUnix ≤ expiry + clockSkewSeconds) ∧
    (∀ start, claims.getI64 "iat" = some start → FitsI64 (start - clockSkewSeconds) ∧
      start - clockSkewSeconds ≤ nowUnix) ∧
    (∀ start, claims.getI64 "nbf" = some start → FitsI64 (start - clockSkewSeconds) ∧
      start - clockSkewSeconds ≤ nowUnix) ∧
    Matches claims expectedIssuer expectedAudience expectedNonce := by
  have hmatches : Matches claims expectedIssuer expectedAudience expectedNonce ↔
      expectedAudience ∈ claims.audiences ∧ checkIssuer claims expectedIssuer = .ok () ∧
        checkNonce claims expectedNonce = .ok () := by
    rw [checkIssuer_eq_ok, checkNonce_eq_ok]
    exact ⟨fun ⟨haudience, hissuer, hnonce⟩ => ⟨haudience, hissuer, hnonce⟩,
      fun ⟨haudience, hissuer, hnonce⟩ => ⟨haudience, hissuer, hnonce⟩⟩
  simp only [verifyClaims, Fallible.check_bind_eq_ok, hmatches, ensure_eq_ok, ends_eq_ok, begins_eq_ok]
  cases claims.expiresAt <;> simp

/-- **When it overflows.** -/
theorem verifyClaims_eq_overflow :
    verifyClaims claims expectedIssuer expectedAudience expectedNonce nowUnix = .error .overflow ↔
      ∃ expiry, claims.expiresAt = some expiry ∧ (¬ FitsI64 (expiry + clockSkewSeconds) ∨
        nowUnix ≤ expiry + clockSkewSeconds ∧
          ((∃ start, claims.getI64 "iat" = some start ∧ ¬ FitsI64 (start - clockSkewSeconds)) ∨
            (∀ start, claims.getI64 "iat" = some start → start - clockSkewSeconds ≤ nowUnix) ∧
              ∃ start, claims.getI64 "nbf" = some start ∧ ¬ FitsI64 (start - clockSkewSeconds))) := by
  simp only [verifyClaims, check_bind_eq_overflow, ensure_eq_ok, ends_eq_ok, begins_eq_ok, ensure_ne_overflow,
    ends_eq_overflow, begins_eq_overflow, checkIssuer_ne_overflow, checkNonce_ne_overflow, false_or,
      and_false, or_false]
  rcases claims.expiresAt with _ | expiry
  · simp
  rcases claims.getI64 "iat" with _ | issuedAt <;> simp <;> tauto

theorem Begun.read {key : String} (h : Begun claims key nowUnix) : ReadBegun claims key nowUnix :=
  fun start hstart _ => h start hstart

theorem fits_iff {key : String} : (∀ start, claims.getI64 key = some start →
    FitsI64 (start - clockSkewSeconds) ∧ start - clockSkewSeconds ≤ nowUnix) ↔
      Far claims key ∧ ReadBegun claims key nowUnix := by
  simp only [Claims.getI64_eq_some, Far, ReadBegun, FitsI64, clockSkewSeconds, i64Min, i64Max]
  constructor
  · intro h
    refine ⟨fun start hstart => ?_, fun start hstart hlimit => (h start ⟨hstart, hlimit⟩).2⟩
    have hfits := h start
    simp only [hstart, true_and] at hfits
    omega
  · rintro ⟨hfar, hbegun⟩ start ⟨hstart, hlimit⟩
    exact ⟨⟨hfar start hstart, by omega⟩, hbegun start hstart hlimit⟩

theorem overflows_iff {key : String} :
    (∃ start, claims.getI64 key = some start ∧ ¬ FitsI64 (start - clockSkewSeconds)) ↔ ¬ Far claims key := by
  simp only [Claims.getI64_eq_some, Far, FitsI64, clockSkewSeconds, i64Min, i64Max, not_forall]
  refine exists_congr fun start => ?_
  constructor
  · rintro ⟨⟨hstart, hlimit⟩, hout⟩
    exact ⟨hstart, by omega⟩
  · rintro ⟨hstart, hlow⟩
    exact ⟨⟨hstart, by omega⟩, fun h => absurd h (by omega)⟩

/-- Of a token that has not expired: `far` of its times can be moved, `read` are the ones read as
begun and `begun` those that have. -/
theorem unexpired_iff {far far' read read' begun begun' matching : Prop} (h : begun → read) (h' : begun' → read') :
    (¬ (¬ far ∨ read ∧ ¬ far') ∧ ((far ∧ read) ∧ (far' ∧ read') ∧ matching ↔ matching ∧ begun ∧ begun')) ↔
      far ∧ (read → far') ∧ (matching → read → read' → begun ∧ begun') := by
  tauto

/-- **The check is right** just when the times are far enough from the limits. -/
theorem verifyClaims_right_iff (claims : Claims) (expectedIssuer expectedAudience : String)
    (expectedNonce : Option String) (nowUnix : ℤ) :
    Right claims expectedIssuer expectedAudience expectedNonce nowUnix ↔
      Covered claims expectedIssuer expectedAudience expectedNonce nowUnix := by
  have hread : (∀ start, claims.getI64 "iat" = some start → start - clockSkewSeconds ≤ nowUnix) ↔
      ReadBegun claims "iat" nowUnix := by
    simp only [Claims.getI64_eq_some, ReadBegun, and_imp]
  have hwindow : InWindow claims nowUnix ↔ (∃ expiry, claims.time "exp" = some expiry ∧
      nowUnix ≤ expiry + clockSkewSeconds) ∧ Begun claims "iat" nowUnix ∧ Begun claims "nbf" nowUnix :=
    ⟨fun h => ⟨h.expiry, h.issuedAt, h.notBefore⟩, fun h => ⟨h.1, h.2.1, h.2.2⟩⟩
  have hcovered : Covered claims expectedIssuer expectedAudience expectedNonce nowUnix ↔ _ ∧ _ ∧ _ ∧ _ ∧ _ :=
    ⟨fun h => ⟨h.expiry, h.issuedAt, h.notBefore, h.greatExpiry, h.greatStart⟩,
      fun h => ⟨h.1, h.2.1, h.2.2.1, h.2.2.2.1, h.2.2.2.2⟩⟩
  rw [Right, Ne, verifyClaims_eq_ok, verifyClaims_eq_overflow, hwindow, hcovered, fits_iff, fits_iff, overflows_iff,
    overflows_iff, hread]
  simp only [Claims.expiresAt, Claims.getI64_eq_some, Unexpired]
  rcases hexp : claims.time "exp" with _ | expiry
  · simp
  have hlow := Claims.le_time hexp
  by_cases hlimit : expiry ≤ i64Max
  · have hfits : FitsI64 (expiry + clockSkewSeconds) ↔ expiry + clockSkewSeconds ≤ i64Max :=
      ⟨fun h => h.2, fun h => ⟨by simp only [clockSkewSeconds, i64Min] at hlow ⊢; omega, h⟩⟩
    by_cases hskew : expiry + clockSkewSeconds ≤ i64Max
    · by_cases hlate : nowUnix ≤ expiry + clockSkewSeconds
      · have h := @unexpired_iff (Far claims "iat") (Far claims "nbf") _ _ _ _
          (Matches claims expectedIssuer expectedAudience expectedNonce)
          (@Begun.read claims nowUnix "iat") (@Begun.read claims nowUnix "nbf")
        simpa [hlimit, hlate, hfits, hskew, Int.not_lt.mpr hlimit] using h
      · simp [hlimit, hlate, hfits, hskew, Int.not_lt.mpr hlimit]
    · simp [hlimit, hfits, hskew]
  · simp [hlimit, Int.not_le.mp hlimit]
    exact ⟨fun h hlate hmatches => h hmatches hlate, fun h hmatches hlate => h hlate hmatches⟩

/-- A token of this issuer and audience that expires at the end of time. -/
def endless : Claims := ⟨[("aud", .string "app"), ("exp", .number (.int i64Max)), ("iss", .string "https://idp")]⟩

theorem great_expiry : ¬ Right endless "https://idp" "app" none 0 := fun h =>
  h.1 (verifyClaims_eq_overflow.mpr ⟨i64Max, by decide, .inl (by decide)⟩)

end Omnion.Oidc
