import Omnion.Identity.Totp
import Omnion.Library.Run
import Omnion.Library.Table

/-!
# Second factors

`crates/identity/src/mfa.rs`: the factors of an account and the codes it is proved with. Any
number of `verify_code` calls, their statements interleaved in any order.

## The model

A call lists the factors and looks for one whose code it is; it then records the use of that
factor, or, if there is none, spends a recovery code. Factors and recovery codes come and go
meanwhile, and time passes. The clock of a call, `unix_seconds`, is an argument. What is
accepted is kept in a log.

## What is proved

* `run_accepts` — in every run, a recovery code is accepted at most once, and a code of a
  factor only within one step of the step whose code it is.
* `accepted_twice` — the code of a factor is accepted as often as it is presented.

## Honest scope

Rows are listed newest first, in the order in which they were inserted. Random identifiers
are new ones.
-/

namespace Omnion.Identity

/-- An enrolled (or pending) second factor. -/
structure MfaFactor where
  id : Uuid
  userId : Uuid
  /-- `totp`, `webauthn` or `recovery`. -/
  kind : String
  /-- Encrypted TOTP secret (TOTP only). -/
  secretCiphertext : Option String
  /-- WebAuthn credential id (passkey only). -/
  credentialId : Option String
  /-- WebAuthn public key (passkey only). -/
  publicKey : Option String
  signCount : ℤ
  /-- When the factor was confirmed with a code. -/
  confirmedAt : Option Instant
  lastUsedAt : Option Instant
  revokedAt : Option Instant

/-- A row of `mfa_recovery_codes`. -/
structure RecoveryCode where
  id : Uuid
  userId : Uuid
  codeHash : String
  usedAt : Option Instant
  deriving DecidableEq

/-- The outcome of verifying a user-supplied code. -/
inductive Verification where
  | totp (factorId : Uuid)
  /-- A recovery code matched and is now spent. -/
  | recovery

/-- `IdentityError`, as far as the factors answer it. -/
inductive FactorError where
  /-- `FactorNotFound`. -/
  | factorNotFound
  /-- `InvalidFactor`. -/
  | invalidFactor (message : String)
  /-- `Crypto`. -/
  | crypto

/-- `char::is_ascii_alphanumeric`. -/
def isAsciiAlphanumeric (c : Char) : Bool :=
  ('a' ≤ c && c ≤ 'z') || ('A' ≤ c && c ≤ 'Z') || ('0' ≤ c && c ≤ '9')

/-- Hash a recovery code for storage; typing dashes, spaces or lower case does not matter. -/
def hashRecoveryCode (hashes : Hashes) (code : String) : String :=
  let normalized := (code.toList.filter isAsciiAlphanumeric).map Totp.toAsciiUppercase
  String.ofList (Hex.encode
    (hashes.sha256 (asciiBytes "omnion.recovery.v1".toList ++ asciiBytes normalized)).bytes)

/-- `String::from_utf8_lossy`, of which only the ASCII characters matter: a byte beyond ASCII
is part of some other character. -/
def fromUtf8Lossy (raw : List UInt8) : List Char :=
  raw.map fun byte => if byte < 0x80 then Char.ofNat byte.toNat else '\uFFFD'

namespace MfaFactor

/-- The secret of a factor, if it can be read. -/
def secret (hashes : Hashes) (box : SecretBox) (factor : MfaFactor) : Option (List UInt8) := do
  let ciphertext ← factor.secretCiphertext
  let secretBase32 ← box.decrypt hashes ciphertext
  Totp.base32Decode (fromUtf8Lossy secretBase32)

/-- The code is one of the factor, a confirmed TOTP factor. -/
def accepts (hashes : Hashes) (box : SecretBox) (code : String) (unixSeconds : ℤ) (factor : MfaFactor) : Bool :=
  factor.kind = "totp" && factor.confirmedAt.isSome &&
    (factor.secret hashes box).any fun secret => Totp.verify hashes secret code unixSeconds Totp.defaultWindow

end MfaFactor

/-- `list_factors`: every live factor of an account, newest first. -/
def listFactors (factors : Table MfaFactor MfaFactor.id) (userId : Uuid) : List MfaFactor :=
  factors.rows.reverse.filter fun factor => factor.userId = userId && factor.revokedAt.isNone

/-- `find_factor`: one live factor of an account. -/
def findFactor (factors : Table MfaFactor MfaFactor.id) (userId factorId : Uuid) : Option MfaFactor :=
  factors.rows.find? fun factor => factor.id = factorId && factor.userId = userId && factor.revokedAt.isNone

/-- `confirm_totp` up to its first update: the code is one of the pending factor. -/
def confirmable (hashes : Hashes) (box : SecretBox) (factors : Table MfaFactor MfaFactor.id)
    (userId factorId : Uuid) (code : String) (unixSeconds : ℤ) : Except FactorError Unit :=
  match findFactor factors userId factorId with
  | none => .error .factorNotFound
  | some factor =>
    if factor.kind ≠ "totp" then .error (.invalidFactor "only a TOTP factor is confirmed with a code")
    else
      match factor.secret hashes box with
      | none => .error .crypto
      | some secret =>
        if Totp.verify hashes secret code unixSeconds Totp.defaultWindow then .ok ()
        else .error (.invalidFactor "that code does not match — check the clock on the device")

def confirmFactor (factors : Table MfaFactor MfaFactor.id) (factorId : Uuid) (now : Instant) :
    Table MfaFactor MfaFactor.id :=
  factors.update (·.id = factorId) (fun factor => { factor with confirmedAt := some now, lastUsedAt := some now })
    fun _ => rfl

namespace Factors

/-- A `verify_code` call. -/
structure Call where
  userId : Uuid
  code : String
  unixSeconds : ℤ

/-- How far a call has come. -/
inductive Stage where
  | idle
  | begun (call : Call)
  | matched (call : Call) (factor : MfaFactor)
  | unmatched (call : Call)
  | answered (verification : Option Verification)
  /-- A statement failed, or the call was dropped. -/
  | failed

/-- What was accepted. -/
inductive Entry where
  /-- A code, for a factor as it was listed. -/
  | totp (call : Call) (factor : MfaFactor)
  | recovery (id : Uuid)

/-- The recovery code an entry accepts. -/
def Entry.recoveryId : Entry → Option Uuid
  | .totp .. => none
  | .recovery id => some id

/-- The entry accepts the code of a factor and a step, its clock being near that step. -/
def Entry.isCodeOf (hashes : Hashes) (box : SecretBox) (factorId : Uuid) (step : ℕ) : Entry → Bool
  | .totp call factor => factor.id = factorId &&
      (factor.secret hashes box).any (fun secret =>
        Totp.parseU32 (Text.trim call.code).toList = some (Totp.hotp hashes secret step)) &&
      Totp.counterFor call.unixSeconds ≤ step + 1 && step ≤ Totp.counterFor call.unixSeconds + 1
  | .recovery _ => false

/-- The recovery codes accepted. -/
def recoveries (log : List Entry) : List Uuid := log.filterMap Entry.recoveryId

theorem recoveries_totp (log : List Entry) (call : Call) (factor : MfaFactor) :
    recoveries (log ++ [.totp call factor]) = recoveries log := by
  rw [recoveries, List.filterMap_append]
  exact List.append_nil _

theorem recoveries_spend (log : List Entry) (ids : List Uuid) :
    recoveries (log ++ ids.map .recovery) = recoveries log ++ ids := by
  have hids : (ids.map Entry.recovery).filterMap Entry.recoveryId = ids := by
    rw [List.filterMap_map]
    exact List.filterMap_some
  rw [recoveries, List.filterMap_append, hids]
  rfl

/-- Every code is accepted at most once: that of each factor and step, and each recovery code. -/
structure OneTime (hashes : Hashes) (box : SecretBox) (log : List Entry) : Prop where
  recovery : (recoveries log).Nodup
  totp : ∀ factorId step, log.countP (Entry.isCodeOf hashes box factorId step) ≤ 1

/-- The two tables, the clock and the calls. -/
structure Store where
  /-- `mfa_factors`. -/
  factors : Table MfaFactor MfaFactor.id
  /-- `mfa_recovery_codes`. -/
  codes : Table RecoveryCode RecoveryCode.id
  /-- The identifiers recovery codes were given so far. -/
  issued : List Uuid
  now : Instant
  calls : ℕ → Stage
  log : List Entry

namespace Store

/-- Call `i` goes on to a stage. -/
def move (s : Store) (i : ℕ) (p : Stage) : Store := { s with calls := Function.update s.calls i p }

/-- The loop over the factors. -/
def scan (hashes : Hashes) (box : SecretBox) (s : Store) (call : Call) : Stage :=
  match (listFactors s.factors call.userId).find? (·.accepts hashes box call.code call.unixSeconds) with
  | some factor => .matched call factor
  | none => .unmatched call

/-- The update of the factor that matched. -/
def record (s : Store) (i : ℕ) (call : Call) (factor : MfaFactor) : Store :=
  { s.move i (.answered (some (.totp factor.id))) with
    factors := s.factors.update (·.id = factor.id) (fun x => { x with lastUsedAt := some s.now }) fun _ => rfl
    log := s.log ++ [.totp call factor] }

/-- The rows the update of the recovery codes finds. -/
def unused (hashes : Hashes) (call : Call) (c : RecoveryCode) : Bool :=
  c.userId = call.userId && c.codeHash = hashRecoveryCode hashes call.code && c.usedAt.isNone

/-- The recovery codes a call spends. -/
def spent (hashes : Hashes) (s : Store) (call : Call) : List Uuid :=
  (s.codes.rows.filter (unused hashes call)).map (·.id)

/-- A recovery code is spent by the update that reads it. -/
def spend (hashes : Hashes) (s : Store) (i : ℕ) (call : Call) : Store :=
  { s.move i (.answered ((s.spent hashes call).head?.map fun _ => .recovery)) with
    codes := s.codes.update (unused hashes call) (fun c => { c with usedAt := some s.now }) fun _ => rfl
    log := s.log ++ (s.spent hashes call).map .recovery }

/-- A recovery code is stored, unless the account has one of its hash. -/
def issue (s : Store) (id userId : Uuid) (codeHash : String) : Option Store :=
  if id ∈ s.issued || s.codes.rows.any fun c => c.userId = userId && c.codeHash = codeHash then none
  else (s.codes.insert? { id, userId, codeHash, usedAt := none }).map fun codes =>
    { s with codes, issued := id :: s.issued }

/-- No factor was enrolled yet. -/
def empty (now : Instant) : Store where
  factors := .empty
  codes := .empty
  issued := []
  now := now
  calls := fun _ => .idle
  log := []

end Store

/-- The statements of the calls, what happens to the tables meanwhile, and the clock. -/
inductive Event where
  | verify (i : ℕ) (userId : Uuid) (code : String) (unixSeconds : ℤ)
  | list (i : ℕ)
  /-- It records the use of the factor that matched. -/
  | record (i : ℕ)
  | spend (i : ℕ)
  | stop (i : ℕ)
  | enroll (factor : MfaFactor)
  | confirm (factorId : Uuid)
  | revoke (factorId : Uuid)
  | issue (id userId : Uuid) (codeHash : String)
  /-- The recovery codes of an account are deleted. -/
  | discard (userId : Uuid)
  | tick (now : Instant)

/-- One statement of one call. -/
def factorStep (hashes : Hashes) (box : SecretBox) (s : Store) : Event → Option Store
  | .verify i userId code unixSeconds =>
    match s.calls i with
    | .idle =>
      if Text.trim code = "" then some (s.move i (.answered none))
      else some (s.move i (.begun { userId, code := Text.trim code, unixSeconds }))
    | _ => none
  | .list i =>
    match s.calls i with
    | .begun call => some (s.move i (s.scan hashes box call))
    | _ => none
  | .record i =>
    match s.calls i with
    | .matched call factor => some (s.record i call factor)
    | _ => none
  | .spend i =>
    match s.calls i with
    | .unmatched call => some (s.spend hashes i call)
    | _ => none
  | .stop i =>
    match s.calls i with
    | .begun _ | .matched .. | .unmatched _ => some (s.move i .failed)
    | _ => none
  | .enroll factor => (s.factors.insert? factor).map fun factors => { s with factors }
  | .confirm factorId => some { s with factors := confirmFactor s.factors factorId s.now }
  | .revoke factorId => some { s with
      factors := s.factors.update (fun x => x.id = factorId && x.revokedAt.isNone)
        (fun x => { x with revokedAt := some s.now }) fun _ => rfl }
  | .issue id userId codeHash => s.issue id userId codeHash
  | .discard userId => some { s with codes := s.codes.delete (·.userId = userId) }
  | .tick now => if s.now ≤ now then some { s with now } else none

namespace Store

variable {hashes : Hashes} {box : SecretBox} {s t : Store} {c : RecoveryCode} {call : Call} {factor : MfaFactor}
  {p : Stage} {i : ℕ}

/-- **A code of a factor is accepted in its time**: the factor is a live, confirmed one of the
account, and the clock of the call is at most one step from a step whose code it is. -/
def InTime (hashes : Hashes) (box : SecretBox) (call : Call) (factor : MfaFactor) : Prop :=
  (factor.userId = call.userId ∧ factor.kind = "totp" ∧ factor.confirmedAt ≠ none ∧ factor.revokedAt = none) ∧
    ∃ secret step, factor.secret hashes box = some secret ∧
      Totp.parseU32 (Text.trim call.code).toList = some (Totp.hotp hashes secret step) ∧
      Totp.counterFor call.unixSeconds ≤ step + 1 ∧ step ≤ Totp.counterFor call.unixSeconds + 1

/-- What was accepted: each recovery code once, and each code of a factor in its time. -/
structure Accepted (hashes : Hashes) (box : SecretBox) (log : List Entry) : Prop where
  once : (recoveries log).Nodup
  inTime : ∀ call factor, .totp call factor ∈ log → InTime hashes box call factor

/-- **The invariant**: recovery codes that were accepted are spent, and the factors calls have
found accept their codes. -/
structure Inv (hashes : Hashes) (box : SecretBox) (s : Store) : Prop where
  accepted : Accepted hashes box s.log
  spent : ∀ id ∈ recoveries s.log, id ∈ s.issued ∧ ∀ c ∈ s.codes, c.id = id → c.usedAt ≠ none
  /-- The codes have their identifiers. -/
  given : ∀ c ∈ s.codes, c.id ∈ s.issued
  matched : ∀ i call factor, s.calls i = .matched call factor → InTime hashes box call factor

theorem inv_empty (now : Instant) : Inv hashes box (.empty now) where
  accepted := ⟨List.nodup_nil, fun _ _ hmem => absurd hmem List.not_mem_nil⟩
  spent _ hid := absurd hid List.not_mem_nil
  given _ hc := absurd hc List.not_mem_nil
  matched _ _ _ hi := by cases hi

theorem inTime_of_accepts (hmem : factor ∈ listFactors s.factors call.userId)
    (h : factor.accepts hashes box call.code call.unixSeconds = true) : InTime hashes box call factor := by
  simp only [MfaFactor.accepts, Bool.and_eq_true, decide_eq_true_eq, Option.any_eq_true] at h
  obtain ⟨⟨hkind, hconfirmed⟩, secret, hsecret, hverify⟩ := h
  simp only [listFactors, List.mem_filter, Bool.and_eq_true, decide_eq_true_eq] at hmem
  obtain ⟨step, hbefore, hafter, hcode⟩ := Totp.verify_window hverify
  refine ⟨⟨hmem.2.1, hkind, fun hnone => ?_, Option.isNone_iff_eq_none.mp hmem.2.2⟩, secret, step, hsecret, hcode,
    hbefore, hafter⟩
  rw [hnone] at hconfirmed
  cases hconfirmed

theorem Inv.move (h : Inv hashes box s) (hp : ∀ call factor, p = .matched call factor → InTime hashes box call factor) :
    Inv hashes box (s.move i p) where
  accepted := h.accepted
  spent := h.spent
  given := h.given
  matched := (Function.forall_update_iff s.calls fun _ q => ∀ call factor, q = .matched call factor →
    InTime hashes box call factor).mpr ⟨hp, fun j _ => h.matched j⟩

theorem Inv.scan (h : Inv hashes box s) (call : Call) : Inv hashes box (s.move i (s.scan hashes box call)) := by
  refine h.move fun call' factor hmatched => ?_
  simp only [Store.scan] at hmatched
  split at hmatched
  · rename_i found hfind
    obtain ⟨rfl, rfl⟩ := Stage.matched.inj hmatched
    exact inTime_of_accepts (List.mem_of_find?_eq_some hfind) (List.find?_some (p := fun factor =>
      MfaFactor.accepts hashes box call.code call.unixSeconds factor) hfind)
  · cases hmatched

theorem Inv.record (h : Inv hashes box s) (hi : s.calls i = .matched call factor) :
    Inv hashes box (s.record i call factor) where
  accepted := by
    refine ⟨?_, fun call' factor' hmem => ?_⟩
    · exact (recoveries_totp ..).symm ▸ h.accepted.once
    · rcases List.mem_append.mp hmem with hmem | hmem
      · exact h.accepted.inTime call' factor' hmem
      · obtain ⟨rfl, rfl⟩ := Entry.totp.inj (List.mem_singleton.mp hmem)
        exact h.matched i call' factor' hi
  spent := by
    rw [show recoveries (s.record i call factor).log = recoveries s.log from recoveries_totp ..]
    exact h.spent
  given := h.given
  matched := (h.move (p := .answered (some (.totp factor.id))) fun _ _ hp => by cases hp).matched

theorem mem_spent {id : Uuid} : id ∈ s.spent hashes call ↔ ∃ c ∈ s.codes, c.id = id ∧ unused hashes call c = true := by
  simp only [spent, List.mem_map, List.mem_filter, Table.mem_def]
  constructor
  · rintro ⟨c, ⟨hc, hunused⟩, hid⟩
    exact ⟨c, hc, hid, hunused⟩
  · rintro ⟨c, hc, hid, hunused⟩
    exact ⟨c, ⟨hc, hunused⟩, hid⟩

theorem of_mem_spend (hc : c ∈ (s.spend hashes i call).codes) :
    ∃ a ∈ s.codes, a.id = c.id ∧ (c.usedAt = none → a.usedAt = none ∧ unused hashes call a = false) := by
  rw [spend, Table.mem_update] at hc
  obtain ⟨a, ha, rfl⟩ := hc
  refine ⟨a, ha, ?_⟩
  split_ifs with hfound
  · exact ⟨rfl, nofun⟩
  · exact ⟨rfl, fun hopen => ⟨hopen, Bool.eq_false_iff.mpr hfound⟩⟩

/-- A recovery code that is spent was not spent before. -/
theorem Inv.spend (h : Inv hashes box s) (call : Call) : Inv hashes box (s.spend hashes i call) := by
  have hlog : recoveries (s.spend hashes i call).log = recoveries s.log ++ s.spent hashes call := recoveries_spend ..
  have hmoved := h.move (i := i) (p := .answered ((s.spent hashes call).head?.map fun _ => .recovery))
    fun _ _ hp => by cases hp
  exact {
    accepted := by
      refine ⟨?_, fun call' factor hmem => ?_⟩
      · rw [hlog]
        refine List.nodup_append.mpr ⟨h.accepted.once, s.codes.nodup.sublist (List.filter_sublist.map _),
          fun id hold id' hnew hsame => ?_⟩
        obtain ⟨c, hc, hcid, hfound⟩ := mem_spent.mp hnew
        have hused := (h.spent id hold).2 c hc (hcid.trans hsame.symm)
        simp [unused, hused] at hfound
      · rcases List.mem_append.mp hmem with hmem | hmem
        · exact h.accepted.inTime call' factor hmem
        · obtain ⟨_, _, hentry⟩ := List.mem_map.mp hmem
          cases hentry
    spent := by
      rw [hlog]
      intro id hid
      rcases List.mem_append.mp hid with hold | hnew
      · refine ⟨(h.spent id hold).1, fun c hc hcid hopen => ?_⟩
        obtain ⟨a, ha, hac, hunused⟩ := of_mem_spend hc
        exact (h.spent id hold).2 a ha (hac.trans hcid) (hunused hopen).1
      · obtain ⟨c, hc, rfl, hfound⟩ := mem_spent.mp hnew
        refine ⟨h.given c hc, fun c' hc' hcid hopen => ?_⟩
        obtain ⟨a, ha, hac, hunused⟩ := of_mem_spend hc'
        rw [Table.eq_of_key ha hc (hac.trans hcid), hfound] at hunused
        cases (hunused hopen).2
    given := fun c hc => by
      obtain ⟨a, ha, hac, -⟩ := of_mem_spend hc
      rw [← hac]
      exact h.given a ha
    matched := hmoved.matched }

/-- A recovery code is stored under a new identifier. -/
theorem Inv.issue (h : Inv hashes box s) {id userId : Uuid} {codeHash : String}
    (hs : s.issue id userId codeHash = some t) :
    Inv hashes box t := by
  simp only [Store.issue] at hs
  split_ifs at hs with hrefused
  obtain ⟨codes, hcodes, rfl⟩ := Option.map_eq_some_iff.mp hs
  have hmem : ∀ {c : RecoveryCode}, c ∈ codes ↔ c ∈ s.codes ∨ c = ⟨id, userId, codeHash, none⟩ :=
    Table.mem_insert? hcodes
  have hnew : id ∉ s.issued := fun hin => hrefused (by simp [hin])
  exact {
    accepted := h.accepted
    spent := fun id' hid => by
      obtain ⟨hissued, hused⟩ := h.spent id' hid
      refine ⟨List.mem_cons_of_mem _ hissued, fun c hc hcid => ?_⟩
      rcases hmem.mp hc with hc | rfl
      · exact hused c hc hcid
      · obtain rfl : id = id' := hcid
        exact absurd hissued hnew
    given := fun c hc => by
      rcases hmem.mp hc with hc | rfl
      · exact List.mem_cons_of_mem _ (h.given c hc)
      · exact List.mem_cons_self
    matched := h.matched }

/-! ### The runs -/

/-- Every step keeps the invariant. -/
theorem Inv.step {e : Event} (h : Inv hashes box s) (hs : factorStep hashes box s e = some t) : Inv hashes box t := by
  cases e with
  | verify i userId code unixSeconds =>
    simp only [factorStep] at hs
    split at hs
    · split_ifs at hs
      · cases hs
        exact h.move fun _ _ hp => by cases hp
      · cases hs
        exact h.move fun _ _ hp => by cases hp
    · cases hs
  | list i =>
    simp only [factorStep] at hs
    split at hs
    · cases hs
      exact h.scan _
    · cases hs
  | record i =>
    simp only [factorStep] at hs
    split at hs
    · rename_i call factor hi
      cases hs
      exact h.record hi
    · cases hs
  | spend i =>
    simp only [factorStep] at hs
    split at hs
    · cases hs
      exact h.spend _
    · cases hs
  | stop i =>
    simp only [factorStep] at hs
    split at hs
    · cases hs
      exact h.move fun _ _ hp => by cases hp
    · cases hs
      exact h.move fun _ _ hp => by cases hp
    · cases hs
      exact h.move fun _ _ hp => by cases hp
    · cases hs
  | enroll factor =>
    obtain ⟨factors, -, rfl⟩ := Option.map_eq_some_iff.mp hs
    exact ⟨h.accepted, h.spent, h.given, h.matched⟩
  | confirm factorId =>
    cases hs
    exact ⟨h.accepted, h.spent, h.given, h.matched⟩
  | revoke factorId =>
    cases hs
    exact ⟨h.accepted, h.spent, h.given, h.matched⟩
  | issue id userId codeHash => exact h.issue hs
  | discard userId =>
    cases hs
    have hmem : ∀ {c : RecoveryCode}, c ∈ s.codes.delete (·.userId = userId) → c ∈ s.codes :=
      fun hc => (Table.mem_delete.mp hc).1
    exact ⟨h.accepted, fun id hid => ⟨(h.spent id hid).1, fun c hc => (h.spent id hid).2 c (hmem hc)⟩,
      fun c hc => h.given c (hmem hc), h.matched⟩
  | tick now =>
    simp only [factorStep] at hs
    split_ifs at hs
    cases hs
    exact ⟨h.accepted, h.spent, h.given, h.matched⟩

/-- **What is accepted**: over any interleaving of `verify_code` calls, changes of the tables
and the clock, a recovery code is accepted at most once, and a code of a factor only for a
live, confirmed factor, while the clock is within one step of a step whose code it is. -/
theorem run_accepts {now : Instant} {es : List Event}
    (h : Transition.Run (factorStep hashes box) Transition.Any (.empty now) es s) : Accepted hashes box s.log :=
  (h.invariant (inv_empty now) fun _ _ _ hx _ hs => hx.step hs).accepted

/-- The hashes of one envelope, and the codes of its secret, `12345678901234567890`, for the
first three steps. -/
def knownHashes : Hashes where
  sha256 _ := ⟨[0x30, 0xf1, 0x24, 0xe5, 0x24, 0xaa, 0x16, 0x68, 0x80, 0xaa, 0x08, 0xb0, 0xd6, 0x91, 0x18, 0x14,
      0x6d, 0x9d, 0x4b, 0x99, 0x5c, 0x24, 0xeb, 0x35, 0x11, 0x80, 0x1c, 0x75, 0x12, 0x9c, 0x37, 0xb8], rfl⟩
  hmacSha1 _ message :=
    if message = Bytes.toBe 8 0 then
      ⟨[0xcc, 0x93, 0xcf, 0x18, 0x50, 0x8d, 0x94, 0x93, 0x4c, 0x64, 0xb6, 0x5d, 0x8b, 0xa7, 0x66, 0x7f,
        0xb7, 0xcd, 0xe4, 0xb0], rfl⟩
    else if message = Bytes.toBe 8 1 then
      ⟨[0x75, 0xa4, 0x8a, 0x19, 0xd4, 0xcb, 0xe1, 0x00, 0x64, 0x4e, 0x8a, 0xc1, 0x39, 0x7e, 0xea, 0x74,
        0x7a, 0x2d, 0x33, 0xab], rfl⟩
    else
      ⟨[0x0b, 0xac, 0xb7, 0xfa, 0x08, 0x2f, 0xef, 0x30, 0x78, 0x22, 0x11, 0x93, 0x8b, 0xc1, 0xc5, 0xe7,
        0x04, 0x16, 0xff, 0x44], rfl⟩
  hmacSha256 _ _ := ⟨[0x0b, 0x5d, 0xac, 0x40, 0xef, 0x2f, 0x28, 0x6e, 0x24, 0x49, 0x9b, 0x99, 0x07, 0x25, 0x64, 0x00,
      0x46, 0x6a, 0x93, 0xc7, 0x16, 0xe1, 0x10, 0x49, 0x7a, 0x68, 0xfa, 0x10, 0x01, 0xcb, 0xd9, 0x39], rfl⟩

/-- The key derived from `unit-test-key`. -/
def unitTestBox : SecretBox where
  key := ⟨[0x6c, 0xe1, 0xd5, 0x70, 0x07, 0x33, 0x66, 0xd4, 0x29, 0x0b, 0xb4, 0xa1, 0xb6, 0x06, 0xd7, 0x9b,
      0xf6, 0x67, 0x73, 0x98, 0x9f, 0x12, 0xbb, 0x07, 0x0c, 0xbc, 0x6b, 0xad, 0xe3, 0xcf, 0x2c, 0x3a], rfl⟩

/-- The authenticator app of account 7. -/
def app : MfaFactor where
  id := 30
  userId := 7
  kind := "totp"
  secretCiphertext := some ("v1.000102030405060708090a0b0c0d0e0f." ++
    "77b47ea163e4543ec7f33be487de52452ad811dd1b6aa96356d92f2143d37de9." ++
    "0b5dac40ef2f286e24499b9907256400466a93c716e110497a68fa1001cbd939")
  credentialId := none
  publicKey := none
  signCount := 0
  confirmedAt := none
  lastUsedAt := none
  revokedAt := none

/-- The code of step 1 is presented in that step, and again in the next. -/
def presentedTwice : List Event :=
  [.enroll app, .confirm 30, .verify 0 7 "287082" 59, .list 0, .record 0, .verify 1 7 " 287082" 61, .list 1, .record 1]

theorem toList_append3 {a b c : List Char} :
    (String.ofList a ++ String.ofList b ++ String.ofList c).toList = a ++ b ++ c := by
  simp

theorem decrypt_app : unitTestBox.decrypt knownHashes ("v1.000102030405060708090a0b0c0d0e0f." ++
      "77b47ea163e4543ec7f33be487de52452ad811dd1b6aa96356d92f2143d37de9." ++
      "0b5dac40ef2f286e24499b9907256400466a93c716e110497a68fa1001cbd939") =
        some (asciiBytes "GEZDGNBVGY3TQOJQGEZDGNBVGY3TQOJQ".toList) := by
  have htext : ("v1.000102030405060708090a0b0c0d0e0f." ++
      "77b47ea163e4543ec7f33be487de52452ad811dd1b6aa96356d92f2143d37de9." ++
      "0b5dac40ef2f286e24499b9907256400466a93c716e110497a68fa1001cbd939").toList = _ := toList_append3
  rw [SecretBox.decrypt, htext]
  decide +kernel

def appSecret : List UInt8 := asciiBytes "12345678901234567890".toList

theorem base32_app : Totp.base32Decode (fromUtf8Lossy (asciiBytes "GEZDGNBVGY3TQOJQGEZDGNBVGY3TQOJQ".toList)) =
      some appSecret := by decide +kernel

variable {unixSeconds : ℤ}

theorem secret_app (h : factor.secretCiphertext = app.secretCiphertext) :
    factor.secret knownHashes unitTestBox = some appSecret := by
  rw [MfaFactor.secret, h, app, Option.bind_eq_bind, Option.bind_some, decrypt_app, Option.bind_eq_bind,
    Option.bind_some, base32_app]

theorem verify_app (h : unixSeconds = 59 ∨ unixSeconds = 61) :
    Totp.verify knownHashes appSecret "287082" unixSeconds Totp.defaultWindow = true := by
  rcases h with rfl | rfl <;> decide +kernel

/-- A confirmed factor with the secret of the app. -/
structure LikeApp (factor : MfaFactor) : Prop where
  id : factor.id = 30
  userId : factor.userId = 7
  kind : factor.kind = "totp"
  secretCiphertext : factor.secretCiphertext = app.secretCiphertext
  confirmed : factor.confirmedAt.isSome = true
  live : factor.revokedAt = none

theorem scan_app (call : Call) (hrows : s.factors.rows = [factor]) (hfactor : LikeApp factor)
    (huser : call.userId = 7) (hcode : call.code = "287082") (htime : call.unixSeconds = 59 ∨ call.unixSeconds = 61) :
    s.scan knownHashes unitTestBox call = .matched call factor := by
  have haccepts : factor.accepts knownHashes unitTestBox call.code call.unixSeconds = true := by
    simp [MfaFactor.accepts, hfactor.kind, hfactor.confirmed, secret_app hfactor.secretCiphertext, hcode,
      verify_app htime]
  have hlist : listFactors s.factors call.userId = [factor] := by
    simp [listFactors, hrows, huser, hfactor.userId, hfactor.live]
  rw [scan, hlist, List.find?_cons_of_pos haccepts]

theorem isCodeOf_app (call : Call) (hfactor : LikeApp factor) (hcode : call.code = "287082")
    (htime : call.unixSeconds = 59 ∨ call.unixSeconds = 61) :
    Entry.isCodeOf knownHashes unitTestBox 30 1 (.totp call factor) = true := by
  have hparse : Totp.parseU32 (Text.trim "287082").toList =
      some (Totp.hotp knownHashes appSecret 1) := by decide +kernel
  have hcounter : Totp.counterFor call.unixSeconds ≤ 2 ∧ 1 ≤ Totp.counterFor call.unixSeconds + 1 := by
    rcases htime with h | h <;> rw [h] <;> decide
  simp [Entry.isCodeOf, hfactor.id, secret_app hfactor.secretCiphertext, hcode, hparse, hcounter]

theorem trim_code : Text.trim "287082" = "287082" ∧ Text.trim " 287082" = "287082" := by decide +kernel

theorem verify_step {code : String} (hi : s.calls i = .idle) (hcode : Text.trim code = "287082") :
    factorStep knownHashes unitTestBox s (.verify i 7 code unixSeconds) =
      some (s.move i (.begun ⟨7, "287082", unixSeconds⟩)) := by
  simp [factorStep, hi, hcode]

theorem list_step (hi : s.calls i = .begun ⟨7, "287082", unixSeconds⟩) (hrows : s.factors.rows = [factor])
    (hfactor : LikeApp factor) (htime : unixSeconds = 59 ∨ unixSeconds = 61) :
    factorStep knownHashes unitTestBox s (.list i) =
      some (s.move i (.matched ⟨7, "287082", unixSeconds⟩ factor)) := by
  simp only [factorStep, hi, scan_app ⟨7, "287082", unixSeconds⟩ hrows hfactor rfl rfl htime]

/-- The app, confirmed. -/
def confirmedApp : MfaFactor := { app with confirmedAt := some 0, lastUsedAt := some 0 }

theorem likeApp : LikeApp confirmedApp := ⟨rfl, rfl, rfl, rfl, rfl, rfl⟩

theorem rows_record (i : ℕ) (call : Call) (hrows : s.factors.rows = [confirmedApp]) (hnow : s.now = 0) :
    (s.record i call confirmedApp).factors.rows = [confirmedApp] := by
  simp [record, Table.update, hrows, hnow, confirmedApp]

theorem run_presentedTwice : ∃ s,
    Transition.Run (factorStep knownHashes unitTestBox) Transition.Any (.empty 0) presentedTwice s ∧
      s.log.countP (Entry.isCodeOf knownHashes unitTestBox 30 1) = 2 ∧ s.log.length = 2 := by
  obtain ⟨t, u, henroll, hconfirm, hrows, hcalls, hnow, hlog⟩ : ∃ t u,
      factorStep knownHashes unitTestBox (.empty 0) (.enroll app) = some t ∧
      factorStep knownHashes unitTestBox t (.confirm 30) = some u ∧ u.factors.rows = [confirmedApp] ∧
      u.calls = (fun _ => .idle) ∧ u.now = 0 ∧ u.log = [] :=
    ⟨_, _, rfl, rfl, rfl, rfl, rfl, rfl⟩
  refine ⟨_, .cons trivial henroll (.cons trivial hconfirm (.cons trivial (verify_step (by rw [hcalls]) trim_code.1)
    (.cons trivial (list_step rfl hrows likeApp (.inl rfl)) (.cons trivial rfl
    (.cons trivial (verify_step (by simp [record, move, hcalls]) trim_code.2)
    (.cons trivial (list_step rfl (rows_record 0 ⟨7, "287082", 59⟩ hrows hnow) likeApp (.inr rfl))
    (.cons trivial rfl .nil))))))), ?_⟩
  have hfirst := isCodeOf_app ⟨7, "287082", 59⟩ likeApp rfl (.inl rfl)
  have hsecond := isCodeOf_app ⟨7, "287082", 61⟩ likeApp rfl (.inr rfl)
  simp [record, move, hlog, hfirst, hsecond]

/-- The code is accepted both times. -/
theorem accepted_twice :
    ¬ ∀ (hashes : Hashes) (box : SecretBox) (now : Instant) (es : List Event) (s : Store),
      Transition.Run (factorStep hashes box) Transition.Any (.empty now) es s → OneTime hashes box s.log := by
  intro h
  obtain ⟨s, hrun, hcount, -⟩ := run_presentedTwice
  have hbound := (h knownHashes unitTestBox 0 presentedTwice s hrun).totp 30 1
  rw [hcount] at hbound
  exact absurd hbound (by decide)

/-- Both times it is in time. -/
theorem run_accepts_twice :
    ∃ s, Transition.Run (factorStep knownHashes unitTestBox) Transition.Any (.empty 0) presentedTwice s ∧
      s.log.length = 2 ∧ Accepted knownHashes unitTestBox s.log := by
  obtain ⟨s, hrun, -, hlength⟩ := run_presentedTwice
  exact ⟨s, hrun, hlength, run_accepts hrun⟩

end Store

end Factors

end Omnion.Identity
