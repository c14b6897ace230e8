import Mathlib.Data.List.Chain
import Omnion.Identity.Factors
import Omnion.Identity.WebAuthn

/-!
# The counters of passkeys

The passkeys of `crates/identity/src/mfa.rs` and the end of a passkey sign-in in
`apps/api/src/routes/webauthn.rs`: the factor is read, the assertion verified against it, and
the counter stored. Any number of sign-ins, their steps interleaved in any order.

## The model

Passkeys are registered and revoked meanwhile. A log keeps every value the counter of a
passkey took, in order, and which of them were of accepted assertions.

## What is proved

* `run_forward` — the counter of every passkey never goes back, and the counters of the
  accepted assertions, where not zero, are strictly increasing: in the runs where a sign-in
  stores its counter only while the passkey has the one it was verified against.
* `stored_back` — two sign-ins that both read the passkey before either stores move its
  counter back.
-/

namespace Omnion.Identity

namespace MfaFactor

/-- `find_passkey`: a live passkey of an account by its credential id. -/
def findPasskey (factors : Table MfaFactor MfaFactor.id) (userId : Uuid) (credentialId : String) : Option MfaFactor :=
  factors.rows.find? fun factor => factor.userId = userId && factor.kind = "webauthn" &&
    factor.credentialId = some credentialId && factor.revokedAt.isNone

/-- `create_passkey`. No two live factors have one credential id. -/
def createPasskey (factors : Table MfaFactor MfaFactor.id) (id userId : Uuid) (credentialId publicKey : String)
    (signCount : UInt32) (now : Instant) : Option (Table MfaFactor MfaFactor.id) :=
  if factors.rows.any fun factor => factor.credentialId = some credentialId && factor.revokedAt.isNone then none
  else factors.insert? {
    id, userId
    kind := "webauthn"
    secretCiphertext := none
    credentialId := some credentialId
    publicKey := some publicKey
    signCount := signCount.toNat
    confirmedAt := some now
    lastUsedAt := some now
    revokedAt := none }

/-- `record_passkey_use`. -/
def recordPasskeyUse (factors : Table MfaFactor MfaFactor.id) (factorId : Uuid) (signCount : UInt32) (now : Instant) :
    Table MfaFactor MfaFactor.id :=
  factors.update (·.id = factorId) (fun factor => { factor with lastUsedAt := some now, signCount := signCount.toNat })
    fun _ => rfl

/-- `revoke_factor`. -/
def revokeFactor (factors : Table MfaFactor MfaFactor.id) (userId factorId : Uuid) (now : Instant) :
    Table MfaFactor MfaFactor.id :=
  factors.update (fun factor => factor.id = factorId && factor.userId = userId && factor.revokedAt.isNone)
    (fun factor => { factor with revokedAt := some now }) fun _ => rfl

end MfaFactor

namespace Passkeys

open WebAuthn

/-- What the installation is set to. -/
structure Settings where
  platform : Platform
  rpId : String
  /-- The origins a ceremony may come from. -/
  origins : OriginPolicy

/-- How far a sign-in has come. -/
inductive Stage where
  | idle
  | read (factor : MfaFactor) (publicKey : String)
  /-- The assertion was verified against it. -/
  | verified (factor : MfaFactor) (assertion : Assertion)
  | stored
  /-- The sign-in was refused, or a statement failed, or it was dropped. -/
  | failed

/-- A value the counter of a passkey took. -/
structure Entry where
  id : Uuid
  count : UInt32
  /-- It was of an accepted assertion, not of the registration. -/
  accepted : Bool

/-- The values the counter of a passkey took. -/
def counts (log : List Entry) (id : Uuid) : List UInt32 := (log.filter (·.id = id)).map (·.count)

/-- Those of accepted assertions. -/
def accepted (log : List Entry) (id : Uuid) : List UInt32 :=
  ((log.filter (·.id = id)).filter (·.accepted)).map (·.count)

theorem counts_append (log : List Entry) (e : Entry) (id : Uuid) :
    counts (log ++ [e]) id = counts log id ++ if e.id = id then [e.count] else [] := by
  rw [counts, List.filter_append, List.map_append]
  by_cases h : e.id = id <;> simp [counts, h]

theorem accepted_sublist (log : List Entry) (id : Uuid) : (accepted log id).Sublist (counts log id) :=
  (List.filter_sublist ..).map _

/-- The factors, the clock and the sign-ins. -/
structure Store where
  /-- `mfa_factors`. -/
  factors : Table MfaFactor MfaFactor.id
  now : Instant
  calls : ℕ → Stage
  log : List Entry

/-- The steps of the sign-ins, and what happens meanwhile. -/
inductive Event where
  /-- A passkey is stored after a verified registration. -/
  | register (id userId : Uuid) (registration : Registration)
  | read (i : ℕ) (userId : Uuid) (credentialId : String)
  | verify (i : ℕ) (request : AssertionRequest)
  | store (i : ℕ)
  | stop (i : ℕ)
  | revoke (userId factorId : Uuid)
  | tick (now : Instant)

namespace Store

/-- Sign-in `i` goes on to a stage. -/
def move (s : Store) (i : ℕ) (p : Stage) : Store := { s with calls := Function.update s.calls i p }

/-- Before any passkey is registered. -/
def empty (now : Instant) : Store where
  factors := .empty
  now := now
  calls := fun _ => .idle
  log := []

end Store

def passkeyStep (settings : Settings) (s : Store) : Event → Option Store
  | .register id userId registration =>
    (MfaFactor.createPasskey s.factors id userId registration.credentialId registration.publicKey
      registration.signCount s.now).map fun factors =>
        { s with factors, log := s.log ++ [⟨id, registration.signCount, false⟩] }
  | .read i userId credentialId =>
    match s.calls i with
    | .idle =>
      match MfaFactor.findPasskey s.factors userId credentialId with
      | some factor =>
        match factor.publicKey with
        | some publicKey => some (s.move i (.read factor publicKey))
        | none => some (s.move i .failed)
      | none => some (s.move i .failed)
    | _ => none
  | .verify i request =>
    match s.calls i with
    | .read factor publicKey =>
      match verifyAssertion settings.platform request settings.rpId settings.origins publicKey factor.signCount with
      | .ok assertion => some (s.move i (.verified factor assertion))
      | .error _ => some (s.move i .failed)
    | _ => none
  | .store i =>
    match s.calls i with
    | .verified factor assertion =>
      some { s.move i .stored with
        factors := MfaFactor.recordPasskeyUse s.factors factor.id assertion.signCount s.now
        log := s.log ++ [⟨factor.id, assertion.signCount, true⟩] }
    | _ => none
  | .stop i =>
    match s.calls i with
    | .read .. | .verified .. => some (s.move i .failed)
    | _ => none
  | .revoke userId factorId => some { s with factors := MfaFactor.revokeFactor s.factors userId factorId s.now }
  | .tick now => if s.now ≤ now then some { s with now } else none

namespace Store

variable {settings : Settings} {s t : Store} {i : ℕ} {p : Stage} {id : Uuid}

/-- **The counter moves forward**: what a passkey has is the last value its counter took, the
values never go back, and those of accepted assertions, where not zero, increase. -/
structure Forward (s : Store) (id : Uuid) : Prop where
  stored : ∀ factor ∈ s.factors, factor.id = id →
    ∃ count, (counts s.log id).getLast? = some count ∧ factor.signCount = count.toNat
  neverBack : (counts s.log id).Pairwise (· ≤ ·)
  /-- No two accepted assertions with one counter. -/
  increasing : ((accepted s.log id).filter (· ≠ 0)).Pairwise (· < ·)

/-- **The steps allowed**: a sign-in stores its counter only while the passkey has the one it
was verified against. -/
def Orderly (s : Store) : Event → Prop
  | .store i => ∀ factor assertion, s.calls i = .verified factor assertion →
      ∃ row ∈ s.factors, row.id = factor.id ∧ row.signCount = factor.signCount
  | _ => True

/-- **The invariant**: the values of a counter move forward one by one. -/
structure Inv (s : Store) : Prop where
  /-- A passkey has the last value of its counter. -/
  stored : ∀ factor ∈ s.factors,
    ∃ count, (counts s.log factor.id).getLast? = some count ∧ factor.signCount = count.toNat
  known : ∀ e ∈ s.log, ∃ factor ∈ s.factors, factor.id = e.id
  /-- Each value moves forward from the one before. -/
  forward : ∀ id, (counts s.log id).IsChain MovesForward
  /-- What is to be stored moves forward from what was read. -/
  verified : ∀ i factor assertion, s.calls i = .verified factor assertion →
    MovesForward (storedCount factor.signCount) assertion.signCount

theorem storedCount_toNat (count : UInt32) : storedCount count.toNat = count := by
  have h := count.toNat_lt
  rw [storedCount, if_pos ⟨by omega, by omega⟩]
  simp

theorem movesForward_le {a b : UInt32} (h : MovesForward a b) : a ≤ b := by
  rcases h with ⟨rfl, rfl⟩ | h
  · exact UInt32.le_refl 0
  · exact UInt32.le_of_lt h

theorem movesForward_lt {a b : UInt32} (h : MovesForward a b) (hb : b ≠ 0) : a < b := h.resolve_left fun h => hb h.1

instance : Trans MovesForward MovesForward MovesForward where
  trans {a b c} hab hbc := by
    rcases hbc with ⟨rfl, rfl⟩ | hbc
    · exact hab
    · exact .inr (UInt32.lt_of_le_of_lt (movesForward_le hab) hbc)

/-! ### The steps -/

theorem Inv.move (h : Inv s) (hp : ∀ factor assertion, p = .verified factor assertion →
    MovesForward (storedCount factor.signCount) assertion.signCount) : Inv (s.move i p) where
  stored := h.stored
  known := h.known
  forward := h.forward
  verified j factor assertion hj := by
    simp only [Store.move, Function.update_apply] at hj
    split_ifs at hj
    · exact hp factor assertion hj
    · exact h.verified j factor assertion hj

/-- A sign-in stored the counter of a passkey, or it was registered: the value is one more. -/
theorem Inv.append (h : Inv s) {factors : Table MfaFactor MfaFactor.id} {e : Entry}
    (hkeys : s.factors.Grows (fun _ _ => True) factors)
    (hrows : ∀ factor ∈ factors, factor.id = e.id ∧ factor.signCount = e.count.toNat ∨
      factor.id ≠ e.id ∧ factor ∈ s.factors)
    (hmem : ∃ factor ∈ factors, factor.id = e.id)
    (hforward : ∀ last, (counts s.log e.id).getLast? = some last → MovesForward last e.count) :
    Inv { s with factors, log := s.log ++ [e] } where
  stored factor hfactor := by
    rcases hrows factor hfactor with ⟨hid, hcount⟩ | ⟨hid, hfactor⟩
    · exact ⟨e.count, by rw [counts_append, if_pos hid.symm, List.getLast?_append]; rfl, hcount⟩
    · rw [counts_append, if_neg (Ne.symm hid), List.append_nil]
      exact h.stored factor hfactor
  known entry hentry := by
    rcases List.mem_append.mp hentry with hentry | hentry
    · obtain ⟨factor, hfactor, hid⟩ := h.known entry hentry
      obtain ⟨row, hrow, hkey, -⟩ := hkeys factor hfactor
      exact ⟨row, hrow, hkey.trans hid⟩
    · rw [List.mem_singleton.mp hentry]
      exact hmem
  forward id := by
    rw [counts_append]
    refine (h.forward id).append ?_ ?_
    · split_ifs
      · exact .singleton _
      · exact .nil
    · intro last hlast count hcount
      split_ifs at hcount with hid
      · cases hcount
        exact hforward last (hid ▸ hlast)
      · cases hcount
  verified := h.verified

theorem Inv.register (h : Inv s) {userId : Uuid} {credentialId publicKey : String} {signCount : UInt32}
    {factors : Table MfaFactor MfaFactor.id}
    (hs : MfaFactor.createPasskey s.factors id userId credentialId publicKey signCount s.now = some factors) :
    Inv { s with factors, log := s.log ++ [⟨id, signCount, false⟩] } := by
  rw [MfaFactor.createPasskey] at hs
  split_ifs at hs
  have hnew := Table.find?_eq_none.mp (Table.insert?_eq_some hs).1
  refine h.append (Table.Grows.insert? (fun _ => trivial) hs) (fun factor hfactor => ?_)
    ⟨_, (Table.mem_insert? hs).mpr (.inr rfl), rfl⟩ ?_
  · rcases (Table.mem_insert? hs).mp hfactor with hfactor | rfl
    · exact .inr ⟨hnew factor hfactor, hfactor⟩
    · exact .inl ⟨rfl, rfl⟩
  · -- the identifier is new, so no value of a counter is its own
    intro last hlast
    obtain ⟨e, he, -⟩ := List.mem_map.mp (List.mem_of_getLast? hlast)
    obtain ⟨hlog, hid⟩ := List.mem_filter.mp he
    obtain ⟨factor, hfactor, hkey⟩ := h.known e hlog
    exact absurd (hkey.trans (of_decide_eq_true hid)) (hnew factor hfactor)

theorem Inv.store (h : Inv s) {factor row : MfaFactor} {assertion : Assertion}
    (hi : s.calls i = .verified factor assertion)
    (hrow : row ∈ s.factors) (hid : row.id = factor.id) (hcount : row.signCount = factor.signCount) :
    Inv { s with
      factors := MfaFactor.recordPasskeyUse s.factors factor.id assertion.signCount s.now
      log := s.log ++ [⟨factor.id, assertion.signCount, true⟩] } := by
  have hkeys : s.factors.Grows (fun _ _ => True)
      (MfaFactor.recordPasskeyUse s.factors factor.id assertion.signCount s.now) :=
    Table.Grows.update _ (fun _ => trivial) fun _ _ _ => trivial
  refine h.append hkeys (fun new hnew => ?_) ?_ fun last hlast => ?_
  · rw [MfaFactor.recordPasskeyUse, Table.mem_update] at hnew
    obtain ⟨old, hold, rfl⟩ := hnew
    split_ifs with hsame
    · exact .inl ⟨of_decide_eq_true hsame, rfl⟩
    · exact .inr ⟨fun hsame' => hsame (decide_eq_true hsame'), hold⟩
  · obtain ⟨new, hnew, hkey, -⟩ := hkeys row hrow
    exact ⟨new, hnew, hkey.trans hid⟩
  · -- the last value is the one of the row, which the assertion was verified against
    obtain ⟨count, hcounts, hstored⟩ := h.stored row hrow
    rw [hid] at hcounts
    obtain rfl := Option.some.inj (hcounts.symm.trans hlast)
    have hforward := h.verified i factor assertion hi
    rwa [← hcount, hstored, storedCount_toNat] at hforward

theorem Inv.revoke (h : Inv s) (userId factorId : Uuid) :
    Inv { s with factors := MfaFactor.revokeFactor s.factors userId factorId s.now } where
  stored factor hfactor := by
    rw [MfaFactor.revokeFactor, Table.mem_update] at hfactor
    obtain ⟨old, hold, rfl⟩ := hfactor
    split_ifs
    · exact h.stored old hold
    · exact h.stored old hold
  known e he := by
    obtain ⟨factor, hfactor, hid⟩ := h.known e he
    have hkeys : s.factors.Grows (fun _ _ => True) (MfaFactor.revokeFactor s.factors userId factorId s.now) :=
      Table.Grows.update _ (fun _ => trivial) fun _ _ _ => trivial
    obtain ⟨row, hrow, hkey, -⟩ := hkeys factor hfactor
    exact ⟨row, hrow, hkey.trans hid⟩
  forward := h.forward
  verified := h.verified

/-! ### The runs -/

theorem inv_empty (now : Instant) : Inv (empty now) where
  stored _ hfactor := by cases hfactor
  known _ he := by cases he
  forward _ := .nil
  verified _ _ _ hi := by cases hi

/-- Every allowed step keeps the invariant. -/
theorem Inv.step {e : Event} (h : Inv s) (hok : s.Orderly e) (hs : passkeyStep settings s e = some t) : Inv t := by
  cases e with
  | register id userId registration =>
    obtain ⟨factors, hfactors, rfl⟩ := Option.map_eq_some_iff.mp hs
    exact h.register hfactors
  | read i userId credentialId =>
    simp only [passkeyStep] at hs
    split at hs
    · split at hs
      · split at hs
        · cases hs
          exact h.move fun _ _ hp => by cases hp
        · cases hs
          exact h.move fun _ _ hp => by cases hp
      · cases hs
        exact h.move fun _ _ hp => by cases hp
    · cases hs
  | verify i request =>
    simp only [passkeyStep] at hs
    split at hs
    · split at hs
      · rename_i haccepted
        cases hs
        refine h.move fun factor assertion hp => ?_
        cases hp
        exact (verifyAssertion_eq_ok.mp haccepted).forward
      · cases hs
        exact h.move fun _ _ hp => by cases hp
    · cases hs
  | store i =>
    simp only [passkeyStep] at hs
    split at hs
    · rename_i factor assertion hi
      cases hs
      obtain ⟨row, hrow, hid, hcount⟩ := hok factor assertion hi
      exact (h.store hi hrow hid hcount).move fun _ _ hp => by cases hp
    · cases hs
  | stop i =>
    simp only [passkeyStep] at hs
    split at hs
    · cases hs
      exact h.move fun _ _ hp => by cases hp
    · cases hs
      exact h.move fun _ _ hp => by cases hp
    · cases hs
  | revoke userId factorId =>
    cases hs
    exact h.revoke userId factorId
  | tick now =>
    simp only [passkeyStep] at hs
    split_ifs at hs
    cases hs
    exact ⟨h.stored, h.known, h.forward, h.verified⟩

/-- **Clones are found**: over any interleaving of sign-ins in which one stores its counter only
while the passkey has the counter it was verified against, no counter goes back, and those of
accepted assertions, where not zero, increase. -/
theorem run_forward {now : Instant} {es : List Event}
    (h : Transition.Run (passkeyStep settings) Orderly (empty now) es s) (id : Uuid) : s.Forward id := by
  have hinv := h.invariant (inv_empty now) fun _ _ _ hx hok hs => hx.step hok hs
  have hforward := (hinv.forward id).pairwise
  refine ⟨fun factor hfactor hid => hid ▸ hinv.stored factor hfactor, hforward.imp movesForward_le, ?_⟩
  have hnonzero := (hforward.sublist (accepted_sublist s.log id)).filter (· ≠ 0)
  refine hnonzero.imp_of_mem fun _ hb hab => movesForward_lt hab ?_
  exact of_decide_eq_true (List.mem_filter.mp hb).2

/-! ### A passkey -/

/-- SHA-256 of `localhost`. -/
def localhostHash : List UInt8 :=
  [0x49, 0x96, 0x0d, 0xe5, 0x88, 0x0e, 0x8c, 0x68, 0x74, 0x34, 0x17, 0x0f, 0x64, 0x76, 0x60, 0x5b,
   0x8f, 0xe4, 0xae, 0xb9, 0xa2, 0x86, 0x32, 0xc7, 0x99, 0x5c, 0xf3, 0xba, 0x83, 0x1d, 0x97, 0x63]

/-- The public key of a passkey of Ed25519. -/
def passkeyBytes : List UInt8 :=
  [0x19, 0x7f, 0x6b, 0x23, 0xe1, 0x6c, 0x85, 0x32, 0xc6, 0xab, 0xc8, 0x38, 0xfa, 0xcd, 0x5e, 0xa7,
   0x89, 0xbe, 0x0c, 0x76, 0xb2, 0x92, 0x03, 0x34, 0x03, 0x9b, 0xfa, 0x8b, 0x3d, 0x36, 0x8d, 0x61]

/-- An assertion of the passkey, and what the parts of it decode to. -/
structure Sample where
  count : UInt8
  challenge : String
  clientDataHash : List UInt8
  length : clientDataHash.length = 32
  signature : List UInt8
  /-- The authenticator data, as posted. -/
  authenticatorDataB64 : String
  signatureB64 : String

namespace Sample

def clientDataJson (sample : Sample) : String :=
  "\x7b\"type\":\"webauthn.get\",\"challenge\":\"" ++ sample.challenge ++ "\",\"origin\":\"http://localhost:5173\"\x7d"

def authenticatorData (sample : Sample) : List UInt8 := localhostHash ++ [0x01, 0x00, 0x00, 0x00, sample.count]

/-- What the browser posts. -/
def request (sample : Sample) : AssertionRequest where
  clientDataJson := sample.clientDataJson
  authenticatorDataB64 := sample.authenticatorDataB64
  signatureB64 := sample.signatureB64
  expectedChallenge := sample.challenge

end Sample

/-- The assertion with the counter 7. -/
def seventh : Sample where
  count := 7
  challenge := "AAECAwQFBgcICQoLDA0ODxAREhMUFRYXGBkaGxwdHh8"
  clientDataHash := [0x3c, 0x58, 0x7e, 0xa5, 0xc1, 0xd2, 0x92, 0xe8, 0xb9, 0x31, 0xcc, 0x74, 0xc1, 0x69, 0x47, 0x4f,
    0xfa, 0x95, 0x60, 0xe6, 0x81, 0xd8, 0xcc, 0x07, 0xb7, 0x9e, 0x0d, 0x99, 0x79, 0x6e, 0x6e, 0x74]
  length := rfl
  signature := [0xca, 0xf5, 0x01, 0x1b, 0x66, 0x55, 0xa8, 0x6c, 0xed, 0x25, 0xd9, 0x80, 0x44, 0x21, 0x78, 0x1d,
    0x5b, 0x43, 0x72, 0x0c, 0x9f, 0xfa, 0x40, 0xb6, 0x0d, 0xf2, 0xe0, 0x48, 0x8d, 0x5d, 0x93, 0xed,
    0x1b, 0x38, 0x9d, 0x44, 0x01, 0x27, 0x0d, 0x5c, 0x21, 0x36, 0x8a, 0x3c, 0x4e, 0x05, 0xcc, 0xf3,
    0x5e, 0x93, 0xb5, 0x30, 0x6b, 0x4a, 0xaa, 0xf7, 0x18, 0xc3, 0x04, 0x07, 0xf9, 0xf0, 0x69, 0x01]
  authenticatorDataB64 := "SZYN5YgOjGh0NBcPZHZgW4_krrmihjLHmVzzuoMdl2MBAAAABw"
  signatureB64 := "yvUBG2ZVqGztJdmARCF4HVtDcgyf-kC2DfLgSI1dk-0bOJ1EAScNXCE2ijxOBczzXpO1MGtKqvcYwwQH-fBpAQ"

/-- The assertion with the counter 6. -/
def sixth : Sample where
  count := 6
  challenge := "ICEiIyQlJicoKSorLC0uLzAxMjM0NTY3ODk6Ozw9Pj8"
  clientDataHash := [0x43, 0xdc, 0xff, 0x89, 0xfb, 0x1e, 0xd9, 0x98, 0xd8, 0x8c, 0x44, 0x7a, 0x88, 0xab, 0x84, 0xce,
    0xd1, 0x27, 0xed, 0x54, 0x74, 0xa1, 0x26, 0x84, 0x56, 0xc1, 0x0a, 0x3d, 0xca, 0xd4, 0x2f, 0xab]
  length := rfl
  signature := [0xe8, 0x2c, 0xd2, 0x3b, 0x8c, 0x76, 0x44, 0x4b, 0x5f, 0xef, 0xee, 0x3f, 0xdb, 0xa2, 0x70, 0xb0,
    0xf0, 0x77, 0x64, 0x8b, 0xfe, 0x86, 0x8c, 0xdc, 0x78, 0x6c, 0xd8, 0x5d, 0x16, 0xc8, 0xc4, 0x15,
    0xe8, 0xbd, 0x13, 0xa5, 0x92, 0xfb, 0xef, 0xab, 0x75, 0x3c, 0xd3, 0xec, 0xfe, 0xb4, 0xe8, 0x1a,
    0x2e, 0x12, 0xb3, 0x18, 0x90, 0x83, 0x65, 0x02, 0x8d, 0xa5, 0x19, 0x19, 0x26, 0x29, 0x6c, 0x0b]
  authenticatorDataB64 := "SZYN5YgOjGh0NBcPZHZgW4_krrmihjLHmVzzuoMdl2MBAAAABg"
  signatureB64 := "6CzSO4x2REtf7-4_26JwsPB3ZIv-hozceGzYXRbIxBXovROlkvvvq3U80-z-tOgaLhKzGJCDZQKNpRkZJilsCw"

/-- The other crates, as far as these two assertions use them. -/
def samplePlatform : Platform where
  stack := 64
  hashes := {
    sha256 := fun message =>
      -- the client data differ in the challenge, which begins at the 37th byte
      if message.length < 37 then ⟨localhostHash, rfl⟩
      else if message.getD 36 0 = 0x41 then ⟨seventh.clientDataHash, seventh.length⟩
      else ⟨sixth.clientDataHash, sixth.length⟩
    hmacSha1 := Factors.Store.knownHashes.hmacSha1
    hmacSha256 := Factors.Store.knownHashes.hmacSha256 }
  parseJson text := ([seventh, sixth].find? (·.clientDataJson = text)).map fun sample =>
    .object [("type", .string "webauthn.get"), ("challenge", .string sample.challenge),
      ("origin", .string "http://localhost:5173")]
  encodeBase64 _ := ""
  decodeBase64 text :=
    if text = "pAEBAycgBiFYIBl_ayPhbIUyxqvIOPrNXqeJvgx2spIDNAOb-os9No1h" then
      some ([0xa4, 0x01, 0x01, 0x03, 0x27, 0x20, 0x06, 0x21, 0x58, 0x20] ++ passkeyBytes)
    else if let some sample := [seventh, sixth].find? (·.authenticatorDataB64 = text) then some sample.authenticatorData
    else ([seventh, sixth].find? (·.signatureB64 = text)).map (·.signature)
  p256Key _ _ := false
  p256Signature _ := false
  p256Verify _ _ _ _ := false
  ed25519Key x := x.toList = passkeyBytes
  ed25519Verify x message signature := x.toList = passkeyBytes && [seventh, sixth].any fun sample =>
    message = sample.authenticatorData ++ sample.clientDataHash && signature = sample.signature

/-- A development installation. -/
def localSettings : Settings where
  platform := samplePlatform
  rpId := "localhost"
  origins := .new [] true

/-- The passkey, with a counter. -/
def passkey (count : ℤ) : MfaFactor where
  id := 9
  userId := 7
  kind := "webauthn"
  secretCiphertext := none
  credentialId := some "a1VuZDVkN2E"
  publicKey := some "pAEBAycgBiFYIBl_ayPhbIUyxqvIOPrNXqeJvgx2spIDNAOb-os9No1h"
  signCount := count
  confirmedAt := some 0
  lastUsedAt := some 0
  revokedAt := none

/-- The passkey is registered with the counter 5. -/
def registered : Event :=
  .register 9 7 ⟨"a1VuZDVkN2E", "pAEBAycgBiFYIBl_ayPhbIUyxqvIOPrNXqeJvgx2spIDNAOb-os9No1h", "EdDSA", 5⟩

/-- Two sign-ins read the passkey before either stores its counter. -/
def together : List Event :=
  [registered, .read 0 7 "a1VuZDVkN2E", .read 1 7 "a1VuZDVkN2E", .verify 0 seventh.request, .verify 1 sixth.request,
    .store 0, .store 1]

section

variable {field : Sample → String} {text : String} {sample : Sample}

theorem find_seventh : [seventh, sixth].find? (field · = field seventh) = some seventh := by
  simp [List.find?]

theorem find_sixth (h : field seventh ≠ field sixth) :
    [seventh, sixth].find? (field · = field sixth) = some sixth := by
  simp [List.find?, h]

theorem decodeBase64_data
    (hkey : text ≠ "pAEBAycgBiFYIBl_ayPhbIUyxqvIOPrNXqeJvgx2spIDNAOb-os9No1h")
    (hfind : [seventh, sixth].find? (·.authenticatorDataB64 = text) = some sample) :
    samplePlatform.decodeBase64 text = some sample.authenticatorData := by
  simp only [samplePlatform, if_neg hkey, hfind]

theorem decodeBase64_signature
    (hkey : text ≠ "pAEBAycgBiFYIBl_ayPhbIUyxqvIOPrNXqeJvgx2spIDNAOb-os9No1h")
    (hdata : seventh.authenticatorDataB64 ≠ text ∧ sixth.authenticatorDataB64 ≠ text)
    (hfind : [seventh, sixth].find? (·.signatureB64 = text) = some sample) :
    samplePlatform.decodeBase64 text = some sample.signature := by
  have hnone : [seventh, sixth].find? (·.authenticatorDataB64 = text) = none := by simp [List.find?, hdata]
  simp only [samplePlatform, if_neg hkey, hnone, hfind, Option.map_some]

end

theorem decodeB64_key : decodeB64 samplePlatform "pAEBAycgBiFYIBl_ayPhbIUyxqvIOPrNXqeJvgx2spIDNAOb-os9No1h" =
    .ok ([0xa4, 0x01, 0x01, 0x03, 0x27, 0x20, 0x06, 0x21, 0x58, 0x20] ++ passkeyBytes) :=
  decodeB64_of_trimmed rfl ⟨by decide, by decide⟩ (by simp only [samplePlatform, if_true])

theorem decodeB64_seventh :
    decodeB64 samplePlatform seventh.authenticatorDataB64 = .ok seventh.authenticatorData ∧
      decodeB64 samplePlatform seventh.signatureB64 = .ok seventh.signature :=
  ⟨decodeB64_of_trimmed rfl ⟨by decide, by decide⟩ (decodeBase64_data (Text.ofList_ne (by decide)) find_seventh),
    decodeB64_of_trimmed rfl ⟨by decide, by decide⟩ (decodeBase64_signature (Text.ofList_ne (by decide))
      ⟨Text.ofList_ne (by decide), Text.ofList_ne (by decide)⟩ find_seventh)⟩

theorem decodeB64_sixth :
    decodeB64 samplePlatform sixth.authenticatorDataB64 = .ok sixth.authenticatorData ∧
      decodeB64 samplePlatform sixth.signatureB64 = .ok sixth.signature :=
  ⟨decodeB64_of_trimmed rfl ⟨by decide, by decide⟩ (decodeBase64_data (Text.ofList_ne (by decide))
      (find_sixth (Text.ofList_ne (by decide)))),
    decodeB64_of_trimmed rfl ⟨by decide, by decide⟩ (decodeBase64_signature (Text.ofList_ne (by decide))
      ⟨Text.ofList_ne (by decide), Text.ofList_ne (by decide)⟩ (find_sixth (Text.ofList_ne (by decide))))⟩

theorem clientDataJson_eq : ∃ before after : String, (utf8Bytes before).length = 36 ∧
    ∀ sample : Sample, sample.clientDataJson = before ++ sample.challenge ++ after :=
  ⟨_, _, (congrArg List.length (utf8Bytes_ofList _)).trans (by decide), fun _ => rfl⟩

theorem clientDataJson_inj {sample sample' : Sample} :
    sample.clientDataJson = sample'.clientDataJson ↔ sample.challenge = sample'.challenge := by
  obtain ⟨before, after, -, hjson⟩ := clientDataJson_eq
  rw [hjson, hjson, String.append_left_inj, String.append_right_inj]

theorem utf8Bytes_clientDataJson {sample : Sample} {c : Char} {l : List Char} {byte : UInt8}
    (h : sample.challenge = String.ofList (c :: l)) (hc : String.utf8EncodeChar c = [byte]) :
    ∃ before after, utf8Bytes sample.clientDataJson = before ++ byte :: after ∧ before.length = 36 := by
  obtain ⟨before, after, hlength, hjson⟩ := clientDataJson_eq
  refine ⟨utf8Bytes before, l.flatMap String.utf8EncodeChar ++ utf8Bytes after, ?_, hlength⟩
  rw [hjson, utf8Bytes_append, utf8Bytes_append, h, utf8Bytes_ofList, List.flatMap_cons, hc]
  simp only [List.append_assoc, List.cons_append, List.nil_append]

theorem sha256_clientDataJson {sample : Sample} {c : Char} {l : List Char} {byte : UInt8}
    (h : sample.challenge = String.ofList (c :: l)) (hc : String.utf8EncodeChar c = [byte]) :
    (samplePlatform.hashes.sha256 (utf8Bytes sample.clientDataJson)).bytes =
      if byte = 0x41 then seventh.clientDataHash else sixth.clientDataHash := by
  obtain ⟨before, after, hbytes, hlength⟩ := utf8Bytes_clientDataJson h hc
  have hlong : ¬ (before ++ byte :: after).length < 37 := by
    rw [List.length_append, List.length_cons]
    omega
  have hbyte : (before ++ byte :: after).getD 36 0 = byte := by
    rw [List.getD_append_right _ _ _ _ hlength.le, hlength]
    rfl
  simp only [samplePlatform, hbytes, if_neg hlong, hbyte]
  split_ifs <;> rfl

theorem parse_client {sample : Sample}
    (h : [seventh, sixth].find? (·.clientDataJson = sample.clientDataJson) = some sample) :
    parseClientData samplePlatform sample.clientDataJson =
      .ok ⟨"webauthn.get", sample.challenge, "http://localhost:5173", false⟩ := by
  have hjson : samplePlatform.parseJson sample.clientDataJson = some (.object [("type", .string "webauthn.get"),
      ("challenge", .string sample.challenge), ("origin", .string "http://localhost:5173")]) := by
    simp only [samplePlatform, h, Option.map_some]
  rw [parseClientData, hjson]
  rfl

theorem clientDataJson_ne : seventh.clientDataJson ≠ sixth.clientDataJson :=
  clientDataJson_inj.not.mpr (Text.ofList_ne (by decide))

theorem accepts_localhost : localSettings.origins.accepts "http://localhost:5173" = true := by decide +kernel

theorem parse_passkey :
    CredentialKey.parse samplePlatform.stack
      ([0xa4, 0x01, 0x01, 0x03, 0x27, 0x20, 0x06, 0x21, 0x58, 0x20] ++ passkeyBytes) =
        .ok (.ed25519 ⟨passkeyBytes.toArray, rfl⟩) := by
  decide +kernel

theorem parse_data : ∀ sample ∈ [seventh, sixth], parseAuthenticatorData samplePlatform sample.authenticatorData =
    .ok ⟨localhostHash, 1, UInt32.ofNat sample.count.toNat, none⟩ := by
  decide +kernel

theorem sha256_localhost : localhostHash = (samplePlatform.hashes.sha256 (utf8Bytes "localhost")).bytes := by
  decide +kernel

theorem signs_sample {sample : Sample} (hsample : sample ∈ [seventh, sixth])
    (hhash : (samplePlatform.hashes.sha256 (utf8Bytes sample.clientDataJson)).bytes = sample.clientDataHash) :
    (CredentialKey.ed25519 ⟨passkeyBytes.toArray, rfl⟩).Signs samplePlatform
      (signedMessage samplePlatform sample.authenticatorData sample.clientDataJson) sample.signature := by
  have hlength : ∀ sample ∈ [seventh, sixth], sample.signature.length = 64 := by decide
  refine ⟨by decide, hlength sample hsample, ?_⟩
  rw [signedMessage, hhash]
  simp only [samplePlatform, Bool.and_eq_true, List.any_eq_true, decide_eq_true_eq]
  exact ⟨rfl, sample, hsample, rfl, rfl⟩

theorem verify_sample {sample : Sample} {count : UInt32} {stored : ℤ} (hsample : sample ∈ [seventh, sixth])
    (hclient : [seventh, sixth].find? (·.clientDataJson = sample.clientDataJson) = some sample)
    (hdata : decodeB64 samplePlatform sample.authenticatorDataB64 = .ok sample.authenticatorData ∧
      decodeB64 samplePlatform sample.signatureB64 = .ok sample.signature)
    (hhash : (samplePlatform.hashes.sha256 (utf8Bytes sample.clientDataJson)).bytes = sample.clientDataHash)
    (hcount : count = UInt32.ofNat sample.count.toNat) (hforward : MovesForward (storedCount stored) count) :
    verifyAssertion samplePlatform sample.request "localhost" (.new [] true)
      "pAEBAycgBiFYIBl_ayPhbIUyxqvIOPrNXqeJvgx2spIDNAOb-os9No1h" stored = .ok ⟨count, false⟩ := by
  have huser : AuthenticatorData.userPresent ⟨localhostHash, 1, count, none⟩ = true ∧
      AuthenticatorData.userVerified ⟨localhostHash, 1, count, none⟩ = false := by
    constructor
    · simp [AuthenticatorData.userPresent]
    · simp [AuthenticatorData.userVerified, show (1 : UInt8) &&& 4 = 0 by decide]
  have hparse := parse_data sample hsample
  rw [← hcount] at hparse
  exact verifyAssertion_eq_ok.mpr ⟨⟨_, parse_client hclient, rfl, rfl, rfl, accepts_localhost⟩,
    ⟨_, _, _, _, _, hdata.1, hparse, huser.1, sha256_localhost, hdata.2, decodeB64_key, parse_passkey,
      signs_sample hsample hhash, by rw [huser.2]⟩, hforward⟩

theorem verify_seventh {stored : ℤ} (h : MovesForward (storedCount stored) 7) :
    verifyAssertion samplePlatform seventh.request "localhost" (.new [] true)
      "pAEBAycgBiFYIBl_ayPhbIUyxqvIOPrNXqeJvgx2spIDNAOb-os9No1h" stored = .ok ⟨7, false⟩ := by
  have hbyte : String.utf8EncodeChar 'A' = [0x41] := by decide
  exact verify_sample (.head _) find_seventh decodeB64_seventh (sha256_clientDataJson rfl hbyte) rfl h

theorem verify_sixth {stored : ℤ} (h : MovesForward (storedCount stored) 6) :
    verifyAssertion samplePlatform sixth.request "localhost" (.new [] true)
      "pAEBAycgBiFYIBl_ayPhbIUyxqvIOPrNXqeJvgx2spIDNAOb-os9No1h" stored = .ok ⟨6, false⟩ := by
  have hbyte : String.utf8EncodeChar 'I' = [0x49] := by decide
  exact verify_sample (.tail _ (.head _)) (find_sixth clientDataJson_ne) decodeB64_sixth
    (sha256_clientDataJson rfl hbyte) rfl h

/-! ### Their steps -/

variable {count : ℤ}

theorem register_step : ∃ t, passkeyStep localSettings (empty 0) registered = some t ∧ t.factors.rows = [passkey 5] ∧
    t.now = 0 ∧ t.calls = (fun _ => .idle) ∧ t.log = [⟨9, 5, false⟩] :=
  ⟨_, rfl, rfl, rfl, rfl, rfl⟩

theorem read_step (hrows : s.factors.rows = [passkey count]) (hi : s.calls i = .idle) :
    passkeyStep localSettings s (.read i 7 "a1VuZDVkN2E") =
      some (s.move i (.read (passkey count) "pAEBAycgBiFYIBl_ayPhbIUyxqvIOPrNXqeJvgx2spIDNAOb-os9No1h")) := by
  have hfind : MfaFactor.findPasskey s.factors 7 "a1VuZDVkN2E" = some (passkey count) := by
    simp [MfaFactor.findPasskey, hrows, passkey]
  simp only [passkeyStep, hi, hfind]
  rfl

theorem verify_step {request : AssertionRequest} {factor : MfaFactor} {publicKey : String} {assertion : Assertion}
    (hi : s.calls i = .read factor publicKey)
    (h : verifyAssertion samplePlatform request "localhost" (.new [] true) publicKey factor.signCount = .ok assertion) :
    passkeyStep localSettings s (.verify i request) = some (s.move i (.verified factor assertion)) := by
  simp only [passkeyStep, hi]
  rw [show verifyAssertion localSettings.platform request localSettings.rpId localSettings.origins publicKey
    factor.signCount = .ok assertion from h]

theorem rows_recordPasskeyUse (hrows : s.factors.rows = [passkey count]) (hnow : s.now = 0) (reported : UInt32) :
    (MfaFactor.recordPasskeyUse s.factors 9 reported s.now).rows = [passkey reported.toNat] := by
  simp [MfaFactor.recordPasskeyUse, Table.update, hrows, hnow, passkey]

theorem orderly_store {assertion : Assertion} (hrows : s.factors.rows = [passkey count])
    (hi : s.calls i = .verified (passkey count) assertion) : s.Orderly (.store i) := by
  intro factor other h
  obtain ⟨rfl, -⟩ := Stage.verified.inj (hi.symm.trans h)
  exact ⟨passkey count, by rw [Table.mem_def, hrows]; exact .head _, rfl, rfl⟩

/-- The counter goes from 7 back to 6. -/
theorem stored_back :
    ¬ ∀ (settings : Settings) (now : Instant) (es : List Event) (s : Store),
      Transition.Run (passkeyStep settings) Transition.Any (empty now) es s → ∀ id, s.Forward id := by
  intro h
  obtain ⟨t, hregister, hrows, -, hcalls, hlog⟩ := register_step
  obtain ⟨s, hrun, hcounts⟩ : ∃ s, Transition.Run (passkeyStep localSettings) Transition.Any (empty 0) together s ∧
      counts s.log 9 = [5, 7, 6] := by
    refine ⟨_, .cons trivial hregister (.cons trivial (read_step hrows (by rw [hcalls])) (.cons trivial
      (read_step hrows (by simp [Store.move, hcalls])) (.cons trivial (verify_step rfl (verify_seventh (by decide)))
      (.cons trivial (verify_step rfl (verify_sixth (by decide))) (.cons trivial rfl (.cons trivial rfl .nil)))))), ?_⟩
    simp [Store.move, hlog, counts, passkey]
  have hback := (h localSettings 0 together s hrun 9).neverBack
  rw [hcounts] at hback
  exact absurd hback (by decide)

/-- The second sign-in reads the passkey once the first has stored its counter. -/
def inTurn : List Event :=
  [registered, .read 0 7 "a1VuZDVkN2E", .verify 0 sixth.request, .store 0, .read 1 7 "a1VuZDVkN2E",
    .verify 1 seventh.request, .store 1]

/-- Both are accepted, and the counter goes from 5 to 6 and 7. -/
theorem run_forward_inTurn :
    ∃ s, Transition.Run (passkeyStep localSettings) Orderly (empty 0) inTurn s ∧ accepted s.log 9 = [6, 7] ∧
      s.Forward 9 := by
  obtain ⟨t, hregister, hrows, hnow, hcalls, hlog⟩ := register_step
  have hstored := rows_recordPasskeyUse hrows hnow 6
  obtain ⟨s, hrun, haccepted⟩ : ∃ s, Transition.Run (passkeyStep localSettings) Orderly (empty 0) inTurn s ∧
      accepted s.log 9 = [6, 7] := by
    refine ⟨_, .cons trivial hregister (.cons trivial (read_step hrows (by rw [hcalls]))
      (.cons trivial (verify_step rfl (verify_sixth (by decide))) (.cons (orderly_store hrows rfl) rfl
      (.cons trivial (read_step hstored (by simp [Store.move, hcalls]))
      (.cons trivial (verify_step rfl (verify_seventh (by decide)))
      (.cons (orderly_store hstored rfl) rfl .nil)))))), ?_⟩
    simp [Store.move, hlog, accepted, passkey]
  exact ⟨s, hrun, haccepted, run_forward hrun 9⟩

end Store

end Passkeys

end Omnion.Identity
