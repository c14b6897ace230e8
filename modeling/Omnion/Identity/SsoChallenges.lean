import Omnion.Core.Text
import Omnion.Library.Run
import Omnion.Library.Table

/-!
# Sign-in challenges of a provider

`crates/identity/src/sso/challenges.rs`: the `state` a provider round trip is bound to. Any
number of callbacks claim and consume challenges, their statements interleaved in any order.

## The model

A claim reads the challenge and checks it, and then counts itself in another statement; the
challenges that were read and are still to be counted are `waiting`, each as it was read. A
claim may be dropped before it counts. Challenges are issued, consumed and purged meanwhile,
and time passes. What succeeds is kept in a log. The hash is a parameter.

## What is proved

* `run_burned` — a challenge is claimed at most as often as it may be, consumed at most
  once, and not claimed after that or after its end: in the runs where a claim reads only
  while the claims before it leave an attempt, and no challenge is consumed or ends while a
  claim on it is to be counted.
* `third_claim` — three callbacks at one time are all let through, of two allowed.

## Honest scope

Rows are listed newest first, in the order in which they were inserted. Random identifiers
are new ones. The application and the database share one clock.
-/

namespace Omnion.Identity.SsoChallenges

/-- `CHALLENGE_TTL_MINUTES`. -/
def challengeTtlMinutes : ℤ := 10

/-- `MAX_CHALLENGE_ATTEMPTS`. -/
def maxChallengeAttempts : ℕ := 2

/-- A started round trip. -/
structure SsoChallenge where
  id : Uuid
  /-- Provider the callback must belong to. -/
  providerId : Uuid
  /-- Organization the session will be created in. -/
  organizationId : Uuid
  /-- `oidc`, `oauth2` or `saml`. -/
  flow : String
  /-- SHA-256 of the presented state. -/
  stateHash : String
  /-- PKCE verifier, when the flow uses one. -/
  codeVerifier : Option String
  /-- Panel path the callback returns to. -/
  returnTo : String
  /-- How many callbacks have presented it. -/
  attempts : ℕ
  expiresAt : Instant
  /-- When a successful callback consumed it. -/
  consumedAt : Option Instant

/-- What succeeded. -/
inductive Entry where
  /-- A claim on a challenge, as it was read. -/
  | claimed (challenge : SsoChallenge) (now : Instant)
  | consumed (id : Uuid) (now : Instant)

/-- The entry is a claim on the challenge. -/
def Entry.claims (id : Uuid) : Entry → Bool
  | .claimed challenge _ => challenge.id = id
  | .consumed .. => false

/-- The entry consumes the challenge. -/
def Entry.consumes (id : Uuid) : Entry → Bool
  | .claimed .. => false
  | .consumed other _ => other = id

/-- The claims on a challenge that succeeded. -/
def claims (log : List Entry) (id : Uuid) : ℕ := log.countP (Entry.claims id)

/-- The times a challenge was consumed. -/
def consumptions (log : List Entry) (id : Uuid) : ℕ := log.countP (Entry.consumes id)

/-- **A challenge that is guessed at is burned**: it is claimed at most as often as it may
be, consumed at most once, and not claimed once it is consumed or its window has passed. -/
structure Burned (log : List Entry) : Prop where
  attempts : ∀ id, claims log id ≤ maxChallengeAttempts
  once : ∀ id, consumptions log id ≤ 1
  unused : log.Pairwise fun a b => ∀ id, a.consumes id = true → b.claims id = false
  inTime : ∀ challenge now, .claimed challenge now ∈ log → now < challenge.expiresAt

section Log

variable {log : List Entry} {c : SsoChallenge} {id : Uuid} {x : Entry}

theorem claims_append : claims (log ++ [x]) id = claims log id + if x.claims id then 1 else 0 := by
  rw [claims, List.countP_append, List.countP_singleton]
  rfl

theorem consumptions_append :
    consumptions (log ++ [x]) id = consumptions log id + if x.consumes id then 1 else 0 := by
  rw [consumptions, List.countP_append, List.countP_singleton]
  rfl

/-- One more claim, on a challenge that was not consumed and has not ended. -/
theorem Burned.claimed {now : Instant} (h : Burned log) (hleft : claims log c.id < maxChallengeAttempts)
    (hopen : consumptions log c.id = 0) (htime : now < c.expiresAt) : Burned (log ++ [.claimed c now]) where
  attempts id := by
    rw [claims_append]
    split_ifs with hid
    · obtain rfl : c.id = id := of_decide_eq_true hid
      exact hleft
    · exact h.attempts id
  once id := by
    rw [consumptions_append]
    exact h.once id
  unused := by
    refine List.pairwise_append.mpr ⟨h.unused, List.pairwise_singleton .., fun x hx y hy id hid => ?_⟩
    obtain rfl := List.mem_singleton.mp hy
    refine decide_eq_false fun hcid => ?_
    rw [hcid] at hopen
    exact List.countP_eq_zero.mp hopen x hx hid
  inTime c' now' hmem := by
    rcases List.mem_append.mp hmem with hmem | hmem
    · exact h.inTime c' now' hmem
    · obtain ⟨rfl, rfl⟩ := Entry.claimed.inj (List.mem_singleton.mp hmem)
      exact htime

theorem Burned.consumed {now : Instant} (h : Burned log) (hopen : consumptions log id = 0) :
    Burned (log ++ [.consumed id now]) where
  attempts id' := by
    rw [claims_append]
    exact h.attempts id'
  once id' := by
    rw [consumptions_append]
    split_ifs with hid
    · obtain rfl : id = id' := of_decide_eq_true hid
      rw [hopen]
    · exact h.once id'
  unused := by
    refine List.pairwise_append.mpr ⟨h.unused, List.pairwise_singleton .., fun x _ y hy id' _ => ?_⟩
    obtain rfl := List.mem_singleton.mp hy
    rfl
  inTime c' now' hmem := by
    rcases List.mem_append.mp hmem with hmem | hmem
    · exact h.inTime c' now' hmem
    · cases List.mem_singleton.mp hmem

end Log

/-- `sso_challenges`, the clock and the claims. -/
structure Store where
  rows : Table SsoChallenge SsoChallenge.id
  issued : List Uuid
  now : Instant
  /-- The challenges claims have read and checked, and not counted yet. -/
  waiting : List SsoChallenge
  log : List Entry

namespace Store

/-- `issue`: the challenge of a new state. -/
def issue (hashState : String → String) (s : Store) (id providerId organizationId : Uuid)
    (flow returnTo state verifier : String) : Except String SsoChallenge :=
  if flow ∉ ["oidc", "oauth2", "saml"] then .error s!"unknown sign-in flow `{flow}`"
  else .ok {
    id, providerId, organizationId, flow, returnTo
    stateHash := hashState state
    codeVerifier := some verifier
    attempts := 0
    expiresAt := Time.after s.now (Time.seconds (challengeTtlMinutes * 60))
    consumedAt := none }

/-- `claim` up to its last statement: the challenge, if the state is one and it may go on. -/
def claim (hashState : String → String) (s : Store) (providerId : Uuid) (state : String) :
    Except String SsoChallenge :=
  if Text.trim state = "" then .error "the sign-in state is missing"
  else
    match s.rows.rows.reverse.find? fun c => c.stateHash = hashState state && c.providerId = providerId with
    | none => .error "this sign-in link is not valid any more — start again"
    | some challenge =>
      if challenge.consumedAt.isSome then .error "this sign-in link was already used — start again"
      else if challenge.expiresAt ≤ s.now then .error "this sign-in link expired — start again"
      else if challenge.attempts ≥ maxChallengeAttempts then
        .error "this sign-in link was tried too often — start again"
      else .ok challenge

/-- The last statement of `claim`: every presentation counts. -/
def count (s : Store) (challenge : SsoChallenge) : Store :=
  { s with
    rows := s.rows.update (fun c => c.id = challenge.id) (fun c => { c with attempts := c.attempts + 1 }) fun _ => rfl
    log := s.log ++ [.claimed challenge s.now] }

/-- The row `consume` updates. -/
def unconsumed (id : Uuid) (c : SsoChallenge) : Bool := c.id = id && c.consumedAt.isNone

/-- `consume`: a second call finds nothing. -/
def consume (s : Store) (id : Uuid) : Bool × Store :=
  if s.rows.rows.any (unconsumed id) then
    (true, { s with
      rows := s.rows.update (unconsumed id) (fun c => { c with consumedAt := some s.now }) fun _ => rfl
      log := s.log ++ [.consumed id s.now] })
  else (false, s)

/-- `purge_expired`: the challenges that ended a day ago are deleted. -/
def purgeExpired (s : Store) : Store :=
  { s with rows := s.rows.delete fun c => c.expiresAt < s.now - 24 * 3600 * 1000000 }

/-- No challenge was issued yet. -/
def empty (now : Instant) : Store where
  rows := .empty
  issued := []
  now := now
  waiting := []
  log := []

end Store

/-- The statements of the callbacks, and the clock. -/
inductive Event where
  | issue (id providerId organizationId : Uuid) (flow returnTo state verifier : String)
  /-- A callback reads the challenge of its state. -/
  | read (providerId : Uuid) (state : String)
  /-- The claim that has waited at a place is counted. -/
  | count (place : ℕ)
  | drop (place : ℕ)
  | consume (id : Uuid)
  | purge
  | tick (now : Instant)

/-- One statement of one callback. -/
def ssoStep (hashState : String → String) (s : Store) : Event → Option Store
  | .issue id providerId organizationId flow returnTo state verifier =>
    if id ∈ s.issued then none
    else
      match s.issue hashState id providerId organizationId flow returnTo state verifier with
      | .error _ => some s
      | .ok challenge => (s.rows.insert? challenge).map fun rows => { s with rows, issued := id :: s.issued }
  | .read providerId state =>
    match s.claim hashState providerId state with
    | .error _ => some s
    | .ok challenge => some { s with waiting := s.waiting ++ [challenge] }
  | .count place =>
    s.waiting[place]?.map fun challenge => { s.count challenge with waiting := s.waiting.eraseIdx place }
  | .drop place => s.waiting[place]?.map fun _ => { s with waiting := s.waiting.eraseIdx place }
  | .consume id => some (s.consume id).2
  | .purge => some s.purgeExpired
  | .tick now => if s.now ≤ now then some { s with now } else none

namespace Store

variable {hashState : String → String} {s t : Store} {a c : SsoChallenge} {id : Uuid} {place : ℕ}

/-- The claims on a challenge that are still to be counted. -/
def pending (s : Store) (id : Uuid) : ℕ := s.waiting.countP (·.id = id)

/-- **The steps allowed**: a claim reads only while those to be counted leave it an attempt,
and while claims on a challenge are to be counted it is not consumed and does not end. -/
def Orderly (hashState : String → String) (s : Store) : Event → Prop
  | .read providerId state => ∀ challenge, s.claim hashState providerId state = .ok challenge →
      challenge.attempts + s.pending challenge.id < maxChallengeAttempts
  | .consume id => s.pending id = 0
  | .tick now => ∀ challenge ∈ s.waiting, now < challenge.expiresAt
  | _ => True

/-- **The invariant**: what waits to be counted may still be claimed, the attempts of a
challenge are the claims on it, and with those to be counted they are not too many. -/
structure Inv (s : Store) : Prop where
  /-- What waits is a challenge that is not consumed and has not ended. -/
  waiting : ∀ c ∈ s.waiting, ∃ a ∈ s.rows, a.id = c.id ∧ a.expiresAt = c.expiresAt ∧ a.consumedAt = none ∧
    s.now < c.expiresAt
  counted : ∀ a ∈ s.rows, a.attempts = claims s.log a.id
  /-- They and those to come are not too many. -/
  allowed : ∀ a ∈ s.rows, claims s.log a.id + s.pending a.id ≤ maxChallengeAttempts
  /-- A challenge that is not consumed was never consumed. -/
  unconsumed : ∀ a ∈ s.rows, a.consumedAt = none → consumptions s.log a.id = 0
  /-- The challenges have their identifiers. -/
  given : ∀ a ∈ s.rows, a.id ∈ s.issued
  known : ∀ x ∈ s.log, ∀ id, x.claims id = true ∨ x.consumes id = true → id ∈ s.issued
  burned : Burned s.log

theorem inv_empty (now : Instant) : Inv (.empty now) where
  waiting := nofun
  counted _ ha := absurd ha List.not_mem_nil
  allowed _ ha := absurd ha List.not_mem_nil
  unconsumed _ ha := absurd ha List.not_mem_nil
  given _ ha := absurd ha List.not_mem_nil
  known := nofun
  burned := ⟨fun _ => Nat.zero_le _, fun _ => Nat.zero_le _, .nil, nofun⟩

/-! ### The statements -/

theorem claim_eq_ok {providerId : Uuid} {state : String} (h : s.claim hashState providerId state = .ok c) :
    c ∈ s.rows ∧ c.consumedAt = none ∧ s.now < c.expiresAt ∧ c.attempts < maxChallengeAttempts := by
  simp only [claim] at h
  split_ifs at h
  split at h
  · cases h
  · rename_i row hfind
    split_ifs at h with hconsumed hexpired hattempts
    cases h
    refine ⟨List.mem_reverse.mp (List.mem_of_find?_eq_some hfind), ?_, Int.not_le.mp hexpired, Nat.not_le.mp hattempts⟩
    simpa using hconsumed

theorem eraseIdx_waiting (h : s.waiting[place]? = some c) : ∃ before after,
    s.waiting = before ++ c :: after ∧ s.waiting.eraseIdx place = before ++ after := by
  obtain ⟨hlt, hget⟩ := List.getElem?_eq_some_iff.mp h
  refine ⟨s.waiting.take place, s.waiting.drop (place + 1), ?_, List.eraseIdx_eq_take_drop_succ ..⟩
  rw [← hget, List.getElem_cons_drop, List.take_append_drop]

theorem mem_consume_rows {b : SsoChallenge} :
    b ∈ s.rows.update (unconsumed id) (fun c => { c with consumedAt := some s.now }) (fun _ => rfl) ↔
      ∃ a ∈ s.rows, (if unconsumed id a then { a with consumedAt := some s.now } else a) = b := Table.mem_update

theorem mem_count {b : SsoChallenge} : b ∈ (s.count c).rows ↔
    ∃ a ∈ s.rows, (if a.id = c.id then { a with attempts := a.attempts + 1 } else a) = b := by
  simp only [count, Table.mem_update, decide_eq_true_eq]

theorem claims_count : claims (s.count c).log id = claims s.log id + if c.id = id then 1 else 0 := by
  simp [count, claims_append, Entry.claims]

theorem consumptions_count : consumptions (s.count c).log id = consumptions s.log id := by
  simp [count, consumptions_append, Entry.consumes]

theorem of_mem_count {b : SsoChallenge} (hb : b ∈ (s.count c).rows) : ∃ a ∈ s.rows, a.id = b.id ∧
    a.consumedAt = b.consumedAt ∧ b.attempts = a.attempts + if c.id = a.id then 1 else 0 := by
  obtain ⟨a, ha, rfl⟩ := mem_count.mp hb
  refine ⟨a, ha, ?_⟩
  split_ifs with h h' h'
  · exact ⟨rfl, rfl, rfl⟩
  · exact absurd h.symm h'
  · exact absurd h'.symm h
  · exact ⟨rfl, rfl, rfl⟩

/-- A new challenge. -/
theorem Inv.issue (h : Inv s) (hnew : id ∉ s.issued) {rows : Table SsoChallenge SsoChallenge.id}
    (hid : c.id = id) (hattempts : c.attempts = 0) (hrows : s.rows.insert? c = some rows) :
    Inv { s with rows, issued := id :: s.issued } := by
  have hmem : ∀ {a : SsoChallenge}, a ∈ rows ↔ a ∈ s.rows ∨ a = c := Table.mem_insert? hrows
  have hunknown : ∀ x ∈ s.log, x.claims id = false ∧ x.consumes id = false := by
    intro x hx
    constructor <;> refine Bool.eq_false_iff.mpr fun hxid => hnew (h.known x hx id ?_)
    · exact .inl hxid
    · exact .inr hxid
  have hclaims : claims s.log id = 0 := List.countP_eq_zero.mpr fun x hx => by simp [(hunknown x hx).1]
  have hconsumes : consumptions s.log id = 0 :=
    List.countP_eq_zero.mpr fun x hx => by simp [(hunknown x hx).2]
  have hpending : s.pending id = 0 := by
    refine List.countP_eq_zero.mpr fun w hw hwid => ?_
    obtain ⟨a, ha, haid, -⟩ := h.waiting w hw
    rw [← of_decide_eq_true hwid, ← haid] at hnew
    exact hnew (h.given a ha)
  exact {
    waiting := fun w hw => by
      obtain ⟨a, ha, hw⟩ := h.waiting w hw
      exact ⟨a, hmem.mpr (.inl ha), hw⟩
    counted := fun a ha => by
      rcases hmem.mp ha with ha | rfl
      · exact h.counted a ha
      · rw [hid, hattempts]
        exact hclaims.symm
    allowed := fun a ha => by
      rcases hmem.mp ha with ha | rfl
      · exact h.allowed a ha
      · rw [hid]
        change claims s.log id + s.pending id ≤ _
        rw [hclaims, hpending]
        exact Nat.zero_le _
    unconsumed := fun a ha hopen => by
      rcases hmem.mp ha with ha | rfl
      · exact h.unconsumed a ha hopen
      · rw [hid]
        exact hconsumes
    given := fun a ha => by
      rcases hmem.mp ha with ha | rfl
      · exact List.mem_cons_of_mem _ (h.given a ha)
      · rw [hid]
        exact List.mem_cons_self
    known := fun x hx id' hid' => List.mem_cons_of_mem _ (h.known x hx id' hid')
    burned := h.burned }

/-- A claim waits to be counted. -/
theorem Inv.read (h : Inv s) (hc : c ∈ s.rows) (hopen : c.consumedAt = none) (htime : s.now < c.expiresAt)
    (hleft : c.attempts + s.pending c.id < maxChallengeAttempts) : Inv { s with waiting := s.waiting ++ [c] } where
  waiting w hw := by
    rcases List.mem_append.mp hw with hw | hw
    · exact h.waiting w hw
    · obtain rfl := List.mem_singleton.mp hw
      exact ⟨w, hc, rfl, rfl, hopen, htime⟩
  counted := h.counted
  allowed a ha := by
    have hallowed := h.allowed a ha
    change claims s.log a.id + (s.waiting ++ [c]).countP (·.id = a.id) ≤ _
    rw [List.countP_append, List.countP_singleton]
    split_ifs with heq
    · have hattempts := h.counted c hc
      rw [of_decide_eq_true heq] at hattempts hleft
      unfold pending at hleft
      omega
    · exact hallowed
  unconsumed := h.unconsumed
  given := h.given
  known := h.known
  burned := h.burned

theorem Inv.drop (h : Inv s) (place : ℕ) : Inv { s with waiting := s.waiting.eraseIdx place } where
  waiting w hw := h.waiting w (List.mem_of_mem_eraseIdx hw)
  counted := h.counted
  allowed a ha :=
    (Nat.add_le_add_left ((List.eraseIdx_sublist s.waiting place).countP_le) _).trans (h.allowed a ha)
  unconsumed := h.unconsumed
  given := h.given
  known := h.known
  burned := h.burned

theorem Inv.count (h : Inv s) (hc : s.waiting[place]? = some c) :
    Inv { s.count c with waiting := s.waiting.eraseIdx place } := by
  obtain ⟨before, after, hwaiting, herase⟩ := eraseIdx_waiting hc
  have hpending : ∀ id, s.pending id = ((before ++ after).countP (·.id = id)) + if c.id = id then 1 else 0 := by
    intro id
    simp only [pending, hwaiting, List.countP_append, List.countP_cons, decide_eq_true_eq]
    rw [Nat.add_assoc]
  obtain ⟨a, ha, haid, -, hopen, htime⟩ := h.waiting c (by simp [hwaiting])
  exact {
    waiting := fun w hw => by
      obtain ⟨b, hb, hrest⟩ := h.waiting w (List.mem_of_mem_eraseIdx hw)
      refine ⟨_, mem_count.mpr ⟨b, hb, rfl⟩, ?_⟩
      split_ifs
      · exact hrest
      · exact hrest
    counted := fun b hb => by
      obtain ⟨a, ha, hid, -, hattempts⟩ := of_mem_count hb
      rw [hattempts, h.counted a ha, ← hid]
      exact claims_count.symm
    allowed := fun b hb => by
      obtain ⟨a, ha, hid, -⟩ := of_mem_count hb
      have hallowed := h.allowed a ha
      rw [hpending] at hallowed
      change claims (s.count c).log b.id + (s.waiting.eraseIdx place).countP _ ≤ _
      rw [claims_count, herase, ← hid]
      omega
    unconsumed := fun b hb hbopen => by
      obtain ⟨a, ha, hid, hconsumed, -⟩ := of_mem_count hb
      rw [← hid]
      exact consumptions_count.trans (h.unconsumed a ha (hconsumed.trans hbopen))
    given := fun b hb => by
      obtain ⟨a, ha, hid, -⟩ := of_mem_count hb
      rw [← hid]
      exact h.given a ha
    known := fun x hx id hid => by
      rcases List.mem_append.mp hx with hx | hx
      · exact h.known x hx id hid
      · obtain rfl := List.mem_singleton.mp hx
        rcases hid with hid | hid
        · obtain rfl : c.id = id := of_decide_eq_true hid
          exact haid ▸ h.given a ha
        · cases hid
    burned := by
      have hallowed := h.allowed a ha
      rw [hpending, haid, if_pos rfl] at hallowed
      exact h.burned.claimed (by omega) (haid ▸ h.unconsumed a ha hopen) htime }

/-- A challenge that no claim waits for is consumed. -/
theorem Inv.consume (h : Inv s) (hpending : s.pending id = 0) : Inv (s.consume id).2 := by
  simp only [Store.consume]
  split_ifs with hany
  swap
  · exact h
  obtain ⟨a, ha, hfound⟩ := List.any_eq_true.mp hany
  obtain ⟨rfl, hopen⟩ : a.id = id ∧ a.consumedAt = none := by
    simpa [Store.unconsumed] using hfound
  have hmem : ∀ {b : SsoChallenge},
      b ∈ s.rows.update (Store.unconsumed a.id) (fun c => { c with consumedAt := some s.now }) (fun _ => rfl) →
        ∃ c ∈ s.rows, c.id = b.id ∧ c.attempts = b.attempts ∧
          (b.consumedAt = none → c.id ≠ a.id ∧ c.consumedAt = none) := by
    intro b hb
    obtain ⟨c, hc, rfl⟩ := Table.mem_update.mp hb
    refine ⟨c, hc, ?_⟩
    split_ifs with hp
    · exact ⟨rfl, rfl, nofun⟩
    · exact ⟨rfl, rfl, fun hcopen => ⟨fun hid => hp (by simp [Store.unconsumed, hid, hcopen]), hcopen⟩⟩
  exact {
    waiting := fun w hw => by
      obtain ⟨b, hb, hbid, hrest⟩ := h.waiting w hw
      have hother : b.id ≠ a.id := fun hid =>
        List.countP_eq_zero.mp hpending w hw (decide_eq_true (hbid.symm.trans hid))
      have hnot : ¬ Store.unconsumed a.id b = true := by simp [Store.unconsumed, hother]
      exact ⟨b, mem_consume_rows.mpr ⟨b, hb, if_neg hnot⟩, hbid, hrest⟩
    counted := fun b hb => by
      obtain ⟨c, hc, hid, hattempts, -⟩ := hmem hb
      rw [← hattempts, claims_append, ← hid]
      exact h.counted c hc
    allowed := fun b hb => by
      obtain ⟨c, hc, hid, -⟩ := hmem hb
      rw [claims_append, ← hid]
      exact h.allowed c hc
    unconsumed := fun b hb hbopen => by
      obtain ⟨c, hc, hid, -, hconsumed⟩ := hmem hb
      obtain ⟨hother, hcopen⟩ := hconsumed hbopen
      rw [consumptions_append, ← hid, h.unconsumed c hc hcopen]
      simp [Entry.consumes, hother.symm]
    given := fun b hb => by
      obtain ⟨c, hc, hid, -⟩ := hmem hb
      rw [← hid]
      exact h.given c hc
    known := fun x hx id hid => by
      rcases List.mem_append.mp hx with hx | hx
      · exact h.known x hx id hid
      · obtain rfl := List.mem_singleton.mp hx
        rcases hid with hid | hid
        · cases hid
        · obtain rfl : a.id = id := of_decide_eq_true hid
          exact h.given a ha
    burned := h.burned.consumed (h.unconsumed a ha hopen) }

theorem Inv.purge (h : Inv s) : Inv s.purgeExpired := by
  have hmem : ∀ {b : SsoChallenge}, b ∈ s.purgeExpired.rows → b ∈ s.rows := fun hb => (Table.mem_delete.mp hb).1
  exact {
    waiting := fun w hw => by
      obtain ⟨b, hb, hbid, hend, hopen, htime⟩ := h.waiting w hw
      have hkept : ¬ b.expiresAt < s.now - 24 * 3600 * 1000000 := by
        rw [hend]
        have hpast : s.now - 24 * 3600 * 1000000 ≤ s.now := Int.sub_le_self s.now (by decide)
        exact Int.not_lt.mpr (Int.le_trans hpast (Int.le_of_lt htime))
      exact ⟨b, Table.mem_delete.mpr ⟨hb, decide_eq_false hkept⟩, hbid, hend, hopen, htime⟩
    counted := fun b hb => h.counted b (hmem hb)
    allowed := fun b hb => h.allowed b (hmem hb)
    unconsumed := fun b hb => h.unconsumed b (hmem hb)
    given := fun b hb => h.given b (hmem hb)
    known := h.known
    burned := h.burned }

theorem Inv.tick {now : Instant} (h : Inv s) (htime : ∀ c ∈ s.waiting, now < c.expiresAt) : Inv { s with now } where
  waiting w hw := by
    obtain ⟨b, hb, hbid, hend, hopen, -⟩ := h.waiting w hw
    exact ⟨b, hb, hbid, hend, hopen, htime w hw⟩
  counted := h.counted
  allowed := h.allowed
  unconsumed := h.unconsumed
  given := h.given
  known := h.known
  burned := h.burned

/-! ### The runs -/

/-- Every allowed step keeps the invariant. -/
theorem Inv.step {e : Event} (h : Inv s) (hok : s.Orderly hashState e) (hs : ssoStep hashState s e = some t) :
    Inv t := by
  cases e with
  | issue id providerId organizationId flow returnTo state verifier =>
    simp only [ssoStep] at hs
    split_ifs at hs with hused
    split at hs
    · cases hs
      exact h
    · rename_i c hc
      obtain ⟨rows, hrows, rfl⟩ := Option.map_eq_some_iff.mp hs
      simp only [Store.issue] at hc
      split_ifs at hc
      cases hc
      exact h.issue hused rfl rfl hrows
  | read providerId state =>
    simp only [ssoStep] at hs
    split at hs
    · cases hs
      exact h
    · rename_i c hc
      cases hs
      obtain ⟨hmem, hopen, htime, -⟩ := claim_eq_ok hc
      exact h.read hmem hopen htime (hok c hc)
  | count place =>
    obtain ⟨c, hc, rfl⟩ := Option.map_eq_some_iff.mp hs
    exact h.count hc
  | drop place =>
    obtain ⟨c, -, rfl⟩ := Option.map_eq_some_iff.mp hs
    exact h.drop place
  | consume id =>
    cases hs
    exact h.consume hok
  | purge =>
    cases hs
    exact h.purge
  | tick now =>
    simp only [ssoStep] at hs
    split_ifs at hs
    cases hs
    exact h.tick hok

/-- **Challenges are burned**: over any interleaving of callbacks, purges and the clock in
which a claim reads only while the claims to be counted leave the challenge an attempt, and
none is consumed or ends while a claim on it is to be counted, every challenge is claimed at
most as often as it may be, consumed at most once, and not claimed after that or its end. -/
theorem run_burned {now : Instant} {es : List Event}
    (h : Transition.Run (ssoStep hashState) (Orderly hashState) (.empty now) es s) : Burned s.log :=
  (h.invariant (inv_empty now) fun _ _ _ hx hok hs => hx.step hok hs).burned

def knownHash (state : String) : String :=
  if state = "hB2vQ0x7Yc1nT5rK8mWz3pLd9sJf6aEu4gXiOoV-qNbRtMyCkHwZlSeUjPD_GaF1" then
    "01d25d57c2d7a1c6e6d8276ae0a421e17bf3c98596fe3d0323138cded3f59ce5"
  else ""

/-- A sign-in with provider 3 starts. -/
def started : Event :=
  .issue 40 3 7 "oidc" "/" "hB2vQ0x7Yc1nT5rK8mWz3pLd9sJf6aEu4gXiOoV-qNbRtMyCkHwZlSeUjPD_GaF1" "verifier"

/-- A callback reads its challenge. -/
def presented : Event := .read 3 "hB2vQ0x7Yc1nT5rK8mWz3pLd9sJf6aEu4gXiOoV-qNbRtMyCkHwZlSeUjPD_GaF1"

/-- The challenge of the sign-in. -/
def issued40 : SsoChallenge where
  id := 40
  providerId := 3
  organizationId := 7
  flow := "oidc"
  stateHash := knownHash "hB2vQ0x7Yc1nT5rK8mWz3pLd9sJf6aEu4gXiOoV-qNbRtMyCkHwZlSeUjPD_GaF1"
  codeVerifier := some "verifier"
  returnTo := "/"
  attempts := 0
  expiresAt := 600000000
  consumedAt := none

/-- The sign-in has started. -/
def begun : Store where
  rows := ⟨[issued40], List.nodup_singleton _⟩
  issued := [40]
  now := 0
  waiting := []
  log := []

theorem start_step : ssoStep knownHash (.empty 0) started = some begun := rfl

/-- The row has the state that is presented. -/
structure Presents (s : Store) (c : SsoChallenge) : Prop where
  rows : s.rows.rows = [c]
  stateHash : c.stateHash = issued40.stateHash
  providerId : c.providerId = 3

theorem claim_presented (h : Presents s c) :
    s.claim knownHash 3 "hB2vQ0x7Yc1nT5rK8mWz3pLd9sJf6aEu4gXiOoV-qNbRtMyCkHwZlSeUjPD_GaF1" =
      if c.consumedAt.isSome then .error "this sign-in link was already used — start again"
      else if c.expiresAt ≤ s.now then .error "this sign-in link expired — start again"
      else if c.attempts ≥ maxChallengeAttempts then .error "this sign-in link was tried too often — start again"
      else .ok c := by
  have htrim : Text.trim "hB2vQ0x7Yc1nT5rK8mWz3pLd9sJf6aEu4gXiOoV-qNbRtMyCkHwZlSeUjPD_GaF1" ≠ "" :=
    fun h => absurd (Text.trim_eq_empty.mp h 'h' (.head _)) (by decide)
  have hfind : s.rows.rows.reverse.find? (fun c => decide (c.stateHash = knownHash
      "hB2vQ0x7Yc1nT5rK8mWz3pLd9sJf6aEu4gXiOoV-qNbRtMyCkHwZlSeUjPD_GaF1") && decide (c.providerId = 3)) = some c := by
    rw [h.rows, List.reverse_singleton, List.find?_cons_of_pos]
    rw [h.stateHash, h.providerId]
    exact Bool.and_eq_true_iff.mpr ⟨decide_eq_true rfl, rfl⟩
  simp only [claim, if_neg htrim, hfind]

theorem read_step {providerId : Uuid} {state : String} (h : s.claim knownHash providerId state = .ok c) :
    ssoStep knownHash s (.read providerId state) = some { s with waiting := s.waiting ++ [c] } := by
  simp only [ssoStep, h]

theorem refused_step {providerId : Uuid} {state message : String}
    (h : s.claim knownHash providerId state = .error message) :
    ssoStep knownHash s (.read providerId state) = some s := by
  simp only [ssoStep, h]

/-- Three callbacks have read the challenge before one of them is counted. -/
theorem third_claim :
    ¬ ∀ (hashState : String → String) (now : Instant) (es : List Event) (s : Store),
      Transition.Run (ssoStep hashState) Transition.Any (.empty now) es s → Burned s.log := by
  intro h
  obtain ⟨s, hrun, hclaims⟩ : ∃ s, Transition.Run (ssoStep knownHash) Transition.Any (.empty 0)
      [started, presented, presented, presented, .count 0, .count 0, .count 0] s ∧ claims s.log 40 = 3 := by
    have hread : ∀ s : Store, s.rows = begun.rows → s.now = 0 →
        ssoStep knownHash s presented = some { s with waiting := s.waiting ++ [issued40] } := by
      intro s hrows hnow
      refine read_step ((claim_presented ⟨congrArg Table.rows hrows, rfl, rfl⟩).trans ?_)
      rw [hnow]
      rfl
    refine ⟨_, .cons trivial start_step (.cons trivial (hread _ rfl rfl) (.cons trivial (hread _ rfl rfl)
      (.cons trivial (hread _ rfl rfl) (.cons trivial rfl (.cons trivial rfl (.cons trivial rfl .nil)))))), ?_⟩
    rfl
  have hbound := (h knownHash 0 _ s hrun).attempts 40
  rw [hclaims] at hbound
  exact absurd hbound (by decide)

/-- Two callbacks at one time, of which the second is consumed, and a third after that. -/
def twice : List Event :=
  [started, presented, presented, .count 1, .count 0, .consume 40, presented, .tick 86400000000, .purge]

/-- Both claims succeed, and the third does not. -/
theorem run_burned_twice :
    ∃ s, Transition.Run (ssoStep knownHash) (Orderly knownHash) (.empty 0) twice s ∧
      claims s.log 40 = 2 ∧ Burned s.log := by
  obtain ⟨s, hrun, hclaims⟩ : ∃ s, Transition.Run (ssoStep knownHash) (Orderly knownHash) (.empty 0) twice s ∧
      claims s.log 40 = 2 := by
    have hread : ∀ {s : Store} {c : SsoChallenge}, s.claim knownHash 3
        "hB2vQ0x7Yc1nT5rK8mWz3pLd9sJf6aEu4gXiOoV-qNbRtMyCkHwZlSeUjPD_GaF1" = .ok c →
        c.attempts + s.pending c.id < maxChallengeAttempts → s.Orderly knownHash presented := by
      intro s c hc hleft c' hc'
      obtain rfl := Except.ok.inj (hc.symm.trans hc')
      exact hleft
    have hpresents : ∀ s : Store, s.rows = begun.rows → s.now = 0 → s.claim knownHash 3
        "hB2vQ0x7Yc1nT5rK8mWz3pLd9sJf6aEu4gXiOoV-qNbRtMyCkHwZlSeUjPD_GaF1" = .ok issued40 := by
      intro s hrows hnow
      refine (claim_presented ⟨congrArg Table.rows hrows, rfl, rfl⟩).trans ?_
      rw [hnow]
      rfl
    have hused : ∀ (s : Store) (attempts : ℕ), s.rows.rows =
        [{ issued40 with attempts, consumedAt := some 0 }] → s.claim knownHash 3
        "hB2vQ0x7Yc1nT5rK8mWz3pLd9sJf6aEu4gXiOoV-qNbRtMyCkHwZlSeUjPD_GaF1" =
          .error "this sign-in link was already used — start again" :=
      fun s attempts hrows => claim_presented ⟨hrows, rfl, rfl⟩
    refine ⟨_, .cons trivial start_step
      (.cons (hread (hpresents _ rfl rfl) (by decide)) (read_step (hpresents _ rfl rfl))
      (.cons (hread (hpresents _ rfl rfl) (by decide)) (read_step (hpresents _ rfl rfl))
      (.cons trivial rfl (.cons trivial rfl (.cons rfl rfl (.cons ?_ (refused_step (hused _ 2 rfl))
      (.cons ?_ rfl (.cons trivial rfl .nil)))))))), rfl⟩
    · intro c hc
      cases (hused _ 2 rfl).symm.trans hc
    · intro c hc
      cases hc
  exact ⟨s, hrun, hclaims, run_burned hrun⟩

end Store

end Omnion.Identity.SsoChallenges
