import Omnion.Core.Text
import Omnion.Library.Exclusion
import Omnion.Library.Run
import Omnion.Library.Table

/-!
# Second-factor challenges

`create_challenge` and `consume_challenge` of `crates/identity/src/signin.rs`, and
`create_challenge` and `take_challenge` of `crates/identity/src/webauthn/mod.rs`: any number
of them, taken apart into their statements and interleaved in any order.

## The model

The two tables have one shape, and their functions make the same statements on them. What
sets them apart is a `Schema`. To create a challenge first retires the ones before it, and
then inserts the new row; a call may stop between the two. Time passes between statements.
Whatever sets `consumed_at` of a row is kept in `spent`.

## What is proved

* `run_single` — at most one challenge of an account and purpose is live, and each is
  consumed at most once: for passkeys in every run, and for sign-in challenges in the runs
  where a call retires only while no other call of the account and purpose is between its two
  statements.
* `two_live` — two calls that retire before either inserts leave two live sign-in challenges.

## Honest scope

A sign-in challenge is stored as the hash of its token; calls are given with the hash. The
address, the user agent and the relying party of a row are left out. The application and the
database share one clock.
-/

namespace Omnion.Identity.Challenges

/-- `CHALLENGE_TTL_MINUTES`, of both modules. -/
def challengeTtlMinutes : ℤ := 5

/-- A row of `mfa_challenges` or `webauthn_challenges`. -/
structure Challenge where
  id : Uuid
  userId : Uuid
  purpose : String
  /-- `token_hash`, or the challenge itself. -/
  value : String
  expiresAt : Instant
  consumedAt : Option Instant
  deriving DecidableEq

/-- The challenge can be used. -/
def Challenge.Live (now : Instant) (c : Challenge) : Prop := c.consumedAt = none ∧ now < c.expiresAt

/-- What sets the two tables and their functions apart. -/
structure Schema where
  /-- The check on `purpose`. -/
  purposes : List String
  uniqueValue : Bool
  /-- The account and purpose of the unconsumed rows have a unique index. -/
  uniqueLive : Bool
  /-- The call that consumes a challenge says whose it is. -/
  named : Bool

/-- `mfa_challenges`. -/
def mfaChallenges : Schema where
  purposes := ["login", "step_up"]
  uniqueValue := true
  uniqueLive := false
  named := false

/-- A call that creates a challenge. -/
structure Call where
  userId : Uuid
  purpose : String
  value : String
  expiresAt : Instant

/-- How far a call has come. -/
inductive Stage where
  | idle
  | begun (call : Call)
  /-- The challenges before it are retired. -/
  | retired (call : Call)
  | issued
  /-- A statement failed, or the call was dropped. -/
  | failed

/-- The account and purpose of a call between its two statements. -/
def Stage.inside : Stage → Option (Uuid × String)
  | .retired call => some (call.userId, call.purpose)
  | _ => none

/-- A table of challenges, the clock and the calls. -/
structure Store where
  rows : Table Challenge Challenge.id
  now : Instant
  calls : ℕ → Stage
  /-- The rows whose `consumed_at` was set, each time it was. -/
  spent : List Uuid

namespace Store

/-- Call `i` goes on to a stage. -/
def move (s : Store) (i : ℕ) (p : Stage) : Store := { s with calls := Function.update s.calls i p }

/-- The rows `set consumed_at = now()` finds. -/
def open? (p : Challenge → Bool) (c : Challenge) : Bool := p c && c.consumedAt.isNone

/-- `update … set consumed_at = now() where … and consumed_at is null`. -/
def consume (s : Store) (p : Challenge → Bool) : Store :=
  { s with
    rows := s.rows.update (open? p) (fun c => { c with consumedAt := some s.now }) fun _ => rfl
    spent := (s.rows.rows.filter (open? p)).map (·.id) ++ s.spent }

/-- The first statement of `create_challenge`. -/
def retire (s : Store) (call : Call) : Store :=
  s.consume fun c => c.userId = call.userId && c.purpose = call.purpose

/-- The row a call inserts. -/
def row (call : Call) (id : Uuid) : Challenge where
  id := id
  userId := call.userId
  purpose := call.purpose
  value := call.value
  expiresAt := call.expiresAt
  consumedAt := none

/-- A check or an index refuses the row. -/
def refuses (schema : Schema) (s : Store) (call : Call) : Bool :=
  call.purpose ∉ schema.purposes ||
    (schema.uniqueValue && s.rows.rows.any fun c => c.value = call.value) ||
    (schema.uniqueLive && s.rows.rows.any fun c =>
      c.userId = call.userId && c.purpose = call.purpose && c.consumedAt.isNone)

/-- The second statement of `create_challenge`. -/
def insert (schema : Schema) (s : Store) (i : ℕ) (call : Call) (id : Uuid) : Store :=
  if s.refuses schema call then s.move i .failed
  else
    match s.rows.insert? (row call id) with
    | none => s.move i .failed
    | some rows => { s.move i .issued with rows }

/-- The challenge a call consumes. -/
def answers (schema : Schema) (now : Instant) (userId : Uuid) (purpose value : String) (c : Challenge) : Bool :=
  (!schema.named || c.userId = userId) && c.purpose = purpose && c.value = value && now < c.expiresAt

/-- `consume_challenge`, and `take_challenge`: whose challenge it was, if it could be used. -/
def take (schema : Schema) (s : Store) (userId : Uuid) (purpose value : String) : Option Uuid × Store :=
  let p := answers schema s.now userId purpose value
  ((s.rows.rows.find? (open? p)).map (·.userId), s.consume p)

/-- No challenge was issued yet. -/
def empty (now : Instant) : Store where
  rows := .empty
  now := now
  calls := fun _ => .idle
  spent := []

end Store

/-- The statements of the calls, and the clock. -/
inductive Event where
  /-- A call to create a challenge begins. -/
  | create (i : ℕ) (userId : Uuid) (purpose value : String)
  /-- It retires the challenges before it. -/
  | retire (i : ℕ)
  | insert (i : ℕ) (id : Uuid)
  | stop (i : ℕ)
  | take (userId : Uuid) (purpose value : String)
  | tick (now : Instant)

/-- One statement of one call. -/
def challengeStep (schema : Schema) (s : Store) : Event → Option Store
  | .create i userId purpose value =>
    match s.calls i with
    | .idle => some (s.move i (.begun
        { userId, purpose, value, expiresAt := Time.after s.now (Time.seconds (challengeTtlMinutes * 60)) }))
    | _ => none
  | .retire i =>
    match s.calls i with
    | .begun call => some ((s.retire call).move i (.retired call))
    | _ => none
  | .insert i id =>
    match s.calls i with
    | .retired call => some (s.insert schema i call id)
    | _ => none
  | .stop i =>
    match s.calls i with
    | .begun _ | .retired _ => some (s.move i .failed)
    | _ => none
  | .take userId purpose value => some (s.take schema userId purpose value).2
  | .tick now => if s.now ≤ now then some { s with now } else none

namespace Store

open Exclusion

variable {schema : Schema} {s : Store} {i : ℕ} {p : Challenge → Bool} {c : Challenge} {call : Call} {st : Stage}

/-- Which accounts and purposes the calls are between their statements for. -/
def inside (s : Store) : ℕ → Option (Uuid × String) := fun i => (s.calls i).inside

/-- **At most one challenge of an account and purpose is live.** -/
def Single (s : Store) : Prop :=
  ∀ a ∈ s.rows, ∀ b ∈ s.rows, a.userId = b.userId → a.purpose = b.purpose → a.Live s.now → b.Live s.now → a = b

/-- **The steps allowed**: without an index on the live rows, a call retires only while no
other call of its account and purpose is between its two statements. -/
def Orderly (schema : Schema) (s : Store) : Event → Prop
  | .retire i => schema.uniqueLive = true ∨
      ∀ call, s.calls i = .begun call → Free s.inside i (call.userId, call.purpose)
  | _ => True

/-- Nothing of an account and purpose is open. -/
def Closed (s : Store) (k : Uuid × String) : Prop :=
  ∀ c ∈ s.rows, (c.userId, c.purpose) = k → c.consumedAt ≠ none

/-- **The invariant**: at most one challenge of an account and purpose is open, none while a
call is between its two statements, and an open challenge was never consumed. -/
structure Inv (schema : Schema) (s : Store) : Prop where
  single : ∀ a ∈ s.rows, ∀ b ∈ s.rows, (a.userId, a.purpose) = (b.userId, b.purpose) →
    a.consumedAt = none → b.consumedAt = none → a = b
  /-- None is, where a call is between its two statements. -/
  guarded : schema.uniqueLive = false → Guarded s.inside s.Closed
  /-- What was consumed is a challenge that is not open. -/
  known : ∀ id ∈ s.spent, ∃ c ∈ s.rows, c.id = id ∧ c.consumedAt ≠ none
  once : s.spent.Nodup

/-! ### The statements -/

theorem inside_move : (s.move i st).inside = Function.update s.inside i st.inside := by
  funext j
  exact Function.apply_update (fun _ => Stage.inside) s.calls i st j

theorem mem_consume : c ∈ (s.consume p).rows ↔
    ∃ a ∈ s.rows, (if open? p a then { a with consumedAt := some s.now } else a) = c := by
  rw [consume, Table.mem_update]

theorem open_consume (hc : c ∈ (s.consume p).rows) (hopen : c.consumedAt = none) : c ∈ s.rows ∧ p c = false := by
  obtain ⟨a, ha, rfl⟩ := mem_consume.mp hc
  split_ifs at hopen ⊢ with hfound
  have hnot : p a = false := by simpa [open?, hopen] using hfound
  exact ⟨ha, hnot⟩

theorem Closed.consume {k : Uuid × String} (h : s.Closed k) : (s.consume p).Closed k :=
  fun c hc hk hopen => h c (open_consume hc hopen).1 hk hopen

/-- Consuming keeps the invariant: the rows it finds are open, and so not consumed before. -/
theorem Inv.consume (h : Inv schema s) (p : Challenge → Bool) : Inv schema (s.consume p) where
  single a ha b hb hab haopen hbopen :=
    h.single a (open_consume ha haopen).1 b (open_consume hb hbopen).1 hab haopen hbopen
  guarded hunique := (h.guarded hunique).mono fun _ => Closed.consume
  known id hid := by
    rcases List.mem_append.mp hid with hnew | hold
    · obtain ⟨c, hc, rfl⟩ := List.mem_map.mp hnew
      obtain ⟨hmem, hfound⟩ := List.mem_filter.mp hc
      exact ⟨_, mem_consume.mpr ⟨c, hmem, rfl⟩, by simp [hfound]⟩
    · obtain ⟨c, hc, rfl, hconsumed⟩ := h.known id hold
      refine ⟨c, mem_consume.mpr ⟨c, hc, ?_⟩, rfl, hconsumed⟩
      simp [open?, hconsumed]
  once := by
    have hfound : ((s.rows.rows.filter (open? p)).map (·.id)).Nodup :=
      s.rows.nodup.sublist (List.filter_sublist.map _)
    refine List.nodup_append.mpr ⟨hfound, h.once, fun id hnew id' hold hid => ?_⟩
    obtain ⟨c, hc, rfl⟩ := List.mem_map.mp hnew
    obtain ⟨hmem, hopen⟩ := List.mem_filter.mp hc
    obtain ⟨a, ha, hac, hconsumed⟩ := h.known id' hold
    rw [Table.eq_of_key ha hmem (hac.trans hid.symm)] at hconsumed
    simp [open?, hconsumed] at hopen

theorem Inv.move (h : Inv schema s) (hst : st.inside = none) : Inv schema (s.move i st) where
  single := h.single
  guarded hunique := by
    rw [inside_move, hst]
    exact (h.guarded hunique).leave fun _ _ hk => hk
  known := h.known
  once := h.once

theorem closed_retire (call : Call) : (s.retire call).Closed (call.userId, call.purpose) := by
  intro c hc hk hopen
  obtain ⟨huser, hpurpose⟩ := Prod.mk.inj hk
  have hfound := (open_consume hc hopen).2
  simp [huser, hpurpose] at hfound

theorem Inv.retire (h : Inv schema s)
    (hfree : schema.uniqueLive = false → Free s.inside i (call.userId, call.purpose)) :
    Inv schema ((s.retire call).move i (.retired call)) where
  single := (h.consume _).single
  guarded hunique := by
    rw [inside_move]
    exact ((h.consume _).guarded hunique).enter (hfree hunique) (closed_retire call)
  known := (h.consume _).known
  once := (h.consume _).once

/-- Where a row may be inserted, nothing of its account and purpose is open: the index says
so, or nobody has inserted one since the call retired what was before it. -/
theorem Inv.closed_of_insert (h : Inv schema s) (hi : s.calls i = .retired call)
    (haccepted : s.refuses schema call = false) : s.Closed (call.userId, call.purpose) := by
  cases hunique : schema.uniqueLive with
  | true =>
    intro c hc hk hopen
    obtain ⟨huser, hpurpose⟩ := Prod.mk.inj hk
    simp only [refuses, hunique, Bool.true_and, Bool.or_eq_false_iff, List.any_eq_false] at haccepted
    exact haccepted.2 c hc (by simp [huser, hpurpose, hopen])
  | false => exact (h.guarded hunique).holds i _ (by simp [inside, hi, Stage.inside])

theorem Inv.insert (h : Inv schema s) (hi : s.calls i = .retired call) (id : Uuid) :
    Inv schema (s.insert schema i call id) := by
  unfold Store.insert
  split_ifs with hrefused
  · exact h.move rfl
  cases hrows : s.rows.insert? (row call id) with
  | none => exact h.move rfl
  | some rows =>
    have hclosed := h.closed_of_insert hi (Bool.eq_false_iff.mpr hrefused)
    have hmem : ∀ {c : Challenge}, c ∈ rows ↔ c ∈ s.rows ∨ c = row call id := Table.mem_insert? hrows
    exact {
      single := by
        intro a ha b hb hab haopen hbopen
        rcases hmem.mp ha with ha | rfl <;> rcases hmem.mp hb with hb | rfl
        · exact h.single a ha b hb hab haopen hbopen
        · exact absurd haopen (hclosed a ha hab)
        · exact absurd hbopen (hclosed b hb hab.symm)
        · rfl
      guarded := fun hunique => by
        have hinside : inside { s.move i .issued with rows } = Function.update s.inside i none := inside_move
        rw [hinside]
        refine (h.guarded hunique).leave fun k hk hold c hc hck => ?_
        rcases hmem.mp hc with hc | rfl
        · exact hold c hc hck
        · exact absurd (by rw [inside, hi, ← hck]; rfl) hk
      known := fun id hid => by
        obtain ⟨c, hc, hfound⟩ := h.known id hid
        exact ⟨c, hmem.mpr (.inl hc), hfound⟩
      once := h.once }

/-! ### The runs -/

/-- Every allowed step keeps the invariant. -/
theorem Inv.step {e : Event} {t : Store} (h : Inv schema s) (hok : s.Orderly schema e)
    (hs : challengeStep schema s e = some t) : Inv schema t := by
  cases e with
  | create i userId purpose value =>
    simp only [challengeStep] at hs
    split at hs
    · cases hs
      exact h.move rfl
    · cases hs
  | retire i =>
    simp only [challengeStep] at hs
    split at hs
    · rename_i call hi
      cases hs
      exact h.retire fun hunique => hok.resolve_left (by rw [hunique]; exact Bool.false_ne_true) call hi
    · cases hs
  | insert i id =>
    simp only [challengeStep] at hs
    split at hs
    · rename_i call hi
      cases hs
      exact h.insert hi id
    · cases hs
  | stop i =>
    simp only [challengeStep] at hs
    split at hs
    · cases hs
      exact h.move rfl
    · cases hs
      exact h.move rfl
    · cases hs
  | take userId purpose value =>
    cases hs
    exact h.consume _
  | tick now =>
    simp only [challengeStep] at hs
    split_ifs at hs
    cases hs
    exact ⟨h.single, h.guarded, h.known, h.once⟩

theorem inv_empty (now : Instant) : Inv schema (.empty now) where
  single _ ha := absurd ha List.not_mem_nil
  guarded _ := guarded_none
  known _ hid := absurd hid List.not_mem_nil
  once := List.nodup_nil

/-- **One live challenge per purpose**: over any interleaving of calls and the clock in which,
where no index keeps a second live row out, a call retires only while no other call of its
account and purpose is between its two statements, at most one challenge of an account and
purpose is live, and none is consumed twice. -/
theorem run_single {now : Instant} {es : List Event}
    (h : Transition.Run (challengeStep schema) (Orderly schema) (.empty now) es s) :
    s.Single ∧ s.spent.Nodup := by
  have hinv : Inv schema s := h.invariant (inv_empty now) fun _ _ _ hx hok hs => hx.step hok hs
  exact ⟨fun a ha b hb huser hpurpose haopen hbopen =>
    hinv.single a ha b hb (Prod.ext huser hpurpose) haopen.1 hbopen.1, hinv.once⟩

/-- Two sign-ins of account 7 ask for their challenges at one time. -/
def together : List Event :=
  [.create 0 7 "login" "a3f1", .create 1 7 "login" "5c08", .retire 0, .retire 1, .insert 0 40, .insert 1 41]

/-- Both challenges are live. -/
theorem two_live :
    ¬ ∀ (now : Instant) (es : List Event) (s : Store),
      Transition.Run (challengeStep mfaChallenges) Transition.Any (.empty now) es s →
        s.Single ∧ s.spent.Nodup := by
  intro h
  let first : Challenge := ⟨40, 7, "login", "a3f1", 300000000, none⟩
  let second : Challenge := ⟨41, 7, "login", "5c08", 300000000, none⟩
  have hexec : (Transition.exec (challengeStep mfaChallenges) (.empty 0) together).map
      (fun s => (s.now, s.rows.rows)) = some (0, [first, second]) := by decide
  obtain ⟨s, hs, hstate⟩ := Transition.Run.of_exec_map hexec
  obtain ⟨hnow, hrows⟩ := Prod.mk.inj hstate
  have hmem : ∀ c ∈ [first, second], c ∈ s.rows ∧ c.Live s.now := by
    intro c hc
    rw [Table.mem_def, hrows, hnow]
    refine ⟨hc, ?_⟩
    simp only [List.mem_cons, List.not_mem_nil, or_false] at hc
    rcases hc with rfl | rfl
    · exact ⟨rfl, by decide⟩
    · exact ⟨rfl, by decide⟩
  have hfirst := hmem first (by simp)
  have hsecond := hmem second (by simp)
  have hsame := (h 0 together s hs).1 first hfirst.1 second hsecond.1 rfl rfl hfirst.2 hsecond.2
  exact absurd hsame (by decide)

/-- The second sign-in of account 7 asks after the first, and answers its challenge. -/
def inTurn : List Event :=
  [.create 0 7 "login" "a3f1", .retire 0, .insert 0 40, .create 1 7 "login" "5c08", .retire 1, .insert 1 41,
    .take 7 "login" "5c08"]

/-- The first challenge is retired, and the second consumed. -/
theorem run_single_inTurn :
    ∃ s, Transition.Run (challengeStep mfaChallenges) (Orderly mfaChallenges) (.empty 0) inTurn s ∧
      s.spent = [41, 40] ∧ s.Single ∧ s.spent.Nodup := by
  have hrun : ∃ s, Transition.Run (challengeStep mfaChallenges) (Orderly mfaChallenges) (.empty 0) inTurn s ∧
      s.spent = [41, 40] := by
    refine ⟨_, .cons trivial rfl (.cons (.inr fun call _ j hj => ?_) rfl (.cons trivial rfl (.cons trivial rfl
      (.cons (.inr fun call _ j hj => ?_) rfl (.cons trivial rfl (.cons trivial rfl .nil)))))), by decide⟩
    · rw [inside_move, Function.update_of_ne hj]
      nofun
    · rw [inside_move, Function.update_of_ne hj]
      change (inside (.move (.move (.move (.empty 0) 0 _) 0 _) 0 .issued)) j ≠ _
      by_cases hj' : j = 0
      · subst hj'
        nofun
      · simp only [inside_move, Function.update_of_ne hj']
        nofun
  obtain ⟨s, hrun, hspent⟩ := hrun
  exact ⟨s, hrun, hspent, run_single hrun⟩

end Store

end Omnion.Identity.Challenges
