import Mathlib.Data.Prod.Lex
import Mathlib.Logic.Function.Basic
import Omnion.Library.Sorting
import Omnion.Notifications.Delivery
import Omnion.Workflows.Model

/-!
# The delivery queue of notifications

`claim_due`, `mark_sent`, `mark_retry`, `mark_failed`, `settle_not_ready` and `run_due` of
`crates/notifications/src/delivery.rs`, and `retry_delivery` of `push.rs`, any number of runners at
once.

## The model

A runner settles what is not ready, claims what is due, reads the jobs of its claims, and goes
through them one by one: it sends the job, which decides its report, and writes the report. It may
stop anywhere. A transport answers anything after any time, or is not installed.

The claims on a delivery are counted from 1, and the count is the token of a claim. No statement
reads it. `reports` has, for each report that was written, the claim it is on and the claim that
held the delivery.

## What is proved

* `mem_due`, `nodup_due` — what is due is pending and under no live claim, and is claimed once.
* `mem_claimDue`, `mem_report`, `mem_settleNotReady`, `mem_retryDelivery` — the rows each statement
  leaves. What holds in runs is in `Omnion.Notifications.Orderly`.

## Honest scope

There is one clock. Deliveries are not deleted. What a transport is given, and the endpoints it
declares gone, are left out.
-/

namespace Omnion.Notifications

/-! ### Configuration and outcomes -/

/-- The runner's knobs. -/
structure DeliveryConfig where
  batch : ℕ := 50
  leaseSeconds : ℕ := 30
  retryBase : Duration := Time.seconds 15
  retryMax : Duration := Time.seconds 600
  leaseSeconds_pos : 0 < leaseSeconds := by decide

/-- What one claimed row is. -/
structure DeliveryJob where
  id : Uuid
  notificationId : Uuid
  channel : String
  /-- The attempts so far, the claim's included. -/
  attempts : ℕ
  maxAttempts : ℕ

/-- The job of a row. -/
def DeliveryJob.of (d : Delivery) : DeliveryJob where
  id := d.id
  notificationId := d.notificationId
  channel := d.channel
  attempts := d.attempts
  maxAttempts := d.maxAttempts

/-- One transport's answer. -/
inductive TransportOutcome where
  | accepted (status : Option ℤ)
  | failed (status : Option ℤ) (reason : String)

/-- The longest failure text kept on a row. -/
def MAX_ERROR_CHARS : ℕ := 500

/-- `trim_error`. -/
def trimError (message : String) : String :=
  let trimmed := Text.trim message
  if trimmed.length ≤ MAX_ERROR_CHARS then trimmed else String.ofList (trimmed.toList.take MAX_ERROR_CHARS ++ ['…'])

/-- A report on a delivery. -/
inductive Mark where
  | sent (responseStatus : Option ℤ)
  | retry (responseStatus : Option ℤ) (error : String) (nextAttemptAt : Instant)
  | failed (responseStatus : Option ℤ) (error : String)

/-- The delay before attempt `attempt + 1`. -/
def DeliveryConfig.retryDelay (config : DeliveryConfig) (attempt : ℕ) : Duration :=
  Workflows.retryDelay attempt config.retryBase config.retryMax

/-- What `run_due` reports of a job: without a transport the row goes back on the queue, whatever its attempts. -/
def DeliveryJob.mark (config : DeliveryConfig) (now : Instant) (job : DeliveryJob) : Option TransportOutcome → Mark
  | none => .retry none "no transport is installed for this channel" (Time.after now (config.retryDelay job.attempts))
  | some (.accepted status) => .sent status
  | some (.failed status reason) =>
    if job.attempts < job.maxAttempts then .retry status (trimError reason)
      (Time.after now (config.retryDelay job.attempts))
    else .failed status (trimError reason)

/-! ### What a statement writes -/

namespace Delivery

/-- The row once claimed. -/
def claimed (now : Instant) (d : Delivery) : Delivery := { d with attempts := d.attempts + 1, claimedAt := some now }

/-- The row once settled. -/
def settled (d : Delivery) : Delivery :=
  { d with
    status := .skipped, claimedAt := none, error := some "no organization on this platform has this channel switched on" }

/-- The row once put back. -/
def requeued (now : Instant) (d : Delivery) : Delivery :=
  { d with status := .pending, attempts := 0, nextAttemptAt := now, error := none, responseStatus := none }

theorem claimed_id (now : Instant) (d : Delivery) : (d.claimed now).id = d.id := rfl

theorem settled_id (d : Delivery) : d.settled.id = d.id := rfl

theorem requeued_id (now : Instant) (d : Delivery) : (d.requeued now).id = d.id := rfl

/-- The claim is younger than the lease. -/
def leased (now : Instant) (leaseSeconds : ℕ) (d : Delivery) : Bool :=
    d.claimedAt.any fun at_ => now - leaseSeconds * 1000000 < at_

/-- The order of the queue. -/
def dueOrder (d : Delivery) : Instant ×ₗ Instant := toLex (d.nextAttemptAt, d.createdAt)

end Delivery

/-- `mark_sent`, `mark_retry` and `mark_failed`. -/
def Mark.row (now : Instant) : Mark → Delivery → Delivery
  | .sent responseStatus, d =>
    { d with status := .sent, sentAt := some now, responseStatus, error := none, claimedAt := none }
  | .retry responseStatus error nextAttemptAt, d =>
    { d with nextAttemptAt, responseStatus, error := some error, claimedAt := none }
  | .failed responseStatus error, d =>
    { d with status := .failed, responseStatus, error := some error, claimedAt := none }

@[simp] theorem Mark.row_id (m : Mark) (now : Instant) (d : Delivery) : (m.row now d).id = d.id := by cases m <;> rfl

@[simp] theorem Mark.row_attempts (m : Mark) (now : Instant) (d : Delivery) :
    (m.row now d).attempts = d.attempts := by cases m <;> rfl

@[simp] theorem Mark.row_maxAttempts (m : Mark) (now : Instant) (d : Delivery) :
    (m.row now d).maxAttempts = d.maxAttempts := by
  cases m <;> rfl

/-! ### The queue -/

/-- A channel of an organization. -/
structure ChannelRow where
  organizationId : Uuid
  channel : String
  enabled : Bool

/-- A job, and which claim on its delivery it is for. -/
structure ClaimedJob where
  job : DeliveryJob
  claim : ℕ

/-- How far a runner has come. -/
inductive Runner where
  | idle
  | settled
  /-- Rows are claimed: each, and the number of its claim. -/
  | claimed (claims : List (Uuid × ℕ))
  /-- A job is sent; the others follow. -/
  | sending (job : ClaimedJob) (jobs : List ClaimedJob)
  /-- The report on a job is decided. -/
  | marking (job : ClaimedJob) (mark : Mark) (jobs : List ClaimedJob)

/-- A runner with these jobs before it. -/
def Runner.next : List ClaimedJob → Runner
  | [] => .idle
  | job :: jobs => .sending job jobs

/-- A report written into a delivery. -/
structure Report where
  id : Uuid
  claim : ℕ
  /-- The claim that held the delivery. -/
  held : Option ℕ

/-- The tables, the runners, and what is remembered of the claims and reports. -/
structure Queue where
  now : Instant
  deliveries : Table Delivery Delivery.id := .empty
  channels : List ChannelRow := []
  /-- The organizations of the notifications. -/
  organizationOf : Uuid → Option Uuid := fun _ => none
  runners : ℕ → Runner := fun _ => .idle
  /-- How often a delivery was claimed. -/
  claims : Uuid → ℕ := fun _ => 0
  /-- How often it was claimed since it was queued or put back. -/
  round : Uuid → ℕ := fun _ => 0
  reports : List Report := []
  /-- What was sent or failed, and not put back since. -/
  finals : List (Uuid × DeliveryStatus) := []

namespace Queue

/-- Some organization it belongs to has the channel switched on. -/
def channelOn (s : Queue) (d : Delivery) : Bool := s.channels.any fun c =>
  c.channel = d.channel && c.enabled && (s.organizationOf d.notificationId).all (· = c.organizationId)

/-- What `settle_not_ready` turns into `skipped`. -/
def notReady (s : Queue) (leaseSeconds : ℕ) (d : Delivery) : Bool :=
  d.status = .pending && d.channel ≠ IN_APP && !d.leased s.now leaseSeconds && !s.channelOn d

/-- The row may be claimed. -/
def isDue (s : Queue) (leaseSeconds : ℕ) (d : Delivery) : Bool :=
  d.status = .pending && d.nextAttemptAt ≤ s.now && !d.leased s.now leaseSeconds

/-- The rows a claim takes. -/
def due (s : Queue) (config : DeliveryConfig) (locked : List Uuid) : List Delivery :=
  (Sorting.sortBy Delivery.dueOrder (s.deliveries.rows.filter fun d => s.isDue config.leaseSeconds d && d.id ∉
    locked)).take config.batch

/-- The claim that holds a row. -/
def holder (s : Queue) (d : Delivery) : Option ℕ := if d.claimedAt.isSome then some (s.claims d.id) else none

/-- Runner `i` goes on. -/
def move (s : Queue) (i : ℕ) (p : Runner) : Queue := { s with runners := Function.update s.runners i p }

/-- `settle_not_ready`. -/
def settleNotReady (s : Queue) (leaseSeconds : ℕ) : Queue :=
  { s with deliveries := s.deliveries.update (s.notReady leaseSeconds) .settled Delivery.settled_id }

/-- The first statement of `claim_due`. -/
def claimDue (config : DeliveryConfig) (s : Queue) (i : ℕ) (locked : List Uuid) : Queue :=
  let due := s.due config locked
  { s.move i (.claimed (due.map fun d => (d.id, s.claims d.id + 1))) with
    deliveries := s.deliveries.update (fun d => due.any (·.id = d.id)) (.claimed s.now) (Delivery.claimed_id s.now)
    claims := fun id => if due.any (·.id = id) then s.claims id + 1 else s.claims id
    round := fun id => if due.any (·.id = id) then s.round id + 1 else s.round id }

/-- The second statement of `claim_due`. -/
def jobs (s : Queue) (claims : List (Uuid × ℕ)) : List ClaimedJob :=
  (Sorting.sortBy Delivery.dueOrder (s.deliveries.rows.filter (·.id ∈ claims.map (·.1)))).filterMap fun d =>
    (claims.lookup d.id).map fun claim => ⟨.of d, claim⟩

/-- What a report is on: the row, if it is still pending. -/
def pending? (s : Queue) (id : Uuid) : Option Delivery := (s.deliveries.find? id).filter (·.status = .pending)

/-- A report is written. -/
def report (s : Queue) (j : ClaimedJob) (m : Mark) : Queue :=
  let row := s.pending? j.job.id
  { s with
    deliveries := s.deliveries.update (fun d => d.id = j.job.id && d.status = .pending) (m.row s.now) (m.row_id s.now)
    reports := s.reports ++ row.toList.map fun d => ⟨d.id, j.claim, s.holder d⟩
    finals := s.finals ++ row.toList.filterMap fun d => match m with
      | .sent _ => some (d.id, .sent)
      | .failed .. => some (d.id, .failed)
      | .retry .. => none }

/-- `retry_delivery`: only a failed row is retryable. -/
def retryDelivery (s : Queue) (id : Uuid) : Queue :=
  let failed := fun d : Delivery => d.id = id && d.status = .failed
  { s with
    deliveries := s.deliveries.update failed (.requeued s.now) (Delivery.requeued_id s.now)
    round := if s.deliveries.rows.any failed then Function.update s.round id 0 else s.round
    finals := if s.deliveries.rows.any failed then s.finals.filter (·.1 ≠ id) else s.finals }

end Queue

/-- What happens. -/
inductive QueueEvent where
  /-- A delivery is queued, -/
  | queue (row : QueuedRow) (id notificationId : Uuid)
  /-- or put back by an administrator. -/
  | requeue (id : Uuid)
  /-- Channels are switched on or off. -/
  | configure (channels : List ChannelRow)
  /-- A runner settles what is not ready, -/
  | settle (i : ℕ)
  /-- claims what is due, -/
  | claim (i : ℕ) (locked : List Uuid)
  /-- reads its jobs, -/
  | load (i : ℕ)
  /-- sends one, unless its transport is not installed, -/
  | send (i : ℕ) (outcome : Option TransportOutcome)
  /-- and writes its report. -/
  | mark (i : ℕ)
  /-- A runner stops. -/
  | crash (i : ℕ)
  /-- Time passes. -/
  | tick (now : Instant)

/-- The runner that takes a step. -/
def QueueEvent.runner : QueueEvent → Option ℕ
  | .settle i | .claim i _ | .load i | .send i _ | .mark i | .crash i => some i
  | .queue .. | .requeue _ | .configure _ | .tick _ => none

/-- The transport of what is sent is installed. -/
def QueueEvent.isSent : QueueEvent → Bool
  | .send _ outcome => outcome.isSome
  | _ => true

namespace Queue

def step (config : DeliveryConfig) (s : Queue) : QueueEvent → Option Queue
  | .queue row id notificationId =>
    (s.deliveries.insert? (row.delivery id notificationId s.now)).map fun deliveries =>
      { s with deliveries, round := Function.update s.round id 0 }
  | .requeue id => some (s.retryDelivery id)
  | .configure channels => some { s with channels }
  | .settle i =>
    match s.runners i with
    | .idle => some ((s.settleNotReady config.leaseSeconds).move i .settled)
    | _ => none
  | .claim i locked =>
    match s.runners i with
    | .settled => some (s.claimDue config i locked)
    | _ => none
  | .load i =>
    match s.runners i with
    | .claimed claims => some (s.move i (.next (s.jobs claims)))
    | _ => none
  | .send i outcome =>
    match s.runners i with
    | .sending j jobs => some (s.move i (.marking j (j.job.mark config s.now outcome) jobs))
    | _ => none
  | .mark i =>
    match s.runners i with
    | .marking j m jobs => some ((s.report j m).move i (.next jobs))
    | _ => none
  | .crash i => some (s.move i .idle)
  | .tick now => if s.now ≤ now then some { s with now } else none

/-! ### What a statement leaves -/

variable {config : DeliveryConfig} {s : Queue} {i : ℕ} {d : Delivery} {locked : List Uuid}

theorem leased_claimed (now : Instant) : (d.claimed now).leased now config.leaseSeconds = true := by
  have hpos := config.leaseSeconds_pos
  have hlease : (0 : ℤ) < config.leaseSeconds * 1000000 := by omega
  simp only [Delivery.leased, Delivery.claimed, Option.any_some, decide_eq_true_eq]
  exact Int.sub_lt_self now hlease

theorem mem_due (h : d ∈ s.due config locked) : d ∈ s.deliveries ∧ d.status = .pending ∧
    d.leased s.now config.leaseSeconds = false := by
  have hmem := Sorting.mem_sortBy.mp (List.mem_of_mem_take h)
  simp only [List.mem_filter, isDue, Bool.and_eq_true, decide_eq_true_eq, Bool.not_eq_true'] at hmem
  exact ⟨hmem.1, hmem.2.1.1.1, hmem.2.1.2⟩

theorem nodup_due : ((s.due config locked).map (·.id)).Nodup :=
  Sorting.nodup_map_take_sortBy (s.deliveries.nodup.sublist (List.filter_sublist.map _)) _

theorem any_due (hd : d ∈ s.deliveries) : (s.due config locked).any (·.id = d.id) = true ↔ d ∈ s.due config locked := by
  rw [List.any_eq_true]
  constructor
  · rintro ⟨b, hb, hid⟩
    obtain rfl := Table.eq_of_key (mem_due hb).1 hd (of_decide_eq_true hid)
    exact hb
  · exact fun h => ⟨d, h, decide_eq_true rfl⟩

theorem mem_pending? {id : Uuid} : d ∈ s.pending? id ↔ d ∈ s.deliveries ∧ d.id = id ∧ d.status = .pending := by
  rw [pending?, Option.mem_filter_iff, Option.mem_def, Table.find?_eq_some, decide_eq_true_eq, and_assoc]

theorem mem_retryDelivery {id : Uuid} : d ∈ (s.retryDelivery id).deliveries ↔
    ∃ a ∈ s.deliveries, (if (a.id = id && a.status = .failed) = true then a.requeued s.now else a) = d := by
  rw [retryDelivery, Table.mem_update]

theorem mem_settleNotReady {leaseSeconds : ℕ} : d ∈ (s.settleNotReady leaseSeconds).deliveries ↔
    ∃ a ∈ s.deliveries, (if s.notReady leaseSeconds a = true then a.settled else a) = d := by
  rw [settleNotReady, Table.mem_update]

theorem mem_claimDue : d ∈ (s.claimDue config i locked).deliveries ↔
    ∃ a ∈ s.deliveries, (if (s.due config locked).any (·.id = a.id) = true then a.claimed s.now else a) = d := by
  rw [claimDue, Table.mem_update]

theorem mem_report {j : ClaimedJob} {m : Mark} : d ∈ (s.report j m).deliveries ↔
    ∃ a ∈ s.deliveries, (if (a.id = j.job.id && a.status = .pending) = true then m.row s.now a else a) = d := by
  rw [report, Table.mem_update]

end Queue

end Omnion.Notifications
