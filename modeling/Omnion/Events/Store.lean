import Mathlib.Data.Prod.Lex
import Omnion.Library.Sorting
import Omnion.Library.Table
import Omnion.Events.Model

/-!
# The event bus and the delivery queue

The statements of `crates/events/src/store.rs` that write events, endpoints and
deliveries. Each is one statement of the database, or one transaction, so each happens
at one instant; which rows other statements hold locked at that instant (`for update
skip locked`) is an argument. Rows that tie in an order may come in any: a run chooses
between them by what it takes as locked.

## What is proved

* a lemma for each statement that says which deliveries it leaves.

## Honest scope

`emit` first refuses some names and payloads; the events here are those it lets
through, and more. The name of an endpoint is unique in its organization, which nothing
here depends on. The identifiers of deliveries are random, and so arguments; the log of
the retention sweeps is left out.
-/

namespace Omnion.Events

open Sorting

/-! ### What a statement writes into a delivery -/

namespace Delivery

/-- The row once claimed. -/
def claimed (now : Instant) (d : Delivery) : Delivery :=
  { d with attempts := d.attempts + 1, claimedAt := some now }

/-- The row once its endpoint is found switched off. -/
def cancelled (d : Delivery) : Delivery :=
  { d with
    status := .failed, claimedAt := none
    error := some "the endpoint was switched off before the delivery went out" }

/-- The row once forced again. -/
def redelivered (now : Instant) (d : Delivery) : Delivery :=
  { d with
    status := .pending, attempts := 0, nextAttemptAt := now, claimedAt := none, responseStatus := none
    error := none, deliveredAt := none, durationMs := none, trigger := .replay
    redeliverCount := d.redeliverCount + 1, replayedAt := some now }

/-- `mark_delivered`. -/
def markDelivered (now : Instant) (responseStatus durationMs : Option ℤ) (d : Delivery) : Delivery :=
  { d with
    status := .delivered, deliveredAt := some now, responseStatus
    durationMs := durationMs.or d.durationMs, error := none, claimedAt := none }

/-- `mark_retry`. -/
def markRetry (responseStatus : Option ℤ) (error : String) (nextAttemptAt : Instant)
    (durationMs : Option ℤ) (d : Delivery) : Delivery :=
  { d with
    nextAttemptAt, responseStatus, error := some error, claimedAt := none
    durationMs := durationMs.or d.durationMs }

/-- `mark_failed`. -/
def markFailed (responseStatus : Option ℤ) (error : String) (durationMs : Option ℤ) (d : Delivery) :
    Delivery :=
  { d with
    status := .failed, responseStatus, error := some error, claimedAt := none
    durationMs := durationMs.or d.durationMs }

@[simp] theorem claimed_id (now : Instant) (d : Delivery) : (d.claimed now).id = d.id := rfl

@[simp] theorem cancelled_id (d : Delivery) : d.cancelled.id = d.id := rfl

@[simp] theorem redelivered_id (now : Instant) (d : Delivery) : (d.redelivered now).id = d.id := rfl

/-- The claim on the row is younger than the lease. -/
def leased (now : Instant) (leaseSeconds : ℕ) (d : Delivery) : Bool :=
  d.claimedAt.any fun claimedAt => now - leaseSeconds * 1000000 < claimedAt

theorem leased_iff {now : Instant} {leaseSeconds : ℕ} {d : Delivery} :
    d.leased now leaseSeconds = true ↔ ∃ c, d.claimedAt = some c ∧ now - leaseSeconds * 1000000 < c := by
  simp [leased, Option.any_eq_true_iff_get, Option.eq_some_iff_get_eq]

theorem leased_claimed (now : Instant) (d : Delivery) {leaseSeconds : ℕ} (h : 0 < leaseSeconds) :
    (d.claimed now).leased now leaseSeconds = true := by
  have hlease : (0 : ℤ) < leaseSeconds * 1000000 := by omega
  exact leased_iff.mpr ⟨now, rfl, Int.sub_lt_self now hlease⟩

/-- The order in which deliveries are claimed and sent. -/
def dueOrder (d : Delivery) : Instant ×ₗ Instant := toLex (d.nextAttemptAt, d.createdAt)

end Delivery

/-- What a worker reports on a delivery. -/
inductive Mark where
  | delivered (responseStatus durationMs : Option ℤ)
  /-- An attempt failed, and the next is scheduled. -/
  | retry (responseStatus : Option ℤ) (error : String) (nextAttemptAt : Instant) (durationMs : Option ℤ)
  | failed (responseStatus : Option ℤ) (error : String) (durationMs : Option ℤ)

/-- The row once reported on. -/
def Mark.row (now : Instant) : Mark → Delivery → Delivery
  | .delivered responseStatus durationMs => .markDelivered now responseStatus durationMs
  | .retry responseStatus error nextAttemptAt durationMs =>
    .markRetry responseStatus error nextAttemptAt durationMs
  | .failed responseStatus error durationMs => .markFailed responseStatus error durationMs

@[simp] theorem Mark.row_id (m : Mark) (now : Instant) (d : Delivery) : (m.row now d).id = d.id := by
  cases m <;> rfl

@[simp] theorem Mark.row_attempts (m : Mark) (now : Instant) (d : Delivery) :
    (m.row now d).attempts = d.attempts := by
  cases m <;> rfl

@[simp] theorem Mark.row_maxAttempts (m : Mark) (now : Instant) (d : Delivery) :
    (m.row now d).maxAttempts = d.maxAttempts := by
  cases m <;> rfl

/-! ### The store -/

/-- The tables, the next event's identifier and the time. -/
structure Store where
  /-- `now()`. -/
  now : Instant
  /-- `webhook_endpoints`. -/
  endpoints : Table WebhookEndpoint (·.id) := .empty
  /-- `events`. -/
  events : Table Event (·.id) := .empty
  /-- `webhook_deliveries`. -/
  deliveries : Table Delivery (·.id) := .empty
  /-- The identity column of `events`. -/
  nextEventId : ℤ := 1

namespace Store

/-! #### Endpoints -/

/-- `insert_endpoint`. -/
def insertEndpoint (s : Store) (w : WebhookEndpoint) : Option Store :=
  (s.endpoints.insert? w).map fun endpoints => { s with endpoints }

/-- `update_endpoint`. -/
def updateEndpoint (s : Store) (id : Uuid) (changes : EndpointChanges) : Store :=
  { s with endpoints := s.endpoints.update (·.id = id) changes.apply changes.apply_id }

/-- `delete_endpoint`: its deliveries go with it. -/
def deleteEndpoint (s : Store) (id : Uuid) : Store :=
  { s with
    endpoints := s.endpoints.delete (·.id = id)
    deliveries := s.deliveries.delete (·.endpointId = id) }

/-- The endpoint is switched on. -/
def enabled (s : Store) (endpointId : Uuid) : Bool := (s.endpoints.find? endpointId).any (·.enabled)

/-! #### Events and their deliveries -/

/-- The row of a delivery when it is queued. -/
def queuedRow (s : Store) (event : Event) (trigger : Trigger) (newId : Uuid → Uuid)
    (w : WebhookEndpoint) :
    Delivery :=
  { id := newId w.id, endpointId := w.id, eventId := event.id, nextAttemptAt := s.now, createdAt := s.now
    trigger }

/-- Insert deliveries, unless the endpoint has one of the event already (`on conflict
(endpoint_id, event_id) do nothing`). -/
def enqueue (s : Store) : List Delivery → Option Store
  | [] => some s
  | d :: ds =>
    if s.deliveries.rows.any fun d' => d'.endpointId = d.endpointId && d'.eventId = d.eventId then s.enqueue ds
    else (s.deliveries.insert? d).bind fun deliveries => { s with deliveries }.enqueue ds

/-- The group wildcard of an event name. -/
def wildcard (name : String) : String := String.ofList (name.toList.takeWhile (· ≠ '.')) ++ ".*"

/-- The subscribed, enabled endpoints of the event's organization. -/
def fanout (s : Store) (event : Event) : List WebhookEndpoint :=
  match event.organizationId with
  | none => []
  | some organizationId =>
    s.endpoints.rows.filter fun w =>
      w.enabled && w.organizationId = organizationId && (event.name ∈ w.events || wildcard event.name ∈ w.events)

/-- `insert_event`. -/
def insertEvent (s : Store) (new : NewEvent) : Option (Event × Store) :=
  let event := new.row s.nextEventId s.now
  (s.events.insert? event).map fun events => (event, { s with events, nextEventId := s.nextEventId + 1 })

/-- The deliveries `emit` queues of an event. -/
def fanoutRows (s : Store) (event : Event) (newId : Uuid → Uuid) : List Delivery :=
  (s.fanout event).map (s.queuedRow event .event newId)

/-- The deliveries `emit_to` queues of an event: to these endpoints, switched on or not. -/
def targetedRows (s : Store) (event : Event) (endpointIds : List Uuid) (newId : Uuid → Uuid) :
    List Delivery :=
  (s.endpoints.rows.filter (·.id ∈ endpointIds)).map (s.queuedRow event .test newId)

/-- `emit` and `emit_to`: the event and its deliveries, or neither. `none` as endpoints
is the fan-out. -/
def emit (s : Store) (new : NewEvent) (endpointIds : Option (List Uuid)) (newId : Uuid → Uuid) :
    Option (List Delivery × Store) :=
  (s.insertEvent new).bind fun (event, s) =>
    let rows := match endpointIds with
      | none => s.fanoutRows event newId
      | some ids => s.targetedRows event ids newId
    (s.enqueue rows).map fun s => (rows, s)

/-- `sweep_events`: the events of an organization older than its window, unless one of
their deliveries is pending, and their deliveries. -/
def sweepEvents (s : Store) (organizationId : Option Uuid) (windowDays : ℤ) : Store :=
  let cutoff := s.now - windowDays * 86400000000
  let due := s.events.rows.filter fun e =>
    e.organizationId = organizationId && e.createdAt < cutoff &&
      !s.deliveries.rows.any fun d => d.eventId = e.id && d.status = .pending
  { s with
    events := s.events.delete fun e => due.any (·.id = e.id)
    deliveries := s.deliveries.delete fun d => due.any (·.id = d.eventId) }

/-! #### The queue -/

/-- The delivery may be claimed. -/
def isDue (s : Store) (leaseSeconds : ℕ) (d : Delivery) : Bool :=
  d.status = .pending && s.enabled d.endpointId && d.nextAttemptAt ≤ s.now && !d.leased s.now leaseSeconds

/-- The deliveries a claim takes. -/
def due (s : Store) (config : RunnerConfig) (locked : List Uuid) : List Delivery :=
  (sortBy Delivery.dueOrder (s.deliveries.rows.filter fun d => s.isDue config.leaseSeconds d && d.id ∉ locked)).take
    config.batch

/-- The first statement of `claim_due`. -/
def claimDue (s : Store) (config : RunnerConfig) (locked : List Uuid) : Store :=
  { s with
    deliveries := s.deliveries.update (fun d => (s.due config locked).any (·.id = d.id)) (.claimed s.now)
      (Delivery.claimed_id s.now) }

/-- The job of a delivery, with its endpoint and its event. -/
def job (s : Store) (d : Delivery) : Option DeliveryJob :=
  (s.endpoints.find? d.endpointId).bind fun w => (s.events.find? d.eventId).map fun e => .of d w e

/-- The second statement of `claim_due`. -/
def loadJobs (s : Store) (ids : List Uuid) : List DeliveryJob :=
  (sortBy Delivery.dueOrder (s.deliveries.rows.filter (·.id ∈ ids))).filterMap s.job

/-- The delivery is pending, nobody holds it, and its endpoint is switched off. -/
def isAbandoned (s : Store) (leaseSeconds : ℕ) (d : Delivery) : Bool :=
  (s.endpoints.find? d.endpointId).any (fun w => !w.enabled) && d.status = .pending && !d.leased s.now leaseSeconds

/-- `cancel_pending_for_disabled`. -/
def cancelPendingForDisabled (s : Store) (leaseSeconds : ℕ) : Store :=
  { s with deliveries := s.deliveries.update (s.isAbandoned leaseSeconds) .cancelled Delivery.cancelled_id }

/-- `mark_delivered`, `mark_retry` and `mark_failed`. -/
def mark (s : Store) (id : Uuid) (m : Mark) : Store :=
  { s with deliveries := s.deliveries.update (·.id = id) (m.row s.now) (m.row_id s.now) }

end Store

/-! #### Forcing a delivery again -/

/-- Why one redelivery was refused. -/
inductive RedeliverRefusal where
  /-- No delivery with that identifier on this endpoint. -/
  | unknown
  /-- The runner already owns it, or is about to. -/
  | alreadyPending
  /-- The row has been forced again ten times already. -/
  | overCap

/-- The machine-readable code. -/
def RedeliverRefusal.code : RedeliverRefusal → String
  | .unknown => "delivery_not_found"
  | .alreadyPending => "delivery_already_pending"
  | .overCap => "redeliver_limit_reached"

/-- The sentence the operator reads. -/
def RedeliverRefusal.message : RedeliverRefusal → String
  | .unknown => "no such delivery on this endpoint"
  | .alreadyPending => "this delivery is already queued for another attempt"
  | .overCap => "this delivery has already been sent again ten times"

/-- The delivery may be forced again. -/
def Delivery.redeliverable (endpointId id : Uuid) (d : Delivery) : Bool :=
  d.id = id && d.endpointId = endpointId && d.status ≠ .pending && d.redeliverCount < maxRedeliveries

/-- `redeliver`: the new count, or the refusal. -/
def Store.redeliver (s : Store) (endpointId id : Uuid) : Except RedeliverRefusal ℕ × Store :=
  match s.deliveries.rows.find? (Delivery.redeliverable endpointId id) with
  | some d =>
    (.ok (d.redeliverCount + 1), { s with
      deliveries := s.deliveries.update (Delivery.redeliverable endpointId id) (.redelivered s.now)
        (Delivery.redelivered_id s.now) })
  | none =>
    match s.deliveries.rows.find? fun d => d.id = id && d.endpointId = endpointId with
    | none => (.error .unknown, s)
    | some d => if d.status = .pending then (.error .alreadyPending, s) else (.error .overCap, s)

/-! ### What the statements leave -/

section Rows

variable {s t : Store} {d : Delivery} {config : RunnerConfig} {locked : List Uuid} {leaseSeconds : ℕ}

theorem Store.isDue_iff :
    s.isDue leaseSeconds d = true ↔ d.status = .pending ∧ s.enabled d.endpointId = true ∧
      d.nextAttemptAt ≤ s.now ∧ d.leased s.now leaseSeconds = false := by
  simp [isDue, and_assoc]

theorem Store.mem_due (h : d ∈ s.due config locked) :
    d ∈ s.deliveries ∧ s.isDue config.leaseSeconds d = true := by
  have hmem := mem_sortBy.mp (List.mem_of_mem_take h)
  simp only [List.mem_filter, Bool.and_eq_true] at hmem
  exact ⟨hmem.1, hmem.2.1⟩

theorem Store.nodup_due : ((s.due config locked).map (·.id)).Nodup :=
  nodup_map_take_sortBy (s.deliveries.nodup.sublist (List.filter_sublist.map _)) _

theorem Store.mem_claimDue :
    d ∈ (s.claimDue config locked).deliveries ↔
      ∃ a ∈ s.deliveries, a ∈ s.due config locked ∧ d = a.claimed s.now ∨ a ∉ s.due config locked ∧ d = a := by
  have hany : ∀ a ∈ s.deliveries, ((s.due config locked).any (·.id = a.id) = true ↔ a ∈ s.due config locked) := by
    intro a ha
    rw [List.any_eq_true]
    constructor
    · rintro ⟨b, hb, hid⟩
      obtain rfl := Table.eq_of_key (mem_due hb).1 ha (of_decide_eq_true hid)
      exact hb
    · exact fun h => ⟨a, h, decide_eq_true rfl⟩
  rw [claimDue, Table.mem_update]
  refine exists_congr fun a => and_congr_right fun ha => ?_
  by_cases hdue : a ∈ s.due config locked
  · rw [if_pos ((hany a ha).mpr hdue)]
    simp only [hdue, true_and, not_true_eq_false, false_and, or_false]
    exact eq_comm
  · rw [if_neg (mt (hany a ha).mp hdue)]
    simp only [hdue, false_and, not_false_eq_true, true_and, false_or]
    exact eq_comm

theorem Store.mem_cancelPendingForDisabled :
    d ∈ (s.cancelPendingForDisabled leaseSeconds).deliveries ↔
      ∃ a ∈ s.deliveries, (if s.isAbandoned leaseSeconds a then a.cancelled else a) = d := by
  rw [cancelPendingForDisabled, Table.mem_update]

theorem Store.isAbandoned_iff :
    s.isAbandoned leaseSeconds d = true ↔ (∃ w, s.endpoints.find? d.endpointId = some w ∧ w.enabled = false) ∧
      d.status = .pending ∧ d.leased s.now leaseSeconds = false := by
  simp [isAbandoned, Option.any_eq_true_iff_get, Option.eq_some_iff_get_eq, and_assoc]

theorem Store.mem_mark {id : Uuid} {m : Mark} :
    d ∈ (s.mark id m).deliveries ↔ ∃ a ∈ s.deliveries, (if a.id = id then m.row s.now a else a) = d := by
  simp [mark, Table.mem_update]

theorem Store.mem_deleteEndpoint {id : Uuid} (h : d ∈ (s.deleteEndpoint id).deliveries) :
    d ∈ s.deliveries :=
  (Table.mem_delete.mp h).1

theorem Store.mem_sweepEvents {organizationId : Option Uuid} {windowDays : ℤ}
    (h : d ∈ (s.sweepEvents organizationId windowDays).deliveries) : d ∈ s.deliveries :=
  (Table.mem_delete.mp h).1

/-- The deliveries after an insert are those before and inserted ones, of identifiers
not in use. -/
theorem Store.mem_enqueue :
    ∀ {ds : List Delivery} {s : Store}, s.enqueue ds = some t → d ∈ t.deliveries →
    d ∈ s.deliveries ∨ d ∈ ds
  | [], s, h, hd => by
    cases h
    exact .inl hd
  | d' :: ds, s, h, hd => by
    rw [enqueue] at h
    split_ifs at h
    · exact (mem_enqueue h hd).imp_right (List.mem_cons_of_mem _)
    · obtain ⟨deliveries, hinsert, h⟩ := Option.bind_eq_some_iff.mp h
      rcases mem_enqueue h hd with hd | hd
      · rcases (Table.mem_insert? hinsert).mp hd with hd | rfl
        · exact .inl hd
        · exact .inr (List.mem_cons_self ..)
      · exact .inr (List.mem_cons_of_mem _ hd)

theorem Store.enqueue_now : ∀ {ds : List Delivery} {s : Store}, s.enqueue ds = some t → t.now = s.now
  | [], s, h => by
    cases h
    rfl
  | d' :: ds, s, h => by
    rw [enqueue] at h
    split_ifs at h
    · exact enqueue_now h
    · obtain ⟨deliveries, hinsert, h⟩ := Option.bind_eq_some_iff.mp h
      have hnow := enqueue_now h
      exact hnow

/-- A delivery as it is queued. -/
structure Delivery.Fresh (d : Delivery) : Prop where
  status : d.status = .pending
  attempts : d.attempts = 0
  maxAttempts : d.maxAttempts = defaultMaxAttempts
  claimedAt : d.claimedAt = none

/-- What `emit` leaves. -/
theorem Store.mem_emit {new : NewEvent} {endpointIds : Option (List Uuid)} {newId : Uuid → Uuid}
    {rows : List Delivery} (h : s.emit new endpointIds newId = some (rows, t)) :
    t.now = s.now ∧ (∀ r ∈ rows, r.Fresh) ∧ ∀ d ∈ t.deliveries, d ∈ s.deliveries ∨ d ∈ rows := by
  obtain ⟨⟨event, u⟩, hinsert, h⟩ := Option.bind_eq_some_iff.mp h
  obtain ⟨events, -, hu⟩ := Option.map_eq_some_iff.mp hinsert
  obtain ⟨-, rfl⟩ := Prod.mk.inj hu
  obtain ⟨t', henqueue, h⟩ := Option.map_eq_some_iff.mp h
  obtain ⟨rfl, rfl⟩ := Prod.mk.inj h
  have hnow := enqueue_now henqueue
  have hmem : ∀ d ∈ t'.deliveries, _ := fun d hd => mem_enqueue henqueue hd
  refine ⟨hnow, fun r hr => ?_, hmem⟩
  cases endpointIds with
  | none =>
    obtain ⟨w, -, rfl⟩ := List.mem_map.mp hr
    exact ⟨rfl, rfl, rfl, rfl⟩
  | some ids =>
    obtain ⟨w, -, rfl⟩ := List.mem_map.mp hr
    exact ⟨rfl, rfl, rfl, rfl⟩

theorem Store.kept_enqueue : ∀ {ds : List Delivery} {s : Store}, s.enqueue ds = some t →
    (∀ a ∈ s.deliveries, a ∈ t.deliveries) ∧ t.events = s.events ∧ t.nextEventId = s.nextEventId
  | [], s, h => by
    cases h
    exact ⟨fun _ ha => ha, rfl, rfl⟩
  | d' :: ds, s, h => by
    rw [enqueue] at h
    split_ifs at h
    · exact kept_enqueue h
    · obtain ⟨deliveries, hinsert, h⟩ := Option.bind_eq_some_iff.mp h
      obtain ⟨hkept, hevents, hnext⟩ := kept_enqueue h
      exact ⟨fun a ha => hkept a ((Table.mem_insert? hinsert).mpr (.inl ha)), hevents, hnext⟩

/-- The event that `emit` records is the next one, and its deliveries are of it. -/
theorem Store.kept_emit {new : NewEvent} {endpointIds : Option (List Uuid)} {newId : Uuid → Uuid}
    {rows : List Delivery} (h : s.emit new endpointIds newId = some (rows, t)) :
    (∀ a ∈ s.deliveries, a ∈ t.deliveries) ∧ (∀ r ∈ rows, r.eventId = s.nextEventId) ∧
      t.nextEventId = s.nextEventId + 1 ∧
      ∀ event ∈ t.events, event ∈ s.events ∨ event = new.row s.nextEventId s.now := by
  obtain ⟨⟨event, u⟩, hinsert, h⟩ := Option.bind_eq_some_iff.mp h
  obtain ⟨events, hevents, hu⟩ := Option.map_eq_some_iff.mp hinsert
  cases hu
  obtain ⟨t', henqueue, h⟩ := Option.map_eq_some_iff.mp h
  cases h
  obtain ⟨hkept, hsame, hnext⟩ := kept_enqueue henqueue
  refine ⟨hkept, fun r hr => ?_, hnext, fun event hevent => ?_⟩
  · cases endpointIds with
    | none =>
      obtain ⟨w, -, rfl⟩ := List.mem_map.mp hr
      rfl
    | some ids =>
      obtain ⟨w, -, rfl⟩ := List.mem_map.mp hr
      rfl
  · rw [hsame] at hevent
    exact (Table.mem_insert? hevents).mp hevent

theorem Store.mem_redeliver {endpointId id : Uuid} (h : d ∈ (s.redeliver endpointId id).2.deliveries) :
    ∃ a ∈ s.deliveries, (if a.redeliverable endpointId id then a.redelivered s.now else a) = d := by
  unfold redeliver at h
  split at h
  · simpa only [Table.mem_update] using h
  · rename_i hnone
    have hrefused : ∀ a ∈ s.deliveries, a.redeliverable endpointId id = false := fun a ha => by
      simpa using List.find?_eq_none.mp hnone a ha
    split at h
    · exact ⟨d, h, by simp [hrefused d h]⟩
    · split_ifs at h
      · exact ⟨d, h, by simp [hrefused d h]⟩
      · exact ⟨d, h, by simp [hrefused d h]⟩

theorem Delivery.redeliverable_iff {endpointId id : Uuid} :
    d.redeliverable endpointId id = true ↔
      d.id = id ∧ d.endpointId = endpointId ∧ d.status ≠ .pending ∧ d.redeliverCount < maxRedeliveries := by
  simp [redeliverable, and_assoc]

theorem Store.redeliver_ok {endpointId id : Uuid} {count : ℕ}
    (h : s.redeliver endpointId id = (.ok count, t)) :
    ∃ a ∈ s.deliveries, a.id = id ∧ a.redeliverable endpointId id = true := by
  unfold redeliver at h
  split at h
  · rename_i a ha
    have hforced := List.find?_some ha
    exact ⟨a, List.mem_of_find?_eq_some ha, (Delivery.redeliverable_iff.mp hforced).1, hforced⟩
  · split at h
    · cases h
    · split_ifs at h <;> cases h

theorem Store.redeliver_now {endpointId id : Uuid} {count : ℕ}
    (h : s.redeliver endpointId id = (.ok count, t)) : t.now = s.now := by
  unfold redeliver at h
  split at h
  · cases h
    rfl
  · split at h
    · cases h
    · split_ifs at h <;> cases h

theorem Store.nodup_loadJobs (s : Store) (ids : List Uuid) :
    ((s.loadJobs ids).map (·.deliveryId)).Nodup := by
  have hrows : ((s.deliveries.rows.filter (·.id ∈ ids)).map (·.id)).Nodup :=
    s.deliveries.nodup.sublist (List.filter_sublist.map _)
  have hsorted := ((sortBy_perm Delivery.dueOrder _).map (·.id)).nodup_iff.mpr hrows
  refine hsorted.sublist (Table.keys_filterMap (fun d j hjob => ?_) _)
  obtain ⟨w, -, hjob⟩ := Option.bind_eq_some_iff.mp hjob
  obtain ⟨e, -, rfl⟩ := Option.map_eq_some_iff.mp hjob
  rfl

end Rows

end Omnion.Events
