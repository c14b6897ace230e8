import Omnion.Events.Runner

/-!
# Retention sweeps against the delivery runners

`sweep_events` of `crates/events/src/store.rs`, taken apart into its statements and
these into their snapshots and row deletions, next to the steps of the queue.

## The model

A sweep is one transaction of two statements. The first deletes the deliveries of the
events that are due in its snapshot and counts them, the second deletes the events that
are due in a snapshot of its own, and the foreign key takes what deliveries these still
have. A row it has deleted is locked until it commits, or is given back when it rolls
back; a step that would write a locked row waits. What a sweep commits is kept with the
report it answers.

## What is proved

* `run_swept` — in the runs where nobody takes an old event's last pending delivery out
  of the queue between the two snapshots of a sweep, and nobody forces a delivery again
  that the first statement is about to delete, a sweep removes no pending delivery and
  counts what it removes.
* `uncounted` — a worker that settles the last pending delivery between the statements
  makes a sweep remove deliveries it has not counted, and a delivery that is forced again
  during the first statement is removed while it is pending.

## Honest scope

The row of the run log and its identifier are left out, and counts are not bounded by 63
bits. Rows of one statement are deleted in the order in which they were inserted.
-/

namespace Omnion.Events

open Transition

/-! ### Which rows a step writes -/

namespace Queue

/-- The step writes the row of the delivery. -/
def touches (config : RunnerConfig) (s : Queue) (d : Delivery) : Step → Bool
  | .mark i =>
    match s.workers i with
    | .marking j _ _ => j.job.deliveryId = d.id
    | _ => false
  | .redeliver endpointId id => d.redeliverable endpointId id
  | .cancel _ => s.store.isAbandoned config.leaseSeconds d
  | .claim _ locked => d.id ∉ locked
  | .disconnect id => d.endpointId = id
  | .sweep .. => true
  | _ => false

/-- The step takes the delivery out of the queue. -/
def settles (config : RunnerConfig) (s : Queue) (d : Delivery) : Step → Bool
  | .mark i =>
    match s.workers i with
    | .marking _ (.retry ..) _ => false
    | .marking j _ _ => j.job.deliveryId = d.id
    | _ => false
  | .cancel _ => s.store.isAbandoned config.leaseSeconds d
  | .disconnect id => d.endpointId = id
  | .sweep .. => true
  | _ => false

end Queue

def Step.removes (d : Delivery) : Step → Bool
  | .disconnect id => d.endpointId = id
  | _ => false

/-! ### The sweeps -/

/-- A sweep, and what it has deleted so far. -/
structure Sweep where
  organizationId : Option Uuid
  windowDays : ℤ
  cutoff : Instant
  /-- The rows its first statement deleted. -/
  deliveriesDeleted : ℕ := 0
  /-- The rows its second statement deleted. -/
  eventsDeleted : ℕ := 0

/-- How far a sweep has come. -/
inductive SweepStage where
  | idle
  /-- The cutoff is read off the clock. -/
  | begun (w : Sweep)
  /-- The first statement: the events due in its snapshot, and the deliveries left to delete. -/
  | counting (w : Sweep) (due : List ℤ) (rest : List Uuid)
  | counted (w : Sweep)
  /-- The second statement: the events left to delete, and those deleted. -/
  | removing (w : Sweep) (rest gone : List ℤ)
  /-- The deliveries of deleted events go with them. -/
  | cascading (w : Sweep) (rest : List ℤ)

/-- A committed sweep, with the deliveries it removed. -/
structure Swept where
  report : Sweep
  removed : List Delivery

/-- The queue, the sweeps, and the rows they hold. -/
structure Sweeping where
  queue : Queue
  sweeps : ℕ → SweepStage
  /-- The sweep that has deleted a delivery and has not committed. -/
  heldBy : Uuid → Option ℕ
  /-- The sweep that has deleted an event and has not committed. -/
  eventHeldBy : ℤ → Option ℕ
  swept : List Swept

/-- The event is past a sweep's window. -/
def Sweep.old (w : Sweep) (event : Event) : Bool :=
  event.organizationId = w.organizationId && event.createdAt < w.cutoff

namespace Sweeping

/-- Before anything happens. -/
def start (now : Instant) : Sweeping where
  queue := .empty now
  sweeps := fun _ => .idle
  heldBy := fun _ => none
  eventHeldBy := fun _ => none
  swept := []

/-- `webhook_deliveries`. -/
abbrev deliveries (s : Sweeping) : Table Delivery (·.id) := s.queue.store.deliveries

/-- `events`. -/
abbrev events (s : Sweeping) : Table Event (·.id) := s.queue.store.events

/-- Sweep `c` goes on to a stage. -/
def move (s : Sweeping) (c : ℕ) (stage : SweepStage) : Sweeping :=
  { s with sweeps := Function.update s.sweeps c stage }

/-- The step writes a row that a sweep has deleted: it waits. -/
def waits (config : RunnerConfig) (s : Sweeping) (e : Step) : Bool :=
  s.deliveries.rows.any fun d => (s.heldBy d.id).isSome && s.queue.touches config d e

/-- The events that are due in a snapshot of sweep `c`, which does not see what it has deleted. -/
def dueEvents (s : Sweeping) (c : ℕ) (w : Sweep) : List ℤ :=
  (s.events.rows.filter fun event => w.old event &&
    !s.deliveries.rows.any fun d => d.eventId = event.id && d.status = .pending && s.heldBy d.id ≠ some c).map (·.id)

/-- The snapshot of the first statement. -/
def select (s : Sweeping) (c : ℕ) (w : Sweep) : Sweeping :=
  let due := s.dueEvents c w
  s.move c (.counting w due ((s.deliveries.rows.filter (·.eventId ∈ due)).map (·.id)))

/-- The first statement deletes a delivery, which is looked at again as it is now. One that is gone is
passed over. -/
def delete (s : Sweeping) (c : ℕ) (w : Sweep) (due : List ℤ) (id : Uuid) (rest : List Uuid) : Sweeping :=
  match (s.deliveries.find? id).filter (·.eventId ∈ due) with
  | none => s.move c (.counting w due rest)
  | some _ =>
    { s.move c (.counting { w with deliveriesDeleted := w.deliveriesDeleted + 1 } due rest) with
      heldBy := Function.update s.heldBy id (some c) }

/-- The second statement deletes an event. One that is gone is passed over. -/
def deleteEvent (s : Sweeping) (c : ℕ) (w : Sweep) (id : ℤ) (rest gone : List ℤ) : Sweeping :=
  match s.events.find? id with
  | none => s.move c (.removing w rest gone)
  | some _ =>
    { s.move c (.removing { w with eventsDeleted := w.eventsDeleted + 1 } rest (id :: gone)) with
      eventHeldBy := Function.update s.eventHeldBy id (some c) }

/-- The deliveries of a deleted event that its sweep has not deleted itself. -/
def orphans (s : Sweeping) (c : ℕ) (id : ℤ) : List Delivery :=
  s.deliveries.rows.filter fun d => d.eventId = id && s.heldBy d.id ≠ some c

/-- The deliveries of a deleted event go with it. -/
def cascade (s : Sweeping) (c : ℕ) (w : Sweep) (id : ℤ) (rest : List ℤ) : Sweeping :=
  { s.move c (.cascading w rest) with
    heldBy := fun key => if (s.orphans c id).any (·.id = key) then some c else s.heldBy key }

/-- Sweep `c` gives its locks back. -/
def release (s : Sweeping) (c : ℕ) : Sweeping :=
  { s.move c .idle with
    heldBy := fun id => (s.heldBy id).filter (· ≠ c)
    eventHeldBy := fun id => (s.eventHeldBy id).filter (· ≠ c) }

/-- The deliveries sweep `c` has deleted. -/
def heldRows (s : Sweeping) (c : ℕ) : List Delivery := s.deliveries.rows.filter fun d => s.heldBy d.id = some c

/-- Sweep `c` commits. -/
def commit (s : Sweeping) (c : ℕ) (w : Sweep) : Sweeping :=
  let store := s.queue.store
  { s.release c with
    queue := { s.queue with store := { store with
      events := store.events.delete fun event => s.eventHeldBy event.id = some c
      deliveries := store.deliveries.delete fun d => s.heldBy d.id = some c } }
    swept := s.swept ++ [⟨w, s.heldRows c⟩] }

end Sweeping

/-- What happens. -/
inductive SweepEvent where
  /-- A step of the queue. -/
  | queue (e : Step)
  /-- A sweep reads the clock. -/
  | start (c : ℕ) (organizationId : Option Uuid) (windowDays : ℤ)
  /-- Its first statement takes its snapshot, -/
  | select (c : ℕ)
  /-- deletes a delivery, -/
  | delete (c : ℕ)
  /-- and is over. -/
  | count (c : ℕ)
  /-- Its second statement takes its snapshot, -/
  | selectEvents (c : ℕ)
  /-- deletes an event, -/
  | deleteEvent (c : ℕ)
  /-- and has deleted them all. -/
  | deleted (c : ℕ)
  /-- The deliveries of a deleted event go with it. -/
  | cascade (c : ℕ)
  /-- The sweep commits, -/
  | commit (c : ℕ)
  /-- or rolls back. -/
  | rollback (c : ℕ)

/-- One step. A step or a deletion that meets a row locked by another sweep waits. -/
def sweepStep (config : RunnerConfig) (s : Sweeping) : SweepEvent → Option Sweeping
  | .queue (.sweep ..) => none
  | .queue e => if s.waits config e then none else (queueStep config s.queue e).map fun queue => { s with queue }
  | .start c organizationId windowDays =>
    match s.sweeps c with
    | .idle =>
      -- `organizations_event_retention_days_check`
      if 1 ≤ windowDays ∧ windowDays ≤ 3650 then
        some (s.move c (.begun
          { organizationId, windowDays, cutoff := s.queue.store.now - windowDays * 86400000000 }))
      else none
    | _ => none
  | .select c =>
    match s.sweeps c with
    | .begun w => some (s.select c w)
    | _ => none
  | .delete c =>
    match s.sweeps c with
    | .counting w due (id :: rest) =>
      if (s.heldBy id).isSome then none else some (s.delete c w due id rest)
    | _ => none
  | .count c =>
    match s.sweeps c with
    | .counting w _ [] => some (s.move c (.counted w))
    | _ => none
  | .selectEvents c =>
    match s.sweeps c with
    | .counted w => some (s.move c (.removing w (s.dueEvents c w) []))
    | _ => none
  | .deleteEvent c =>
    match s.sweeps c with
    | .removing w (id :: rest) gone =>
      if (s.eventHeldBy id).isSome then none else some (s.deleteEvent c w id rest gone)
    | _ => none
  | .deleted c =>
    match s.sweeps c with
    | .removing w [] gone => some (s.move c (.cascading w gone))
    | _ => none
  | .cascade c =>
    match s.sweeps c with
    | .cascading w (id :: rest) =>
      if (s.orphans c id).any fun d => (s.heldBy d.id).isSome then none else some (s.cascade c w id rest)
    | _ => none
  | .commit c =>
    match s.sweeps c with
    | .cascading w [] => some (s.commit c w)
    | _ => none
  | .rollback c => some (s.release c)

/-! ### What a step of the queue does to the store -/

section Queue

variable {config : RunnerConfig} {s t : Queue} {e : Step}

/-- What a step does to the events and the deliveries: events and deliveries that come are new, a delivery
stays pending unless it is settled, and becomes pending only when it is forced again. -/
structure Shifted (config : RunnerConfig) (s : Queue) (e : Step) (t : Queue) : Prop where
  now : s.store.now ≤ t.store.now
  nextEventId : s.store.nextEventId ≤ t.store.nextEventId
  events : ∀ event ∈ t.store.events, event ∈ s.store.events ∨
    s.store.nextEventId ≤ event.id ∧ event.id < t.store.nextEventId ∧ s.store.now ≤ event.createdAt
  rows : ∀ d ∈ t.store.deliveries, s.store.nextEventId ≤ d.eventId ∨
    ∃ a ∈ s.store.deliveries, a.id = d.id ∧ a.eventId = d.eventId ∧ e.removes a = false ∧
      (d.status = .pending → a.status = .pending ∨
        ∃ endpointId id, e = .redeliver endpointId id ∧ a.redeliverable endpointId id = true)
  pending : ∀ a ∈ s.store.deliveries, a.status = .pending → s.settles config a e = false →
    ∃ d ∈ t.store.deliveries, d.eventId = a.eventId ∧ d.status = .pending
  kept : ∀ a ∈ s.store.deliveries, s.touches config a e = false → a ∈ t.store.deliveries

theorem Shifted.same (hremoves : ∀ d, e.removes d = false) (hevents : t.store.events = s.store.events)
    (hdeliveries : t.store.deliveries = s.store.deliveries) (hnext : t.store.nextEventId = s.store.nextEventId)
    (hnow : s.store.now ≤ t.store.now) : Shifted config s e t := by
  refine ⟨hnow, hnext.ge, fun event hevent => .inl (hevents ▸ hevent), fun d hd => .inr ?_,
    fun a ha hpending _ => ⟨a, hdeliveries ▸ ha, rfl, hpending⟩, fun a ha _ => hdeliveries ▸ ha⟩
  exact ⟨d, hdeliveries ▸ hd, rfl, rfl, hremoves d, .inl⟩

/-- A step that updates the deliveries it touches. -/
theorem Shifted.of_update {p : Delivery → Bool} {f : Delivery → Delivery} (hf : ∀ d, (f d).id = d.id)
    (hremoves : ∀ d, e.removes d = false) (hevents : t.store.events = s.store.events)
    (hdeliveries : t.store.deliveries = s.store.deliveries.update p f hf)
    (hnext : t.store.nextEventId = s.store.nextEventId) (hnow : t.store.now = s.store.now)
    (heventId : ∀ d, (f d).eventId = d.eventId)
    (hstatus : ∀ d, p d = true → (f d).status = .pending → d.status = .pending ∨
      ∃ endpointId id, e = .redeliver endpointId id ∧ d.redeliverable endpointId id = true)
    (hsettles : ∀ d, p d = true → d.status = .pending → s.settles config d e = false → (f d).status = .pending)
    (htouches : ∀ d ∈ s.store.deliveries, p d = true → s.touches config d e = true) : Shifted config s e t := by
  have hrow : ∀ a, (if p a then f a else a).eventId = a.eventId := by
    intro a
    split_ifs
    · exact heventId a
    · rfl
  refine ⟨hnow.ge, hnext.ge, fun event hevent => .inl (hevents ▸ hevent), fun d hd => .inr ?_,
    fun a ha hpending hsettled => ⟨if p a then f a else a, ?_, hrow a, ?_⟩, fun a ha htouched => ?_⟩
  · rw [hdeliveries] at hd
    obtain ⟨a, ha, rfl⟩ := Table.mem_update.mp hd
    refine ⟨a, ha, ?_, (hrow a).symm, hremoves a, fun hpending => ?_⟩
    · split_ifs
      · exact (hf a).symm
      · rfl
    · split_ifs at hpending with hp
      · exact hstatus a hp hpending
      · exact .inl hpending
  · rw [hdeliveries]
    exact Table.mem_update.mpr ⟨a, ha, rfl⟩
  · split_ifs with hp
    · exact hsettles a hp hpending hsettled
    · exact hpending
  · rw [hdeliveries]
    refine Table.mem_update.mpr ⟨a, ha, if_neg fun hp => ?_⟩
    rw [htouches a ha hp] at htouched
    cases htouched

theorem shifted_emitted {new : NewEvent} {endpointIds : Option (List Uuid)} {newId : Uuid → Uuid}
    (hremoves : ∀ d, e.removes d = false) (h : s.emitted new endpointIds newId = some t) : Shifted config s e t := by
  obtain ⟨⟨rows, store⟩, hemit, h⟩ := Option.bind_eq_some_iff.mp h
  obtain ⟨hnow, -, hmem⟩ := Store.mem_emit hemit
  obtain ⟨hkept, hrows, hnext, hevents⟩ := Store.kept_emit hemit
  simp only at h
  split_ifs at h
  cases h
  refine ⟨hnow.ge, ?_, fun event hevent => ?_, fun d hd => ?_,
    fun a ha hpending _ => ⟨a, hkept a ha, rfl, hpending⟩, fun a ha _ => hkept a ha⟩
  · rw [hnext]
    exact Int.le_add_one le_rfl
  · rcases hevents event hevent with hold | rfl
    · exact .inl hold
    · exact .inr ⟨le_rfl, by simp only [hnext, NewEvent.row]; omega, le_rfl⟩
  · rcases hmem d hd with hd | hr
    · exact .inr ⟨d, hd, rfl, rfl, hremoves d, .inl⟩
    · exact .inl (hrows d hr).ge

theorem shifted_disconnect {id : Uuid} (h : queueStep config s (.disconnect id) = some t) :
    Shifted config s (.disconnect id) t := by
  cases h
  refine ⟨le_rfl, le_rfl, fun _ hevent => .inl hevent, fun d hd => .inr ?_, fun a ha hpending hsettled => ?_,
    fun a ha htouched => Table.mem_delete.mpr ⟨ha, htouched⟩⟩
  · obtain ⟨hmem, hother⟩ := Table.mem_delete.mp hd
    exact ⟨d, hmem, rfl, rfl, hother, .inl⟩
  · exact ⟨a, Table.mem_delete.mpr ⟨ha, hsettled⟩, rfl, hpending⟩

theorem shifted_redeliver {endpointId id : Uuid} (h : queueStep config s (.redeliver endpointId id) = some t) :
    Shifted config s (.redeliver endpointId id) t := by
  simp only [queueStep, Store.redeliver] at h
  split at h
  · rename_i hforced
    cases h
    split at hforced
    · obtain ⟨-, rfl⟩ := Prod.mk.inj hforced
      exact .of_update (Delivery.redelivered_id _) (fun _ => rfl) rfl rfl rfl rfl (fun _ => rfl)
        (fun d hd _ => .inr ⟨endpointId, id, rfl, hd⟩) (fun _ _ _ _ => rfl) fun d _ hd => hd
    · split at hforced
      · cases hforced
      · split_ifs at hforced <;> cases hforced
  · cases h
    exact .same (fun _ => rfl) rfl rfl rfl le_rfl

theorem shifted_cancel (h : queueStep config s (.cancel i) = some t) : Shifted config s (.cancel i) t := by
  simp only [queueStep] at h
  split at h
  · cases h
    refine .of_update Delivery.cancelled_id (fun _ => rfl) rfl rfl rfl rfl (fun _ => rfl)
      (fun _ _ hpending => by cases hpending)
      (fun d hd _ hsettled => ?_)
      fun d _ hd => hd
    rw [Queue.settles, hd] at hsettled
    cases hsettled
  · cases h

theorem shifted_claim {locked : List Uuid} (h : queueStep config s (.claim i locked) = some t) :
    Shifted config s (.claim i locked) t := by
  simp only [queueStep] at h
  split at h
  · cases h
    refine .of_update (Delivery.claimed_id _) (fun _ => rfl) rfl rfl rfl rfl (fun _ => rfl) (fun d _ hd => .inl hd)
      (fun d _ hd _ => hd)
      fun d _ hd => ?_
    obtain ⟨a, ha, hid⟩ := List.any_eq_true.mp hd
    have hfree := (List.mem_filter.mp (Sorting.mem_sortBy.mp (List.mem_of_mem_take ha))).2
    simp only [Bool.and_eq_true] at hfree
    rw [of_decide_eq_true hid] at hfree
    exact hfree.2
  · cases h

theorem shifted_mark (h : queueStep config s (.mark i) = some t) : Shifted config s (.mark i) t := by
  simp only [queueStep] at h
  split at h
  · rename_i j m jobs hworker
    cases h
    refine .of_update (p := fun d => d.id = j.job.deliveryId) (m.row_id s.store.now) (fun _ => rfl) rfl rfl rfl rfl
      (fun d => ?_) (fun d _ hpending => .inl ?_) (fun d hd hpending hsettled => ?_) fun d _ hd => ?_
    · cases m <;> rfl
    · cases m with
      | delivered responseStatus durationMs => cases hpending
      | retry responseStatus error nextAttemptAt durationMs => exact hpending
      | failed responseStatus error durationMs => cases hpending
    · have hid := (of_decide_eq_true hd).symm
      cases m with
      | delivered responseStatus durationMs => simp [Queue.settles, hworker, hid] at hsettled
      | retry responseStatus error nextAttemptAt durationMs => exact hpending
      | failed responseStatus error durationMs => simp [Queue.settles, hworker, hid] at hsettled
    · have hid := (of_decide_eq_true hd).symm
      simp [Queue.touches, hworker, hid]
  · cases h

/-- One case per step. -/
theorem shifted (h : queueStep config s e = some t) : Shifted config s e t := by
  cases e with
  | connect w =>
    obtain ⟨store, hinsert, rfl⟩ := Option.map_eq_some_iff.mp h
    obtain ⟨endpoints, -, rfl⟩ := Option.map_eq_some_iff.mp hinsert
    exact .same (fun _ => rfl) rfl rfl rfl le_rfl
  | change id changes =>
    cases h
    exact .same (fun _ => rfl) rfl rfl rfl le_rfl
  | disconnect id => exact shifted_disconnect h
  | emit new endpointIds newId => exact shifted_emitted (fun _ => rfl) h
  | redeliver endpointId id => exact shifted_redeliver h
  | sweep organizationId windowDays =>
    cases h
    refine ⟨le_rfl, le_rfl, fun _ hevent => .inl (Table.mem_delete.mp hevent).1, fun d hd => .inr ?_,
      fun _ _ _ hkept => (by cases hkept), fun _ _ huntouched => (by cases huntouched)⟩
    exact ⟨d, Store.mem_sweepEvents hd, rfl, rfl, rfl, .inl⟩
  | cancel i => exact shifted_cancel h
  | claim i locked => exact shifted_claim h
  | load i =>
    simp only [queueStep] at h
    split at h
    · cases h
      exact .same (fun _ => rfl) rfl rfl rfl le_rfl
    · cases h
  | send i outcome durationMs =>
    simp only [queueStep] at h
    split at h
    · cases h
      exact .same (fun _ => rfl) rfl rfl rfl le_rfl
    · cases h
  | mark i => exact shifted_mark h
  | announce i newId =>
    simp only [queueStep] at h
    split at h
    · rename_i event jobs hworker
      cases h
      cases hemitted : s.emitted event none newId with
      | none => exact .same (fun _ => rfl) rfl rfl rfl le_rfl
      | some u =>
        have hshifted : Shifted config s (.announce i newId) u := shifted_emitted (fun _ => rfl) hemitted
        exact ⟨hshifted.now, hshifted.nextEventId, hshifted.events, hshifted.rows, hshifted.pending, hshifted.kept⟩
    · cases h
  | crash i =>
    cases h
    exact .same (fun _ => rfl) rfl rfl rfl le_rfl
  | tick now =>
    simp only [queueStep] at h
    split_ifs at h with hnow
    cases h
    exact .same (fun _ => rfl) rfl rfl rfl hnow

end Queue

/-! ### What a sweep relies on -/

/-- The sweep has taken its first snapshot and not its second. -/
def SweepStage.between : SweepStage → Option Sweep
  | .counting w _ _ | .counted w => some w
  | _ => none

/-- The step takes the last pending delivery of an event out of the queue, and leaves a delivery of it. -/
def Queue.Strands (config : RunnerConfig) (s : Queue) (e : Step) (event : Event) : Prop :=
  (∃ d ∈ s.store.deliveries, d.eventId = event.id ∧ d.status = .pending) ∧
    (∀ d ∈ s.store.deliveries, d.eventId = event.id → d.status = .pending → s.settles config d e = true) ∧
    ∃ d ∈ s.store.deliveries, d.eventId = event.id ∧ e.removes d = false

namespace Sweeping

variable {config : RunnerConfig} {s t : Sweeping} {c : ℕ} {w : Sweep} {due : List ℤ}

/-- **The steps allowed**: between the two snapshots of a sweep nobody takes an old event's last pending
delivery out of the queue, and nobody forces a delivery again that the first statement is to delete. -/
def Undisturbed (config : RunnerConfig) (s : Sweeping) : SweepEvent → Prop
  | .queue e =>
    (∀ c w, (s.sweeps c).between = some w → ∀ event ∈ s.events, w.old event = true →
      ¬ s.queue.Strands config e event) ∧
    ∀ endpointId id, e = .redeliver endpointId id → ∀ c w due rest, s.sweeps c = .counting w due rest →
      ∀ d ∈ s.deliveries, d.redeliverable endpointId id = true → d.eventId ∉ due
  | _ => True

/-- **What the retention promises**: no delivery was pending when a sweep removed it, and a sweep reports
how many it removed. -/
def Sound (s : Sweeping) : Prop :=
  ∀ x ∈ s.swept, (∀ d ∈ x.removed, d.status ≠ .pending) ∧ x.report.deliveriesDeleted = x.removed.length

def Pending (s : Sweeping) (event : Event) : Prop := ∃ d ∈ s.deliveries, d.eventId = event.id ∧ d.status = .pending

/-- Sweep `c` has deleted all deliveries of an event. -/
def Cleared (s : Sweeping) (c : ℕ) (id : ℤ) : Prop := ∀ d ∈ s.deliveries, d.eventId = id → s.heldBy d.id = some c

/-- What a sweep knows of the old events after its first snapshot. -/
def Selected (s : Sweeping) (c : ℕ) (w : Sweep) (due : List ℤ) : Prop :=
  w.cutoff ≤ s.queue.store.now ∧
    ∀ event ∈ s.events, w.old event = true → s.Pending event ∨ event.id ∈ due ∨ s.Cleared c event.id

/-- What each stage of a sweep knows. -/
def StageOk (s : Sweeping) (c : ℕ) : SweepStage → Prop
  | .idle => s.heldRows c = []
  | .begun w => w.deliveriesDeleted = (s.heldRows c).length ∧ w.cutoff ≤ s.queue.store.now
  | .counting w due rest => w.deliveriesDeleted = (s.heldRows c).length ∧ s.Selected c w due ∧
      (∀ id ∈ due, id < s.queue.store.nextEventId) ∧
      ∀ d ∈ s.deliveries, d.eventId ∈ due → d.status ≠ .pending ∧ (d.id ∈ rest ∨ s.heldBy d.id = some c)
  | .counted w => w.deliveriesDeleted = (s.heldRows c).length ∧ s.Selected c w []
  | .removing w rest gone => w.deliveriesDeleted = (s.heldRows c).length ∧
      ∀ id ∈ rest ++ gone, id < s.queue.store.nextEventId ∧ s.Cleared c id
  | .cascading w rest => w.deliveriesDeleted = (s.heldRows c).length ∧
      ∀ id ∈ rest, id < s.queue.store.nextEventId ∧ s.Cleared c id

/-- **The invariant**: what a sweep has deleted is still there and not pending, and what it has counted is
what it has deleted. -/
structure Inv (s : Sweeping) : Prop where
  events : ∀ event ∈ s.events, event.id < s.queue.store.nextEventId
  held : ∀ id c, s.heldBy id = some c → ∃ d ∈ s.deliveries, d.id = id ∧ d.status ≠ .pending
  stages : ∀ c, s.StageOk c (s.sweeps c)
  sound : s.Sound

theorem Inv.settled (h : s.Inv) {d : Delivery} (hd : d ∈ s.deliveries) (hheld : s.heldBy d.id = some c) :
    d.status ≠ .pending := by
  obtain ⟨d', hd', hid, hsettled⟩ := h.held d.id c hheld
  rwa [← Table.eq_of_key hd' hd hid]

@[simp] theorem move_self {stage : SweepStage} : (s.move c stage).sweeps c = stage := Function.update_self ..

theorem move_of_ne {d : ℕ} {stage : SweepStage} (h : d ≠ c) : (s.move c stage).sweeps d = s.sweeps d :=
  Function.update_of_ne h ..

/-! ### The steps of others -/

/-- What a step of somebody else looks like to sweep `c`. -/
structure Keeps (s t : Sweeping) (c : ℕ) : Prop where
  now : s.queue.store.now ≤ t.queue.store.now
  nextEventId : s.queue.store.nextEventId ≤ t.queue.store.nextEventId
  events : ∀ event ∈ t.events, event ∈ s.events ∨ s.queue.store.now ≤ event.createdAt
  held : ∀ d, (d ∈ t.deliveries ∧ t.heldBy d.id = some c) ↔ (d ∈ s.deliveries ∧ s.heldBy d.id = some c)
  rows : ∀ d ∈ t.deliveries, s.queue.store.nextEventId ≤ d.eventId ∨
    ∃ a ∈ s.deliveries, a.id = d.id ∧ a.eventId = d.eventId ∧
      (d.status = .pending → a.status = .pending ∨
        ∀ w due rest, s.sweeps c = .counting w due rest → a.eventId ∉ due)
  pending : ∀ w, (s.sweeps c).between = some w → ∀ event ∈ s.events, w.old event = true → s.Pending event →
    t.Pending event ∨ ∀ d ∈ t.deliveries, d.eventId ≠ event.id

theorem Keeps.length_heldRows (h : Keeps s t c) : (t.heldRows c).length = (s.heldRows c).length :=
  Table.length_filter_congr fun d => by simpa using h.held d

theorem Keeps.heldBy {a d : Delivery} (h : Keeps s t c) (ha : a ∈ s.deliveries) (hid : a.id = d.id)
    (hheld : s.heldBy a.id = some c) : t.heldBy d.id = some c := by
  rw [← hid]
  exact ((h.held a).mpr ⟨ha, hheld⟩).2

/-- What a sweep has cleared of an event there was stays cleared: no delivery of such an event is new. -/
theorem Keeps.cleared {id : ℤ} (h : Keeps s t c) (hid : id < s.queue.store.nextEventId) (hcleared : s.Cleared c id) :
    t.Cleared c id := by
  rintro d hd rfl
  rcases h.rows d hd with hnew | ⟨a, ha, hsame, hevent, -⟩
  · omega
  · exact h.heldBy ha hsame (hcleared a ha hevent)

theorem Keeps.selected (h : Keeps s t c) (hbound : ∀ event ∈ s.events, event.id < s.queue.store.nextEventId)
    (hbetween : (s.sweeps c).between = some w) (hselected : s.Selected c w due) : t.Selected c w due := by
  refine ⟨hselected.1.trans h.now, fun event hevent hold => ?_⟩
  rcases h.events event hevent with hevent | hnew
  · rcases hselected.2 event hevent hold with hpending | hdue | hcleared
    · rcases h.pending w hbetween event hevent hold hpending with hpending | hnone
      · exact .inl hpending
      · exact .inr (.inr fun d hd hid => absurd hid (hnone d hd))
    · exact .inr (.inl hdue)
    · exact .inr (.inr (h.cleared (hbound event hevent) hcleared))
  · -- An event that is recorded after the cutoff is not old.
    simp only [Sweep.old, Bool.and_eq_true, decide_eq_true_eq] at hold
    exact absurd (hold.2.trans_le (hselected.1.trans hnew)) (lt_irrefl _)

theorem Keeps.stageOk (h : Keeps s t c) (hinv : s.Inv) : t.StageOk c (s.sweeps c) := by
  have hok := hinv.stages c
  have hbetween : ∀ w due, (s.sweeps c).between = some w → s.Selected c w due → t.Selected c w due :=
    fun w due => h.selected hinv.events
  cases hstage : s.sweeps c with
  | idle =>
    rw [hstage] at hok
    have hlength := h.length_heldRows
    rw [show s.heldRows c = [] from hok] at hlength
    exact List.eq_nil_of_length_eq_zero hlength
  | begun w =>
    rw [hstage] at hok
    exact ⟨hok.1.trans h.length_heldRows.symm, hok.2.trans h.now⟩
  | counting w due rest =>
    rw [hstage] at hok
    obtain ⟨hcount, hselected, hdue, hrows⟩ := hok
    refine ⟨hcount.trans h.length_heldRows.symm, hbetween w due (hstage ▸ rfl) hselected,
      fun id hid => (hdue id hid).trans_le h.nextEventId, fun d hd hid => ?_⟩
    rcases h.rows d hd with hnew | ⟨a, ha, hsame, hevent, hpending⟩
    · have := hdue d.eventId hid
      omega
    · obtain ⟨hsettled, hleft⟩ := hrows a ha (hevent ▸ hid)
      refine ⟨fun hd => ?_, ?_⟩
      · rcases hpending hd with ha | hforced
        · exact hsettled ha
        · exact hforced w due rest hstage (hevent ▸ hid)
      · rw [← hsame]
        exact hleft.imp_right fun hheld => h.heldBy ha rfl hheld
  | counted w =>
    rw [hstage] at hok
    exact ⟨hok.1.trans h.length_heldRows.symm, hbetween w [] (hstage ▸ rfl) hok.2⟩
  | removing w rest gone =>
    rw [hstage] at hok
    exact ⟨hok.1.trans h.length_heldRows.symm, fun id hid =>
      ⟨(hok.2 id hid).1.trans_le h.nextEventId, h.cleared (hok.2 id hid).1 (hok.2 id hid).2⟩⟩
  | cascading w rest =>
    rw [hstage] at hok
    exact ⟨hok.1.trans h.length_heldRows.symm, fun id hid =>
      ⟨(hok.2 id hid).1.trans_le h.nextEventId, h.cleared (hok.2 id hid).1 (hok.2 id hid).2⟩⟩

/-- A step that changes no row and nothing sweep `c` holds. -/
theorem Keeps.same (hstore : t.queue.store = s.queue.store)
    (hheld : ∀ id, t.heldBy id = some c ↔ s.heldBy id = some c) : Keeps s t c := by
  have hdeliveries : t.deliveries = s.deliveries := congrArg Store.deliveries hstore
  refine ⟨by rw [hstore], by rw [hstore], fun event hevent => .inl ?_, fun d => ?_, fun d hd => .inr ?_,
    fun w _ event _ _ hpending => .inl ?_⟩
  · rwa [Sweeping.events, hstore] at hevent
  · rw [hdeliveries, hheld]
  · exact ⟨d, hdeliveries ▸ hd, rfl, rfl, .inl⟩
  · rwa [Pending, hdeliveries]

/-- A step of the queue: what is held waits for the sweep, and the rest is as the step may leave it. -/
theorem keeps_queue {e : Step} {queue : Queue} (h : s.Inv) (hwaits : s.waits config e = false)
    (hok : s.Undisturbed config (.queue e)) (hstep : queueStep config s.queue e = some queue) :
    Keeps s { s with queue } c := by
  obtain ⟨hnow, hnext, hevents, hrows, hpending, hkept⟩ := shifted hstep
  have huntouched : ∀ d ∈ s.deliveries, s.heldBy d.id = some c → s.queue.touches config d e = false := by
    intro d hd hheld
    have := List.any_eq_false.mp hwaits d hd
    simpa [hheld] using this
  refine ⟨hnow, hnext, fun event hevent => (hevents event hevent).imp_right fun hnew => hnew.2.2, fun d => ?_,
    fun d hd => (hrows d hd).imp_right ?_, fun w hbetween event hevent hold hwaiting => ?_⟩
  · constructor
    · rintro ⟨hd, hheld⟩
      obtain ⟨a, ha, hid, -⟩ := h.held d.id c hheld
      have ha' := hkept a ha (huntouched a ha (hid ▸ hheld))
      rw [← Table.eq_of_key ha' hd hid]
      exact ⟨ha, hid ▸ hheld⟩
    · rintro ⟨hd, hheld⟩
      exact ⟨hkept d hd (huntouched d hd hheld), hheld⟩
  · rintro ⟨a, ha, hid, hevent, -, hpending⟩
    refine ⟨a, ha, hid, hevent, fun hd => (hpending hd).imp_right ?_⟩
    rintro ⟨endpointId, id, rfl, hforced⟩ w due rest hstage
    exact hok.2 endpointId id rfl c w due rest hstage a ha hforced
  · by_cases hstays : ∃ d ∈ s.deliveries, d.eventId = event.id ∧ d.status = .pending ∧
        s.queue.settles config d e = false
    · obtain ⟨d, hd, hid, hwaits, hsettled⟩ := hstays
      obtain ⟨d', hd', hid', hwaits'⟩ := hpending d hd hwaits hsettled
      exact .inl ⟨d', hd', hid'.trans hid, hwaits'⟩
    · -- The step settles all that was pending, so it may leave no delivery of the event.
      right
      intro d hd hid
      rcases hrows d hd with hnew | ⟨a, ha, -, haid, hstays', -⟩
      · have := h.events event hevent
        omega
      · refine hok.1 c w hbetween event hevent hold ⟨hwaiting, fun a' ha' hid' hwaits' => ?_, a, ha,
          haid.trans hid, hstays'⟩
        by_contra hsettled
        exact hstays ⟨a', ha', hid', hwaits', by simpa using hsettled⟩

/-- What another sweep removes was neither held by this one nor pending. -/
theorem keeps_commit {c' : ℕ} (h : s.Inv) (hne : c ≠ c') : Keeps s (s.commit c' w) c := by
  have hmem : ∀ d, d ∈ (s.commit c' w).deliveries ↔ d ∈ s.deliveries ∧ s.heldBy d.id ≠ some c' := by
    intro d
    rw [deliveries, commit, Table.mem_delete]
    simp
  have hheldBy : ∀ id, (s.commit c' w).heldBy id = some c ↔ s.heldBy id = some c := by
    intro id
    simp only [commit, release, Option.filter_eq_some_iff, decide_eq_true_eq]
    exact and_iff_left hne
  refine ⟨le_rfl, le_rfl, fun event hevent => .inl (Table.mem_delete.mp hevent).1, fun d => ?_, fun d hd => .inr ?_,
    fun w' _ event _ _ => ?_⟩
  · rw [hmem, hheldBy]
    constructor
    · rintro ⟨⟨hd, -⟩, hheld⟩
      exact ⟨hd, hheld⟩
    · rintro ⟨hd, hheld⟩
      refine ⟨⟨hd, fun hother => hne ?_⟩, hheld⟩
      rw [hheld] at hother
      exact Option.some.inj hother
  · exact ⟨d, ((hmem d).mp hd).1, rfl, rfl, .inl⟩
  · rintro ⟨d, hd, hid, hwaiting⟩
    exact .inl ⟨d, (hmem d).mpr ⟨hd, fun hheld => h.settled hd hheld hwaiting⟩, hid, hwaiting⟩

theorem keeps_release {c' : ℕ} (hne : c ≠ c') : Keeps s (s.release c') c := by
  refine .same rfl fun id => ?_
  simp only [release, Option.filter_eq_some_iff, decide_eq_true_eq]
  exact and_iff_left hne

theorem keeps_take {c' : ℕ} (hstore : t.queue.store = s.queue.store)
    (htake : ∀ id, t.heldBy id = s.heldBy id ∨ s.heldBy id = none ∧ t.heldBy id = some c') (hne : c ≠ c') :
    Keeps s t c := by
  refine .same hstore fun id => ?_
  rcases htake id with heq | ⟨hnone, hsome⟩
  · rw [heq]
  · rw [hnone, hsome]
    simp [Ne.symm hne]

/-! ### The invariant is kept -/

/-- Sweep `c` goes on, as the others see it. -/
theorem Inv.of_keeps (h : s.Inv) (hevents : ∀ event ∈ t.events, event ∈ s.events)
    (hnext : t.queue.store.nextEventId = s.queue.store.nextEventId)
    (hheld : ∀ id c, t.heldBy id = some c → ∃ d ∈ t.deliveries, d.id = id ∧ d.status ≠ .pending)
    (hsound : t.Sound) (hkeeps : ∀ d, d ≠ c → Keeps s t d) (hsweeps : ∀ d, d ≠ c → t.sweeps d = s.sweeps d)
    (hown : t.StageOk c (t.sweeps c)) : t.Inv := by
  refine ⟨fun event hevent => hnext ▸ h.events event (hevents event hevent), hheld, fun d => ?_, hsound⟩
  by_cases hdc : d = c
  · rwa [hdc]
  · rw [hsweeps d hdc]
    exact (hkeeps d hdc).stageOk h

/-- Sweep `c` goes on to another stage, and nothing else changes. -/
theorem Inv.move {stage : SweepStage} (h : s.Inv) (hown : s.StageOk c stage) : (s.move c stage).Inv := by
  refine h.of_keeps (c := c) (fun _ hevent => hevent) rfl h.held h.sound (fun d _ => .same rfl fun _ => .rfl)
    (fun d hd => move_of_ne hd) ?_
  rw [move_self]
  cases stage <;> exact hown

theorem pending_or_due {event : Event} (hevent : event ∈ s.events) (hold : w.old event = true) :
    s.Pending event ∨ event.id ∈ s.dueEvents c w := by
  by_cases hdue : event.id ∈ s.dueEvents c w
  · exact .inr hdue
  · left
    by_contra hpending
    refine hdue (List.mem_map.mpr ⟨event, List.mem_filter.mpr ⟨hevent, ?_⟩, rfl⟩)
    rw [hold, Bool.true_and, Bool.not_eq_true', List.any_eq_false]
    intro d hd hwaiting
    simp only [Bool.and_eq_true, decide_eq_true_eq] at hwaiting
    exact hpending ⟨d, hd, hwaiting.1.1, hwaiting.1.2⟩

theorem Inv.of_due {id : ℤ} (h : s.Inv) (hid : id ∈ s.dueEvents c w) :
    ∃ event ∈ s.events, event.id = id ∧ w.old event = true ∧ ¬ s.Pending event := by
  obtain ⟨event, hevent, rfl⟩ := List.mem_map.mp hid
  obtain ⟨hevent, hdue⟩ := List.mem_filter.mp hevent
  rw [Bool.and_eq_true, Bool.not_eq_true', List.any_eq_false] at hdue
  refine ⟨event, hevent, rfl, hdue.1, ?_⟩
  rintro ⟨d, hd, hid, hwaiting⟩
  have hheld : s.heldBy d.id = some c := by
    by_contra hfree
    exact hdue.2 d hd (by simp [hid, hwaiting, hfree])
  exact h.settled hd hheld hwaiting

theorem Inv.select (h : s.Inv) (hstage : s.sweeps c = .begun w) : (s.select c w).Inv := by
  have hok := h.stages c
  rw [hstage] at hok
  refine h.move ⟨hok.1, ⟨hok.2, fun event hevent hold => ?_⟩, fun id hid => ?_,
    fun d hd hid => ⟨fun hwaiting => ?_, .inl ?_⟩⟩
  · exact (pending_or_due hevent hold).imp_right .inl
  · obtain ⟨event, hevent, rfl, -⟩ := h.of_due hid
    exact h.events event hevent
  · obtain ⟨event, -, heventId, -, hnone⟩ := h.of_due hid
    exact hnone ⟨d, hd, heventId.symm, hwaiting⟩
  · exact List.mem_map.mpr ⟨d, List.mem_filter.mpr ⟨hd, decide_eq_true hid⟩, rfl⟩

theorem length_heldRows_succ {a : Delivery} (ha : a ∈ s.deliveries) (hfree : s.heldBy a.id = none) :
    (s.deliveries.rows.filter fun d => Function.update s.heldBy a.id (some c) d.id = some c).length =
      (s.heldRows c).length + 1 := by
  refine Table.length_filter_succ ha (by simp [hfree]) fun b hb => ?_
  by_cases hid : b.id = a.id
  · simp [Table.eq_of_key hb ha hid]
  · have hne : b ≠ a := fun heq => hid (congrArg Delivery.id heq)
    simp [hid, hne]

theorem Inv.delete {id : Uuid} {rest : List Uuid} (h : s.Inv) (hstage : s.sweeps c = .counting w due (id :: rest))
    (hfree : s.heldBy id = none) : (s.delete c w due id rest).Inv := by
  have hok := h.stages c
  rw [hstage] at hok
  obtain ⟨hcount, hselected, hdue, hrows⟩ := hok
  unfold Sweeping.delete
  split
  · rename_i hnone
    refine h.move ⟨hcount, hselected, hdue, fun d hd hid => ⟨(hrows d hd hid).1, ?_⟩⟩
    refine (hrows d hd hid).2.imp_left fun hmem => (List.mem_cons.mp hmem).resolve_left ?_
    rintro rfl
    rw [Table.find?_key hd, Option.filter_some, if_pos (decide_eq_true hid)] at hnone
    cases hnone
  · rename_i d hsome
    simp only [Option.filter_eq_some_iff, decide_eq_true_eq] at hsome
    obtain ⟨hfind, hid⟩ := hsome
    obtain ⟨hd, rfl⟩ := Table.find?_eq_some.mp hfind
    have hgrows : ∀ key, s.heldBy key = some c → Function.update s.heldBy d.id (some c) key = some c := by
      intro key hheld
      by_cases hkey : key = d.id
      · rw [hkey, Function.update_self]
      · rwa [Function.update_of_ne hkey]
    refine h.of_keeps (c := c) (fun _ hevent => hevent) rfl (fun key c' hheld => ?_) h.sound (fun c' hne => ?_)
      (fun c' hne => move_of_ne hne) ?_
    · by_cases hkey : key = d.id
      · exact ⟨d, hd, hkey.symm, (hrows d hd hid).1⟩
      · exact h.held key c' (by simpa [hkey] using hheld)
    · refine keeps_take rfl (fun key => ?_) hne
      change Function.update s.heldBy d.id (some c) key = _ ∨ _ ∧ Function.update s.heldBy d.id (some c) key = _
      by_cases hkey : key = d.id
      · rw [hkey, Function.update_self]
        exact .inr ⟨hfree, rfl⟩
      · exact .inl (Function.update_of_ne hkey ..)
    · rw [show ∀ (x : Sweeping) (held : Uuid → Option ℕ), ({ x with heldBy := held } : Sweeping).sweeps c = x.sweeps c
        from fun _ _ => rfl, move_self]
      refine ⟨?_, ⟨hselected.1, fun event hevent hold => ?_⟩, hdue, fun d' hd' hid' => ⟨(hrows d' hd' hid').1, ?_⟩⟩
      · exact (congrArg (· + 1) hcount).trans (length_heldRows_succ hd hfree).symm
      · exact (hselected.2 event hevent hold).imp_right fun hcleared =>
          hcleared.imp_right fun hcleared d' hd' hid' => hgrows _ (hcleared d' hd' hid')
      · rcases (hrows d' hd' hid').2 with hmem | hheld
        · rcases List.mem_cons.mp hmem with heq | hmem
          · exact .inr (by rw [heq]; exact Function.update_self ..)
          · exact .inl hmem
        · exact .inr (hgrows _ hheld)

theorem Inv.count (h : s.Inv) (hstage : s.sweeps c = .counting w due []) : (s.move c (.counted w)).Inv := by
  have hok := h.stages c
  rw [hstage] at hok
  obtain ⟨hcount, hselected, -, hrows⟩ := hok
  refine h.move ⟨hcount, hselected.1, fun event hevent hold => ?_⟩
  rcases hselected.2 event hevent hold with hpending | hdue | hcleared
  · exact .inl hpending
  · refine .inr (.inr fun d hd hid => ?_)
    exact (hrows d hd (hid ▸ hdue)).2.resolve_left nofun
  · exact .inr (.inr hcleared)

theorem Inv.selectEvents (h : s.Inv) (hstage : s.sweeps c = .counted w) :
    (s.move c (.removing w (s.dueEvents c w) [])).Inv := by
  have hok := h.stages c
  rw [hstage] at hok
  obtain ⟨hcount, -, hselected⟩ := hok
  refine h.move ⟨hcount, fun id hid => ?_⟩
  rw [List.append_nil] at hid
  obtain ⟨event, hevent, rfl, hold, hnone⟩ := h.of_due hid
  refine ⟨h.events event hevent, ?_⟩
  rcases hselected event hevent hold with hpending | hdue | hcleared
  · exact absurd hpending hnone
  · cases hdue
  · exact hcleared

theorem Inv.deleteEvent {id : ℤ} {rest gone : List ℤ} (h : s.Inv)
    (hstage : s.sweeps c = .removing w (id :: rest) gone) :
    (s.deleteEvent c w id rest gone).Inv := by
  have hok := h.stages c
  rw [hstage] at hok
  obtain ⟨hcount, hcleared⟩ := hok
  unfold Sweeping.deleteEvent
  split
  · refine h.move ⟨hcount, fun key hkey => hcleared key ?_⟩
    exact List.mem_cons_of_mem _ hkey
  · refine h.of_keeps (c := c) (fun _ hevent => hevent) rfl h.held h.sound (fun d _ => .same rfl fun _ => .rfl)
      (fun d hd => move_of_ne hd) ?_
    rw [show ∀ (x : Sweeping) (held : ℤ → Option ℕ), ({ x with eventHeldBy := held } : Sweeping).sweeps c = x.sweeps c
      from fun _ _ => rfl, move_self]
    refine ⟨hcount, fun key hkey => hcleared key ?_⟩
    exact List.perm_middle.mem_iff.mp hkey

theorem Inv.deleted {gone : List ℤ} (h : s.Inv) (hstage : s.sweeps c = .removing w [] gone) :
    (s.move c (.cascading w gone)).Inv := by
  have hok := h.stages c
  rw [hstage] at hok
  exact h.move hok

theorem orphans_eq_nil {id : ℤ} (h : s.Cleared c id) : s.orphans c id = [] := by
  rw [orphans, List.filter_eq_nil_iff]
  intro d hd
  simp only [Bool.and_eq_true, decide_eq_true_eq, not_and, not_not]
  exact h d hd

theorem Inv.cascade {id : ℤ} {rest : List ℤ} (h : s.Inv) (hstage : s.sweeps c = .cascading w (id :: rest)) :
    (s.cascade c w id rest).Inv := by
  have hok := h.stages c
  rw [hstage] at hok
  obtain ⟨hcount, hcleared⟩ := hok
  have hsame : s.cascade c w id rest = s.move c (.cascading w rest) := by
    rw [Sweeping.cascade, orphans_eq_nil (hcleared id List.mem_cons_self).2]
    rfl
  rw [hsame]
  exact h.move ⟨hcount, fun key hkey => hcleared key (List.mem_cons_of_mem _ hkey)⟩

theorem heldRows_release : (s.release c).heldRows c = [] := by
  rw [heldRows, List.filter_eq_nil_iff]
  intro d _
  simp [release, Option.filter_eq_some_iff]

theorem of_heldBy_release {id : Uuid} {d : ℕ} (h : (s.release c).heldBy id = some d) :
    s.heldBy id = some d ∧ d ≠ c := by
  simpa [release, Option.filter_eq_some_iff] using h

theorem Inv.release (h : s.Inv) : (s.release c).Inv := by
  refine h.of_keeps (c := c) (fun _ hevent => hevent) rfl (fun id d hheld => h.held id d (of_heldBy_release hheld).1)
    h.sound (fun d hd => keeps_release hd) (fun d hd => move_of_ne hd) ?_
  have hidle : (s.release c).sweeps c = .idle := move_self
  rw [hidle]
  exact heldRows_release

theorem Inv.commit (h : s.Inv) (hstage : s.sweeps c = .cascading w []) : (s.commit c w).Inv := by
  have hok := h.stages c
  rw [hstage] at hok
  refine h.of_keeps (c := c) (fun event hevent => (Table.mem_delete.mp hevent).1) rfl
    (fun id d hheld => ?_) (fun x hx => ?_)
    (fun d hd => keeps_commit h hd) (fun d hd => move_of_ne hd) ?_
  · obtain ⟨hheld, hne⟩ := of_heldBy_release hheld
    obtain ⟨row, hrow, rfl, hsettled⟩ := h.held id d hheld
    refine ⟨row, Table.mem_delete.mpr ⟨hrow, decide_eq_false fun hmine => hne ?_⟩, rfl, hsettled⟩
    rw [hheld] at hmine
    exact Option.some.inj hmine
  · rcases List.mem_append.mp hx with hx | hx
    · exact h.sound x hx
    · obtain rfl := List.mem_singleton.mp hx
      refine ⟨fun d hd => ?_, hok.1⟩
      obtain ⟨hd, hheld⟩ := List.mem_filter.mp hd
      exact h.settled hd (of_decide_eq_true hheld)
  · have hidle : (s.commit c w).sweeps c = .idle := move_self
    rw [hidle]
    have hnone : (s.commit c w).heldRows c = [] := by
      rw [heldRows, List.filter_eq_nil_iff]
      intro d _
      simp [Sweeping.commit, Sweeping.release, Option.filter_eq_some_iff]
    exact hnone

theorem Inv.start {organizationId : Option Uuid} {windowDays : ℤ} (h : s.Inv) (hstage : s.sweeps c = .idle)
    (hwindow : 1 ≤ windowDays) :
    (s.move c (.begun
      { organizationId, windowDays, cutoff := s.queue.store.now - windowDays * 86400000000 })).Inv := by
  have hok := h.stages c
  rw [hstage] at hok
  refine h.move ⟨?_, ?_⟩
  · rw [show s.heldRows c = [] from hok]
    rfl
  · exact Int.sub_le_self _ (by omega)

theorem Inv.queue {e : Step} {queue : Queue} (h : s.Inv) (hwaits : s.waits config e = false)
    (hok : s.Undisturbed config (.queue e)) (hstep : queueStep config s.queue e = some queue) :
    ({ s with queue } : Sweeping).Inv := by
  have hshifted := shifted hstep
  refine ⟨fun event hevent => ?_, fun id c hheld => ?_, fun c => (keeps_queue h hwaits hok hstep).stageOk h, h.sound⟩
  · rcases hshifted.events event hevent with hold | hnew
    · exact (h.events event hold).trans_le hshifted.nextEventId
    · exact hnew.2.1
  · obtain ⟨d, hd, hid, hsettled⟩ := h.held id c hheld
    have huntouched := List.any_eq_false.mp hwaits d hd
    rw [hid, hheld] at huntouched
    exact ⟨d, hshifted.kept d hd (by simpa using huntouched), hid, hsettled⟩

/-- One case per event. -/
theorem Inv.step {e : SweepEvent} (h : s.Inv) (hok : s.Undisturbed config e) (hstep : sweepStep config s e = some t) :
    t.Inv := by
  cases e with
  | queue e =>
    have hqueue : (if s.waits config e then none
        else (queueStep config s.queue e).map fun queue => { s with queue }) = some t := by
      cases e <;> first | exact hstep | cases hstep
    split_ifs at hqueue with hwaits
    obtain ⟨queue, hq, rfl⟩ := Option.map_eq_some_iff.mp hqueue
    exact h.queue (by simpa using hwaits) hok hq
  | start c organizationId windowDays =>
    simp only [sweepStep] at hstep
    split at hstep
    · split_ifs at hstep with hwindow
      cases hstep
      exact h.start ‹_› hwindow.1
    · cases hstep
  | select c =>
    simp only [sweepStep] at hstep
    split at hstep
    · cases hstep
      exact h.select ‹_›
    · cases hstep
  | delete c =>
    simp only [sweepStep] at hstep
    split at hstep
    · split_ifs at hstep with hfree
      cases hstep
      exact h.delete ‹_› (by simpa using hfree)
    · cases hstep
  | count c =>
    simp only [sweepStep] at hstep
    split at hstep
    · cases hstep
      exact h.count ‹_›
    · cases hstep
  | selectEvents c =>
    simp only [sweepStep] at hstep
    split at hstep
    · cases hstep
      exact h.selectEvents ‹_›
    · cases hstep
  | deleteEvent c =>
    simp only [sweepStep] at hstep
    split at hstep
    · split_ifs at hstep
      cases hstep
      exact h.deleteEvent ‹_›
    · cases hstep
  | deleted c =>
    simp only [sweepStep] at hstep
    split at hstep
    · cases hstep
      exact h.deleted ‹_›
    · cases hstep
  | cascade c =>
    simp only [sweepStep] at hstep
    split at hstep
    · split_ifs at hstep
      cases hstep
      exact h.cascade ‹_›
    · cases hstep
  | commit c =>
    simp only [sweepStep] at hstep
    split at hstep
    · cases hstep
      exact h.commit ‹_›
    · cases hstep
  | rollback c =>
    cases hstep
    exact h.release

theorem inv_start (now : Instant) : (start now).Inv :=
  ⟨nofun, nofun, fun _ => rfl, nofun⟩

/-- **The retention keeps its promise** in the runs where nobody takes an old event's last pending delivery
out of the queue between the two snapshots of a sweep, and nobody forces a delivery again that the first
statement is to delete. -/
theorem run_swept {now : Instant} {es : List SweepEvent}
    (h : Run (sweepStep config) (Undisturbed config) (start now) es s) : s.Sound :=
  (h.invariant (inv_start now) fun _ _ _ hinv hok => hinv.step hok).sound

/-! ### Three runs -/

/-- A page is published to two endpoints, and a worker delivers the first of its two jobs. -/
def halfDelivered : List SweepEvent :=
  [.queue (.connect receiver), .queue (.connect { receiver with id := 2, name := "Archive" }),
    .queue (.emit { name := "page.published", organizationId := some 7 } none fun w => 40 + w), .queue (.cancel 0),
    .queue (.claim 0 []), .queue (.load 0), .queue (.send 0 (.delivered 200) none), .queue (.mark 0)]

/-- The worker delivers its second job. -/
def delivered : List SweepEvent := [.queue (.send 0 (.delivered 200) none), .queue (.mark 0)]

/-- Two days later a sweep begins. -/
def twoDaysLater : List SweepEvent := [.queue (.tick 172800000000), .start 0 (some 7) 1, .select 0]

/-- The second statement, for one event. -/
def secondStatement : List SweepEvent := [.selectEvents 0, .deleteEvent 0, .deleted 0, .cascade 0, .commit 0]

theorem uncounted :
    (∃ s, Run (sweepStep {}) Any (start 0)
        (halfDelivered ++ twoDaysLater ++ [SweepEvent.count 0] ++ delivered ++ secondStatement) s ∧
      ∃ x ∈ s.swept, x.report.deliveriesDeleted ≠ x.removed.length) ∧
    ∃ s, Run (sweepStep {}) Any (start 0) (halfDelivered ++ delivered ++ twoDaysLater ++
        [SweepEvent.queue (.redeliver 1 41), .delete 0, .delete 0, .count 0] ++ secondStatement) s ∧
      ∃ x ∈ s.swept, ∃ d ∈ x.removed, d.status = .pending := by
  constructor
  · have hexec : (exec (sweepStep {}) (start 0)
        (halfDelivered ++ twoDaysLater ++ [SweepEvent.count 0] ++ delivered ++ secondStatement)).map
        (fun s => s.swept.any fun x => x.report.deliveriesDeleted ≠ x.removed.length) = some true := by decide +kernel
    obtain ⟨s, hrun, hany⟩ := Run.of_exec_map hexec
    obtain ⟨x, hx, hcount⟩ := List.any_eq_true.mp hany
    exact ⟨s, hrun, x, hx, of_decide_eq_true hcount⟩
  · have hexec : (exec (sweepStep {}) (start 0) (halfDelivered ++ delivered ++ twoDaysLater ++
        [SweepEvent.queue (.redeliver 1 41), .delete 0, .delete 0, .count 0] ++ secondStatement)).map
        (fun s => s.swept.any fun x => x.removed.any (·.status = .pending)) = some true := by decide +kernel
    obtain ⟨s, hrun, hany⟩ := Run.of_exec_map hexec
    obtain ⟨x, hx, hpending⟩ := List.any_eq_true.mp hany
    obtain ⟨d, hd, hstatus⟩ := List.any_eq_true.mp hpending
    exact ⟨s, hrun, x, hx, d, hd, of_decide_eq_true hstatus⟩

end Sweeping

def SweepEvent.sweep : SweepEvent → Option ℕ
  | .queue _ => none
  | .start c .. | .select c | .delete c | .count c | .selectEvents c | .deleteEvent c | .deleted c | .cascade c
  | .commit c | .rollback c => some c

namespace Sweeping

variable {config : RunnerConfig} {s t : Sweeping} {c : ℕ}

/-- An event changes the stage of its own sweep only. -/
theorem sweeps_of_step {e : SweepEvent} (hstep : sweepStep config s e = some t) (hother : e.sweep ≠ some c) :
    t.sweeps c = s.sweeps c := by
  have hne : ∀ {d : ℕ}, some d ≠ some c → c ≠ d := fun hd heq => hd (congrArg some heq.symm)
  cases e with
  | queue e =>
    have hqueue : (if s.waits config e then none
        else (queueStep config s.queue e).map fun queue => { s with queue }) = some t := by
      cases e <;> first | exact hstep | cases hstep
    split_ifs at hqueue
    obtain ⟨queue, -, rfl⟩ := Option.map_eq_some_iff.mp hqueue
    rfl
  | delete d =>
    simp only [sweepStep] at hstep
    split at hstep
    · split_ifs at hstep
      cases hstep
      unfold Sweeping.delete
      split <;> exact move_of_ne (hne hother)
    · cases hstep
  | deleteEvent d =>
    simp only [sweepStep] at hstep
    split at hstep
    · split_ifs at hstep
      cases hstep
      unfold Sweeping.deleteEvent
      split <;> exact move_of_ne (hne hother)
    · cases hstep
  | start d organizationId windowDays =>
    simp only [sweepStep] at hstep
    split at hstep
    · split_ifs at hstep
      cases hstep
      exact move_of_ne (hne hother)
    · cases hstep
  | cascade d =>
    simp only [sweepStep] at hstep
    split at hstep
    · split_ifs at hstep
      cases hstep
      exact move_of_ne (hne hother)
    · cases hstep
  | rollback d =>
    cases hstep
    exact move_of_ne (hne hother)
  | _ =>
    simp only [sweepStep] at hstep
    split at hstep
    · cases hstep
      exact move_of_ne (hne hother)
    · cases hstep

theorem undisturbed_of_idle (h : ∀ c, s.sweeps c = .idle) (e : SweepEvent) : s.Undisturbed config e := by
  cases e with
  | queue e =>
    refine ⟨fun c w hbetween => ?_, fun _ _ _ c w due rest hcounting => ?_⟩
    · rw [h c] at hbetween
      cases hbetween
    · rw [h c] at hcounting
      cases hcounting
  | _ => trivial

/-- Sweep 0 is the only one, and the queue rests while it runs. -/
def alone (s : Sweeping) (e : SweepEvent) : Bool :=
  match e.sweep, s.sweeps 0 with
  | some c, _ => c = 0
  | none, .idle => true
  | none, _ => false

/-- A sweep alone disturbs nobody. -/
theorem run_alone {now : Instant} {es : List SweepEvent}
    (h : Run (sweepStep config) (fun s e => s.alone e = true) (start now) es s) :
    Run (sweepStep config) (Undisturbed config) (start now) es s ∧ ∀ c, c ≠ 0 → s.sweeps c = .idle := by
  induction h with
  | nil => exact ⟨.nil, fun _ _ => rfl⟩
  | @snoc s t es e _ hok hstep ih =>
    refine ⟨.snoc ih.1 ?_ hstep, fun c hc => ?_⟩
    · cases e with
      | queue e =>
        refine undisturbed_of_idle (fun c => ?_) _
        by_cases hc : c = 0
        · simp only [alone, SweepEvent.sweep] at hok
          split at hok
          · cases ‹none = some _›
          · rw [hc]
            assumption
          · cases hok
        · exact ih.2 c hc
      | _ => trivial
    · rw [← ih.2 c hc]
      refine sweeps_of_step hstep fun hsweep => hc ?_
      simpa [alone, hsweep] using hok

/-- A sweep two days after both deliveries removes them, and counts two. -/
theorem run_swept_alone :
    ∃ s, Run (sweepStep {}) (Undisturbed {}) (start 0)
        (halfDelivered ++ delivered ++ twoDaysLater ++ [SweepEvent.delete 0, .delete 0, .count 0] ++
          secondStatement) s ∧
      s.swept.map (fun x => (x.report.deliveriesDeleted, x.removed.map (·.id))) = [(2, [41, 42])] ∧ s.Sound := by
  have hexec : (exec (fun s e => if s.alone e then sweepStep {} s e else none) (start 0)
      (halfDelivered ++ delivered ++ twoDaysLater ++ [SweepEvent.delete 0, .delete 0, .count 0] ++ secondStatement)).map
      (fun s => s.swept.map fun x => (x.report.deliveriesDeleted, x.removed.map (·.id))) = some [(2, [41, 42])] := by
    decide +kernel
  obtain ⟨s, hrun, hswept⟩ := Run.of_exec_of_map (fun (s : Sweeping) e (h : s.alone e = true) => h) hexec
  have hrun := (run_alone hrun).1
  exact ⟨s, hrun, hswept, run_swept hrun⟩

end Sweeping

end Omnion.Events
