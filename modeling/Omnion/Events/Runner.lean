import Mathlib.Logic.Function.Basic
import Omnion.Library.Run
import Omnion.Events.Store

/-!
# Delivery runners

`run_due` of `crates/events/src/engine.rs`, any number of it, taken apart into the
statements it makes and interleaved in any order with events that are emitted,
endpoints that change, deliveries that are forced again, retention sweeps, crashes and
the clock.

## The model

A worker settles the deliveries of endpoints switched off, claims what is due, reads
the jobs of its claims, and goes through them one by one: it sends the job, decides what
to report, writes the report, and announces a delivery it gave up. Deciding reads the
clock; what is decided is written later. What a receiver answers, and how long it took,
is up to the step. A worker may stop anywhere; one whose statement fails stops too.

The history says, for each delivery, when it was queued, claimed, accepted and forced
again. The reports have, with the claim each is on, the claim that held the delivery
when it was written. No statement reads either.

## What is proved

* `took` — what a step of the queue can do.
* `Took.rows` — what becomes of a delivery, and of its history.

## Honest scope

There is one clock. A delivery's identifier is random and never comes again.
-/

namespace Omnion.Events

/-! ### Workers -/

/-- A job, and which claim on its delivery it is for. -/
structure ClaimedJob where
  job : DeliveryJob
  /-- The claims on the delivery are counted from 1. -/
  claim : ℕ

/-- How far a worker has come. -/
inductive Worker where
  | idle
  /-- The deliveries of endpoints switched off are settled. -/
  | settled
  /-- Deliveries are claimed: each, and the number of its claim. -/
  | claimed (claims : List (Uuid × ℕ))
  /-- A job is sent; the others follow. -/
  | sending (job : ClaimedJob) (jobs : List ClaimedJob)
  /-- The report on a job is decided. -/
  | marking (job : ClaimedJob) (mark : Mark) (jobs : List ClaimedJob)
  /-- A delivery was given up: the event that says so is to be emitted. -/
  | announcing (event : NewEvent) (jobs : List ClaimedJob)

/-- A worker with these jobs before it. -/
def Worker.next : List ClaimedJob → Worker
  | [] => .idle
  | job :: jobs => .sending job jobs

/-- A worker with these claims. -/
def Worker.holding : List (Uuid × ℕ) → Worker
  | [] => .idle
  | claims => .claimed claims

/-- `deliver_one`, up to its report: what is reported of a job. -/
def DeliveryJob.outcome (config : RunnerConfig) (now : Instant) (job : DeliveryJob)
    (durationMs : Option ℤ) :
    DeliveryOutcome → Mark
  | .delivered status => .delivered (some status) durationMs
  | .failed status message =>
    let message := trimMessage message maxErrorChars
    if job.attempts < job.maxAttempts then
      let delay := retryDelay job.attempts config.retryBase config.retryMax
      .retry status message (Time.after now delay) durationMs
    else .failed status message durationMs

/-- The event that says a delivery was given up. Identifiers are written as they are
kept here. -/
def DeliveryJob.givenUp (job : DeliveryJob) (status : Option ℤ) (reason : String) : NewEvent where
  name := "webhook.delivery.failed"
  organizationId := job.organizationId
  siteId := job.siteId
  actorUserId := job.actorUserId
  payload := .object [
    ("attempts", .number (.int job.attempts)),
    ("delivery_id", .string (toString job.deliveryId)),
    ("endpoint_id", .string (toString job.endpointId)),
    ("endpoint_name", .string job.endpointName),
    ("event_name", .string job.eventName),
    ("reason", .string reason),
    ("status", (status.map fun n => Json.number (.int n)).getD .null)]

/-- Where a worker goes after its report. -/
def Mark.worker (job : DeliveryJob) (jobs : List ClaimedJob) : Mark → Worker
  | .delivered .. | .retry .. => .next jobs
  | .failed status reason _ => .announcing (job.givenUp status reason) jobs

/-! ### The queue -/

/-- What the history says of a delivery. -/
inductive Entry where
  | queued (id : Uuid)
  /-- It was claimed, with so many attempts made and allowed before. -/
  | claimed (id : Uuid) (attempts maxAttempts : ℕ)
  /-- A worker reported that the receiver accepted it. -/
  | delivered (id : Uuid)
  | redelivered (id : Uuid)
  deriving DecidableEq

/-- The delivery an entry is about. -/
def Entry.id : Entry → Uuid
  | .queued id | .claimed id .. | .delivered id | .redelivered id => id

def Entry.isClaim : Entry → Bool
  | .claimed .. => true
  | _ => false

/-- The entry of a report. -/
def Mark.entries (id : Uuid) : Mark → List Entry
  | .delivered .. => [.delivered id]
  | .retry .. | .failed .. => []

/-- A report written into a delivery. -/
structure Report where
  id : Uuid
  claim : ℕ
  /-- The claim that held the delivery. -/
  held : Option ℕ

/-- The store, the workers, the history and the reports. -/
structure Queue where
  store : Store
  workers : ℕ → Worker := fun _ => .idle
  history : List Entry := []
  reports : List Report := []

/-- What happens. -/
inductive Step where
  /-- An endpoint is connected, -/
  | connect (w : WebhookEndpoint)
  /-- changed, -/
  | change (id : Uuid) (changes : EndpointChanges)
  /-- or disconnected. -/
  | disconnect (id : Uuid)
  /-- An event is emitted, to its subscribers or to some endpoints. -/
  | emit (new : NewEvent) (endpointIds : Option (List Uuid)) (newId : Uuid → Uuid)
  /-- A delivery is forced again. -/
  | redeliver (endpointId id : Uuid)
  /-- Old events are removed. -/
  | sweep (organizationId : Option Uuid) (windowDays : ℤ)
  /-- A worker begins with the endpoints switched off. -/
  | cancel (i : ℕ)
  /-- It claims what is due, -/
  | claim (i : ℕ) (locked : List Uuid)
  /-- reads its jobs, -/
  | load (i : ℕ)
  /-- sends one, -/
  | send (i : ℕ) (outcome : DeliveryOutcome) (durationMs : Option ℤ)
  /-- writes its report, -/
  | mark (i : ℕ)
  /-- and announces a delivery given up. -/
  | announce (i : ℕ) (newId : Uuid → Uuid)
  /-- A worker stops. -/
  | crash (i : ℕ)
  /-- Time passes. -/
  | tick (now : Instant)

/-- The step is an operator's, or the retention's. -/
def Step.isOperators : Step → Bool
  | .connect _ | .change .. | .disconnect _ | .redeliver .. | .sweep .. => true
  | _ => false

namespace Queue

/-- The history of a delivery. -/
def of (s : Queue) (id : Uuid) : List Entry := s.history.filter (·.id = id)

/-- How often a delivery was claimed. -/
def claims (s : Queue) (id : Uuid) : ℕ := (s.of id).countP Entry.isClaim

/-- The claim that holds a delivery. -/
def holder (s : Queue) (d : Delivery) : Option ℕ :=
  if d.status = .pending ∧ d.claimedAt.isSome then some (s.claims d.id) else none

/-- Worker `i` goes on. -/
def move (s : Queue) (i : ℕ) (p : Worker) : Queue :=
  { s with workers := Function.update s.workers i p }

/-- An event is emitted; the identifiers of its deliveries are new. -/
def emitted (s : Queue) (new : NewEvent) (endpointIds : Option (List Uuid)) (newId : Uuid → Uuid) :
    Option Queue :=
  (s.store.emit new endpointIds newId).bind fun (rows, store) =>
    if (rows.map (·.id)).Nodup ∧ ∀ d ∈ rows, ∀ x ∈ s.history, x.id ≠ d.id then
      some { s with store, history := s.history ++ rows.map (.queued ·.id) }
    else none

/-- Worker `i` claims what is due. -/
def claim (config : RunnerConfig) (s : Queue) (i : ℕ) (locked : List Uuid) : Queue :=
  let due := s.store.due config locked
  { s.move i (.holding (due.map fun d => (d.id, s.claims d.id + 1))) with
    store := s.store.claimDue config locked
    history := s.history ++ due.map fun d => .claimed d.id d.attempts d.maxAttempts }

/-- A report is written. -/
def report (s : Queue) (j : ClaimedJob) (m : Mark) : Queue :=
  let row := s.store.deliveries.find? j.job.deliveryId
  { s with
    store := s.store.mark j.job.deliveryId m
    history := s.history ++ row.toList.flatMap fun d => m.entries d.id
    reports := s.reports ++ row.toList.map fun d => ⟨d.id, j.claim, s.holder d⟩ }

/-- The jobs of a worker's claims. -/
def jobs (s : Queue) (claims : List (Uuid × ℕ)) : List ClaimedJob :=
  (s.store.loadJobs (claims.map (·.1))).filterMap fun job =>
    (claims.lookup job.deliveryId).map fun claim => ⟨job, claim⟩

end Queue

def queueStep (config : RunnerConfig) (s : Queue) : Step → Option Queue
  | .connect w => (s.store.insertEndpoint w).map fun store => { s with store }
  | .change id changes => some { s with store := s.store.updateEndpoint id changes }
  | .disconnect id => some { s with store := s.store.deleteEndpoint id }
  | .emit new endpointIds newId => s.emitted new endpointIds newId
  | .redeliver endpointId id =>
    match s.store.redeliver endpointId id with
    | (.ok _, store) => some { s with store, history := s.history ++ [.redelivered id] }
    | (.error _, _) => some s
  | .sweep organizationId windowDays =>
    some { s with store := s.store.sweepEvents organizationId windowDays }
  | .cancel i =>
    match s.workers i with
    | .idle =>
      some { s.move i .settled with store := s.store.cancelPendingForDisabled config.leaseSeconds }
    | _ => none
  | .claim i locked =>
    match s.workers i with
    | .settled => some (s.claim config i locked)
    | _ => none
  | .load i =>
    match s.workers i with
    | .claimed claims => some (s.move i (.next (s.jobs claims)))
    | _ => none
  | .send i outcome durationMs =>
    match s.workers i with
    | .sending j jobs => some (s.move i (.marking j (j.job.outcome config s.store.now durationMs outcome) jobs))
    | _ => none
  | .mark i =>
    match s.workers i with
    | .marking j m jobs => some ((s.report j m).move i (m.worker j.job jobs))
    | _ => none
  | .announce i newId =>
    -- An event that cannot be recorded is only logged.
    match s.workers i with
    | .announcing event jobs => some (((s.emitted event none newId).getD s).move i (.next jobs))
    | _ => none
  | .crash i => some (s.move i .idle)
  | .tick now => if s.store.now ≤ now then some { s with store := { s.store with now } } else none

/-- The queue before anything happens. -/
def Queue.empty (now : Instant) : Queue := { store := { now } }

/-! ### What a step can do -/

/-- The steps at which worker `i` goes on to `p`, and nothing else happens. -/
inductive Moves (config : RunnerConfig) (s : Queue) (i : ℕ) : Step → Worker → Prop where
  | load {claims : List (Uuid × ℕ)} : s.workers i = .claimed claims →
      Moves config s i (.load i) (.next (s.jobs claims))
  | send {j : ClaimedJob} {jobs : List ClaimedJob} {outcome : DeliveryOutcome} {durationMs : Option ℤ} :
      s.workers i = .sending j jobs →
      Moves config s i (.send i outcome durationMs)
        (.marking j (j.job.outcome config s.store.now durationMs outcome) jobs)
  | announce {event : NewEvent} {jobs : List ClaimedJob} {newId : Uuid → Uuid} :
      s.workers i = .announcing event jobs → Moves config s i (.announce i newId) (.next jobs)
  | crash : Moves config s i (.crash i) .idle

/-- The steps, and what each does. -/
inductive Took (config : RunnerConfig) (s : Queue) : Step → Queue → Prop where
  /-- No delivery is changed, but some may go. -/
  | keep {e : Step} {store : Store} : e.isOperators = true →
      (∀ d ∈ store.deliveries, d ∈ s.store.deliveries) → store.now = s.store.now →
      Took config s e { s with store }
  | move {i : ℕ} {e : Step} {p : Worker} : Moves config s i e p → Took config s e (s.move i p)
  | emit {new : NewEvent} {endpointIds : Option (List Uuid)} {newId : Uuid → Uuid} {t : Queue} :
      s.emitted new endpointIds newId = some t → Took config s (.emit new endpointIds newId) t
  | announce {i : ℕ} {event : NewEvent} {jobs : List ClaimedJob} {newId : Uuid → Uuid} {t : Queue} :
      s.workers i = .announcing event jobs → s.emitted event none newId = some t →
      Took config s (.announce i newId) (t.move i (.next jobs))
  | redeliver {endpointId id : Uuid} {count : ℕ} {store : Store} :
      s.store.redeliver endpointId id = (.ok count, store) →
      Took config s (.redeliver endpointId id) { s with store, history := s.history ++ [.redelivered id] }
  | cancel {i : ℕ} : s.workers i = .idle →
      Took config s (.cancel i)
        { s.move i .settled with store := s.store.cancelPendingForDisabled config.leaseSeconds }
  | claim {i : ℕ} {locked : List Uuid} : s.workers i = .settled →
      Took config s (.claim i locked) (s.claim config i locked)
  | mark {i : ℕ} {j : ClaimedJob} {m : Mark} {jobs : List ClaimedJob} :
      s.workers i = .marking j m jobs →
      Took config s (.mark i) ((s.report j m).move i (m.worker j.job jobs))
  | tick {now : Instant} : s.store.now ≤ now →
      Took config s (.tick now) { s with store := { s.store with now } }

/-- **What a step can do.** -/
theorem took {config : RunnerConfig} {s t : Queue} {e : Step} (h : queueStep config s e = some t) :
    Took config s e t := by
  cases e with
  | connect w =>
    obtain ⟨store, hinsert, rfl⟩ := Option.map_eq_some_iff.mp h
    obtain ⟨endpoints, -, rfl⟩ := Option.map_eq_some_iff.mp hinsert
    exact .keep rfl (fun d hd => hd) rfl
  | change id changes =>
    cases h
    exact .keep rfl (fun d hd => hd) rfl
  | disconnect id =>
    cases h
    exact .keep rfl (fun d hd => Store.mem_deleteEndpoint hd) rfl
  | emit new endpointIds newId => exact .emit h
  | redeliver endpointId id =>
    simp only [queueStep] at h
    split at h
    · cases h
      exact .redeliver ‹_›
    · cases h
      exact .keep rfl (fun d hd => hd) rfl
  | sweep organizationId windowDays =>
    cases h
    exact .keep rfl (fun d hd => Store.mem_sweepEvents hd) rfl
  | cancel i =>
    simp only [queueStep] at h
    split at h
    · cases h
      exact .cancel ‹_›
    · cases h
  | claim i locked =>
    simp only [queueStep] at h
    split at h
    · cases h
      exact .claim ‹_›
    · cases h
  | load i =>
    simp only [queueStep] at h
    split at h
    · cases h
      exact .move (.load ‹_›)
    · cases h
  | send i outcome durationMs =>
    simp only [queueStep] at h
    split at h
    · cases h
      exact .move (.send ‹_›)
    · cases h
  | mark i =>
    simp only [queueStep] at h
    split at h
    · cases h
      exact .mark ‹_›
    · cases h
  | announce i newId =>
    simp only [queueStep] at h
    split at h
    · rename_i event jobs hworker
      cases h
      cases hemitted : s.emitted event none newId with
      | none => exact .move (.announce hworker)
      | some u => exact .announce hworker hemitted
    · cases h
  | crash i =>
    cases h
    exact .move .crash
  | tick now =>
    simp only [queueStep] at h
    split_ifs at h with hnow
    cases h
    exact .tick hnow

/-! ### What becomes of the deliveries -/

section Rows

variable {config : RunnerConfig} {s t : Queue} {e : Step} {a d : Delivery}

theorem Queue.of_append {l : List Entry} (h : t.history = s.history ++ l) (id : Uuid) :
    t.of id = s.of id ++ l.filter (·.id = id) := by
  rw [of, h, List.filter_append, of]

theorem Queue.of_other {l : List Entry} (h : t.history = s.history ++ l) {id : Uuid}
    (hother : ∀ x ∈ l, x.id ≠ id) :
    t.of id = s.of id := by
  have hnil : l.filter (·.id = id) = [] :=
    List.filter_eq_nil_iff.mpr fun x hx => by simpa using hother x hx
  rw [of_append h, hnil, List.append_nil]

theorem filter_entries {f : Delivery → Entry} (hf : ∀ d, (f d).id = d.id) : ∀ {ds : List Delivery},
    (ds.map (·.id)).Nodup → a ∈ ds → (ds.map f).filter (·.id = a.id) = [f a]
  | d :: ds, hnodup, ha => by
    obtain ⟨hnew, hnodup⟩ := List.nodup_cons.mp hnodup
    rw [List.map_cons]
    rcases List.mem_cons.mp ha with rfl | ha
    · have hrest : (ds.map f).filter (·.id = a.id) = [] := by
        apply List.filter_eq_nil_iff.mpr
        intro x hx
        obtain ⟨d, hd, rfl⟩ := List.mem_map.mp hx
        have hne : d.id ≠ a.id := fun hid => hnew (List.mem_map.mpr ⟨d, hd, hid⟩)
        simpa [hf] using hne
      rw [List.filter_cons_of_pos (by simp [hf]), hrest]
    · have hne : d.id ≠ a.id := fun hid => hnew (List.mem_map.mpr ⟨a, ha, hid.symm⟩)
      rw [List.filter_cons_of_neg (by simpa [hf] using hne), filter_entries hf hnodup ha]

/-- Every delivery is in the history. -/
def Queue.Known (s : Queue) : Prop := ∀ d ∈ s.store.deliveries, s.of d.id ≠ []

/-- The delivery is one that was just queued. -/
structure Inserted (s t : Queue) (d : Delivery) : Prop where
  fresh : d.Fresh
  new : ∀ x ∈ s.history, x.id ≠ d.id
  log : t.of d.id = [.queued d.id]

/-- What step `e` makes of delivery `a`, and what the history says of it. -/
inductive Became (config : RunnerConfig) (s t : Queue) (e : Step) (a : Delivery) : Delivery → Prop where
  | same : t.of a.id = s.of a.id → Became config s t e a a
  | claimed {i : ℕ} {locked : List Uuid} : e = .claim i locked → a ∈ s.store.due config locked →
      t.of a.id = s.of a.id ++ [.claimed a.id a.attempts a.maxAttempts] →
      Became config s t e a (a.claimed s.store.now)
  | marked {i : ℕ} {j : ClaimedJob} {m : Mark} {jobs : List ClaimedJob} :
      e = .mark i → s.workers i = .marking j m jobs → j.job.deliveryId = a.id →
      t.of a.id = s.of a.id ++ m.entries a.id → Became config s t e a (m.row s.store.now a)
  | cancelled {i : ℕ} : e = .cancel i → s.store.isAbandoned config.leaseSeconds a = true →
      t.of a.id = s.of a.id → Became config s t e a a.cancelled
  | redelivered {endpointId : Uuid} : e = .redeliver endpointId a.id → a.status ≠ .pending →
      t.of a.id = s.of a.id ++ [.redelivered a.id] → Became config s t e a (a.redelivered s.store.now)

theorem Queue.emitted_eq_some {new : NewEvent} {endpointIds : Option (List Uuid)} {newId : Uuid → Uuid}
    (h : s.emitted new endpointIds newId = some t) :
    ∃ rows : List Delivery, t.history = s.history ++ rows.map (.queued ·.id) ∧ t.workers = s.workers ∧
      t.reports = s.reports ∧ t.store.now = s.store.now ∧ (rows.map (·.id)).Nodup ∧
      (∀ r ∈ rows, r.Fresh ∧ ∀ x ∈ s.history, x.id ≠ r.id) ∧
      ∀ d ∈ t.store.deliveries, d ∈ s.store.deliveries ∨ d ∈ rows := by
  obtain ⟨⟨rows, store⟩, hemit, h⟩ := Option.bind_eq_some_iff.mp h
  obtain ⟨hnow, hfresh, hmem⟩ := Store.mem_emit hemit
  simp only at h
  split_ifs at h with hnew
  cases h
  exact ⟨rows, rfl, rfl, rfl, hnow, hnew.1, fun r hr => ⟨hfresh r hr, hnew.2 r hr⟩, hmem⟩

theorem Queue.workers_emitted {new : NewEvent} {endpointIds : Option (List Uuid)} {newId : Uuid → Uuid}
    (h : s.emitted new endpointIds newId = some t) : t.workers = s.workers := by
  obtain ⟨_, -, hworkers, -⟩ := emitted_eq_some h
  exact hworkers

theorem Queue.reports_emitted {new : NewEvent} {endpointIds : Option (List Uuid)} {newId : Uuid → Uuid}
    (h : s.emitted new endpointIds newId = some t) : t.reports = s.reports := by
  obtain ⟨_, -, -, hreports, -⟩ := emitted_eq_some h
  exact hreports

theorem Queue.now_emitted {new : NewEvent} {endpointIds : Option (List Uuid)} {newId : Uuid → Uuid}
    (h : s.emitted new endpointIds newId = some t) : t.store.now = s.store.now := by
  obtain ⟨_, -, -, -, hnow, -⟩ := emitted_eq_some h
  exact hnow

theorem Queue.Known.emitted (h : s.Known) {new : NewEvent} {endpointIds : Option (List Uuid)}
    {newId : Uuid → Uuid} (hemitted : s.emitted new endpointIds newId = some t)
    (hd : d ∈ t.store.deliveries) :
    Inserted s t d ∨ d ∈ s.store.deliveries ∧ t.of d.id = s.of d.id := by
  obtain ⟨rows, hhistory, -, -, -, hnodup, hrows, hmem⟩ := emitted_eq_some hemitted
  by_cases hold : d ∈ s.store.deliveries
  · obtain ⟨x, hx⟩ := List.exists_mem_of_ne_nil _ (h d hold)
    obtain ⟨hx, hid⟩ := List.mem_filter.mp hx
    refine .inr ⟨hold, of_other hhistory fun y hy => ?_⟩
    obtain ⟨r, hr, rfl⟩ := List.mem_map.mp hy
    exact fun hr' => (hrows r hr).2 x hx ((of_decide_eq_true hid).trans hr'.symm)
  · have hr := (hmem d hd).resolve_left hold
    have hnone : s.of d.id = [] :=
      List.filter_eq_nil_iff.mpr fun x hx => by simpa using (hrows d hr).2 x hx
    refine .inl ⟨(hrows d hr).1, (hrows d hr).2, ?_⟩
    rw [of_append hhistory, hnone, List.nil_append]
    exact filter_entries (f := fun d => .queued d.id) (fun _ => rfl) hnodup hr

/-- **Every delivery** was just queued, or is what became of one there was. -/
theorem Took.rows (h : Took config s e t) (hs : s.Known) (hd : d ∈ t.store.deliveries) :
    Inserted s t d ∨ ∃ a ∈ s.store.deliveries, Became config s t e a d := by
  cases h with
  | keep hoperators hmem hnow => exact .inr ⟨d, hmem d hd, .same rfl⟩
  | move hmoves => exact .inr ⟨d, hd, .same rfl⟩
  | tick hnow => exact .inr ⟨d, hd, .same rfl⟩
  | emit hemitted => exact (hs.emitted hemitted hd).imp_right fun h => ⟨d, h.1, .same h.2⟩
  | announce hworker hemitted =>
    rcases hs.emitted hemitted hd with hinserted | ⟨hold, hlog⟩
    · exact .inl ⟨hinserted.fresh, hinserted.new, hinserted.log⟩
    · exact .inr ⟨d, hold, .same hlog⟩
  | @redeliver endpointId id count store hredeliver =>
    have hd' : d ∈ (s.store.redeliver endpointId id).2.deliveries := by rw [hredeliver]; exact hd
    obtain ⟨a, ha, rfl⟩ := Store.mem_redeliver hd'
    have hother : a.id ≠ id → ({ s with store, history := s.history ++ [.redelivered id] } : Queue).of a.id =
        s.of a.id := fun hne => Queue.of_other rfl fun x hx => by
      rw [List.mem_singleton.mp hx]
      exact Ne.symm hne
    split_ifs with hforced
    · obtain ⟨rfl, -, hsettled, -⟩ := Delivery.redeliverable_iff.mp hforced
      refine .inr ⟨a, ha, .redelivered rfl hsettled ?_⟩
      rw [Queue.of_append rfl, List.filter_cons_of_pos (by simp [Entry.id]), List.filter_nil]
    · -- the delivery forced again is another
      obtain ⟨b, hb, hbid, hbforced⟩ := Store.redeliver_ok hredeliver
      refine .inr ⟨a, ha, .same (hother fun hid => ?_)⟩
      obtain rfl := Table.eq_of_key ha hb (hid.trans hbid.symm)
      exact hforced hbforced
  | cancel hidle =>
    obtain ⟨a, ha, rfl⟩ := Store.mem_cancelPendingForDisabled.mp hd
    split_ifs with habandoned
    · exact .inr ⟨a, ha, .cancelled rfl habandoned rfl⟩
    · exact .inr ⟨a, ha, .same rfl⟩
  | @claim i locked hsettled =>
    obtain ⟨a, ha, ⟨hdue, rfl⟩ | ⟨hdue, rfl⟩⟩ := Store.mem_claimDue.mp hd
    · refine .inr ⟨a, ha, .claimed rfl hdue ?_⟩
      rw [Queue.of_append rfl]
      congr 1
      exact filter_entries (f := fun d => .claimed d.id d.attempts d.maxAttempts) (fun _ => rfl) Store.nodup_due hdue
    · refine .inr ⟨d, ha, .same (Queue.of_other rfl fun x hx => ?_)⟩
      obtain ⟨b, hb, rfl⟩ := List.mem_map.mp hx
      intro hid
      obtain rfl := Table.eq_of_key (Store.mem_due hb).1 ha hid
      exact hdue hb
  | @mark i j m jobs hmarking =>
    obtain ⟨a, ha, rfl⟩ := Store.mem_mark.mp hd
    split_ifs with hid
    · refine .inr ⟨a, ha, .marked rfl hmarking hid.symm ?_⟩
      have hrow : s.store.deliveries.find? j.job.deliveryId = some a :=
        Table.find?_eq_some.mpr ⟨ha, hid⟩
      have hentries : (m.entries a.id).filter (·.id = a.id) = m.entries a.id := by
        cases m <;> simp [Mark.entries, Entry.id]
      rw [Queue.of_append (s := s) (l := m.entries a.id) (by simp [Queue.move, Queue.report, hrow]), hentries]
    · refine .inr ⟨a, ha, .same ?_⟩
      cases hrow : s.store.deliveries.find? j.job.deliveryId with
      | none => exact Queue.of_other (s := s) (l := []) (by simp [Queue.move, Queue.report, hrow]) fun x hx => by cases hx
      | some b =>
        obtain ⟨-, hb⟩ := Table.find?_eq_some.mp hrow
        apply Queue.of_other (s := s) (l := m.entries b.id) (by simp [Queue.move, Queue.report, hrow])
        intro x hx
        cases m with
        | delivered responseStatus durationMs =>
          rw [List.mem_singleton.mp hx]
          exact fun h => hid (h.symm.trans hb)
        | retry responseStatus error nextAttemptAt durationMs => cases hx
        | failed responseStatus error durationMs => cases hx

theorem Became.id (h : Became config s t e a d) : d.id = a.id := by
  cases h with
  | marked hstep hmarking hid hlog => exact Mark.row_id _ _ _
  | _ => rfl

theorem Took.history (h : Took config s e t) : ∃ l, t.history = s.history ++ l := by
  cases h with
  | emit hemitted =>
    obtain ⟨rows, hhistory, -⟩ := Queue.emitted_eq_some hemitted
    exact ⟨_, hhistory⟩
  | announce hworker hemitted =>
    obtain ⟨rows, hhistory, -⟩ := Queue.emitted_eq_some hemitted
    exact ⟨_, hhistory⟩
  | redeliver hredeliver => exact ⟨_, rfl⟩
  | claim hsettled => exact ⟨_, rfl⟩
  | mark hmarking => exact ⟨_, rfl⟩
  | _ => exact ⟨[], (List.append_nil _).symm⟩

theorem Took.of_ne_nil (h : Took config s e t) {id : Uuid} (hid : s.of id ≠ []) : t.of id ≠ [] := by
  obtain ⟨l, hhistory⟩ := h.history
  rw [Queue.of_append hhistory]
  exact List.append_ne_nil_of_left_ne_nil hid _

theorem Took.now (h : Took config s e t) : t.store.now = s.store.now ∨ e = .tick t.store.now := by
  cases h with
  | keep hoperators hmem hnow => exact .inl hnow
  | emit hemitted => exact .inl (Queue.now_emitted hemitted)
  | announce hworker hemitted =>
    have hnow := Queue.now_emitted hemitted
    exact .inl hnow
  | redeliver hredeliver => exact .inl (Store.redeliver_now hredeliver)
  | tick hnow => exact .inr rfl
  | _ => exact .inl rfl

/-- Only a claim is logged as one. -/
theorem Took.claimed {id : Uuid} {attempts maxAttempts : ℕ} (h : Took config s e t)
    (hx : .claimed id attempts maxAttempts ∈ t.history) :
    .claimed id attempts maxAttempts ∈ s.history ∨ ∃ i locked, e = .claim i locked ∧
      ∃ a ∈ s.store.due config locked, a.attempts = attempts ∧ a.maxAttempts = maxAttempts := by
  have hemit : ∀ {u : Queue} {new : NewEvent} {endpointIds : Option (List Uuid)} {newId : Uuid → Uuid},
      s.emitted new endpointIds newId = some u → .claimed id attempts maxAttempts ∈ u.history →
        .claimed id attempts maxAttempts ∈ s.history := by
    intro u new endpointIds newId hemitted hx
    obtain ⟨rows, hhistory, -⟩ := Queue.emitted_eq_some hemitted
    rw [hhistory] at hx
    apply (List.mem_append.mp hx).resolve_right
    intro hx
    obtain ⟨r, -, hr⟩ := List.mem_map.mp hx
    cases hr
  cases h with
  | emit hemitted => exact .inl (hemit hemitted hx)
  | announce hworker hemitted => exact .inl (hemit hemitted hx)
  | redeliver hredeliver =>
    refine .inl ((List.mem_append.mp hx).resolve_right fun hx => ?_)
    cases List.mem_singleton.mp hx
  | @claim i locked hsettled =>
    refine (List.mem_append.mp hx).imp_right fun hx => ⟨i, locked, rfl, ?_⟩
    obtain ⟨a, ha, heq⟩ := List.mem_map.mp hx
    cases heq
    exact ⟨a, ha, rfl, rfl⟩
  | @mark i j m jobs hmarking =>
    refine .inl ((List.mem_append.mp hx).resolve_right fun hx => ?_)
    obtain ⟨d, -, hentry⟩ := List.mem_flatMap.mp hx
    cases m <;> simp [Mark.entries] at hentry
  | _ => exact .inl hx

theorem Queue.Known.step (hs : s.Known) (h : Took config s e t) : t.Known := by
  intro d hd
  rcases h.rows hs hd with hinserted | ⟨a, ha, hbecame⟩
  · rw [hinserted.log]
    exact List.cons_ne_nil _ _
  · rw [hbecame.id]
    exact h.of_ne_nil (hs a ha)

theorem run_known {now : Instant} {ok : Queue → Step → Prop} {es : List Step}
    (h : Transition.Run (queueStep config) ok (.empty now) es s) : s.Known :=
  h.invariant (fun _ hd => absurd hd List.not_mem_nil) fun _ _ _ hx _ hs => hx.step (took hs)

end Rows

/-! ### Some steps -/

/-- An endpoint that hears of published pages. -/
def receiver : WebhookEndpoint :=
  { id := 1, organizationId := 7, name := "Search", url := "https://search.example.com/hooks", secret := "s"
    events := ["page.published"] }

def published : Step := .emit { name := "page.published", organizationId := some 7 } none fun _ => 40

/-- A worker claims a delivery and crashes, and its lease runs out. -/
def crashed (now : Instant) : List Step := [.cancel 0, .claim 0 [], .crash 0, .tick now]

end Omnion.Events
