import Mathlib.Data.List.Destutter
import Omnion.Core.Json
import Omnion.Core.Text
import Omnion.Library.Run
import Omnion.Library.Sorting
import Omnion.Library.Table

/-!
# Queued restore jobs

`crates/backup/src/restore_jobs.rs` on the table of `0177_backup_restore_jobs.sql`, and
the worker of `apps/api/src/restore_job_runner.rs` that calls it: any number of workers,
stale sweeps and routes, taken apart into their statements and interleaved in any order.

## The model

A row of the table carries the proof that it meets the `check` constraints, so a
statement that would break one is refused and leaves the table as it was. A worker
claims a job, looks for a cancel, takes the safety backup and writes the objects; it may
stop at any point. A sweep reads the stale jobs once and then writes them one by one,
from what it read. The claims and the jobs whose objects were written are kept as
ledgers.

## What is proved

* `run_stages_sound` — what is finished stays as it is; an aborted job reads as never started
  and cancelled, nothing was written for it, and no claim went on with it; a sweep
  leaves alone what was claimed since it read, and stops only what is older than its
  limit.
* `aborted_after_claim` — an aborted job can have been claimed, and a job that has just
  been claimed can be stopped as stale.

## Honest scope

The rows that cascade from a deleted backup or organization, the bytes of the restore
and the audit entries are left out. Stale rows of one instant are read in the order in
which they were inserted.
-/

namespace Omnion.Backup

open Transition

/-- `PARTS`, in the order of the panel. -/
def knownParts : List String := ["database", "media", "configuration", "themes", "plugins"]

/-- A restore job's lifecycle. -/
inductive JobStatus where
  /-- Waiting for the worker: the cancellable window. -/
  | queued
  | running
  /-- Every selected part was restored. -/
  | succeeded
  | failed
  /-- Stopped while it was still cancellable. -/
  | aborted
  deriving DecidableEq

/-- The two states of a live job. -/
def JobStatus.isLive : JobStatus → Bool
  | .queued | .running => true
  | _ => false

/-- A queued restore. -/
structure RestoreJob where
  id : Uuid
  organizationId : Option Uuid
  backupId : Uuid
  /-- The parts the operator left ticked. -/
  parts : List String
  /-- The confirmation phrase they typed. -/
  confirmation : String
  status : JobStatus
  /-- Whether somebody asked for this to stop. -/
  cancelRequested : Bool
  startedAt : Option Instant
  /-- When it stopped, however it stopped. -/
  finishedAt : Option Instant
  /-- The protected run to go back to. -/
  safetyBackupId : Option Uuid
  liveDropped : ℤ
  liveMatches : ℤ
  result : Option Json
  error : Option String
  createdBy : Option Uuid
  createdAt : Instant
  updatedAt : Instant

/-- What a route sends when it queues a restore. -/
structure NewRestoreJob where
  organizationId : Option Uuid
  backupId : Uuid
  parts : List String
  confirmation : String
  liveDropped : ℤ
  liveMatches : ℤ
  createdBy : Option Uuid

/-- Why a job could not be found. -/
inductive JobError where
  | notFound
  /-- The job is no longer in a state that permits the call. -/
  | notCancellable (state : String)
  /-- The run already has a restore waiting or in flight. -/
  | alreadyLive (state : String)
  /-- The database refused or could not answer. -/
  | unavailable (reason : String)

def JobError.message : JobError → String
  | .notFound => "no queued restore with this id"
  | .notCancellable state => "this restore is " ++ state ++ " and can no longer be cancelled"
  | .alreadyLive state => "this run already has a restore that is " ++ state
  | .unavailable reason => "the restore could not be queued: " ++ reason

/-- `length(btrim(coalesce(error, ''))) > 0`: `btrim` removes blanks at the two ends. -/
def hasReason (error : Option String) : Bool :=
  let text := (error.getD "").toList
  0 < ((text.dropWhile (· = ' ')).rdropWhile (· = ' ')).length

theorem hasReason_append {head : String} {l : List Char} (hhead : head.toList = l) (h : ∃ c ∈ l, c ≠ ' ')
    (text : String) : hasReason (some (head ++ text)) = true := by
  obtain ⟨c, hc, hblank⟩ := h
  simp only [hasReason, Option.getD_some, String.toList_append, hhead, decide_eq_true_eq]
  rw [List.length_pos_iff, Ne, List.rdropWhile_eq_nil_iff]
  intro hblanks
  have hdropped : (l ++ text.toList).dropWhile (· = ' ') = [] := by
    by_contra hne
    exact absurd (hblanks _ (List.head_mem hne)) (by simpa using List.head_dropWhile_not (· = ' ') hne)
  rw [List.dropWhile_eq_nil_iff] at hdropped
  exact hblank (by simpa using hdropped c (List.mem_append_left _ hc))

/-- The `check` constraints of the table. -/
def RestoreJob.checked (job : RestoreJob) : Bool :=
  (match job.status with
    | .queued => job.startedAt.isNone && job.finishedAt.isNone
    | .running => job.startedAt.isSome && job.finishedAt.isNone
    | .succeeded | .failed => job.startedAt.isSome && job.finishedAt.isSome
    | .aborted => job.finishedAt.isSome) &&
  (1 ≤ job.parts.length && job.parts.length ≤ 5) && job.parts.all (· ∈ knownParts) && job.parts.Nodup &&
  (job.status ≠ .aborted || (job.startedAt.isNone && job.cancelRequested)) &&
  (job.status ≠ .succeeded || (job.result.isSome && job.safetyBackupId.isSome)) &&
  (job.status ≠ .failed || hasReason job.error)

/-- A row of `backup_restore_jobs`. -/
abbrev JobRow := { job : RestoreJob // job.checked = true }

def JobRow.id (row : JobRow) : Uuid := row.1.id

/-- `backup_restore_jobs`. -/
abbrev Jobs := Table JobRow JobRow.id

/-- A row as an update makes it, when it still meets the checks. -/
def JobRow.set (f : RestoreJob → RestoreJob) (row : JobRow) : JobRow :=
  if h : (f row.1).checked = true then ⟨f row.1, h⟩ else row

theorem JobRow.id_set {f : RestoreJob → RestoreJob} (hf : ∀ job, (f job).id = job.id) (row : JobRow) :
    (row.set f).id = row.id := by
  unfold JobRow.set
  split
  · exact hf row.1
  · rfl

namespace Jobs

/-- `update backup_restore_jobs set … where id = $1 and …`, refused when the row would break a check. -/
def write (jobs : Jobs) (id : Uuid) (p : RestoreJob → Bool) (f : RestoreJob → RestoreJob)
    (hf : ∀ job, (f job).id = job.id) : Option Jobs :=
  if (jobs.find? id).all fun row => !p row.1 || (f row.1).checked then
    some (jobs.update (fun row => row.id = id && p row.1) (JobRow.set f) (JobRow.id_set hf))
  else none

/-- The status of the run's live job, if it has one. -/
def live (jobs : Jobs) (backupId : Uuid) : Option JobStatus :=
  (jobs.rows.find? fun row => row.1.backupId = backupId && row.1.status.isLive).map (·.1.status)

end Jobs

/-- `static_status`. -/
def staticStatus : JobStatus → String
  | .queued => "queued"
  | .running => "running"
  | _ => "in flight"

/-- The selection as it is stored: in the order of the panel, without repetitions. -/
def storedParts (parts : List String) : List String :=
  (Sorting.sortBy (fun part => knownParts.idxOf part) parts).destutter (· ≠ ·)

/-- The row a route queues, with the defaults of the table. -/
def NewRestoreJob.job (new : NewRestoreJob) (id : Uuid) (now : Instant) : RestoreJob where
  id := id
  organizationId := new.organizationId
  backupId := new.backupId
  parts := storedParts new.parts
  confirmation := new.confirmation
  status := .queued
  cancelRequested := false
  startedAt := none
  finishedAt := none
  safetyBackupId := none
  liveDropped := new.liveDropped
  liveMatches := new.liveMatches
  result := none
  error := none
  createdBy := new.createdBy
  createdAt := now
  updatedAt := now

namespace Jobs

/-- `queue_restore`; the id is the one the database generates. -/
def queueRestore (jobs : Jobs) (new : NewRestoreJob) (id : Uuid) (now : Instant) : Except JobError Jobs :=
  if new.parts.isEmpty then .error (.notCancellable "nothing was selected")
  else if new.parts.any (· ∉ knownParts) then
    .error (.notCancellable "a selected part is not one of the five")
  else
    let job := new.job id now
    if h : job.checked = true then
      -- The partial unique index on live jobs, and the primary key, answer with one code.
      match jobs.live new.backupId, jobs.insert? ⟨job, h⟩ with
      | none, some jobs => .ok jobs
      | live, _ => .error (.alreadyLive (live.elim "queued" staticStatus))
    else .error (.unavailable "a check constraint refused the row")

/-- `request_restore_cancel`. -/
def requestCancel (jobs : Jobs) (id : Uuid) (now : Instant) : Option Jobs :=
  jobs.write id (fun job => job.status = .queued)
    (fun job => { job with cancelRequested := true, updatedAt := now }) fun _ => rfl

/-- `settle_restore_cancel`. -/
def settleCancel (jobs : Jobs) (id : Uuid) (reason : String) (now : Instant) : Option Jobs :=
  jobs.write id (fun job => job.status = .queued && job.cancelRequested)
    (fun job => { job with
      status := .aborted, finishedAt := some now, error := some reason, updatedAt := now }) fun _ => rfl

/-- The first statement of `claim_restore_job`. -/
def claim (jobs : Jobs) (id : Uuid) (now : Instant) : Option Jobs :=
  jobs.write id (fun job => job.status = .queued)
    (fun job => { job with status := .running, startedAt := some now, updatedAt := now }) fun _ => rfl

/-- `abort_restore_job`. -/
def abort (jobs : Jobs) (id : Uuid) (reason : String) (now : Instant) : Option Jobs :=
  jobs.write id (fun job => job.status = .running && job.cancelRequested)
    (fun job => { job with
      status := .aborted, startedAt := none, finishedAt := some now, error := some reason, updatedAt := now })
    fun _ => rfl

/-- `finish_restore_job`. -/
def finish (jobs : Jobs) (id : Uuid) (succeeded : Bool) (safetyBackupId : Option Uuid) (result : Option Json)
    (error : Option String) (now : Instant) : Option Jobs :=
  jobs.write id (fun job => job.status = .running)
    (fun job => { job with
      status := if succeeded then .succeeded else .failed
      finishedAt := some now, safetyBackupId, result, error, updatedAt := now }) fun _ => rfl

/-- `cancel_was_requested`. -/
def cancelWasRequested (jobs : Jobs) (id : Uuid) : Bool :=
  ((jobs.find? id).map (·.1.cancelRequested)).getD false

end Jobs

/-- `make_interval(mins => …)` of the clamped limit, in microseconds. -/
def staleAfter (maxAgeMinutes : ℤ) : ℤ := min (max maxAgeMinutes 1) 0x7fffffff * 60000000

/-- The reason a sweep writes on a job it read as running. -/
def interrupted (maxAgeMinutes : ℤ) : String :=
  "this restore was claimed " ++ toString maxAgeMinutes ++ " minutes ago and no worker has touched it since, " ++
    "so it is assumed to have been interrupted mid-flight. Whether it wrote " ++
    "anything is NOT known: the safety backup named below is the run to go back " ++
    "to. Verify the library before queueing another restore of this run."

/-- The reason a sweep writes on a job it read as queued. -/
def unclaimed (maxAgeMinutes : ℤ) : String :=
  "this restore waited " ++ toString maxAgeMinutes ++ " minutes for a worker and none claimed it, so the " ++
    "platform stopped it rather than leaving it to spin for ever. Nothing was " ++
    "written. Queue it again when you are ready."

/-- What a sweep makes of a row, by the status it read. -/
def RestoreJob.stop (read : RestoreJob) (maxAgeMinutes : ℤ) (now : Instant) (job : RestoreJob) : RestoreJob :=
  if read.status = .running then
    { job with
      status := .failed, cancelRequested := false, finishedAt := some now, error := some (interrupted maxAgeMinutes)
      updatedAt := now }
  else
    { job with
      status := .aborted, cancelRequested := true, finishedAt := some now, error := some (unclaimed maxAgeMinutes)
      updatedAt := now }

theorem RestoreJob.id_stop (read : RestoreJob) (maxAgeMinutes : ℤ) (now : Instant) (job : RestoreJob) :
    (read.stop maxAgeMinutes now job).id = job.id := by
  unfold stop
  split_ifs <;> rfl

namespace Jobs

/-- The read of `fail_stale_restore_jobs`: up to 20 live jobs queued before the limit, oldest first. -/
def stale (jobs : Jobs) (maxAgeMinutes : ℤ) (now : Instant) : List RestoreJob :=
  let old := jobs.rows.filter fun row => row.1.status.isLive && row.1.createdAt < now - staleAfter maxAgeMinutes
  ((Sorting.sortBy (fun row => row.1.createdAt) old).take 20).map (·.1)

/-- A write of `fail_stale_restore_jobs`, for a job as it was read. -/
def stopStale (jobs : Jobs) (read : RestoreJob) (maxAgeMinutes : ℤ) (now : Instant) : Option Jobs :=
  jobs.write read.id (fun job => job.status.isLive) (read.stop maxAgeMinutes now) (read.id_stop maxAgeMinutes now)

end Jobs

/-! ### The system -/

/-- How far a worker has come. -/
inductive WorkerStage where
  | idle
  | cancelled (id : Uuid)
  /-- The job of a cancelled claim could not be marked aborted. -/
  | unaborted (id : Uuid)
  | claimed (id : Uuid)
  | honouring (id : Uuid)
  /-- Its last look found none: the plan, then the safety backup. -/
  | cleared (id : Uuid)
  | restoring (id : Uuid)

/-- The job a worker goes on with, once its claim found no cancel. -/
def WorkerStage.holds : WorkerStage → Option Uuid
  | .claimed id | .honouring id | .cleared id | .restoring id => some id
  | _ => none

/-- A stale sweep that has read its jobs. -/
structure StaleSweep where
  /-- The jobs it read and has not written. -/
  rest : List RestoreJob
  maxAgeMinutes : ℤ
  readAt : Instant
  /-- How many claims there had been. -/
  seen : ℕ

/-- A claim that moved its job. -/
structure Claim where
  id : Uuid
  cancelled : Bool
  deriving DecidableEq

/-- The table, the clock, the workers and the sweeps, and what was claimed and written. -/
structure Restores where
  /-- `backup_restore_jobs`. -/
  jobs : Jobs
  now : Instant
  workers : ℕ → WorkerStage
  sweeps : ℕ → Option StaleSweep
  claims : List Claim
  /-- The jobs whose objects were written. -/
  written : List Uuid

namespace Restores

/-- Before anything is queued. -/
def start (now : Instant) : Restores where
  jobs := .empty
  now := now
  workers := fun _ => .idle
  sweeps := fun _ => none
  claims := []
  written := []

/-- Worker `c` goes on to a stage. -/
def move (s : Restores) (c : ℕ) (stage : WorkerStage) : Restores :=
  { s with workers := Function.update s.workers c stage }

/-- Sweep `c` goes on, or ends. -/
def moveSweep (s : Restores) (c : ℕ) (sweep : Option StaleSweep) : Restores :=
  { s with sweeps := Function.update s.sweeps c sweep }

/-- A statement runs; a refused one leaves the table as it was. -/
def run (s : Restores) (statement : Option Jobs) : Restores := { s with jobs := statement.getD s.jobs }

/-- A worker claims a job, if it is still queued. -/
def claim (s : Restores) (c : ℕ) (id : Uuid) : Restores :=
  match (s.jobs.find? id).filter (·.1.status = .queued), s.jobs.claim id s.now with
  | some row, some jobs =>
    { s.move c (if row.1.cancelRequested then .cancelled id else .claimed id) with
      jobs
      claims := s.claims ++ [⟨id, row.1.cancelRequested⟩] }
  | _, _ => s

def sweepRead (s : Restores) (c : ℕ) (maxAgeMinutes : ℤ) : Restores :=
  s.moveSweep c (some ⟨s.jobs.stale maxAgeMinutes s.now, maxAgeMinutes, s.now, s.claims.length⟩)

/-- A sweep writes the next of its jobs. A refused write ends it. -/
def sweepWrite (s : Restores) (c : ℕ) (sweep : StaleSweep) : Restores :=
  match sweep.rest with
  | [] => s.moveSweep c none
  | read :: rest =>
    match s.jobs.stopStale read sweep.maxAgeMinutes s.now with
    | none => s.moveSweep c none
    | some jobs => { s.moveSweep c (some { sweep with rest }) with jobs }

end Restores

/-- The statements of the routes, the workers and the sweeps, and the clock. -/
inductive RestoreEvent where
  | tick (now : Instant)
  /-- A route queues a restore, under the id the database generates. -/
  | queue (new : NewRestoreJob) (id : Uuid)
  | requestCancel (id : Uuid)
  | settle (id : Uuid) (reason : String)
  | claim (c : ℕ) (id : Uuid)
  /-- A worker marks its job aborted, after a cancel. -/
  | abort (c : ℕ)
  | abortFails (c : ℕ)
  /-- A worker looks for a cancel before its first write. -/
  | check (c : ℕ)
  | write (c : ℕ)
  /-- A worker records that the restore succeeded. -/
  | succeed (c : ℕ) (safetyBackupId : Uuid) (outcome : Json)
  /-- A worker records why it failed. -/
  | fail (c : ℕ) (reason : String)
  /-- A worker stops: an error, or a crash. -/
  | stop (c : ℕ)
  | sweepRead (c : ℕ) (maxAgeMinutes : ℤ)
  /-- A sweep writes the next of them. -/
  | sweepWrite (c : ℕ)
  | sweepStop (c : ℕ)

/-- One statement. -/
def restoreStep (s : Restores) : RestoreEvent → Option Restores
  | .tick now => if s.now ≤ now then some { s with now } else none
  | .queue new id => some (s.run (s.jobs.queueRestore new id s.now).toOption)
  | .requestCancel id => some (s.run (s.jobs.requestCancel id s.now))
  | .settle id reason => some (s.run (s.jobs.settleCancel id reason s.now))
  | .claim c id =>
    match s.workers c with
    | .idle => some (s.claim c id)
    | _ => none
  | .abort c =>
    match s.workers c with
    | .cancelled id => some ((s.run (s.jobs.abort id "cancelled before the first write" s.now)).move c .idle)
    | .honouring id =>
      some ((s.run (s.jobs.abort id "cancelled before the first write — nothing was changed" s.now)).move c .idle)
    | _ => none
  | .abortFails c =>
    match s.workers c with
    | .cancelled id => some (s.move c (.unaborted id))
    | _ => none
  | .check c =>
    match s.workers c with
    | .claimed id => some (s.move c (if s.jobs.cancelWasRequested id then .honouring id else .cleared id))
    | _ => none
  | .write c =>
    match s.workers c with
    | .cleared id | .restoring id => some { s.move c (.restoring id) with written := id :: s.written }
    | _ => none
  | .succeed c safetyBackupId outcome =>
    match s.workers c with
    | .cleared id | .restoring id =>
      some ((s.run (s.jobs.finish id true (some safetyBackupId) (some outcome) none s.now)).move c .idle)
    | _ => none
  | .fail c reason =>
    match s.workers c with
    | .unaborted id | .cleared id | .restoring id =>
      some ((s.run (s.jobs.finish id false none none (some reason) s.now)).move c .idle)
    | _ => none
  | .stop c => some (s.move c .idle)
  | .sweepRead c maxAgeMinutes =>
    match s.sweeps c with
    | none => some (s.sweepRead c maxAgeMinutes)
    | some _ => none
  | .sweepWrite c => (s.sweeps c).map (s.sweepWrite c)
  | .sweepStop c => some (s.moveSweep c none)

/-! ### What a statement does to a row -/

namespace RestoreJob

/-- Its claim went on with it: it runs without a cancel, or it ran to its end. -/
def Begun (job : RestoreJob) : Prop :=
  (job.status = .running ∧ job.cancelRequested = false) ∨ job.status = .succeeded ∨ job.status = .failed

/-- What a statement may make of a row. -/
structure Moved (a b : RestoreJob) : Prop where
  /-- It was queued when it was queued. -/
  createdAt : b.createdAt = a.createdAt
  /-- What is finished stays as it is. -/
  terminal : a.status.isLive = false → b = a
  queued : b.status = .queued → a.status = .queued
  begun : a.Begun → b.Begun

theorem Moved.refl (a : RestoreJob) : a.Moved a := ⟨rfl, fun _ => rfl, fun h => h, fun h => h⟩

theorem Moved.trans {a b c : RestoreJob} (h : a.Moved b) (h' : b.Moved c) : a.Moved c := by
  refine ⟨h'.createdAt.trans h.createdAt, fun ha => ?_, fun hc => h.queued (h'.queued hc),
    fun ha => h'.begun (h.begun ha)⟩
  have hb := h.terminal ha
  rw [h'.terminal (hb ▸ ha), hb]

theorem startedAt_of_running {job : RestoreJob} (h : job.checked = true) (hrunning : job.status = .running) :
    job.startedAt.isSome := by
  simp only [checked, hrunning, Bool.and_eq_true] at h
  exact h.1.1.1.1.1.1.1

/-- A job that runs and was read as running may be failed: it has started, and there is a reason. -/
theorem checked_stop {read job : RestoreJob} (maxAgeMinutes : ℤ) (now : Instant) (hread : read.status = .running)
    (h : job.checked = true) (hrunning : job.status = .running) :
    (read.stop maxAgeMinutes now job).checked = true := by
  have hreason : hasReason (some (interrupted maxAgeMinutes)) = true := by
    unfold interrupted
    simp only [String.append_assoc]
    exact hasReason_append String.toList_ofList ⟨'t', by decide, by decide⟩ _
  have hstarted := startedAt_of_running h hrunning
  simp only [checked, hrunning, Bool.and_eq_true] at h
  simp [checked, stop, hread, hstarted, hreason, h.1.1.1.1.1.2, h.1.1.1.1.2, h.1.1.1.2]

theorem of_aborted {job : RestoreJob} (h : job.checked = true) (haborted : job.status = .aborted) :
    job.startedAt = none ∧ job.cancelRequested = true := by
  simp only [checked, haborted, Bool.and_eq_true] at h
  simpa using h.1.1.2

end RestoreJob

namespace Jobs

variable {jobs jobs' : Jobs} {id : Uuid} {now : Instant}

/-- Every row is kept, and moved as a statement may move it. -/
abbrev Moves (jobs jobs' : Jobs) : Prop := jobs.Grows (fun a b => a.1.Moved b.1) jobs'

theorem Moves.refl (jobs : Jobs) : jobs.Moves jobs := Table.Grows.refl fun a => .refl a.1

theorem Moves.trans {jobs'' : Jobs} (h : jobs.Moves jobs') (h' : jobs'.Moves jobs'') : jobs.Moves jobs'' :=
  Table.Grows.trans (fun _ _ _ => .trans) h h'

theorem Moves.mem {row : JobRow} (h : jobs.Moves jobs') (hrow : row ∈ jobs) (hdone : row.1.status.isLive = false) :
    row ∈ jobs' := by
  obtain ⟨row', hrow', -, hmoved⟩ := h row hrow
  rwa [← Subtype.ext (hmoved.terminal hdone)]

section Write

variable {p : RestoreJob → Bool} {f : RestoreJob → RestoreJob} {hf : ∀ job, (f job).id = job.id}

theorem write_eq_some (h : jobs.write id p f hf = some jobs') :
    jobs' = jobs.update (fun row => row.id = id && p row.1) (JobRow.set f) (JobRow.id_set hf) ∧
      ∀ row ∈ jobs, row.id = id → p row.1 = true → (f row.1).checked = true := by
  simp only [write, Option.ite_none_right_eq_some, Option.some.injEq] at h
  refine ⟨h.2.symm, fun row hrow hid hp => ?_⟩
  have hfind : jobs.find? id = some row := Table.find?_eq_some.mpr ⟨hrow, hid⟩
  simpa [hfind, hp] using h.1

theorem moves_write (h : jobs.write id p f hf = some jobs')
    (hmoved : ∀ row ∈ jobs, row.id = id → p row.1 = true → (f row.1).checked = true → row.1.Moved (f row.1)) :
    jobs.Moves jobs' := by
  obtain ⟨rfl, hchecked⟩ := write_eq_some h
  refine Table.Grows.update _ (fun a => .refl a.1) fun row hrow hp => ?_
  simp only [Bool.and_eq_true, decide_eq_true_eq] at hp
  have hset := hchecked row hrow hp.1 hp.2
  rw [JobRow.set, dif_pos hset]
  exact hmoved row hrow hp.1 hp.2 hset

theorem mem_of_write {row : JobRow} (h : jobs.write id p f hf = some jobs') (hrow : row ∈ jobs)
    (hnot : row.id = id → p row.1 = false) : row ∈ jobs' := by
  obtain ⟨rfl, -⟩ := write_eq_some h
  refine Table.mem_update.mpr ⟨row, hrow, if_neg ?_⟩
  simp only [Bool.and_eq_true, decide_eq_true_eq, not_and, Bool.not_eq_true]
  exact hnot

end Write

theorem moves_getD {statement : Option Jobs} (h : ∀ jobs', statement = some jobs' → jobs.Moves jobs') :
    jobs.Moves (statement.getD jobs) := by
  cases statement with
  | none => exact .refl jobs
  | some jobs' => exact h jobs' rfl

theorem moves_requestCancel (h : jobs.requestCancel id now = some jobs') : jobs.Moves jobs' := by
  refine moves_write h fun row _ _ hqueued _ => ?_
  have hstatus := of_decide_eq_true hqueued
  exact ⟨rfl, by simp [hstatus, JobStatus.isLive], fun h => h, by simp [RestoreJob.Begun, hstatus]⟩

theorem moves_settleCancel {reason : String} (h : jobs.settleCancel id reason now = some jobs') :
    jobs.Moves jobs' := by
  refine moves_write h fun row _ _ hqueued _ => ?_
  simp only [Bool.and_eq_true, decide_eq_true_eq] at hqueued
  exact ⟨rfl, by simp [hqueued.1, JobStatus.isLive], nofun, by simp [RestoreJob.Begun, hqueued.1]⟩

theorem moves_claim (h : jobs.claim id now = some jobs') : jobs.Moves jobs' := by
  refine moves_write h fun row _ _ hqueued _ => ?_
  have hstatus := of_decide_eq_true hqueued
  exact ⟨rfl, by simp [hstatus, JobStatus.isLive], nofun, by simp [RestoreJob.Begun, hstatus]⟩

theorem moves_abort {reason : String} (h : jobs.abort id reason now = some jobs') : jobs.Moves jobs' := by
  refine moves_write h fun row _ _ hcancelled _ => ?_
  simp only [Bool.and_eq_true, decide_eq_true_eq] at hcancelled
  exact ⟨rfl, by simp [hcancelled.1, JobStatus.isLive], nofun, by simp [RestoreJob.Begun, hcancelled.1, hcancelled.2]⟩

theorem moves_finish {succeeded : Bool} {safetyBackupId : Option Uuid} {outcome : Option Json} {error : Option String}
    (h : jobs.finish id succeeded safetyBackupId outcome error now = some jobs') : jobs.Moves jobs' := by
  refine moves_write h fun row _ _ hrunning _ => ?_
  have hstatus := of_decide_eq_true hrunning
  refine ⟨rfl, by simp [hstatus, JobStatus.isLive], ?_, fun _ => .inr ?_⟩
  · cases succeeded <;> nofun
  · cases succeeded
    · exact .inr rfl
    · exact .inl rfl

/-- A sweep aborts a job only while it is queued: the checks refuse to abort what runs. -/
theorem moves_stopStale {read : RestoreJob} {maxAgeMinutes : ℤ}
    (h : jobs.stopStale read maxAgeMinutes now = some jobs') : jobs.Moves jobs' := by
  refine moves_write h fun row _ _ hlive hset => ?_
  unfold RestoreJob.stop at hset ⊢
  split_ifs at hset ⊢
  · exact ⟨rfl, by simp [hlive], nofun, fun _ => .inr (.inr rfl)⟩
  · refine ⟨rfl, by simp [hlive], nofun, ?_⟩
    rintro (⟨hrunning, -⟩ | hdone | hdone)
    · have hstarted := RestoreJob.startedAt_of_running row.2 hrunning
      have hnone : row.1.startedAt = none := (RestoreJob.of_aborted hset rfl).1
      rw [hnone] at hstarted
      cases hstarted
    · rw [hdone] at hlive
      cases hlive
    · rw [hdone] at hlive
      cases hlive

theorem stopStale_of_running {read : RestoreJob} {row : JobRow} (maxAgeMinutes : ℤ) (hrow : row ∈ jobs)
    (hid : row.id = read.id) (hread : read.status = .running) (hrunning : row.1.status = .running) :
    ∃ jobs', jobs.stopStale read maxAgeMinutes now = some jobs' ∧
      ∃ row' ∈ jobs', row'.1 = read.stop maxAgeMinutes now row.1 := by
  have hchecked := RestoreJob.checked_stop maxAgeMinutes now hread row.2 hrunning
  have hfind : jobs.find? read.id = some row := Table.find?_eq_some.mpr ⟨hrow, hid⟩
  have hlive : row.1.status.isLive = true := by simp [hrunning, JobStatus.isLive]
  refine ⟨_, if_pos (by simp [hfind, hlive, hchecked]), _, Table.mem_update.mpr ⟨row, hrow, rfl⟩, ?_⟩
  rw [if_pos (by simp [hid, hlive]), JobRow.set, dif_pos hchecked]

theorem moves_queueRestore {new : NewRestoreJob} (h : jobs.queueRestore new id now = .ok jobs') :
    jobs.Moves jobs' := by
  unfold queueRestore at h
  split_ifs at h
  simp only at h
  split at h
  · split at h
    · rename_i hinsert
      rw [← Except.ok.inj h]
      exact .insert? (fun a => .refl a.1) hinsert
    · cases h
  · cases h

end Jobs

namespace Restores

variable {s t : Restores} {c : ℕ} {id : Uuid}

/-- **What every step does**: rows move as a statement may move them, a claim finds its job queued,
what is written is held by a worker, and a sweep goes on with what it read. -/
structure Took (s t : Restores) : Prop where
  jobs : s.jobs.Moves t.jobs
  now : s.now ≤ t.now
  /-- A claim is recorded with the flag its row has; the row runs from then on. -/
  claims : t.claims = s.claims ∨ ∃ row ∈ s.jobs, ∃ row' ∈ t.jobs, row.1.status = .queued ∧ row'.id = row.id ∧
    row'.1.status = .running ∧ row'.1.cancelRequested = row.1.cancelRequested ∧
    t.claims = s.claims ++ [⟨row.id, row.1.cancelRequested⟩]
  /-- A worker goes on with the job it held, or that it has claimed without a cancel. -/
  workers : ∀ c id, (t.workers c).holds = some id → (s.workers c).holds = some id ∨ ⟨id, false⟩ ∈ t.claims
  written : ∀ id ∈ t.written, id ∈ s.written ∨ ∃ c, (s.workers c).holds = some id
  /-- A sweep has some of its jobs left, or has read them now. -/
  sweeps : ∀ c sweep, t.sweeps c = some sweep →
    (∃ before, s.sweeps c = some before ∧ sweep.rest ⊆ before.rest ∧
      sweep = { before with rest := sweep.rest }) ∨
    (t.jobs = s.jobs ∧ t.claims = s.claims ∧
      sweep = ⟨s.jobs.stale sweep.maxAgeMinutes s.now, sweep.maxAgeMinutes, s.now, s.claims.length⟩)

@[simp] theorem move_self {stage : WorkerStage} : (s.move c stage).workers c = stage := Function.update_self ..

theorem move_of_ne {d : ℕ} {stage : WorkerStage} (h : d ≠ c) : (s.move c stage).workers d = s.workers d :=
  Function.update_of_ne h ..

/-- A step that only moves rows, and one worker to a stage that holds nothing new. -/
theorem Took.of_statement {jobs : Jobs} {stage : WorkerStage} (hjobs : s.jobs.Moves jobs)
    (hstage : ∀ id, stage.holds = some id → (s.workers c).holds = some id) : s.Took { s.move c stage with jobs } := by
  refine ⟨hjobs, le_rfl, .inl rfl, fun d id hd => .inl ?_, fun id hid => .inl hid, fun d sweep hd => .inl ?_⟩
  · by_cases hdc : d = c
    · subst hdc
      rw [show ({ s.move d stage with jobs } : Restores).workers d = stage from move_self] at hd
      exact hstage id hd
    · rwa [show ({ s.move c stage with jobs } : Restores).workers d = s.workers d from move_of_ne hdc] at hd
  · exact ⟨sweep, hd, List.Subset.refl _, rfl⟩

theorem Took.of_moves {jobs : Jobs} (h : s.jobs.Moves jobs) : s.Took { s with jobs } :=
  ⟨h, le_rfl, .inl rfl, fun _ _ hd => .inl hd, fun _ hid => .inl hid,
    fun _ sweep hd => .inl ⟨sweep, hd, List.Subset.refl _, rfl⟩⟩

theorem Took.run {statement : Option Jobs} (h : ∀ jobs, statement = some jobs → s.jobs.Moves jobs) :
    s.Took (s.run statement) :=
  .of_moves (Jobs.moves_getD h)

theorem Took.run_idle {statement : Option Jobs} (h : ∀ jobs, statement = some jobs → s.jobs.Moves jobs) :
    s.Took ((s.run statement).move c .idle) :=
  .of_statement (Jobs.moves_getD h) nofun

theorem Took.move {stage : WorkerStage} (h : ∀ id, stage.holds = some id → (s.workers c).holds = some id) :
    s.Took (s.move c stage) :=
  .of_statement (Jobs.Moves.refl s.jobs) h

theorem took_claim : s.Took (s.claim c id) := by
  unfold claim
  split
  · rename_i row jobs hrow hjobs
    simp only [Option.filter_eq_some_iff, decide_eq_true_eq] at hrow
    obtain ⟨hmem, rfl⟩ := Table.find?_eq_some.mp hrow.1
    obtain ⟨hupdate, hchecked⟩ := Jobs.write_eq_some hjobs
    have hset := hchecked row hmem rfl (decide_eq_true hrow.2)
    have hclaimed : ∃ row' ∈ jobs, row'.id = row.id ∧ row'.1.status = .running ∧
        row'.1.cancelRequested = row.1.cancelRequested := by
      refine ⟨_, hupdate ▸ Table.mem_update.mpr ⟨row, hmem, rfl⟩, ?_⟩
      rw [if_pos (by simp [hrow.2]), JobRow.set, dif_pos hset]
      exact ⟨rfl, rfl, rfl⟩
    obtain ⟨row', hrow', hclaim⟩ := hclaimed
    refine ⟨Jobs.moves_claim hjobs, le_rfl,
      .inr ⟨row, hmem, row', hrow', hrow.2, hclaim.1, hclaim.2.1, hclaim.2.2, rfl⟩, fun d id' hd => ?_,
      fun _ hid => .inl hid, fun _ sweep hd => .inl ⟨sweep, hd, List.Subset.refl _, rfl⟩⟩
    by_cases hdc : d = c
    · right
      subst hdc
      have hstage : (if row.1.cancelRequested then WorkerStage.cancelled row.id else .claimed
        row.id).holds = some id' := by
        simpa [Restores.move] using hd
      split_ifs at hstage with hcancel
      · cases hstage
      · cases hstage
        simp only [Bool.not_eq_true] at hcancel
        exact List.mem_append_right _ (by simp [hcancel])
    · left
      simpa [Restores.move, hdc] using hd
  · exact .of_moves (Jobs.Moves.refl s.jobs)

theorem took_sweepRead {maxAgeMinutes : ℤ} : s.Took (s.sweepRead c maxAgeMinutes) := by
  refine ⟨Jobs.Moves.refl s.jobs, le_rfl, .inl rfl, fun _ _ hd => .inl hd, fun _ hid => .inl hid,
    fun d sweep hd => ?_⟩
  by_cases hdc : d = c
  · subst hdc
    simp only [sweepRead, moveSweep, Function.update_self, Option.some.injEq] at hd
    obtain rfl := hd
    exact .inr ⟨rfl, rfl, rfl⟩
  · simp only [sweepRead, moveSweep, Function.update_of_ne hdc] at hd
    exact .inl ⟨sweep, hd, List.Subset.refl _, rfl⟩

theorem Took.of_sweep {jobs : Jobs} {sweep : Option StaleSweep} (hjobs : s.jobs.Moves jobs)
    (hsweep : ∀ after, sweep = some after → ∃ before, s.sweeps c = some before ∧ after.rest ⊆ before.rest ∧
      after = { before with rest := after.rest }) : s.Took { s.moveSweep c sweep with jobs } := by
  refine ⟨hjobs, le_rfl, .inl rfl, fun _ _ hd => .inl hd, fun _ hid => .inl hid, fun d after hd => .inl ?_⟩
  by_cases hdc : d = c
  · subst hdc
    exact hsweep after (by simpa [moveSweep] using hd)
  · exact ⟨after, by simpa [moveSweep, hdc] using hd, List.Subset.refl _, rfl⟩

theorem took_sweepWrite {sweep : StaleSweep} (h : s.sweeps c = some sweep) : s.Took (s.sweepWrite c sweep) := by
  have hends : s.Took (s.moveSweep c none) := .of_sweep (Jobs.Moves.refl s.jobs) nofun
  unfold sweepWrite
  split
  · exact hends
  · rename_i read rest hrest
    split
    · exact hends
    · rename_i jobs hjobs
      refine .of_sweep (Jobs.moves_stopStale hjobs) fun after hafter => ?_
      cases hafter
      exact ⟨sweep, h, by simp [hrest], rfl⟩

/-- One case per statement. -/
theorem took {e : RestoreEvent} (h : restoreStep s e = some t) : s.Took t := by
  cases e with
  | tick now =>
    simp only [restoreStep, Option.ite_none_right_eq_some, Option.some.injEq] at h
    obtain ⟨hnow, rfl⟩ := h
    exact ⟨Jobs.Moves.refl s.jobs, hnow, .inl rfl, fun _ _ hd => .inl hd, fun _ hid => .inl hid,
      fun _ sweep hd => .inl ⟨sweep, hd, List.Subset.refl _, rfl⟩⟩
  | queue new id =>
    cases h
    refine .run fun jobs hjobs => ?_
    cases hqueue : s.jobs.queueRestore new id s.now with
    | error e =>
      rw [hqueue] at hjobs
      cases hjobs
    | ok queued =>
      rw [hqueue] at hjobs
      cases hjobs
      exact Jobs.moves_queueRestore hqueue
  | requestCancel id =>
    cases h
    exact .run fun _ => Jobs.moves_requestCancel
  | settle id reason =>
    cases h
    exact .run fun _ => Jobs.moves_settleCancel
  | claim c id =>
    simp only [restoreStep] at h
    split at h
    · cases h
      exact took_claim
    · cases h
  | abort c =>
    simp only [restoreStep] at h
    split at h
    · cases h
      exact .run_idle fun _ => Jobs.moves_abort
    · cases h
      exact .run_idle fun _ => Jobs.moves_abort
    · cases h
  | abortFails c =>
    simp only [restoreStep] at h
    split at h
    · cases h
      exact .move nofun
    · cases h
  | check c =>
    simp only [restoreStep] at h
    split at h
    · rename_i id hstage
      cases h
      refine .move fun id' hid => ?_
      rw [hstage]
      split_ifs at hid
      · exact hid
      · exact hid
    · cases h
  | write c =>
    have hwrites : ∀ id, (s.workers c).holds = some id →
        s.Took { s.move c (.restoring id) with written := id :: s.written } := by
      intro id hid
      have hmove : s.Took (s.move c (.restoring id)) := Took.move fun id' hid' => hid.trans hid'
      obtain ⟨hjobs, hnow, hclaims, hworkers, -, hsweeps⟩ := hmove
      refine ⟨hjobs, hnow, hclaims, hworkers, fun id' hid' => ?_, hsweeps⟩
      rcases List.mem_cons.mp hid' with rfl | hid'
      · exact .inr ⟨c, hid⟩
      · exact .inl hid'
    simp only [restoreStep] at h
    split at h
    · rename_i id hstage
      cases h
      exact hwrites id (hstage ▸ rfl)
    · rename_i id hstage
      cases h
      exact hwrites id (hstage ▸ rfl)
    · cases h
  | succeed c safetyBackupId outcome =>
    simp only [restoreStep] at h
    split at h
    · cases h
      exact .run_idle fun _ => Jobs.moves_finish
    · cases h
      exact .run_idle fun _ => Jobs.moves_finish
    · cases h
  | fail c reason =>
    simp only [restoreStep] at h
    split at h
    · cases h
      exact .run_idle fun _ => Jobs.moves_finish
    · cases h
      exact .run_idle fun _ => Jobs.moves_finish
    · cases h
      exact .run_idle fun _ => Jobs.moves_finish
    · cases h
  | stop c =>
    cases h
    exact .move nofun
  | sweepRead c maxAgeMinutes =>
    simp only [restoreStep] at h
    split at h
    · cases h
      exact took_sweepRead
    · cases h
  | sweepWrite c =>
    obtain ⟨sweep, hsweep, rfl⟩ := Option.map_eq_some_iff.mp h
    exact took_sweepWrite hsweep
  | sweepStop c =>
    cases h
    exact .of_sweep (Jobs.Moves.refl s.jobs) nofun

/-- The jobs a sweep has left: each was stale when it was read, and one that was running is not claimed again. -/
structure SweepOk (s : Restores) (sweep : StaleSweep) : Prop where
  seen : sweep.seen ≤ s.claims.length
  readAt : sweep.readAt ≤ s.now
  rest : ∀ read ∈ sweep.rest, ∃ row ∈ s.jobs, row.id = read.id ∧
    row.1.createdAt < sweep.readAt - staleAfter sweep.maxAgeMinutes ∧
    (read.status = .running → row.1.status ≠ .queued ∧ ∀ claim ∈ s.claims.drop sweep.seen, claim.id ≠ read.id)

/-- **The invariant**: what was claimed has left the queue, and what was begun stays begun. -/
structure Inv (s : Restores) : Prop where
  claims : ∀ claim ∈ s.claims, ∃ row ∈ s.jobs, row.id = claim.id ∧ row.1.status ≠ .queued ∧
    (claim.cancelled = false → row.1.Begun)
  workers : ∀ c id, (s.workers c).holds = some id → ⟨id, false⟩ ∈ s.claims
  written : ∀ id ∈ s.written, ⟨id, false⟩ ∈ s.claims
  sweeps : ∀ c sweep, s.sweeps c = some sweep → s.SweepOk sweep

theorem Took.subset_claims (h : s.Took t) : s.claims ⊆ t.claims := by
  rcases h.claims with heq | ⟨_, _, _, _, _, _, _, _, heq⟩ <;> rw [heq]
  · exact List.Subset.refl _
  · exact List.subset_append_left _ _

/-- A sweep's reading survives a step of the others. -/
theorem SweepOk.mono {sweep : StaleSweep} (h : s.SweepOk sweep) (htook : s.Took t) : t.SweepOk sweep := by
  refine ⟨?_, h.readAt.trans htook.now, fun read hread => ?_⟩
  · rcases htook.claims with heq | ⟨_, _, _, _, _, _, _, _, heq⟩ <;> rw [heq]
    · exact h.seen
    · exact h.seen.trans (by simp)
  obtain ⟨row, hrow, hid, hold, hrunning⟩ := h.rest read hread
  obtain ⟨row', hrow', hid', hmoved⟩ := htook.jobs row hrow
  refine ⟨row', hrow', hid'.trans hid, hmoved.createdAt ▸ hold, fun hstatus => ?_⟩
  obtain ⟨hleft, hunclaimed⟩ := hrunning hstatus
  refine ⟨fun hqueued => hleft (hmoved.queued hqueued), ?_⟩
  rcases htook.claims with heq | ⟨queued, hmem, _, _, hqueued, _, _, _, heq⟩ <;> rw [heq]
  · exact hunclaimed
  · rw [List.drop_append_of_le_length h.seen]
    intro claim hclaim
    rcases List.mem_append.mp hclaim with hclaim | hclaim
    · exact hunclaimed claim hclaim
    · -- The claim of this step found its job queued, and the job the sweep read is not.
      obtain rfl := List.mem_singleton.mp hclaim
      rintro (hread : queued.id = read.id)
      rw [Table.eq_of_key hmem hrow (hread.trans hid.symm)] at hqueued
      exact hleft hqueued

theorem sweepOk_read {maxAgeMinutes : ℤ} :
    s.SweepOk ⟨s.jobs.stale maxAgeMinutes s.now, maxAgeMinutes, s.now, s.claims.length⟩ := by
  refine ⟨le_rfl, le_rfl, fun read hread => ?_⟩
  obtain ⟨row, hrow, rfl⟩ := List.mem_map.mp hread
  obtain ⟨hmem, hold⟩ := List.mem_filter.mp (Sorting.mem_sortBy.mp (List.mem_of_mem_take hrow))
  simp only [Bool.and_eq_true, decide_eq_true_eq] at hold
  refine ⟨row, hmem, rfl, hold.2, fun hrunning => ⟨by simp [hrunning], ?_⟩⟩
  rw [List.drop_length]
  nofun

theorem Inv.step {e : RestoreEvent} (h : s.Inv) (hstep : restoreStep s e = some t) : t.Inv := by
  have htook := took hstep
  refine ⟨fun claim hclaim => ?_, fun c id hid => ?_, fun id hid => ?_, fun c sweep hsweep => ?_⟩
  · have hkept : claim ∈ s.claims → ∃ row ∈ t.jobs, row.id = claim.id ∧ row.1.status ≠ .queued ∧
        (claim.cancelled = false → row.1.Begun) := by
      intro hclaim
      obtain ⟨row, hrow, hid, hleft, hbegun⟩ := h.claims claim hclaim
      obtain ⟨row', hrow', hid', hmoved⟩ := htook.jobs row hrow
      exact ⟨row', hrow', hid'.trans hid, fun hqueued => hleft (hmoved.queued hqueued),
        fun hclaim => hmoved.begun (hbegun hclaim)⟩
    rcases htook.claims with heq | ⟨row, -, row', hrow', -, hid, hrunning, hflag, heq⟩
    · exact hkept (heq ▸ hclaim)
    · rw [heq, List.mem_append, List.mem_singleton] at hclaim
      rcases hclaim with hclaim | rfl
      · exact hkept hclaim
      · exact ⟨row', hrow', hid, by simp [hrunning], fun hclear => .inl ⟨hrunning, hflag.trans hclear⟩⟩
  · rcases htook.workers c id hid with hheld | hclaim
    · exact htook.subset_claims (h.workers c id hheld)
    · exact hclaim
  · rcases htook.written id hid with hold | ⟨c, hheld⟩
    · exact htook.subset_claims (h.written id hold)
    · exact htook.subset_claims (h.workers c id hheld)
  · rcases htook.sweeps c sweep hsweep with ⟨before, hbefore, hrest, heq⟩ | ⟨hjobs, hclaims, heq⟩
    · have hok := (h.sweeps c before hbefore).mono htook
      rw [heq]
      exact ⟨hok.seen, hok.readAt, fun read hread => hok.rest read (hrest hread)⟩
    · have hread : s.SweepOk ⟨s.jobs.stale sweep.maxAgeMinutes s.now, sweep.maxAgeMinutes, s.now, s.claims.length⟩ :=
        sweepOk_read
      have hok := hread.mono htook
      rw [← heq] at hok
      exact hok

theorem inv_start (now : Instant) : (start now).Inv :=
  ⟨nofun, nofun, nofun, nofun⟩

theorem run_inv {now : Instant} {es : List RestoreEvent} (h : Run restoreStep Any (start now) es s) : s.Inv :=
  h.invariant (inv_start now) fun _ _ _ hinv _ => hinv.step

/-! ### The life of a job -/

theorem Inv.aborted {row : JobRow} (h : s.Inv) (hrow : row ∈ s.jobs) (haborted : row.1.status = .aborted) :
    row.id ∉ s.written ∧ ∀ claim ∈ s.claims, claim.id = row.id → claim.cancelled = true := by
  have hclaims : ∀ claim ∈ s.claims, claim.id = row.id → claim.cancelled = true := by
    intro claim hclaim hid
    obtain ⟨row', hrow', hid', -, hbegun⟩ := h.claims claim hclaim
    obtain rfl := Table.eq_of_key hrow' hrow (hid'.trans hid)
    by_contra hclear
    rcases hbegun (by simpa using hclear) with ⟨hstatus, -⟩ | hstatus | hstatus <;>
      rw [haborted] at hstatus <;> cases hstatus
  refine ⟨fun hwritten => ?_, hclaims⟩
  cases hclaims _ (h.written _ hwritten) rfl

theorem run_finished {es : List RestoreEvent} (h : Run restoreStep Any s es t) : s.jobs.Moves t.jobs := by
  induction h with
  | nil => exact .refl _
  | snoc _ _ hstep ih => exact ih.trans (took hstep).jobs

/-- A write of a sweep leaves alone what was claimed since the sweep read, and what is younger than its limit. -/
theorem Inv.sweepWrite {sweep : StaleSweep} {row : JobRow} (h : s.Inv) (hsweep : s.sweeps c = some sweep)
    (hrow : row ∈ s.jobs) :
    ((∃ claim ∈ s.claims.drop sweep.seen, claim.id = row.id) → row ∈ (s.sweepWrite c sweep).jobs) ∧
      (row ∉ (s.sweepWrite c sweep).jobs → row.1.createdAt < s.now - staleAfter sweep.maxAgeMinutes) := by
  have hok := h.sweeps c sweep hsweep
  unfold Restores.sweepWrite
  split
  · exact ⟨fun _ => hrow, fun hgone => absurd hrow hgone⟩
  · rename_i read rest hrest
    split
    · exact ⟨fun _ => hrow, fun hgone => absurd hrow hgone⟩
    · rename_i jobs hjobs
      have hread : read ∈ sweep.rest := hrest ▸ List.mem_cons_self
      obtain ⟨row', hrow', hid', hold, hrunning⟩ := hok.rest read hread
      by_cases hid : row.id = read.id
      · obtain rfl := Table.eq_of_key hrow' hrow (hid'.trans hid.symm)
        refine ⟨fun ⟨claim, hclaim, hclaimed⟩ => ?_, fun _ => ?_⟩
        · -- It was read while it was queued, and runs or is over now: the checks refuse to abort it.
          have hqueued : read.status ≠ .running := fun hstatus =>
            (hrunning hstatus).2 claim hclaim (hclaimed.trans hid)
          obtain ⟨row'', hrow'', hid'', hleft, -⟩ := h.claims claim (List.mem_of_mem_drop hclaim)
          obtain rfl := Table.eq_of_key hrow'' hrow (hid''.trans hclaimed)
          refine Jobs.mem_of_write hjobs hrow fun _ => ?_
          by_contra hlive
          simp only [Bool.not_eq_false] at hlive
          have hstatus : row''.1.status = .running := by
            cases hst : row''.1.status <;> simp_all [JobStatus.isLive]
          have hset := (Jobs.write_eq_some hjobs).2 row'' hrow hid hlive
          rw [RestoreJob.stop, if_neg hqueued] at hset
          have hstarted := RestoreJob.startedAt_of_running row''.2 hstatus
          have hnone : row''.1.startedAt = none := (RestoreJob.of_aborted hset rfl).1
          rw [hnone] at hstarted
          cases hstarted
        · exact hold.trans_le (Int.sub_le_sub_right hok.readAt _)
      · have hkept := Jobs.mem_of_write hjobs hrow fun heq => absurd heq hid
        exact ⟨fun _ => hkept, fun hgone => absurd hkept hgone⟩

/-- **A restore job's life**: an aborted job reads as never started and cancelled, nothing was written
for it, and every claim of it gave it up; what is finished stays as it is; and a stale sweep leaves alone
what was claimed since it read, and stops only what was queued longer ago than its limit. -/
theorem run_stages_sound {now : Instant} {es : List RestoreEvent} (h : Run restoreStep Any (start now) es s) :
    (∀ row ∈ s.jobs, row.1.status = .aborted → row.1.startedAt = none ∧ row.1.cancelRequested = true ∧
      row.id ∉ s.written ∧ ∀ claim ∈ s.claims, claim.id = row.id → claim.cancelled = true) ∧
    (∀ es' t, Run restoreStep Any s es' t → ∀ row ∈ s.jobs, row.1.status.isLive = false → row ∈ t.jobs) ∧
    ∀ c sweep t, s.sweeps c = some sweep → restoreStep s (.sweepWrite c) = some t → ∀ row ∈ s.jobs,
      ((∃ claim ∈ s.claims.drop sweep.seen, claim.id = row.id) → row ∈ t.jobs) ∧
      (row ∉ t.jobs → row.1.createdAt < s.now - staleAfter sweep.maxAgeMinutes) := by
  have hinv := run_inv h
  refine ⟨fun row hrow haborted => ?_, fun es' t hrun row hrow hdone => ?_, fun c sweep t hsweep hstep row hrow => ?_⟩
  · have hchecks := RestoreJob.of_aborted row.2 haborted
    exact ⟨hchecks.1, hchecks.2, hinv.aborted hrow haborted⟩
  · exact (run_finished hrun).mem hrow hdone
  · simp only [restoreStep, hsweep, Option.map_some, Option.some.injEq] at hstep
    rw [← hstep]
    exact hinv.sweepWrite hsweep hrow

/-! ### Two runs -/

/-- A restore of the media of one run. -/
def mediaRestore : NewRestoreJob where
  organizationId := some 1
  backupId := 7
  parts := ["media"]
  confirmation := "restore"
  liveDropped := 0
  liveMatches := 3
  createdBy := some 2

theorem aborted_after_claim :
    (∃ s, Run restoreStep Any (start 0) [.queue mediaRestore 1, .requestCancel 1, .claim 0 1, .abort 0] s ∧
      s.jobs.rows.map (fun row => (row.id, row.1.status)) = [(1, .aborted)] ∧ s.claims = [⟨1, true⟩]) ∧
    ∃ s, Run restoreStep Any (start 0)
        ([.queue mediaRestore 1, .tick 3600000000, .claim 0 1, .tick 3600000001, .sweepRead 0 60] ++
          [RestoreEvent.sweepWrite 0]) s ∧
      ∃ row ∈ s.jobs, row.1.status = .failed ∧ row.1.startedAt = some 3600000000 ∧
        row.1.finishedAt = some 3600000001 := by
  constructor
  · have hexec : (exec restoreStep (start 0) [.queue mediaRestore 1, .requestCancel 1, .claim 0 1, .abort 0]).map
        (fun s => (s.jobs.rows.map fun row => (row.id, row.1.status), s.claims)) =
        some ([(1, .aborted)], [⟨1, true⟩]) := by decide +kernel
    obtain ⟨s, hrun, heq⟩ := Run.of_exec_map hexec
    exact ⟨s, hrun, Prod.mk.inj heq⟩
  · have hexec : (exec restoreStep (start 0)
        [.queue mediaRestore 1, .tick 3600000000, .claim 0 1, .tick 3600000001, .sweepRead 0 60]).map
        (fun s => s.now = 3600000001 &&
          s.jobs.rows.map (fun row => (row.id, row.1.status, row.1.startedAt)) = [(1, .running, some 3600000000)] &&
          (s.sweeps 0).map (fun sweep => sweep.rest.map fun read => (read.id, read.status)) = some [(1, .running)]) =
        some true := by decide +kernel
    obtain ⟨s, hrun, heq⟩ := Run.of_exec_map hexec
    simp only [Bool.and_eq_true, decide_eq_true_eq, Prod.mk.injEq, List.map_eq_singleton_iff,
      Option.map_eq_some_iff] at heq
    obtain ⟨⟨hnow, row, hrows, hid, hrunning, hstarted⟩, sweep, hsweep, read, hrest, hread, hreading⟩ := heq
    have hrow : row ∈ s.jobs := by
      rw [Table.mem_def, hrows]
      exact List.mem_singleton_self row
    have hstopped : ∃ jobs, s.jobs.stopStale read sweep.maxAgeMinutes s.now = some jobs ∧
        ∃ row' ∈ jobs, row'.1 = read.stop sweep.maxAgeMinutes s.now row.1 :=
      Jobs.stopStale_of_running sweep.maxAgeMinutes hrow (hid.trans hread.symm) hreading hrunning
    obtain ⟨jobs, hjobs, row', hrow', hstop⟩ := hstopped
    refine ⟨{ s.moveSweep 0 (some { sweep with rest := [] }) with jobs }, .snoc hrun trivial ?_, row', hrow', ?_⟩
    · simp only [restoreStep, hsweep, Option.map_some, sweepWrite, hrest, hjobs]
    · rw [hstop, RestoreJob.stop, if_pos hreading, ← hnow]
      exact ⟨rfl, hstarted, rfl⟩

/-- A cancel that is settled before any worker comes. -/
theorem run_sound_settled :
    ∃ s, Run restoreStep Any (start 0) [.queue mediaRestore 1, .requestCancel 1,
      .settle 1 "cancelled from the panel"] s ∧
      ∃ row ∈ s.jobs, row.1.status = .aborted ∧ row.1.startedAt = none ∧ row.1.cancelRequested = true ∧
        row.id ∉ s.written := by
  have hexec : (exec restoreStep (start 0)
      [.queue mediaRestore 1, .requestCancel 1, .settle 1 "cancelled from the panel"]).map
      (fun s => s.jobs.rows.map (·.1.status)) = some [.aborted] := by decide +kernel
  obtain ⟨s, hrun, heq⟩ := Run.of_exec_map hexec
  obtain ⟨row, hrows, haborted⟩ := List.map_eq_singleton_iff.mp heq
  have hrow : row ∈ s.jobs := by
    rw [Table.mem_def, hrows]
    exact List.mem_singleton_self row
  obtain ⟨hstarted, hcancel, hwritten, -⟩ := (run_stages_sound hrun).1 row hrow haborted
  exact ⟨s, hrun, row, hrow, haborted, hstarted, hcancel, hwritten⟩

end Restores

end Omnion.Backup
