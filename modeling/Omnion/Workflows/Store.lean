import Mathlib.Data.List.Sort
import Omnion.Library.Table
import Omnion.Workflows.Model

/-!
# The step store

The statements of `crates/workflows/src/store.rs` on the tables of
`0006_workflows.sql`. Each is one statement of the database, or one transaction, so
each happens at one instant; which rows other statements hold locked at that instant
(`for update skip locked`) is an argument.

## What is proved

* a lemma for each statement that says which rows it leaves.
-/

namespace Omnion.Workflows

/-! ### What a statement writes into a row -/

namespace WorkflowStep

/-- The row once claimed. -/
def claimed (now : Instant) (r : WorkflowStep) : WorkflowStep :=
  { r with status := .running, attempts := r.attempts + 1, startedAt := some now }

/-- The row once parked. -/
def parked (availableAt : Instant) (r : WorkflowStep) : WorkflowStep :=
  { r with status := .waiting, startedAt := none, availableAt }

/-- The row once succeeded. -/
def succeeded (now : Instant) (output : Json) (r : WorkflowStep) : WorkflowStep :=
  { r with status := .succeeded, finishedAt := some now, output := some output, error := none }

/-- The row once back in the queue. -/
def requeued (message : String) (availableAt : Instant) (r : WorkflowStep) : WorkflowStep :=
  { r with status := .pending, error := some message, availableAt, startedAt := none }

/-- The row once permanently failed. -/
def failed (now : Instant) (message : String) (r : WorkflowStep) : WorkflowStep :=
  { r with status := .failed, finishedAt := some now, error := some message }

/-- The row once cancelled. -/
def cancelled (now : Instant) (r : WorkflowStep) : WorkflowStep :=
  { r with status := .cancelled, finishedAt := some now, error := some "the run was cancelled" }

/-- The output of a wait that is over. -/
def resumedOutput : Json := .object [("waited", .bool true), ("resumed", .bool true)]

/-- The row once its wait is over. -/
def resumed (now : Instant) (r : WorkflowStep) : WorkflowStep :=
  { r with status := .succeeded, finishedAt := some now, output := some resumedOutput }

@[simp] theorem claimed_id (now : Instant) (r : WorkflowStep) : (r.claimed now).id = r.id := rfl

@[simp] theorem parked_id (availableAt : Instant) (r : WorkflowStep) :
    (r.parked availableAt).id = r.id := rfl

@[simp] theorem succeeded_id (now : Instant) (output : Json) (r : WorkflowStep) :
    (r.succeeded now output).id = r.id := rfl

@[simp] theorem requeued_id (message : String) (availableAt : Instant) (r : WorkflowStep) :
    (r.requeued message availableAt).id = r.id := rfl

@[simp] theorem failed_id (now : Instant) (message : String) (r : WorkflowStep) :
    (r.failed now message).id = r.id := rfl

@[simp] theorem cancelled_id (now : Instant) (r : WorkflowStep) : (r.cancelled now).id = r.id := rfl

@[simp] theorem resumed_id (now : Instant) (r : WorkflowStep) : (r.resumed now).id = r.id := rfl

/-- The constraint `workflow_steps_attempts_shape`. -/
def attemptsShape (r : WorkflowStep) : Bool :=
  match r.kind with
  | .task => 0 ≤ r.attempts && r.attempts ≤ r.maxAttempts
  | .wait => 0 ≤ r.attempts && r.attempts ≤ 2

theorem attemptsShape_task {r : WorkflowStep} (hkind : r.kind = .task) (h : r.attemptsShape = true) :
    r.attempts ≤ r.maxAttempts := by
  simp only [attemptsShape, hkind, Bool.and_eq_true] at h
  exact of_decide_eq_true h.2

theorem attemptsShape_wait {r : WorkflowStep} (hkind : r.kind = .wait)
    (h : r.attemptsShape = true) : r.attempts ≤ 2 := by
  simp only [attemptsShape, hkind, Bool.and_eq_true] at h
  exact of_decide_eq_true h.2

/-- The constraint `workflow_steps_action_shape`. -/
def actionShape (r : WorkflowStep) : Bool :=
  match r.kind with
  | .task => r.action.isSome
  | .wait => r.action.isNone

end WorkflowStep

/-- The row of a run once settled. -/
def WorkflowExecution.settled (now : Instant) (status : ExecutionStatus) (error : Option String)
    (e : WorkflowExecution) : WorkflowExecution :=
  { e with status, finishedAt := some now, error }

/-- The row of a run once cancelled. -/
def WorkflowExecution.cancelled (now : Instant) (e : WorkflowExecution) : WorkflowExecution :=
  { e with status := .cancelled, finishedAt := some now }

@[simp] theorem WorkflowExecution.settled_id (now : Instant) (status : ExecutionStatus)
    (error : Option String) (e : WorkflowExecution) : (e.settled now status error).id = e.id := rfl

@[simp] theorem WorkflowExecution.cancelled_id (now : Instant) (e : WorkflowExecution) :
    (e.cancelled now).id = e.id := rfl

/-! ### The tables -/

/-- The tables and the clock. -/
structure Store where
  /-- `workflow_executions`. -/
  executions : Table WorkflowExecution WorkflowExecution.id := .empty
  /-- `workflow_steps`. -/
  steps : Table WorkflowStep WorkflowStep.id := .empty
  now : Instant

/-- A step the runner just claimed. -/
structure ClaimedStep where
  id : Uuid
  executionId : Uuid
  stepNo : ℤ
  name : String
  /-- `task` or `wait`. -/
  kind : StepKind
  action : Option String
  params : Json
  attempts : ℤ
  maxAttempts : ℤ

/-- The columns of a row a claim returns. -/
def ClaimedStep.of (r : WorkflowStep) : ClaimedStep :=
  { id := r.id, executionId := r.executionId, stepNo := r.stepNo, name := r.name, kind := r.kind, action := r.action,
    params := r.params, attempts := r.attempts, maxAttempts := r.maxAttempts }

/-- What is reported of a claimed step. -/
inductive StepWrite where
  | complete (output : Json)
  | park (availableAt : Instant)
  | retry (message : String) (availableAt : Instant)
  | fail (message : String)

/-- The row once the report is written. -/
def StepWrite.row (now : Instant) : StepWrite → WorkflowStep → WorkflowStep
  | .complete output => (·.succeeded now output)
  | .park availableAt => (·.parked availableAt)
  | .retry message availableAt => (·.requeued message availableAt)
  | .fail message => (·.failed now message)

namespace Store

/-! ### Starting a run -/

/-- Insert a row of `workflow_steps`. -/
def insertStep (steps : Table WorkflowStep WorkflowStep.id) (r : WorkflowStep) :
    Except WorkflowError (Table WorkflowStep WorkflowStep.id) :=
  if r.actionShape = false then .error (.database "workflow_steps_action_shape")
  else if r.attemptsShape = false then .error (.database "workflow_steps_attempts_shape")
  else if ¬ (1 ≤ r.maxAttempts ∧ r.maxAttempts ≤ 5) then .error (.database "workflow_steps_max_attempts_cap")
  else if r.name = "" then .error (.database "workflow_steps_name_not_blank")
  else if r.stepNo ≤ 0 then .error (.database "workflow_steps_no_positive")
  else if steps.rows.any (fun s => s.executionId = r.executionId && s.stepNo = r.stepNo) then
    .error (.database "workflow_steps_position_unique")
  else
    match steps.insert? r with
    | none => .error (.database "workflow_steps_pkey")
    | some steps => .ok steps

/-- The row of a step that has not been claimed yet. -/
def newStep (now : Instant) (executionId id : Uuid) (stepNo : ℤ) (d : StepDefinition) : WorkflowStep :=
  { id, executionId, stepNo, name := Text.trim d.name, kind := d.kind, action := d.action, params := d.params,
    status := .pending, attempts := 0, maxAttempts := d.maxAttempts, availableAt := now, startedAt := none,
    finishedAt := none, output := none, error := none }

/-- Insert the steps of a run, from position `stepNo` on. -/
def insertSteps (now : Instant) (executionId : Uuid) (stepNo : ℤ)
    (steps : Table WorkflowStep WorkflowStep.id) :
    List (Uuid × StepDefinition) → Except WorkflowError (Table WorkflowStep WorkflowStep.id)
  | [] => .ok steps
  | (id, d) :: rest =>
    match insertStep steps (newStep now executionId id stepNo d) with
    | .error e => .error e
    | .ok steps => insertSteps now executionId (stepNo + 1) steps rest

/-- Start a run: one execution row plus one row per step, written together. The ids
are the database's. -/
def createExecution (s : Store) (id : Uuid) (steps : List (Uuid × StepDefinition)) :
    Except WorkflowError Store :=
  match s.executions.insert? { id, status := .running, startedAt := s.now, finishedAt := none, error := none } with
  | none => .error (.database "workflow_executions_pkey")
  | some executions =>
    match insertSteps s.now id 1 s.steps steps with
    | .error e => .error e
    | .ok steps => .ok { s with executions, steps }

/-! ### Claiming -/

/-- The run exists and is running. -/
def isRunning (s : Store) (executionId : Uuid) : Bool :=
  (s.executions.find? executionId).any (·.status = .running)

/-- The step may be claimed: it is due, and whose earlier steps have all finished. -/
def isDue (s : Store) (r : WorkflowStep) : Bool :=
  s.isRunning r.executionId && (r.status = .pending || r.status = .waiting) && r.availableAt ≤ s.now &&
    s.steps.rows.all fun earlier =>
      !(earlier.executionId = r.executionId && earlier.stepNo < r.stepNo && earlier.status.isOpen)

/-- When the run of a step started. -/
def executionStartedAt (s : Store) (executionId : Uuid) : Instant :=
  ((s.executions.find? executionId).map (·.startedAt)).getD 0

/-- The order in which due steps are claimed. -/
def claimOrder (s : Store) (a b : WorkflowStep) : Bool :=
  let startedA := s.executionStartedAt a.executionId
  let startedB := s.executionStartedAt b.executionId
  startedA < startedB || (startedA = startedB &&
    (a.executionId < b.executionId || (a.executionId = b.executionId && a.stepNo ≤ b.stepNo)))

/-- The step the next claim takes, when the rows of `locked` are held by others. -/
def nextDue (s : Store) (locked : List Uuid) : Option WorkflowStep :=
  ((s.steps.rows.filter fun r => s.isDue r && r.id ∉ locked).insertionSort fun a b => s.claimOrder a b = true).head?

/-- Update the steps that meet a test. -/
def updateSteps (s : Store) (p : WorkflowStep → Bool) (f : WorkflowStep → WorkflowStep)
    (hf : ∀ r, (f r).id = r.id) :
    Store :=
  { s with steps := s.steps.update p f hf }

/-- The row is claimed. -/
def claim (s : Store) (id : Uuid) : Store :=
  s.updateSteps (·.id = id) (·.claimed s.now) (WorkflowStep.claimed_id s.now)

/-- Claim the next step that is due. -/
def claimDueStep (s : Store) (locked : List Uuid) : Except WorkflowError (Option ClaimedStep × Store) :=
  match s.nextDue locked with
  | none => .ok (none, s)
  | some r =>
    if (r.claimed s.now).attemptsShape then .ok (some (.of (r.claimed s.now)), s.claim r.id)
    else .error (.database "workflow_steps_attempts_shape")

/-! ### Reports -/

/-- Update a step if it is running. -/
def updateRunning (s : Store) (id : Uuid) (f : WorkflowStep → WorkflowStep)
    (hf : ∀ r, (f r).id = r.id) : Store :=
  s.updateSteps (fun r => r.id = id && r.status = .running) f hf

/-- Park a wait step until `availableAt`. -/
def setStepWaiting (s : Store) (id : Uuid) (availableAt : Instant) : Store :=
  s.updateRunning id (·.parked availableAt) (WorkflowStep.parked_id availableAt)

/-- Mark a step succeeded, with its output. -/
def completeStep (s : Store) (id : Uuid) (output : Json) : Store :=
  s.updateRunning id (·.succeeded s.now output) (WorkflowStep.succeeded_id s.now output)

/-- Put a failed step back in the queue. -/
def retryStep (s : Store) (id : Uuid) (message : String) (availableAt : Instant) : Store :=
  s.updateRunning id (·.requeued message availableAt) (WorkflowStep.requeued_id message availableAt)

/-- Mark a step permanently failed. -/
def failStep (s : Store) (id : Uuid) (message : String) : Store :=
  s.updateRunning id (·.failed s.now message) (WorkflowStep.failed_id s.now message)

/-- Make the statement of a report. -/
def write (s : Store) (id : Uuid) : StepWrite → Store
  | .complete output => s.completeStep id output
  | .park availableAt => s.setStepWaiting id availableAt
  | .retry message availableAt => s.retryStep id message availableAt
  | .fail message => s.failStep id message

/-- Mark a claimed step cancelled because its run was cancelled while the step ran. -/
def cancelStep (s : Store) (id : Uuid) : Store :=
  s.updateSteps (fun r => r.id = id && r.status.isOpen) (·.cancelled s.now) (WorkflowStep.cancelled_id s.now)

/-! ### Settling -/

/-- The steps of a run in some status. -/
structure Counts where
  opened : ℕ
  failed : ℕ
  cancelled : ℕ

/-- Count the steps of a run. -/
def counts (s : Store) (executionId : Uuid) : Counts where
  opened := (s.steps.rows.filter fun r => r.executionId = executionId && r.status.isOpen).length
  failed := (s.steps.rows.filter fun r => r.executionId = executionId && r.status = .failed).length
  cancelled := (s.steps.rows.filter fun r => r.executionId = executionId && r.status = .cancelled).length

/-- The terminal state the counts give a run without open steps. -/
def Counts.status (c : Counts) : ExecutionStatus :=
  if c.failed > 0 then .failed else if c.cancelled > 0 then .cancelled else .completed

/-- The first failure a run met. -/
def firstError (s : Store) (executionId : Uuid) : Option String :=
  (((s.steps.rows.filter fun r => r.executionId = executionId && r.status = .failed).insertionSort
    fun a b => a.stepNo ≤ b.stepNo).head?).bind (·.error)

/-- Write a run's terminal state if it is running. -/
def settle (s : Store) (executionId : Uuid) (status : ExecutionStatus) (error : Option String) :
    Store :=
  { s with
    executions := s.executions.update (fun e => e.id = executionId && e.status = .running)
      (·.settled s.now status error) (WorkflowExecution.settled_id s.now status error) }

/-- The run is cancelled, and its queued and parked steps with it. -/
def close (s : Store) (executionId : Uuid) : Store :=
  { s with
    executions := s.executions.update (fun e => e.id = executionId && e.status = .running)
      (·.cancelled s.now) (WorkflowExecution.cancelled_id s.now)
    steps := s.steps.update
      (fun r => r.executionId = executionId && (r.status = .pending || r.status = .waiting))
      (·.cancelled s.now) (WorkflowStep.cancelled_id s.now) }

/-- Cancel a running execution; `true` when it was one. -/
def cancelExecution (s : Store) (executionId : Uuid) : Bool × Store :=
  if s.isRunning executionId then (true, s.close executionId) else (false, s)

/-! ### Sweeping -/

/-- The parked waits whose deadline has passed, the earliest first. -/
def dueWaits (s : Store) (limit : ℕ) (locked : List Uuid) : List WorkflowStep :=
  ((s.steps.rows.filter fun r =>
      r.status = .waiting && r.availableAt ≤ s.now && s.isRunning r.executionId && r.id ∉ locked).insertionSort
    fun a b => a.availableAt ≤ b.availableAt).take limit

/-- Finish the parked waits whose deadline has passed. Returns the runs they belong
to. -/
def resolveDueWaits (s : Store) (limit : ℕ) (locked : List Uuid) : List Uuid × Store :=
  let due := s.dueWaits limit locked
  (due.map (·.executionId),
    s.updateSteps (fun r => r.id ∈ due.map (·.id)) (·.resumed s.now) (WorkflowStep.resumed_id s.now))

/-- Steps a runner claimed and never finished. -/
def staleSteps (s : Store) (leaseSeconds : ℤ) (limit : ℕ) : List WorkflowStep :=
  ((s.steps.rows.filter fun r =>
      r.status = .running && s.isRunning r.executionId &&
        r.startedAt.any fun t => Time.after t (Time.seconds leaseSeconds) < s.now).insertionSort
    fun a b => a.startedAt.getD 0 ≤ b.startedAt.getD 0).take limit

/-- The running executions without an open step, the oldest first. -/
def drained (s : Store) (limit : ℕ) : List Uuid :=
  (((s.executions.rows.filter fun e => e.status = .running && (s.counts e.id).opened = 0).insertionSort
    fun a b => a.startedAt ≤ b.startedAt).take limit).map (·.id)

/-! ### How rows move -/

end Store

/-- A later state of a row: the same step, with no fewer attempts, and unchanged once
it is closed. -/
structure WorkflowStep.Moved (r r' : WorkflowStep) : Prop where
  id : r'.id = r.id
  executionId : r'.executionId = r.executionId
  stepNo : r'.stepNo = r.stepNo
  kind : r'.kind = r.kind
  params : r'.params = r.params
  maxAttempts : r'.maxAttempts = r.maxAttempts
  attempts : r.attempts ≤ r'.attempts
  closed : r.status.isOpen = false → r' = r

/-- A later state of a run: unchanged once it is terminal. -/
structure WorkflowExecution.Moved (e e' : WorkflowExecution) : Prop where
  id : e'.id = e.id
  terminal : e.status.isTerminal → e' = e

namespace WorkflowStep

variable {r r' r'' : WorkflowStep} {now : Instant}

theorem Moved.refl (r : WorkflowStep) : r.Moved r :=
  ⟨rfl, rfl, rfl, rfl, rfl, rfl, le_refl _, fun _ => rfl⟩

theorem Moved.trans (h : r.Moved r') (h' : r'.Moved r'') : r.Moved r'' where
  id := h'.id.trans h.id
  executionId := h'.executionId.trans h.executionId
  stepNo := h'.stepNo.trans h.stepNo
  kind := h'.kind.trans h.kind
  params := h'.params.trans h.params
  maxAttempts := h'.maxAttempts.trans h.maxAttempts
  attempts := le_trans h.attempts h'.attempts
  closed hr := by
    have hr' := h.closed hr
    rw [h'.closed (by rw [hr', hr]), hr']

theorem moved_of_open (hopen : r.status.isOpen = true)
    (h : ∃ status availableAt startedAt finishedAt output error,
      r' = { r with status, availableAt, startedAt, finishedAt, output, error }) : r.Moved r' := by
  obtain ⟨_, _, _, _, _, _, rfl⟩ := h
  exact ⟨rfl, rfl, rfl, rfl, rfl, rfl, le_refl _, fun hclosed => absurd (hopen.symm.trans hclosed) (by decide)⟩

theorem moved_claimed (hopen : r.status.isOpen = true) : r.Moved (r.claimed now) :=
  ⟨rfl, rfl, rfl, rfl, rfl, rfl, by simp only [claimed]; omega,
    fun hclosed => absurd (hopen.symm.trans hclosed) (by decide)⟩

end WorkflowStep

theorem StepWrite.moved {r : WorkflowStep} (w : StepWrite) (now : Instant)
    (hopen : r.status.isOpen = true) :
    r.Moved (w.row now r) := by
  cases w <;> exact WorkflowStep.moved_of_open hopen ⟨_, _, _, _, _, _, rfl⟩

theorem WorkflowExecution.Moved.refl (e : WorkflowExecution) : e.Moved e := ⟨rfl, fun _ => rfl⟩

theorem WorkflowExecution.Moved.trans {e e' e'' : WorkflowExecution} (h : e.Moved e')
    (h' : e'.Moved e'') :
    e.Moved e'' where
  id := h'.id.trans h.id
  terminal he := by
    have he' := h.terminal he
    rw [h'.terminal (by rwa [he']), he']

/-- **What every statement keeps**: every run and every step, terminal ones as they
are, and the order of time. -/
structure Store.Extends (s t : Store) : Prop where
  executions : s.executions.Grows WorkflowExecution.Moved t.executions
  steps : s.steps.Grows WorkflowStep.Moved t.steps
  now : s.now ≤ t.now

namespace Store

variable {s t u : Store} {r : WorkflowStep} {e : Uuid}

theorem Extends.refl (s : Store) : s.Extends s := ⟨.refl .refl, .refl .refl, le_refl _⟩

theorem Extends.trans (h : s.Extends t) (h' : t.Extends u) : s.Extends u where
  executions := h.executions.trans (fun _ _ _ => .trans) h'.executions
  steps := h.steps.trans (fun _ _ _ => .trans) h'.steps
  now := le_trans h.now h'.now

theorem extends_updateSteps {p : WorkflowStep → Bool} {f : WorkflowStep → WorkflowStep}
    {hf : ∀ r, (f r).id = r.id}
    (h : ∀ r ∈ s.steps, p r = true → r.Moved (f r)) : s.Extends (s.updateSteps p f hf) :=
  ⟨.refl .refl, .update hf .refl h, le_refl _⟩

theorem mem_updateSteps {p : WorkflowStep → Bool} {f : WorkflowStep → WorkflowStep}
    {hf : ∀ r, (f r).id = r.id} :
    r ∈ (s.updateSteps p f hf).steps ↔ ∃ a ∈ s.steps, (if p a then f a else a) = r := by
  simp only [updateSteps, Table.mem_update]

/-! ### Reads -/

theorem isRunning_iff : s.isRunning e = true ↔ ∃ x ∈ s.executions, x.id = e ∧ x.status = .running := by
  rw [isRunning, Option.any_eq_true]
  constructor
  · rintro ⟨x, hx, hs⟩
    obtain ⟨hmem, hid⟩ := Table.find?_eq_some.mp hx
    exact ⟨x, hmem, hid, by simpa using hs⟩
  · rintro ⟨x, hmem, hid, hs⟩
    exact ⟨x, Table.find?_eq_some.mpr ⟨hmem, hid⟩, by simpa using hs⟩

theorem isDue_iff : s.isDue r = true ↔
    s.isRunning r.executionId = true ∧ (r.status = .pending ∨ r.status = .waiting) ∧ r.availableAt ≤ s.now ∧
      ∀ a ∈ s.steps, a.executionId = r.executionId → a.stepNo < r.stepNo → a.status.isOpen = false := by
  simp only [isDue, Bool.and_eq_true, Bool.or_eq_true, decide_eq_true_eq, List.all_eq_true, Bool.not_eq_true',
    Bool.and_eq_false_imp, and_assoc, and_imp]
  rfl

theorem nextDue_eq_some {locked : List Uuid} (h : s.nextDue locked = some r) :
    r ∈ s.steps ∧ s.isDue r = true := by
  have hmem : r ∈ s.steps.rows.filter fun r => s.isDue r && r.id ∉ locked :=
    (List.perm_insertionSort _ _).mem_iff.mp (List.mem_of_mem_head? h)
  obtain ⟨hr, hdue⟩ := List.mem_filter.mp hmem
  exact ⟨hr, (Bool.and_eq_true_iff.mp hdue).1⟩

theorem mem_staleSteps {leaseSeconds : ℤ} {limit : ℕ} (h : r ∈ s.staleSteps leaseSeconds limit) :
    r ∈ s.steps ∧ r.status = .running := by
  obtain ⟨hr, hstale⟩ :=
    List.mem_filter.mp ((List.perm_insertionSort _ _).mem_iff.mp (List.mem_of_mem_take h))
  simp only [Bool.and_eq_true, decide_eq_true_eq] at hstale
  exact ⟨hr, hstale.1.1⟩

theorem mem_dueWaits {limit : ℕ} {locked : List Uuid} (h : r ∈ s.dueWaits limit locked) :
    r ∈ s.steps ∧ r.status = .waiting ∧ r.availableAt ≤ s.now := by
  obtain ⟨hr, hdue⟩ :=
    List.mem_filter.mp ((List.perm_insertionSort _ _).mem_iff.mp (List.mem_of_mem_take h))
  simp only [Bool.and_eq_true, decide_eq_true_eq] at hdue
  exact ⟨hr, hdue.1.1.1, hdue.1.1.2⟩

theorem mem_drained {limit : ℕ} (h : e ∈ s.drained limit) : ∃ x ∈ s.executions, x.id = e := by
  obtain ⟨x, hx, hid⟩ := List.mem_map.mp h
  exact ⟨x, (List.mem_filter.mp ((List.perm_insertionSort _ _).mem_iff.mp (List.mem_of_mem_take hx))).1, hid⟩

/-- No step of the run is open. -/
def Closed (s : Store) (e : Uuid) : Prop := ∀ r ∈ s.steps, r.executionId = e → r.status.isOpen = false

theorem counts_opened : (s.counts e).opened = 0 ↔ s.Closed e := by
  simp only [counts, List.length_eq_zero_iff, List.filter_eq_nil_iff, Bool.and_eq_true, decide_eq_true_eq, not_and,
    Bool.not_eq_true]
  rfl

theorem counts_failed :
    0 < (s.counts e).failed ↔ ∃ r ∈ s.steps, r.executionId = e ∧ r.status = .failed := by
  simp only [counts, List.length_pos_iff_exists_mem, List.mem_filter, Bool.and_eq_true, decide_eq_true_eq]
  rfl

theorem counts_cancelled :
    0 < (s.counts e).cancelled ↔ ∃ r ∈ s.steps, r.executionId = e ∧ r.status = .cancelled := by
  simp only [counts, List.length_pos_iff_exists_mem, List.mem_filter, Bool.and_eq_true, decide_eq_true_eq]
  rfl

/-! ### Writes -/

theorem claimDueStep_ok {locked : List Uuid} {c : ClaimedStep}
    (h : s.claimDueStep locked = .ok (some c, t)) :
    ∃ r, s.nextDue locked = some r ∧ (r.claimed s.now).attemptsShape = true ∧ c = .of (r.claimed s.now) ∧
      t = s.claim r.id := by
  simp only [claimDueStep] at h
  split at h
  · cases h
  · rename_i r hr
    split_ifs at h with hshape
    cases h
    exact ⟨r, hr, hshape, rfl, rfl⟩

theorem mem_claim {id : Uuid} :
    r ∈ (s.claim id).steps ↔ ∃ a ∈ s.steps, (if a.id = id then a.claimed s.now else a) = r := by
  simp only [claim, mem_updateSteps, decide_eq_true_eq]

theorem mem_write {id : Uuid} {w : StepWrite} :
    r ∈ (s.write id w).steps ↔
      ∃ a ∈ s.steps, (if a.id = id ∧ a.status = .running then w.row s.now a else a) = r := by
  cases w <;>
    simp only [write, completeStep, setStepWaiting, retryStep, failStep, updateRunning,
      mem_updateSteps, Bool.and_eq_true,
      decide_eq_true_eq, StepWrite.row]

@[simp] theorem write_executions (s : Store) (id : Uuid) (w : StepWrite) :
    (s.write id w).executions = s.executions := by
  cases w <;> rfl

theorem mem_cancelStep {id : Uuid} :
    r ∈ (s.cancelStep id).steps ↔
      ∃ a ∈ s.steps, (if a.id = id ∧ a.status.isOpen = true then a.cancelled s.now else a) = r := by
  simp only [cancelStep, mem_updateSteps, Bool.and_eq_true, decide_eq_true_eq]

theorem extends_claim {id : Uuid} (hopen : ∀ r ∈ s.steps, r.id = id → r.status.isOpen = true) :
    s.Extends (s.claim id) :=
  extends_updateSteps fun r hr hp => WorkflowStep.moved_claimed (hopen r hr (by simpa using hp))

theorem extends_write (s : Store) (id : Uuid) (w : StepWrite) : s.Extends (s.write id w) := by
  have hopen : ∀ r : WorkflowStep, (r.id = id && r.status = .running) = true → r.Moved (w.row s.now r) := by
    intro r hp
    simp only [Bool.and_eq_true, decide_eq_true_eq] at hp
    exact w.moved s.now (by rw [hp.2]; rfl)
  cases w <;> exact extends_updateSteps fun r _ hp => hopen r hp

theorem extends_cancelStep (s : Store) (id : Uuid) : s.Extends (s.cancelStep id) :=
  extends_updateSteps fun _ _ hp =>
    WorkflowStep.moved_of_open (Bool.and_eq_true_iff.mp hp).2 ⟨_, _, _, _, _, _, rfl⟩

theorem mem_settle {status : ExecutionStatus} {error : Option String} {x : WorkflowExecution} :
    x ∈ (s.settle e status error).executions ↔ ∃ a ∈ s.executions,
      (if a.id = e ∧ a.status = .running then a.settled s.now status error else a) = x := by
  simp only [settle, Table.mem_update, Bool.and_eq_true, decide_eq_true_eq]

theorem mem_close_executions {x : WorkflowExecution} :
    x ∈ (s.close e).executions ↔ ∃ a ∈ s.executions,
      (if a.id = e ∧ a.status = .running then a.cancelled s.now else a) = x := by
  simp only [close, Table.mem_update, Bool.and_eq_true, decide_eq_true_eq]

theorem mem_close_steps :
    r ∈ (s.close e).steps ↔ ∃ a ∈ s.steps,
      (if a.executionId = e ∧ (a.status = .pending ∨ a.status = .waiting) then a.cancelled s.now else a) = r := by
  simp only [close, Table.mem_update, Bool.and_eq_true, Bool.or_eq_true, decide_eq_true_eq]

theorem mem_resolveDueWaits {limit : ℕ} {locked : List Uuid}
    (h : r ∈ (s.resolveDueWaits limit locked).2.steps) :
    r ∈ s.steps ∨ ∃ a ∈ s.steps, a.status = .waiting ∧ a.availableAt ≤ s.now ∧ r = a.resumed s.now := by
  simp only [resolveDueWaits, mem_updateSteps, decide_eq_true_eq] at h
  obtain ⟨a, ha, rfl⟩ := h
  split_ifs with hdue
  · obtain ⟨d, hd, hid⟩ := List.mem_map.mp hdue
    obtain ⟨hmem, hwaiting, hpast⟩ := mem_dueWaits hd
    obtain rfl := Table.eq_of_key hmem ha hid
    exact .inr ⟨d, hmem, hwaiting, hpast, rfl⟩
  · exact .inl ha

theorem running_moved {a b : WorkflowExecution} (ha : a.status = .running) (hid : b.id = a.id) :
    a.Moved b :=
  ⟨hid, fun hterminal => absurd hterminal (by rw [ha]; decide)⟩

theorem extends_settle (s : Store) (e : Uuid) (status : ExecutionStatus) (error : Option String) :
    s.Extends (s.settle e status error) := by
  refine ⟨.update (WorkflowExecution.settled_id s.now status error) .refl fun a _ hp => ?_, .refl .refl, le_refl _⟩
  simp only [Bool.and_eq_true, decide_eq_true_eq] at hp
  exact running_moved hp.2 rfl

theorem extends_close (s : Store) (e : Uuid) : s.Extends (s.close e) := by
  refine ⟨.update (WorkflowExecution.cancelled_id s.now) .refl fun a _ hp => ?_,
    .update (WorkflowStep.cancelled_id s.now) .refl fun a _ hp => ?_, le_refl _⟩
  · simp only [Bool.and_eq_true, decide_eq_true_eq] at hp
    exact running_moved hp.2 rfl
  · simp only [Bool.and_eq_true, Bool.or_eq_true, decide_eq_true_eq] at hp
    refine WorkflowStep.moved_of_open ?_ ⟨_, _, _, _, _, _, rfl⟩
    rcases hp.2 with h | h <;> rw [h] <;> rfl

theorem extends_resolveDueWaits (s : Store) (limit : ℕ) (locked : List Uuid) :
    s.Extends (s.resolveDueWaits limit locked).2 := by
  apply extends_updateSteps
  intro r hr hp
  obtain ⟨d, hd, hid⟩ := List.mem_map.mp (of_decide_eq_true hp)
  obtain ⟨hmem, hwaiting, -⟩ := mem_dueWaits hd
  obtain rfl := Table.eq_of_key hmem hr hid
  exact WorkflowStep.moved_of_open (by rw [hwaiting]; rfl) ⟨_, _, _, _, _, _, rfl⟩

/-! ### A run that starts -/

/-- A row as a starting run inserts it. -/
structure Fresh (r : WorkflowStep) : Prop where
  status : r.status = .pending
  attempts : r.attempts = 0
  maxAttempts : 1 ≤ r.maxAttempts ∧ r.maxAttempts ≤ maxAttemptsCap
  finishedAt : r.finishedAt = none

theorem insertStep_ok {steps steps' : Table WorkflowStep WorkflowStep.id}
    (h : insertStep steps r = .ok steps') :
    steps.insert? r = some steps' ∧ 1 ≤ r.maxAttempts ∧ r.maxAttempts ≤ maxAttemptsCap := by
  simp only [insertStep] at h
  split_ifs at h with _ _ hcap
  cases hins : steps.insert? r with
  | none =>
    rw [hins] at h
    cases h
  | some u =>
    rw [hins] at h
    cases h
    exact ⟨rfl, hcap⟩

/-- The steps of a run are added to those there are. -/
theorem insertSteps_ok {now : Instant} {ds : List (Uuid × StepDefinition)} {n : ℤ}
    {steps steps' : Table WorkflowStep WorkflowStep.id}
    (h : insertSteps now e n steps ds = .ok steps') :
    steps.Grows Eq steps' ∧ ∀ r ∈ steps', r ∈ steps ∨ r.executionId = e ∧ Fresh r := by
  induction ds generalizing n steps with
  | nil =>
    cases h
    exact ⟨.refl fun _ => rfl, fun _ hr => .inl hr⟩
  | cons d ds ih =>
    simp only [insertSteps] at h
    split at h
    · cases h
    · rename_i mid hmid
      obtain ⟨hins, hmax⟩ := insertStep_ok hmid
      obtain ⟨hgrows, hnew⟩ := ih h
      refine ⟨.trans (fun _ _ _ => Eq.trans) (.insert? (fun _ => rfl) hins) hgrows, fun r hr => ?_⟩
      rcases hnew r hr with hr | hr
      · rcases (Table.mem_insert? hins).mp hr with hr | rfl
        · exact .inl hr
        · exact .inr ⟨rfl, rfl, rfl, hmax, rfl⟩
      · exact .inr hr

/-- **What starting a run does**: a new running execution, and fresh rows for it. -/
theorem createExecution_ok {ds : List (Uuid × StepDefinition)} (h : s.createExecution e ds = .ok t) :
    s.executions.find? e = none ∧ t.now = s.now ∧
      (∀ x, x ∈ t.executions ↔ x ∈ s.executions ∨
        x = { id := e, status := .running, startedAt := s.now, finishedAt := none, error := none }) ∧
      s.steps.Grows Eq t.steps ∧ ∀ r ∈ t.steps, r ∈ s.steps ∨ r.executionId = e ∧ Fresh r := by
  simp only [createExecution] at h
  split at h
  · cases h
  · rename_i executions hins
    split at h
    · cases h
    · rename_i steps hsteps
      cases h
      obtain ⟨hgrows, hnew⟩ := insertSteps_ok hsteps
      exact ⟨(Table.insert?_eq_some hins).1, rfl, fun x => Table.mem_insert? hins, hgrows, hnew⟩

theorem extends_createExecution {ds : List (Uuid × StepDefinition)}
    (h : s.createExecution e ds = .ok t) :
    s.Extends t := by
  obtain ⟨-, hnow, hexecutions, hsteps, -⟩ := createExecution_ok h
  refine ⟨fun x hx => ⟨x, (hexecutions x).mpr (.inl hx), rfl, .refl x⟩, fun r hr => ?_, le_of_eq hnow.symm⟩
  obtain ⟨r', hr', hid, rfl⟩ := hsteps r hr
  exact ⟨r, hr', hid, .refl r⟩

end Store

end Omnion.Workflows
