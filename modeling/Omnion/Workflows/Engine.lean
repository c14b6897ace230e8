import Omnion.Library.Run
import Omnion.Workflows.Store

/-!
# Runners and sweepers

`tick` and `sweep` of `crates/workflows/src/engine.rs`, any number of each, taken
apart into the statements they make and interleaved in any order with runs that
start, cancellations, crashes and the clock.

## The model

A thread is a process in its tick or its sweep. In a tick it claims a step, runs it
and decides what to report, writes the report, and settles the run or, when that is
over, closes the step. In a sweep it finishes the due waits, reads the stale steps,
decides and writes a report on each, settles the runs it touched, and then those
without an open step. Deciding reads the clock; what is decided is written later.
What the handler of the host's actions answers is up to the event, as is which rows
other statements hold locked. A thread may stop anywhere.

Four logs say what happened: the claims, the reports that took effect with the claim
that held the step then, the answers of `settle_execution` and the cancellations.

## What is proved

* `took` — what a step of the engine can do.
* `Engine.Sane` — every thread knows steps and runs that are there, with the data
  they were created with; `run_sane`.

## Honest scope

There is one clock. Nothing deletes a workflow while it runs. The audit trail is
left out: a thread whose audit entry fails stops, as one that crashes does. A run
that cannot be started leaves no trace.
-/

namespace Omnion.Workflows

/-! ### Threads -/

/-- The runs a thread has still to settle. -/
inductive Queue where
  | tick
  | touched (executions : List Uuid)
  /-- Those left open without an open step. -/
  | drained (executions : List Uuid)

/-- What a thread does after its report. -/
inductive AfterWrite where
  | settle (claimed : ClaimedStep)
  /-- The step was put back in the queue. -/
  | retried (claimed : ClaimedStep)
  | reclaim (stale : List WorkflowStep) (touched : List Uuid)

/-- How far a thread has come. -/
inductive Thread where
  /-- Between ticks and sweeps, or stopped. -/
  | idle
  | claimed (claimed : ClaimedStep)
  /-- The report on a claim of a step is decided. -/
  | writing (id : Uuid) (attempt : ℤ) (write : StepWrite) (after : AfterWrite)
  /-- The report is written: the run is looked up. -/
  | settleAfter (claimed : ClaimedStep)
  /-- The run is over: the step is closed with it. -/
  | closing (claimed : ClaimedStep)
  | swept (touched : List Uuid)
  /-- A stale step, and those after it. -/
  | reclaiming (step : WorkflowStep) (stale : List WorkflowStep) (touched : List Uuid)
  | settling (executionId : Uuid) (queue : Queue)
  /-- It failed: the first failure is looked up. -/
  | explaining (executionId : Uuid) (queue : Queue)
  | ending (executionId : Uuid) (status : ExecutionStatus) (error : Option String) (queue : Queue)
  | reconciling

/-- The next run in the queue. -/
def Queue.thread : Queue → Thread
  | .tick => .idle
  | .touched [] => .reconciling
  | .touched (e :: es) => .settling e (.touched es)
  | .drained [] => .idle
  | .drained (e :: es) => .settling e (.drained es)

/-- The next stale step. -/
def Thread.reclaim (touched : List Uuid) : List WorkflowStep → Thread
  | [] => (Queue.touched touched).thread
  | step :: stale => .reclaiming step stale touched

/-- Where a thread goes after its report. -/
def AfterWrite.thread : AfterWrite → Thread
  | .settle claimed => .settleAfter claimed
  | .retried _ => .idle
  | .reclaim stale touched => .reclaim touched stale

/-- What the action of a claimed task answers: a host action is the handler's to run. -/
def actionOutcome (claimed : ClaimedStep) (handled : Except String Json) : Except String Json :=
  let action := claimed.action.getD ""
  if isHostAction action then handled else runAction action claimed.params claimed.attempts

/-- `advance_step`, up to its report: what is reported of a claimed step, given what the
handler answers. A wait without readable seconds ends the tick. -/
def advance (config : RunnerConfig) (now : Instant) (claimed : ClaimedStep)
    (handled : Except String Json) : Thread :=
  match claimed.kind with
  | .wait =>
    if claimed.attempts > 1 then
      .writing claimed.id claimed.attempts (.complete WorkflowStep.resumedOutput) (.settle claimed)
    else
      match waitSecondsFrom claimed.params with
      | .error _ => .idle
      | .ok seconds =>
        .writing claimed.id claimed.attempts (.park (Time.after now (Time.seconds seconds))) (.settle claimed)
  | .task =>
    match actionOutcome claimed handled with
    | .ok output => .writing claimed.id claimed.attempts (.complete output) (.settle claimed)
    | .error message =>
      if claimed.attempts < attemptsAllowed claimed.maxAttempts then
        let delay := retryDelay claimed.attempts config.retryBase config.retryMax
        .writing claimed.id claimed.attempts (.retry message (Time.after now delay)) (.retried claimed)
      else .writing claimed.id claimed.attempts (.fail message) (.settle claimed)

/-- `reclaim_stale_steps`: what is reported of a step whose runner stopped. -/
def reclaimWrite (now : Instant) (step : WorkflowStep) : StepWrite :=
  match step.kind with
  | .wait =>
    if step.attempts > 1 then .complete WorkflowStep.resumedOutput
    else
      match waitSecondsFrom step.params with
      | .ok seconds => .park (Time.after now (Time.seconds seconds))
      | .error _ => .fail "the wait step could not be resumed after a restart"
  | .task =>
    if step.attempts < attemptsAllowed step.maxAttempts then
      .retry "the previous attempt was lost when its runner stopped" now
    else .fail "the last attempt was lost when its runner stopped"

/-- `settle_after_step`, up to its first write: a running run is settled, and the step
of one that is over closed. -/
def settleAfterStep (s : Store) (claimed : ClaimedStep) : Thread :=
  match s.executions.find? claimed.executionId with
  | none => .idle
  | some execution =>
    if execution.status = .running then .settling claimed.executionId .tick else .closing claimed

/-- `settle_execution`, up to the terminal state: nothing is written while a step is
open. -/
def derive (s : Store) (executionId : Uuid) (queue : Queue) : Thread :=
  let counts := s.counts executionId
  if counts.opened > 0 then queue.thread
  else if counts.status = .failed then .explaining executionId queue
  else .ending executionId counts.status none queue

/-! ### The engine -/

/-- A report that took effect. -/
structure Report where
  id : Uuid
  attempt : ℤ
  held : ℤ
  write : StepWrite

/-- The store, the threads and the logs. -/
structure Engine where
  store : Store
  threads : ℕ → Thread
  /-- The claims: the step, and when. -/
  claims : List (Uuid × Instant) := []
  reports : List Report := []
  /-- The transitions `settle_execution` reported. -/
  answers : List (Uuid × ExecutionStatus) := []
  /-- The runs `cancel_execution` cancelled. -/
  cancels : List Uuid := []

/-- What happens. -/
inductive Event where
  | start (executionId : Uuid) (steps : List (Uuid × StepDefinition))
  | claim (i : ℕ) (locked : List Uuid)
  /-- A tick runs the step it claimed. -/
  | run (i : ℕ) (handled : Except String Json)
  /-- A sweep begins with the due waits. -/
  | sweep (i : ℕ) (locked : List Uuid)
  /-- A thread makes its next statement. -/
  | next (i : ℕ)
  | crash (i : ℕ)
  | cancel (executionId : Uuid)
  | tick (now : Instant)

/-- The claim that holds a step. -/
def Store.holder (s : Store) (id : Uuid) : Option ℤ :=
  ((s.steps.find? id).filter (·.status = .running)).map (·.attempts)

namespace Engine

/-- Thread `i` goes on. -/
def move (s : Engine) (i : ℕ) (p : Thread) : Engine :=
  { s with threads := Function.update s.threads i p }

/-- A report is written, and logged when it takes effect. -/
def report (s : Engine) (id : Uuid) (attempt : ℤ) (write : StepWrite) : Engine :=
  { s with
    store := s.store.write id write
    reports := s.reports ++ ((s.store.holder id).map fun held => ⟨id, attempt, held, write⟩).toList }

/-- The next statement of a thread that does not wait for an event of its own. -/
def next (config : RunnerConfig) (s : Engine) (i : ℕ) : Option Engine :=
  match s.threads i with
  | .idle | .claimed _ => none
  | .writing id attempt write after => some ((s.report id attempt write).move i after.thread)
  | .settleAfter claimed => some (s.move i (settleAfterStep s.store claimed))
  | .closing claimed => some { s.move i .idle with store := s.store.cancelStep claimed.id }
  | .swept touched =>
    let leaseSeconds := max (Time.wholeSeconds config.lease) 1
    some (s.move i (.reclaim touched (s.store.staleSteps leaseSeconds config.sweepBatch)))
  | .reclaiming step stale touched =>
    some (s.move i (.writing step.id step.attempts (reclaimWrite s.store.now step)
      (.reclaim stale (touched ++ [step.executionId]))))
  | .settling e queue => some (s.move i (derive s.store e queue))
  | .explaining e queue => some (s.move i (.ending e .failed (s.store.firstError e) queue))
  | .ending e status error queue =>
    if s.store.isRunning e then
      some { s.move i queue.thread with
             store := s.store.settle e status error, answers := s.answers ++ [(e, status)] }
    else some (s.move i queue.thread)
  | .reconciling => some (s.move i (Queue.drained (s.store.drained config.sweepBatch)).thread)

end Engine

/-- One event. A claim finds no step, or is refused, without a trace. -/
def engineStep (config : RunnerConfig) (s : Engine) : Event → Option Engine
  | .start e steps =>
    match s.store.createExecution e steps with
    | .error _ => some s
    | .ok store => some { s with store }
  | .claim i locked =>
    match s.threads i with
    | .idle =>
      match s.store.claimDueStep locked with
      | .error _ | .ok (none, _) => some s
      | .ok (some claimed, store) =>
        some { s.move i (.claimed claimed) with store, claims := s.claims ++ [(claimed.id, s.store.now)] }
    | _ => none
  | .run i handled =>
    match s.threads i with
    | .claimed claimed => some (s.move i (advance config s.store.now claimed handled))
    | _ => none
  | .sweep i locked =>
    match s.threads i with
    | .idle =>
      let (touched, store) := s.store.resolveDueWaits config.sweepBatch locked
      some { s.move i (.swept touched) with store }
    | _ => none
  | .next i => s.next config i
  | .crash i => some (s.move i .idle)
  | .cancel e =>
    match s.store.cancelExecution e with
    | (true, store) => some { s with store, cancels := s.cancels ++ [e] }
    | (false, _) => some s
  | .tick now => if s.store.now ≤ now then some { s with store := { s.store with now } } else none

/-! ### What a step of the engine does -/

/-- The events at which thread `i` goes on to `p`, and nothing else happens. -/
inductive Moves (config : RunnerConfig) (s : Engine) (i : ℕ) : Event → Thread → Prop where
  | run {c : ClaimedStep} {handled : Except String Json} : s.threads i = .claimed c →
      Moves config s i (.run i handled) (advance config s.store.now c handled)
  | look {c : ClaimedStep} : s.threads i = .settleAfter c → Moves config s i (.next i) (settleAfterStep s.store c)
  | stale {touched : List Uuid} : s.threads i = .swept touched →
      Moves config s i (.next i)
        (.reclaim touched (s.store.staleSteps (max (Time.wholeSeconds config.lease) 1) config.sweepBatch))
  | reclaim {step : WorkflowStep} {stale : List WorkflowStep} {touched : List Uuid} :
      s.threads i = .reclaiming step stale touched →
      Moves config s i (.next i) (.writing step.id step.attempts (reclaimWrite s.store.now step)
        (.reclaim stale (touched ++ [step.executionId])))
  | derive {e : Uuid} {queue : Queue} : s.threads i = .settling e queue →
      Moves config s i (.next i) (derive s.store e queue)
  | explain {e : Uuid} {queue : Queue} : s.threads i = .explaining e queue →
      Moves config s i (.next i) (.ending e .failed (s.store.firstError e) queue)
  | ended {e : Uuid} {status : ExecutionStatus} {error : Option String} {queue : Queue} :
      s.threads i = .ending e status error queue → s.store.isRunning e = false →
      Moves config s i (.next i) queue.thread
  | drained : s.threads i = .reconciling →
      Moves config s i (.next i) (Queue.drained (s.store.drained config.sweepBatch)).thread
  | crash : Moves config s i (.crash i) .idle

/-- The events, and what each does. -/
inductive Took (config : RunnerConfig) (s : Engine) : Event → Engine → Prop where
  | stay {e : Event} : Took config s e s
  | move {i : ℕ} {e : Event} {p : Thread} : Moves config s i e p → Took config s e (s.move i p)
  | start {e : Uuid} {steps : List (Uuid × StepDefinition)} {store : Store} :
      s.store.createExecution e steps = .ok store → Took config s (.start e steps) { s with store }
  | claim {i : ℕ} {locked : List Uuid} {r : WorkflowStep} :
      s.threads i = .idle → s.store.nextDue locked = some r → (r.claimed s.store.now).attemptsShape = true →
      Took config s (.claim i locked) { s.move i (.claimed (.of (r.claimed s.store.now))) with
        store := s.store.claim r.id, claims := s.claims ++ [(r.id, s.store.now)] }
  | write {i : ℕ} {id : Uuid} {attempt : ℤ} {write : StepWrite} {after : AfterWrite} :
      s.threads i = .writing id attempt write after →
      Took config s (.next i) ((s.report id attempt write).move i after.thread)
  | close {i : ℕ} {c : ClaimedStep} : s.threads i = .closing c →
      Took config s (.next i) { s.move i .idle with store := s.store.cancelStep c.id }
  | sweep {i : ℕ} {locked : List Uuid} : s.threads i = .idle →
      Took config s (.sweep i locked) { s.move i (.swept (s.store.resolveDueWaits config.sweepBatch locked).1) with
        store := (s.store.resolveDueWaits config.sweepBatch locked).2 }
  | settle {i : ℕ} {e : Uuid} {status : ExecutionStatus} {error : Option String} {queue : Queue} :
      s.threads i = .ending e status error queue → s.store.isRunning e = true →
      Took config s (.next i) { s.move i queue.thread with
        store := s.store.settle e status error, answers := s.answers ++ [(e, status)] }
  | cancel {e : Uuid} : s.store.isRunning e = true →
      Took config s (.cancel e) { s with store := s.store.close e, cancels := s.cancels ++ [e] }
  | tick {now : Instant} : s.store.now ≤ now →
      Took config s (.tick now) { s with store := { s.store with now } }

/-- The statements of a thread, as `Took` has them. -/
theorem took_next {config : RunnerConfig} {s t : Engine} {i : ℕ} (h : s.next config i = some t) :
    Took config s (.next i) t := by
  simp only [Engine.next] at h
  split at h
  · cases h
  · cases h
  · cases h
    exact .write ‹_›
  · cases h
    exact .move (.look ‹_›)
  · cases h
    exact .close ‹_›
  · cases h
    exact .move (.stale ‹_›)
  · cases h
    exact .move (.reclaim ‹_›)
  · cases h
    exact .move (.derive ‹_›)
  · cases h
    exact .move (.explain ‹_›)
  · split_ifs at h with hrunning
    · cases h
      exact .settle ‹_› hrunning
    · cases h
      exact .move (.ended ‹_› (by simpa using hrunning))
  · cases h
    exact .move (.drained ‹_›)

/-- **What a step can do.** -/
theorem took {config : RunnerConfig} {s t : Engine} {e : Event} (h : engineStep config s e = some t) :
    Took config s e t := by
  cases e with
  | start e steps =>
    simp only [engineStep] at h
    split at h
    · cases h
      exact .stay
    · cases h
      exact .start ‹_›
  | claim i locked =>
    simp only [engineStep] at h
    split at h
    · split at h
      · cases h
        exact .stay
      · cases h
        exact .stay
      · cases h
        obtain ⟨r, hdue, hshape, rfl, rfl⟩ := Store.claimDueStep_ok ‹_›
        exact .claim ‹_› hdue hshape
    · cases h
  | run i handled =>
    simp only [engineStep] at h
    split at h
    · cases h
      exact .move (.run ‹_›)
    · cases h
  | sweep i locked =>
    simp only [engineStep] at h
    split at h
    · cases h
      exact .sweep ‹_›
    · cases h
  | next i => exact took_next h
  | crash i =>
    cases h
    exact .move .crash
  | cancel e =>
    simp only [engineStep, Store.cancelExecution] at h
    split_ifs at h with hrunning
    · cases h
      exact .cancel hrunning
    · cases h
      exact .stay
  | tick now =>
    simp only [engineStep] at h
    split_ifs at h with hnow
    cases h
    exact .tick hnow

/-! ### What the threads know -/

section Sane

variable {config : RunnerConfig} {s t : Store}

/-- The claim was made on the row, and the row has only moved since. -/
structure ClaimedStep.On (c : ClaimedStep) (r : WorkflowStep) : Prop where
  id : r.id = c.id
  executionId : r.executionId = c.executionId
  kind : r.kind = c.kind
  params : r.params = c.params
  maxAttempts : r.maxAttempts = c.maxAttempts
  first : 1 ≤ c.attempts
  attempts : c.attempts ≤ r.attempts

/-- What a report on attempt `attempt` of a row may say. -/
def StepWrite.Fits (attempt : ℤ) (r : WorkflowStep) : StepWrite → Prop
  | .complete _ => r.kind = .wait → 1 < attempt
  | .park _ => r.kind = .wait ∧ attempt ≤ 1
  | .retry .. => r.kind = .task ∧ attempt < attemptsAllowed r.maxAttempts
  | .fail _ => True

namespace Store

/-- The run exists. -/
def Known (s : Store) (e : Uuid) : Prop := ∃ x ∈ s.executions, x.id = e

/-- The step claimed exists. -/
def Claimed (s : Store) (c : ClaimedStep) : Prop := ∃ r ∈ s.steps, c.On r

/-- The row read was one of a running step that exists. -/
def Read (s : Store) (step : WorkflowStep) : Prop :=
  step.status = .running ∧ 1 ≤ step.attempts ∧ ∃ r ∈ s.steps, step.Moved r

end Store

/-- The runs of a queue exist. -/
def Queue.Known (s : Store) : Queue → Prop
  | .tick => True
  | .touched es | .drained es => ∀ e ∈ es, s.Known e

/-- What comes after a report speaks of what exists. -/
def AfterWrite.Known (s : Store) : AfterWrite → Prop
  | .settle c | .retried c => s.Claimed c
  | .reclaim stale touched => (∀ step ∈ stale, s.Read step) ∧ ∀ e ∈ touched, s.Known e

/-- A thread speaks of what exists. -/
def Thread.Known (s : Store) : Thread → Prop
  | .idle | .reconciling => True
  | .claimed c | .settleAfter c | .closing c => s.Claimed c
  | .writing id attempt write after =>
    (∃ r ∈ s.steps, r.id = id ∧ 1 ≤ attempt ∧ attempt ≤ r.attempts ∧ write.Fits attempt r) ∧ after.Known s
  | .swept touched => ∀ e ∈ touched, s.Known e
  | .reclaiming step stale touched =>
    s.Read step ∧ (∀ step ∈ stale, s.Read step) ∧ ∀ e ∈ touched, s.Known e
  | .settling e queue | .explaining e queue | .ending e _ _ queue => s.Known e ∧ queue.Known s

variable {e : Uuid} {c : ClaimedStep} {step : WorkflowStep}

theorem ClaimedStep.On.moved {r r' : WorkflowStep} (h : c.On r) (hr : r.Moved r') : c.On r' where
  id := hr.id.trans h.id
  executionId := hr.executionId.trans h.executionId
  kind := hr.kind.trans h.kind
  params := hr.params.trans h.params
  maxAttempts := hr.maxAttempts.trans h.maxAttempts
  first := h.first
  attempts := le_trans h.attempts hr.attempts

theorem StepWrite.Fits.moved {attempt : ℤ} {w : StepWrite} {r r' : WorkflowStep}
    (h : w.Fits attempt r) (hr : r.Moved r') :
    w.Fits attempt r' := by
  cases w with
  | complete output => exact fun hkind => h (hr.kind ▸ hkind)
  | park availableAt => exact ⟨hr.kind.trans h.1, h.2⟩
  | retry message availableAt => exact ⟨hr.kind.trans h.1, by rw [hr.maxAttempts]; exact h.2⟩
  | fail message => trivial

theorem Store.Known.mono (hst : s.Extends t) (h : s.Known e) : t.Known e := by
  obtain ⟨x, hx, rfl⟩ := h
  obtain ⟨y, hy, hid, -⟩ := hst.executions x hx
  exact ⟨y, hy, hid⟩

theorem Store.Claimed.mono (hst : s.Extends t) (h : s.Claimed c) : t.Claimed c := by
  obtain ⟨r, hr, hc⟩ := h
  obtain ⟨r', hr', -, hmoved⟩ := hst.steps r hr
  exact ⟨r', hr', hc.moved hmoved⟩

theorem Store.Read.mono (hst : s.Extends t) (h : s.Read step) : t.Read step := by
  obtain ⟨hrunning, hfirst, r, hr, hstep⟩ := h
  obtain ⟨r', hr', -, hmoved⟩ := hst.steps r hr
  exact ⟨hrunning, hfirst, r', hr', hstep.trans hmoved⟩

theorem Queue.Known.mono (hst : s.Extends t) {queue : Queue} (h : queue.Known s) : queue.Known t := by
  cases queue with
  | tick => trivial
  | touched es => exact fun e he => (h e he).mono hst
  | drained es => exact fun e he => (h e he).mono hst

theorem AfterWrite.Known.mono (hst : s.Extends t) {after : AfterWrite} (h : after.Known s) :
    after.Known t := by
  cases after with
  | settle c => exact Store.Claimed.mono hst h
  | retried c => exact Store.Claimed.mono hst h
  | reclaim stale touched => exact ⟨fun step hs => (h.1 step hs).mono hst, fun e he => (h.2 e he).mono hst⟩

theorem Thread.Known.mono (hst : s.Extends t) {p : Thread} (h : p.Known s) : p.Known t := by
  cases p with
  | idle => trivial
  | reconciling => trivial
  | claimed c => exact Store.Claimed.mono hst h
  | settleAfter c => exact Store.Claimed.mono hst h
  | closing c => exact Store.Claimed.mono hst h
  | writing id attempt write after =>
    obtain ⟨⟨r, hr, hid, hfirst, hattempt, hfits⟩, hafter⟩ := h
    obtain ⟨r', hr', hid', hmoved⟩ := hst.steps r hr
    exact ⟨⟨r', hr', hid'.trans hid, hfirst, le_trans hattempt hmoved.attempts, hfits.moved hmoved⟩, hafter.mono hst⟩
  | swept touched => exact fun e he => (h e he).mono hst
  | reclaiming step stale touched =>
    exact ⟨h.1.mono hst, fun step hs => (h.2.1 step hs).mono hst, fun e he => (h.2.2 e he).mono hst⟩
  | settling e queue => exact ⟨h.1.mono hst, h.2.mono hst⟩
  | explaining e queue => exact ⟨h.1.mono hst, h.2.mono hst⟩
  | ending e status error queue => exact ⟨h.1.mono hst, h.2.mono hst⟩

theorem Queue.known_thread {queue : Queue} (h : queue.Known s) : queue.thread.Known s := by
  cases queue with
  | tick => trivial
  | touched es =>
    cases es with
    | nil => trivial
    | cons e es => exact ⟨h e (List.mem_cons_self ..), fun e' he' => h e' (List.mem_cons_of_mem _ he')⟩
  | drained es =>
    cases es with
    | nil => trivial
    | cons e es => exact ⟨h e (List.mem_cons_self ..), fun e' he' => h e' (List.mem_cons_of_mem _ he')⟩

theorem Thread.known_reclaim {touched : List Uuid} {stale : List WorkflowStep}
    (hstale : ∀ step ∈ stale, s.Read step)
    (htouched : ∀ e ∈ touched, s.Known e) : (Thread.reclaim touched stale).Known s := by
  cases stale with
  | nil => exact Queue.known_thread (show (Queue.touched touched).Known s from htouched)
  | cons step stale =>
    exact ⟨hstale step (List.mem_cons_self ..), fun step' hs => hstale step' (List.mem_cons_of_mem _ hs), htouched⟩

theorem AfterWrite.known_thread {after : AfterWrite} (h : after.Known s) : after.thread.Known s := by
  cases after with
  | settle c => exact h
  | retried c => trivial
  | reclaim stale touched => exact Thread.known_reclaim h.1 h.2

/-- A decided report fits the row claimed. -/
theorem advance_known {now : Instant} {handled : Except String Json} (h : s.Claimed c) :
    (advance config now c handled).Known s := by
  obtain ⟨r, hr, hc⟩ := h
  have known : ∀ {w : StepWrite} {after : AfterWrite}, w.Fits c.attempts r → after.Known s →
      (Thread.writing c.id c.attempts w after).Known s :=
    fun hfits hafter => ⟨⟨r, hr, hc.id, hc.first, hc.attempts, hfits⟩, hafter⟩
  have hclaimed : s.Claimed c := ⟨r, hr, hc⟩
  unfold advance
  cases hkind : c.kind with
  | wait =>
    simp only
    split_ifs with hattempts
    · exact known (fun _ => hattempts) hclaimed
    · split
      · trivial
      · exact known ⟨hc.kind.trans hkind, by omega⟩ hclaimed
  | task =>
    have htask : r.kind = .task := hc.kind.trans hkind
    simp only
    split
    · exact known (fun hwait => by rw [htask] at hwait; cases hwait) hclaimed
    · split_ifs with hattempts
      · exact known ⟨htask, by rw [hc.maxAttempts]; exact hattempts⟩ hclaimed
      · exact known trivial hclaimed

theorem reclaimWrite_fits (now : Instant) (step : WorkflowStep) :
    (reclaimWrite now step).Fits step.attempts step := by
  unfold reclaimWrite
  cases hkind : step.kind with
  | wait =>
    simp only
    split_ifs with hattempts
    · exact fun _ => hattempts
    · split
      · exact ⟨hkind, by omega⟩
      · trivial
  | task =>
    simp only
    split_ifs with hattempts
    · exact ⟨hkind, hattempts⟩
    · trivial

end Sane

/-! ### What becomes of the rows -/

/-- The reports on a step that took effect. -/
def Engine.reportsOn (s : Engine) (id : Uuid) : List Report := s.reports.filter (·.id = id)

/-- What event `e` makes of row `a`, and what the logs say of it. -/
inductive Became (s t : Engine) (e : Event) (a : WorkflowStep) : WorkflowStep → Prop where
  | same : t.reportsOn a.id = s.reportsOn a.id → Became s t e a a
  | claimed {i : ℕ} {locked : List Uuid} : e = .claim i locked → s.store.nextDue locked = some a →
      (a.claimed s.store.now).attemptsShape = true → t.claims = s.claims ++ [(a.id, s.store.now)] →
      t.reportsOn a.id = s.reportsOn a.id → Became s t e a (a.claimed s.store.now)
  | reported {i : ℕ} {attempt : ℤ} {write : StepWrite} {after : AfterWrite} :
      s.threads i = .writing a.id attempt write after → a.status = .running →
      t.reportsOn a.id = s.reportsOn a.id ++ [⟨a.id, attempt, a.attempts, write⟩] →
      Became s t e a (write.row s.store.now a)
  | closed {i : ℕ} {c : ClaimedStep} : s.threads i = .closing c → a.id = c.id → a.status.isOpen = true →
      t.reportsOn a.id = s.reportsOn a.id → Became s t e a (a.cancelled s.store.now)
  | resumed : a.status = .waiting → a.availableAt ≤ s.store.now → t.reportsOn a.id = s.reportsOn a.id →
      Became s t e a (a.resumed s.store.now)
  | cancelled : s.store.isRunning a.executionId = true → (a.status = .pending ∨ a.status = .waiting) →
      t.reportsOn a.id = s.reportsOn a.id → Became s t e a (a.cancelled s.store.now)

structure Inserted (s t : Engine) (r : WorkflowStep) : Prop where
  fresh : Store.Fresh r
  known : t.store.Known r.executionId
  newRun : ¬ s.store.Known r.executionId
  newStep : ∀ a ∈ s.store.steps, a.id ≠ r.id
  reports : t.reports = s.reports

section Rows

variable {config : RunnerConfig} {s t : Engine} {e : Event} {r : WorkflowStep}

@[simp] theorem Engine.move_threads (s : Engine) (i : ℕ) (p : Thread) :
    (s.move i p).threads = Function.update s.threads i p := rfl

theorem Store.holder_eq_some {s : Store} {id : Uuid} {a : ℤ} :
    s.holder id = some a ↔ ∃ r ∈ s.steps, r.id = id ∧ r.status = .running ∧ r.attempts = a := by
  simp only [holder, Option.map_eq_some_iff, Option.filter_eq_some_iff, Table.find?_eq_some,
    decide_eq_true_eq, and_assoc]

/-- A report is logged for the row it is written into, -/
theorem Engine.reportsOn_report {a : WorkflowStep} {attempt : ℤ} {write : StepWrite}
    (ha : a ∈ s.store.steps) (hrunning : a.status = .running) :
    (s.report a.id attempt write).reportsOn a.id = s.reportsOn a.id ++ [⟨a.id, attempt, a.attempts, write⟩] := by
  have hheld : s.store.holder a.id = some a.attempts :=
    Store.holder_eq_some.mpr ⟨a, ha, rfl, hrunning, rfl⟩
  simp [reportsOn, report, hheld]

/-- and for no other. -/
theorem Engine.reportsOn_report_other {a : WorkflowStep} {id : Uuid} {attempt : ℤ} {write : StepWrite}
    (ha : a ∈ s.store.steps) (hother : ¬ (a.id = id ∧ a.status = .running)) :
    (s.report id attempt write).reportsOn a.id = s.reportsOn a.id := by
  cases hheld : s.store.holder id with
  | none => simp [reportsOn, report, hheld]
  | some held =>
    obtain ⟨r, hr, rfl, hrunning, -⟩ := Store.holder_eq_some.mp hheld
    have hne : r.id ≠ a.id := by
      intro hid
      obtain rfl := Table.eq_of_key hr ha hid
      exact hother ⟨rfl, hrunning⟩
    simp [reportsOn, report, hheld, hne]

/-- **Every row** is one a starting run inserted, or a row there was, and what became
of it. -/
theorem Took.rows (h : Took config s e t) (hr : r ∈ t.store.steps) :
    Inserted s t r ∨ ∃ a ∈ s.store.steps, Became s t e a r := by
  cases h with
  | stay => exact .inr ⟨r, hr, .same rfl⟩
  | move hmoves => exact .inr ⟨r, hr, .same rfl⟩
  | tick hnow => exact .inr ⟨r, hr, .same rfl⟩
  | settle hending hrunning => exact .inr ⟨r, hr, .same rfl⟩
  | start hcreate =>
    obtain ⟨hnone, -, hexecutions, hgrows, hrows⟩ := Store.createExecution_ok hcreate
    by_cases hold : r ∈ s.store.steps
    · exact .inr ⟨r, hold, .same rfl⟩
    · rcases hrows r hr with hr' | ⟨rfl, hfresh⟩
      · exact absurd hr' hold
      · refine .inl ⟨hfresh, ⟨_, (hexecutions _).mpr (.inr rfl), rfl⟩, ?_, fun a ha hid => ?_, rfl⟩
        · rintro ⟨x, hx, hid⟩
          exact Table.find?_eq_none.mp hnone x hx hid
        obtain ⟨b, hb, hba, rfl⟩ := hgrows a ha
        exact hold (Table.eq_of_key hb hr hid ▸ ha)
  | claim hidle hdue hshape =>
    obtain ⟨a, ha, rfl⟩ := Store.mem_claim.mp hr
    split_ifs with hid
    · obtain rfl := Table.eq_of_key ha (Store.nextDue_eq_some hdue).1 hid
      exact .inr ⟨a, ha, .claimed rfl hdue hshape rfl rfl⟩
    · exact .inr ⟨a, ha, .same rfl⟩
  | write hwriting =>
    obtain ⟨a, ha, rfl⟩ := Store.mem_write.mp hr
    split_ifs with hid
    · obtain ⟨rfl, hrunning⟩ := hid
      exact .inr ⟨a, ha, .reported hwriting hrunning (Engine.reportsOn_report ha hrunning)⟩
    · exact .inr ⟨a, ha, .same (Engine.reportsOn_report_other ha hid)⟩
  | close hclosing =>
    obtain ⟨a, ha, rfl⟩ := Store.mem_cancelStep.mp hr
    split_ifs with hid
    · exact .inr ⟨a, ha, .closed hclosing hid.1 hid.2 rfl⟩
    · exact .inr ⟨a, ha, .same rfl⟩
  | sweep hidle =>
    rcases Store.mem_resolveDueWaits hr with hr | ⟨a, ha, hwaiting, hpast, rfl⟩
    · exact .inr ⟨r, hr, .same rfl⟩
    · exact .inr ⟨a, ha, .resumed hwaiting hpast rfl⟩
  | cancel hrunning =>
    obtain ⟨a, ha, rfl⟩ := Store.mem_close_steps.mp hr
    split_ifs with hid
    · exact .inr ⟨a, ha, .cancelled (hid.1 ▸ hrunning) hid.2 rfl⟩
    · exact .inr ⟨a, ha, .same rfl⟩

theorem Took.extends (h : Took config s e t) : s.store.Extends t.store := by
  cases h with
  | stay => exact .refl _
  | move hmoves => exact .refl _
  | start hcreate => exact Store.extends_createExecution hcreate
  | claim hidle hdue hshape =>
    obtain ⟨hmem, hisDue⟩ := Store.nextDue_eq_some hdue
    apply Store.extends_claim
    intro a ha hid
    obtain rfl := Table.eq_of_key ha hmem hid
    rcases (Store.isDue_iff.mp hisDue).2.1 with h | h <;> rw [h] <;> rfl
  | write hwriting => exact Store.extends_write ..
  | close hclosing => exact Store.extends_cancelStep ..
  | sweep hidle => exact Store.extends_resolveDueWaits ..
  | settle hending hrunning => exact Store.extends_settle ..
  | cancel hrunning => exact Store.extends_close ..
  | tick hnow => exact ⟨.refl .refl, .refl .refl, hnow⟩

/-- The attempts of a row are within the constraints of the table. -/
structure WorkflowStep.Bounded (r : WorkflowStep) : Prop where
  nonneg : 0 ≤ r.attempts
  held : r.status = .running → 1 ≤ r.attempts
  maxAttempts : 1 ≤ r.maxAttempts ∧ r.maxAttempts ≤ maxAttemptsCap
  task : r.kind = .task → r.attempts ≤ r.maxAttempts
  wait : r.kind = .wait → r.attempts ≤ 2

/-- **What holds of every run of the engine.** -/
structure Engine.Sane (s : Engine) : Prop where
  runs : ∀ r ∈ s.store.steps, s.store.Known r.executionId
  /-- Attempts are within the constraints. -/
  rows : ∀ r ∈ s.store.steps, r.Bounded
  /-- The threads speak of what exists. -/
  threads : ∀ i, (s.threads i).Known s.store

theorem Store.Fresh.bounded (h : Store.Fresh r) : r.Bounded where
  nonneg := by rw [h.attempts]
  held hrunning := by rw [h.status] at hrunning; cases hrunning
  maxAttempts := h.maxAttempts
  task _ := by have := h.maxAttempts; have := h.attempts; omega
  wait _ := by have := h.attempts; omega

theorem Became.bounded {a : WorkflowStep} (h : Became s t e a r) (ha : a.Bounded) : r.Bounded := by
  obtain ⟨hnonneg, hheld, hmax, htask, hwait⟩ := ha
  cases h with
  | same hlog => exact ⟨hnonneg, hheld, hmax, htask, hwait⟩
  | claimed hevent hdue hshape hclaims hlog =>
    refine ⟨?_, fun _ => ?_, hmax, fun hkind => WorkflowStep.attemptsShape_task hkind hshape,
      fun hkind => WorkflowStep.attemptsShape_wait hkind hshape⟩
    · simp only [WorkflowStep.claimed]
      omega
    · simp only [WorkflowStep.claimed]
      omega
  | reported hwriting hrunning hlog =>
    rename_i write _
    cases write <;> exact ⟨hnonneg, fun _ => hheld hrunning, hmax, htask, hwait⟩
  | closed hclosing hid hopen hlog => exact ⟨hnonneg, fun h => (by cases h), hmax, htask, hwait⟩
  | resumed hwaiting hpast hlog => exact ⟨hnonneg, fun h => (by cases h), hmax, htask, hwait⟩
  | cancelled hrunning hstatus hlog => exact ⟨hnonneg, fun h => (by cases h), hmax, htask, hwait⟩

theorem Became.moved {a : WorkflowStep} (h : Became s t e a r) : a.Moved r := by
  cases h with
  | same hlog => exact .refl _
  | claimed hevent hdue hshape hclaims hlog =>
    apply WorkflowStep.moved_claimed
    rcases (Store.isDue_iff.mp (Store.nextDue_eq_some hdue).2).2.1 with h | h <;> rw [h] <;> rfl
  | reported hwriting hrunning hlog => exact StepWrite.moved _ _ (by rw [hrunning]; rfl)
  | closed hclosing hid hopen hlog => exact WorkflowStep.moved_of_open hopen ⟨_, _, _, _, _, _, rfl⟩
  | resumed hwaiting hpast hlog => exact WorkflowStep.moved_of_open (by rw [hwaiting]; rfl) ⟨_, _, _, _, _, _, rfl⟩
  | cancelled hrunning hstatus hlog =>
    refine WorkflowStep.moved_of_open ?_ ⟨_, _, _, _, _, _, rfl⟩
    rcases hstatus with h | h <;> rw [h] <;> rfl

theorem Became.attempts {a : WorkflowStep} (h : Became s t e a r) :
    r.attempts = a.attempts ∨ ∃ i locked, e = .claim i locked ∧ s.store.nextDue locked = some a := by
  cases h with
  | claimed hevent hdue hshape hclaims hlog => exact .inr ⟨_, _, hevent, hdue⟩
  | reported hwriting hrunning hlog =>
    rename_i write _
    cases write <;> exact .inl rfl
  | _ => exact .inl rfl

/-- Where a thread goes by itself, it speaks of what exists. -/
theorem Moves.known {i : ℕ} {p : Thread} (h : Moves config s i e p) (hs : s.Sane) :
    p.Known s.store := by
  have hi := hs.threads i
  cases h with
  | run hc =>
    rw [hc] at hi
    exact advance_known hi
  | look hc =>
    rw [hc] at hi
    unfold settleAfterStep
    split
    · trivial
    · rename_i x hx
      split_ifs
      · exact ⟨⟨x, Table.find?_eq_some.mp hx⟩, trivial⟩
      · exact hi
  | stale hc =>
    rw [hc] at hi
    refine Thread.known_reclaim (fun step hstep => ?_) hi
    obtain ⟨hmem, hrunning⟩ := Store.mem_staleSteps hstep
    exact ⟨hrunning, (hs.rows step hmem).held hrunning, step, hmem, .refl step⟩
  | reclaim hc =>
    rw [hc] at hi
    obtain ⟨⟨hrunning, hfirst, r, hr, hmoved⟩, hstale, htouched⟩ := hi
    refine ⟨⟨r, hr, hmoved.id, hfirst, hmoved.attempts, (reclaimWrite_fits _ _).moved hmoved⟩, hstale, fun e he => ?_⟩
    rcases List.mem_append.mp he with he | he
    · exact htouched e he
    · obtain rfl := List.mem_singleton.mp he
      rw [← hmoved.executionId]
      exact hs.runs r hr
  | derive hc =>
    rw [hc] at hi
    unfold Omnion.Workflows.derive
    simp only
    split_ifs
    · exact Queue.known_thread hi.2
    · exact hi
    · exact hi
  | explain hc =>
    rw [hc] at hi
    exact hi
  | ended hc hrunning =>
    rw [hc] at hi
    exact Queue.known_thread hi.2
  | drained hc =>
    exact Queue.known_thread (show (Queue.drained _).Known s.store from fun e he => Store.mem_drained he)
  | crash => trivial

/-- **Every step keeps it.** -/
theorem Engine.Sane.step (h : s.Sane) (ht : Took config s e t) : t.Sane := by
  have hext := ht.extends
  refine ⟨fun r hr => ?_, fun r hr => ?_, ?_⟩
  · rcases ht.rows hr with hinserted | ⟨a, ha, hbecame⟩
    · exact hinserted.known
    · rw [hbecame.moved.executionId]
      exact (h.runs a ha).mono hext
  · rcases ht.rows hr with hinserted | ⟨a, ha, hbecame⟩
    · exact hinserted.fresh.bounded
    · exact hbecame.bounded (h.rows a ha)
  · -- the threads that stay know what they knew
    have hothers : ∀ i, (s.threads i).Known t.store := fun i => (h.threads i).mono hext
    have hmove : ∀ {i : ℕ} {p : Thread}, p.Known t.store → ∀ j, (Function.update s.threads i p j).Known t.store :=
      fun hp => (Function.forall_update_iff s.threads fun _ p => p.Known t.store).mpr ⟨hp, fun j _ => hothers j⟩
    cases ht with
    | stay => exact hothers
    | start hcreate => exact hothers
    | cancel hrunning => exact hothers
    | tick hnow => exact hothers
    | move hmoves => exact hmove (hmoves.known h)
    | claim hidle hdue hshape =>
      obtain ⟨hmem, -⟩ := Store.nextDue_eq_some hdue
      have hnonneg := (h.rows _ hmem).nonneg
      refine hmove ⟨_, Store.mem_claim.mpr ⟨_, hmem, if_pos rfl⟩, rfl, rfl, rfl, rfl, rfl, ?_, le_refl _⟩
      simp only [ClaimedStep.of, WorkflowStep.claimed]
      omega
    | @write i id attempt write after hwriting =>
      have hi := hothers i
      rw [hwriting] at hi
      exact hmove (AfterWrite.known_thread hi.2)
    | close hclosing => exact hmove trivial
    | sweep hidle =>
      refine hmove fun e he => Store.Known.mono hext ?_
      obtain ⟨r, hr, rfl⟩ := List.mem_map.mp he
      exact h.runs r (Store.mem_dueWaits hr).1
    | @settle i e status error queue hending hrunning =>
      have hi := hothers i
      rw [hending] at hi
      exact hmove (Queue.known_thread hi.2)

/-- The engine before anything happens. -/
def Engine.empty (now : Instant) : Engine := { store := { now }, threads := fun _ => .idle }

theorem Engine.sane_empty (now : Instant) : (Engine.empty now).Sane :=
  ⟨fun _ hr => absurd hr List.not_mem_nil, fun _ hr => absurd hr List.not_mem_nil, fun _ => trivial⟩

/-- **Every run is sane.** -/
theorem run_sane {now : Instant} {ok : Engine → Event → Prop} {es : List Event}
    (h : Transition.Run (engineStep config) ok (.empty now) es s) : s.Sane :=
  h.invariant (Engine.sane_empty now) fun _ _ _ hx _ hs => hx.step (took hs)

end Rows

end Omnion.Workflows
