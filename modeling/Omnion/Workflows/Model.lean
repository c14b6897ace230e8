import Omnion.Core.Json
import Omnion.Core.Text

/-!
# Runs and steps

The rows of the workflow engine, `crates/workflows/src/model.rs`, what a definition
says about its steps, `definition.rs`, and what its actions do, `actions.rs`. A run is a row of
`workflow_executions` and one row of `workflow_steps` for each step; the runner
only moves these forward.

The columns no modelled function reads (the workflow, the tenant, the trigger) are
left out. A status or a kind outside the enumerations is refused by the tables.
-/

namespace Omnion.Workflows

/-- What a step does when its turn comes. -/
inductive StepKind where
  | task
  /-- Pauses the run for a fixed number of seconds. -/
  | wait
  deriving DecidableEq

/-- Lifecycle of one run. -/
inductive ExecutionStatus where
  /-- Steps are still being worked through. -/
  | running
  | completed
  | failed
  | cancelled
  deriving DecidableEq

/-- `true` when no further work can happen. -/
def ExecutionStatus.isTerminal : ExecutionStatus → Bool
  | .running => false
  | _ => true

/-- Lifecycle of one step of a run. -/
inductive StepStatus where
  /-- Waiting for its turn, or for a retry's backoff to pass. -/
  | pending
  /-- Claimed by the engine right now. -/
  | running
  | waiting
  | succeeded
  | failed
  /-- The run was cancelled before or while this step ran. -/
  | cancelled
  deriving DecidableEq

/-- `true` while the step still needs the engine's attention. -/
def StepStatus.isOpen : StepStatus → Bool
  | .pending | .running | .waiting => true
  | _ => false

/-- The engine's errors. -/
inductive WorkflowError where
  /-- The database refused the operation. -/
  | database (constraint : String)
  /-- The definition breaks an engine rule. -/
  | invalid (code message : String)

/-- A row of `workflow_executions`. -/
structure WorkflowExecution where
  id : Uuid
  status : ExecutionStatus
  startedAt : Instant
  /-- When the run reached a terminal state. -/
  finishedAt : Option Instant
  /-- Error of the failing step, when the run failed. -/
  error : Option String

/-- A row of `workflow_steps`. -/
structure WorkflowStep where
  id : Uuid
  executionId : Uuid
  stepNo : ℤ
  name : String
  /-- `task` or `wait`. -/
  kind : StepKind
  action : Option String
  params : Json
  status : StepStatus
  attempts : ℤ
  maxAttempts : ℤ
  /-- When the step may run; carries the retry backoff and the wait deadline. -/
  availableAt : Instant
  /-- When the current attempt started. -/
  startedAt : Option Instant
  /-- When the step reached a terminal state. -/
  finishedAt : Option Instant
  output : Option Json
  error : Option String

/-- The most attempts a step may be given. -/
def maxAttemptsCap : ℤ := 5

/-- The longest a wait step parks. -/
def maxWaitSeconds : ℤ := 86400

/-- The attempts a step has: its own, and never more than the engine's cap. -/
def attemptsAllowed (maxAttempts : ℤ) : ℤ := min maxAttempts maxAttemptsCap

structure StepDefinition where
  name : String
  /-- `task` or `wait`. -/
  kind : StepKind
  action : Option String := none
  /-- Parameters: of the action, or the seconds of a wait. -/
  params : Json := .object []
  maxAttempts : ℤ := 1

def StepDefinition.task (name action : String) (params : Json) : StepDefinition :=
  { name, kind := .task, action := some action, params }

def StepDefinition.wait (name : String) (seconds : ℤ) : StepDefinition :=
  { name, kind := .wait, params := .object [("seconds", .number (.int seconds))] }

/-- Allow more than one attempt. -/
def StepDefinition.retrying (d : StepDefinition) (maxAttempts : ℤ) : StepDefinition :=
  { d with maxAttempts }

/-- The parked seconds of a wait step's parameters. -/
def waitSecondsFrom (params : Json) : Except WorkflowError ℤ :=
  match (params.get "seconds").bind Json.asI64 with
  | none => .error (.invalid "invalid_wait" "a wait step needs \x7b\"seconds\": n\x7d in its parameters")
  | some seconds =>
    if 1 ≤ seconds ∧ seconds ≤ maxWaitSeconds then .ok seconds
    else .error (.invalid "invalid_wait" ("a wait step parks between 1 and " ++ toString maxWaitSeconds
      ++ " seconds, got " ++ toString seconds))

/-! ### Actions -/

/-- The host runs this action, not the engine. -/
def isHostAction (key : String) : Bool := key ∈ ["send_email", "comment_revision"]

/-- Run one synthetic action. `attempt` is the current attempt, counting from 1. -/
def runAction (action : String) (params : Json) (attempt : ℤ) : Except String Json :=
  if isHostAction action then
    .error ("`" ++ action ++ "` is a host action; the process must install an action handler to run it")
  else
    match action with
    | "noop" => .ok (.object [("action", .string "noop")])
    | "echo" => .ok (.object [("action", .string "echo"), ("value", (params.get "value").getD .null)])
    | "fail" => .error (((params.get "message").bind Json.asStr).getD "the fail action always fails")
    | "transient" =>
      let failTimes := ((params.get "fail_times").bind Json.asI64).getD 0x7fffffff
      if attempt ≤ failTimes then
        .error ("simulated transient failure on attempt " ++ toString attempt ++ " of " ++ toString failTimes)
      else .ok (.object [("action", .string "transient"), ("attempt", .number (.int attempt))])
    | other => .error ("`" ++ other ++ "` is not a built-in action")

/-- Knobs of the runner. The `batch` of a tick only bounds how many steps it claims
before it starts over, so it is left out. -/
structure RunnerConfig where
  /-- Rows one sweep may touch per repair. -/
  sweepBatch : ℕ := 100
  retryBase : Duration := Time.seconds 5
  retryMax : Duration := Time.seconds 300
  /-- How long a claimed step may stay open before its runner counts as gone. -/
  lease : Duration := Time.seconds 300

/-- A 64-bit signed integer from a wider one, as `as i64` makes it. -/
def asI64 (n : ℤ) : ℤ := Int.bmod n 0x10000000000000000

/-- `i64::saturating_mul`. -/
def saturatingMul (a b : ℤ) : ℤ := max (-0x8000000000000000) (min (a * b) 0x7fffffffffffffff)

/-- Backoff before the next attempt: exponential from `base`, capped at `cap`. -/
def retryDelay (attempt : ℤ) (base cap : Duration) : Duration :=
  let shift := max 1 (min attempt 16) - 1
  let factor := (1 : ℤ) <<< shift.toNat
  let baseMs := asI64 (max (Time.wholeMilliseconds base) 1)
  let capMs := max (asI64 (Time.wholeMilliseconds cap)) baseMs
  Time.milliseconds (min (saturatingMul baseMs factor) capMs)

/-- The third attempt waits four bases, and a later one no longer than the cap. -/
example : retryDelay 3 (Time.seconds 5) (Time.seconds 300) = Time.seconds 20 ∧
    retryDelay 9 (Time.seconds 5) (Time.seconds 300) = Time.seconds 300 := by decide

end Omnion.Workflows
