import Omnion.Workflows.Model

/-!
# Events, endpoints and deliveries

The rows of the event bus, `crates/events/src/model.rs`: recorded events, the webhook
endpoints that subscribe to them, and the queue of deliveries, one row for each event
and endpoint, as the tables of `0009_events_webhooks.sql` and
`0052_webhook_delivery_ops.sql` have them.

The instants at which an endpoint changed, and the account that connected it, are read
by nothing modelled and left out.
-/

namespace Omnion.Events

/-- One recorded fact of the platform. -/
structure Event where
  /-- Creation order (identity column). -/
  id : ℤ
  name : String
  /-- Organization the fact belongs to. -/
  organizationId : Option Uuid
  siteId : Option Uuid
  actorUserId : Option Uuid
  /-- Structured detail a consumer reads. -/
  payload : Json
  createdAt : Instant

/-- An event to record. -/
structure NewEvent where
  name : String
  /-- Organization the fact belongs to. -/
  organizationId : Option Uuid := none
  siteId : Option Uuid := none
  actorUserId : Option Uuid := none
  payload : Json := .object []

/-- The row of a recorded event. -/
def NewEvent.row (new : NewEvent) (id : ℤ) (now : Instant) : Event where
  id := id
  name := new.name
  organizationId := new.organizationId
  siteId := new.siteId
  actorUserId := new.actorUserId
  payload := new.payload
  createdAt := now

structure WebhookEndpoint where
  id : Uuid
  /-- Organization the endpoint belongs to. -/
  organizationId : Uuid
  /-- Name the operator tells it apart by. -/
  name : String
  /-- URL the platform sends deliveries to. -/
  url : String
  /-- Shared secret deliveries are signed with. -/
  secret : String
  /-- Event names the endpoint subscribed to. -/
  events : List String
  /-- Whether the platform keeps delivering to it. -/
  enabled : Bool := true

/-- The changes of one update; absent fields stay as they are. -/
structure EndpointChanges where
  name : Option String := none
  url : Option String := none
  events : Option (List String) := none
  enabled : Option Bool := none
  secret : Option String := none

def EndpointChanges.apply (changes : EndpointChanges) (w : WebhookEndpoint) : WebhookEndpoint :=
  { w with
    name := changes.name.getD w.name
    url := changes.url.getD w.url
    events := changes.events.getD w.events
    enabled := changes.enabled.getD w.enabled
    secret := changes.secret.getD w.secret }

@[simp] theorem EndpointChanges.apply_id (changes : EndpointChanges) (w : WebhookEndpoint) :
    (changes.apply w).id = w.id := rfl

/-- How a delivery ended. -/
inductive DeliveryStatus where
  /-- Queued, waiting for its next attempt. -/
  | pending
  | delivered
  /-- Out of attempts, or the endpoint was switched off before it went out. -/
  | failed
  deriving DecidableEq

/-- What asked for a delivery. -/
inductive Trigger where
  | event
  | test
  /-- An operator who forced it again. -/
  | replay

/-- How many attempts a delivery gets when it is queued. -/
def defaultMaxAttempts : ℕ := 5

/-- How many times one delivery may be forced again. -/
def maxRedeliveries : ℕ := 10

/-- A row of `webhook_deliveries`. -/
structure Delivery where
  id : Uuid
  endpointId : Uuid
  eventId : ℤ
  status : DeliveryStatus := .pending
  /-- Attempts made so far, since it was last forced again. -/
  attempts : ℕ := 0
  maxAttempts : ℕ := defaultMaxAttempts
  nextAttemptAt : Instant
  /-- When the current claim was made. -/
  claimedAt : Option Instant := none
  /-- Status the receiver answered with. -/
  responseStatus : Option ℤ := none
  error : Option String := none
  deliveredAt : Option Instant := none
  createdAt : Instant
  trigger : Trigger := .event
  /-- How long the receiver took, in milliseconds. -/
  durationMs : Option ℤ := none
  /-- How many times an operator has forced it again. -/
  redeliverCount : ℕ := 0
  replayedAt : Option Instant := none

/-- One delivery the runner claimed, with the endpoint and the event it needs to send
it. -/
structure DeliveryJob where
  deliveryId : Uuid
  endpointId : Uuid
  endpointName : String
  endpointUrl : String
  endpointSecret : String
  eventId : ℤ
  eventName : String
  eventPayload : Json
  organizationId : Option Uuid
  siteId : Option Uuid
  actorUserId : Option Uuid
  eventCreatedAt : Instant
  /-- Attempts made so far, including the one in flight. -/
  attempts : ℕ
  maxAttempts : ℕ

def DeliveryJob.of (d : Delivery) (w : WebhookEndpoint) (e : Event) : DeliveryJob where
  deliveryId := d.id
  endpointId := d.endpointId
  endpointName := w.name
  endpointUrl := w.url
  endpointSecret := w.secret
  eventId := d.eventId
  eventName := e.name
  eventPayload := e.payload
  organizationId := e.organizationId
  siteId := e.siteId
  actorUserId := e.actorUserId
  eventCreatedAt := e.createdAt
  attempts := d.attempts
  maxAttempts := d.maxAttempts

/-- How one attempt ended. -/
inductive DeliveryOutcome where
  | delivered (status : ℤ)
  /-- The receiver answered without success, or could not be reached. -/
  | failed (status : Option ℤ) (message : String)

/-- Knobs of one delivery tick. The process reads its lease as a positive number, and
how long a request may take only bounds how long a worker waits for its answer. -/
structure RunnerConfig where
  batch : ℕ := 20
  leaseSeconds : ℕ := 120
  leaseSeconds_pos : 0 < leaseSeconds := by decide
  retryBase : Duration := Time.seconds 15
  retryMax : Duration := Time.seconds 900

/-- Exponential backoff: the same ladder the workflow engine uses. -/
def retryDelay (attempt : ℕ) (base cap : Duration) : Duration := Workflows.retryDelay attempt base cap

/-- How much of a failure travels into the delivery row. -/
def maxErrorChars : ℕ := 500

/-- `sender::trim`: at most `cap` characters, on one line. Control characters are those of
the Unicode category `Cc`. -/
def trimMessage (text : String) (cap : ℕ) : String :=
  let collapsed :=
    text.map fun c => if c.toNat < 0x20 ∨ (0x7f ≤ c.toNat ∧ c.toNat < 0xa0) then ' ' else c
  let trimmed := Text.trim collapsed
  if trimmed.length ≤ cap then trimmed else String.ofList (trimmed.toList.take cap ++ ['…'])

end Omnion.Events
