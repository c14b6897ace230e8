import Omnion.Library.Table
import Omnion.Notifications.Model

/-!
# Deliveries of a notification

The rows of `notification_deliveries` and what `crates/notifications/src/delivery.rs` queues: one
row for each channel, waiting or skipped with the reason on it.

## What is proved

* `readerRows_ne`, `mem_readerRows` — the loops over the reader's channels leave the panel alone, and
  give every channel of theirs that the queue accepts a row.
* `mem_insertDelivery` — an insert adds a row for its channel, or finds one.
-/

namespace Omnion.Notifications

/-! ### Rows -/

/-- Where a delivery stands. -/
inductive DeliveryStatus where
  | pending
  | sent
  | failed
  | skipped
  deriving DecidableEq

/-- One channel a notification was tried on. -/
structure Delivery where
  id : Uuid
  notificationId : Uuid
  channel : String
  status : DeliveryStatus
  attempts : ℕ := 0
  maxAttempts : ℕ := 3
  nextAttemptAt : Instant
  responseStatus : Option ℤ := none
  error : Option String := none
  sentAt : Option Instant := none
  claimedAt : Option Instant := none
  createdAt : Instant
  deriving DecidableEq

def Delivery.isFor (d : Delivery) (notificationId : Uuid) (channel : String) : Bool :=
  d.notificationId = notificationId && d.channel = channel

/-! ### What is queued -/

/-- The reason a row carries when the reader's own preference stopped it. -/
def READER_SWITCHED_IT_OFF : String := "the reader has this channel switched off"

/-- The reason a row carries when the platform has no transport for that channel yet. -/
def NO_TRANSPORT_YET : String := "this channel has no transport installed on this installation"

/-- What an insert of a delivery says. -/
structure QueuedRow where
  channel : String
  status : DeliveryStatus
  error : Option String := none

/-- The delivery is inserted as this says; the rest are defaults. -/
def QueuedRow.delivery (row : QueuedRow) (id notificationId : Uuid) (now : Instant) : Delivery where
  id := id
  notificationId := notificationId
  channel := row.channel
  status := row.status
  error := row.error
  nextAttemptAt := now
  createdAt := now

/-- A channel that the loops over the reader's channels do not pass over. -/
def isQueueable (channel : String) : Bool := isChannel channel && channel ≠ IN_APP && QUEUEABLE.contains channel

/-- The channels in the closed vocabulary that no runner drains. -/
def channelsWithoutTransport : List String := CHANNELS.filter fun channel =>
    channel ≠ IN_APP && !QUEUEABLE.contains channel

/-- The rows of the reader's channels. -/
def readerRows (enabled disabled : List String) : List QueuedRow :=
  (enabled.filter isQueueable).map (fun channel => { channel, status := .pending }) ++
    (disabled.filter isQueueable).map fun channel =>
      { channel, status := .skipped, error := some READER_SWITCHED_IT_OFF }

/-- The row of the panel. -/
def inAppRow : QueuedRow where
  channel := IN_APP
  status := .pending

/-- The rows of the channels without a transport. -/
def untransportedRows : List QueuedRow :=
  channelsWithoutTransport.map fun channel => { channel, status := .skipped, error := some NO_TRANSPORT_YET }

/-- The inserts of `enqueue`, in their order: the row of the panel comes after both loops. -/
def enqueue (enabled disabled : List String) : List QueuedRow :=
    readerRows enabled disabled ++ inAppRow :: untransportedRows

/-- What one enqueue produced. -/
structure EnqueueReport where
  queued : ℕ := 0
  skipped : ℕ := 0

/-- One more insert: a row that was there before is not counted. -/
def EnqueueReport.count (report : EnqueueReport) (row : QueuedRow) (inserted : Bool) : EnqueueReport :=
  if !inserted then report
  else if row.status = .pending then { report with queued := report.queued + 1 }
  else { report with skipped := report.skipped + 1 }

/-- `insert_delivery`, and whether it created a row. -/
def insertDelivery (deliveries : Table Delivery Delivery.id) (row : Delivery) :
    Option (Bool × Table Delivery Delivery.id) :=
  if deliveries.rows.any (·.isFor row.notificationId row.channel) then some (false, deliveries)
  else (deliveries.insert? row).map (true, ·)

/-! ### Lemmas -/

variable {enabled disabled : List String} {channel : String} {row : QueuedRow}

theorem isQueueable_iff : isQueueable channel = true ↔ channel ∈ QUEUEABLE := by
  have hclosed : ∀ c ∈ QUEUEABLE, isChannel c = true ∧ c ≠ IN_APP := by decide
  rw [isQueueable, Bool.and_eq_true, Bool.and_eq_true, decide_eq_true_eq, List.contains_iff_mem]
  exact ⟨And.right, fun h => ⟨hclosed channel h, h⟩⟩

theorem readerRows_ne (h : row ∈ readerRows enabled disabled) : row.channel ≠ IN_APP := by
  have hother : ∀ c ∈ QUEUEABLE, c ≠ IN_APP := by decide
  rw [readerRows, List.mem_append, List.mem_map, List.mem_map] at h
  rcases h with ⟨c, hc, rfl⟩ | ⟨c, hc, rfl⟩
  · exact hother c (isQueueable_iff.mp (List.mem_filter.mp hc).2)
  · exact hother c (isQueueable_iff.mp (List.mem_filter.mp hc).2)

theorem mem_readerRows (hqueueable : channel ∈ QUEUEABLE) (h : channel ∈ enabled ∨ channel ∈ disabled) :
    ∃ row ∈ readerRows enabled disabled, row.channel = channel := by
  have hloop := isQueueable_iff.mpr hqueueable
  simp only [readerRows, List.mem_append, List.mem_map, List.mem_filter]
  rcases h with h | h
  · exact ⟨_, .inl ⟨channel, ⟨h, hloop⟩, rfl⟩, rfl⟩
  · exact ⟨_, .inr ⟨channel, ⟨h, hloop⟩, rfl⟩, rfl⟩

theorem untransportedRows_ne : ∀ row ∈ untransportedRows, row.channel ≠ IN_APP := by decide

/-- **After an insert** the channel has a row, and no other row is new. -/
theorem mem_insertDelivery {deliveries deliveries' : Table Delivery Delivery.id} {r d : Delivery} {inserted : Bool}
    (h : insertDelivery deliveries r = some (inserted, deliveries')) :
    (∃ d ∈ deliveries', d.isFor r.notificationId r.channel = true) ∧ (d ∈ deliveries' → d ∈ deliveries ∨ d = r) ∧
      (d ∈ deliveries → d ∈ deliveries') := by
  rw [insertDelivery] at h
  split_ifs at h with hthere
  · obtain ⟨-, rfl⟩ := Prod.mk.inj (Option.some.inj h)
    exact ⟨List.any_eq_true.mp hthere, .inl, id⟩
  · obtain ⟨u, hinsert, hu⟩ := Option.map_eq_some_iff.mp h
    obtain ⟨-, rfl⟩ := Prod.mk.inj hu
    refine ⟨⟨r, (Table.mem_insert? hinsert).mpr (.inr rfl), by simp [Delivery.isFor]⟩, (Table.mem_insert? hinsert).mp,
      fun hd => (Table.mem_insert? hinsert).mpr (.inl hd)⟩

end Omnion.Notifications
