import Omnion.Core.Json
import Omnion.Core.Text

/-!
# The vocabulary of notifications

`crates/notifications/src/vocabulary.rs`, `model.rs`, `preferences.rs` and `preference_store.rs`:
the closed lists, a notification before it is written, and the matrix that says over which
channels a person hears of what.

## What is proved

* `mem_allowedChannels`, `mem_disabledChannels` — every channel is allowed or switched off, and
  the one in the panel is never switched off.
-/

namespace Omnion.Notifications

/-! ### The closed lists -/

/-- Every category a notification may carry. -/
def CATEGORIES : List String := ["approval", "security", "update", "ticket", "system", "mention"]

/-- How urgent a notification is. -/
def PRIORITIES : List String := ["low", "normal", "high", "critical"]

/-- How a notification can reach a person. -/
def CHANNELS : List String := ["in_app", "email", "web_push", "webhook", "chat"]

/-- The channel a person cannot opt out of. -/
def IN_APP : String := "in_app"

/-- The channels the queue accepts. -/
def QUEUEABLE : List String := ["email", "web_push", "webhook"]

/-- `is_category`. -/
def isCategory (value : String) : Bool := CATEGORIES.contains value

/-- `is_priority`. -/
def isPriority (value : String) : Bool := PRIORITIES.contains value

/-- `is_channel`. -/
def isChannel (value : String) : Bool := CHANNELS.contains value

/-! ### A notification before it is written -/

/-- Why a call fails. -/
inductive NotificationError where
  | database
  | invalid (message : String)

/-- A list of strings as `{:?}` shows it. -/
def debugList (values : List String) : String := "[" ++ ", ".intercalate (values.map Text.debug) ++ "]"

/-- What to record for a person. -/
structure NewNotification where
  userId : Uuid
  category : String
  priority : String := "normal"
  title : String
  body : String := ""
  url : Option String := none
  sourceType : Option String := none
  sourceId : Option String := none
  payload : Json := .object []
  dedupeKey : Option String := none

/-- Validate the record before it is written. -/
def NewNotification.build (draft : NewNotification) : Except NotificationError NewNotification :=
  if !isCategory draft.category then
    .error (.invalid ("category \"" ++ draft.category ++ "\" is not one of " ++ debugList CATEGORIES))
  else if !isPriority draft.priority then
    .error (.invalid ("priority \"" ++ draft.priority ++ "\" is not one of " ++ debugList PRIORITIES))
  else if Text.trim draft.title = "" then .error (.invalid "a notification needs a title")
  else .ok draft

/-! ### The matrix of a person -/

/-- One cell: a category over a channel. -/
structure PreferenceCell where
  category : String
  channel : String
  enabled : Bool

/-- The matrix of a person. -/
abbrev Preferences := List PreferenceCell

/-- Everything is on. -/
def Preferences.defaults : Preferences :=
  CATEGORIES.flatMap fun category => CHANNELS.map fun channel => { category, channel, enabled := true }

/-- `read_preferences`: the stated cells over the defaults. -/
def readPreferences (stated : List PreferenceCell) : Preferences :=
  stated.foldl (fun matrix cell => matrix.map fun c =>
    if c.category = cell.category ∧ c.channel = cell.channel then { c with enabled := cell.enabled } else c) .defaults

/-- `enabled`. -/
def Preferences.enabled (p : Preferences) (category channel : String) : Bool :=
  ((p.find? fun cell => cell.category = category ∧ cell.channel = channel).map (·.enabled)).getD true

/-- `allows`. -/
def Preferences.allows (p : Preferences) (category channel : String) : Bool :=
  if channel = IN_APP then true else p.enabled category channel

/-- `allowed_channels`. -/
def Preferences.allowedChannels (p : Preferences) (category : String) : List String :=
    CHANNELS.filter (p.allows category)

/-- `disabled_channels`. -/
def Preferences.disabledChannels (p : Preferences) (category : String) : List String :=
    CHANNELS.filter fun c => !p.allows category c

variable {p : Preferences} {category channel : String}

theorem mem_allowedChannels : channel ∈ p.allowedChannels category ↔ channel ∈ CHANNELS ∧
    p.allows category channel = true :=
  List.mem_filter

theorem mem_disabledChannels : channel ∈ p.disabledChannels category ↔ channel ∈ CHANNELS ∧
    p.allows category channel = false := by
  simp [Preferences.disabledChannels]

@[simp] theorem allows_inApp : p.allows category IN_APP = true := if_pos rfl

end Omnion.Notifications
