import Omnion.Notifications.Model
import Omnion.Permissions.Bindings

/-!
# The notification router

`crates/notifications/src/router.rs`: rules turn an event of the bus into notifications. A rule
names the event, and who hears of it: its actor, everybody with a permission, everybody with a
role, or the person a field of the payload names.

## What is proved

* `decode_encode_rule` — a recipient rule is read back as it was written.
* `resolve_within_iff` — the recipients of an event of an organization are its active users, or
  hold a platform-wide binding, just when the rule is `Confined`: what it names itself (the actor,
  a payload field, a binding into the organization) is one of these.

## Honest scope

What the `uuid` crate reads and prints is a parameter. Writing the notifications is
`Omnion.Notifications.Emit`.
-/

namespace Omnion.Notifications

open Permissions

/-! ### Rules -/

/-- Who a rule addresses its notifications to. -/
inductive RecipientRule where
  /-- The actor who caused the event. -/
  | actor
  /-- Everybody holding a permission key. -/
  | permission (key : String)
  | role (key : String)
  /-- The person a field of the payload names. -/
  | payloadUser (field : String)

namespace RecipientRule

/-- The way the column stores it. -/
def encode : RecipientRule → String
  | .actor => "actor"
  | .permission key => "permission:" ++ key
  | .role key => "role:" ++ key
  | .payloadUser field => "payload_user:" ++ field

/-- Read a stored value back. The prefix is split on the first colon. -/
def decode (raw : String) : Option RecipientRule :=
  if raw = "actor" then some .actor
  else
    match Text.splitOnce [':'] raw.toList with
    | none => none
    | some (before, target) =>
      if before = "permission".toList then some (.permission (String.ofList target))
      else if before = "role".toList then some (.role (String.ofList target))
      else if before = "payload_user".toList then some (.payloadUser (String.ofList target))
      else none

end RecipientRule

/-- One row of the router, as the router reads it. -/
structure RouteRule where
  eventName : String
  category : String
  priority : String
  recipient : RecipientRule
  titleTemplate : String
  urlTemplate : Option String
  enabled : Bool

/-- The event a module recorded. -/
structure RoutedEvent where
  id : Uuid
  name : String
  actorUserId : Option Uuid
  organizationId : Option Uuid
  payload : Json

/-! ### Who is there -/

/-- `users.status`. -/
inductive UserStatus where
  | active
  | invited
  | disabled
  deriving DecidableEq

/-- A row of `users`. -/
structure User where
  id : Uuid
  organizationId : Option Uuid
  status : UserStatus

/-- What the router reads of the database. -/
structure Installation extends Directory where
  users : Table User User.id

namespace Installation

/-- The accounts a permission rule asks about. -/
def candidates (i : Installation) (organizationId : Option Uuid) : List Uuid :=
  (i.users.rows.filter fun u => u.status = .active && organizationId.all fun o => u.organizationId = some o).map (·.id)

/-- The accounts the bindings of a role lead to. -/
def roleHolders (i : Installation) (now : Instant) (key : String) (organizationId : Option Uuid) : List Uuid :=
  (i.db.bindings.rows.filterMap fun b =>
    match b.subject with
    | .user userId =>
      if (i.db.roles.find? b.roleId).any (·.key = key) && b.isActiveAt now &&
          (organizationId.isNone || b.scope.organizationId.isNone || b.scope.organizationId = organizationId) &&
          (i.users.find? userId).any (·.status = .active) then
        some userId
      else none
    | _ => none).dedup

/-- The person a payload names. -/
def payloadUser (uuids : UuidText) (payload : Json) (field : String) : Option Uuid :=
  ((payload.get field).bind Json.asStr).bind uuids.parse

/-- Resolve one rule's recipients against one event. -/
def resolveRecipients (uuids : UuidText) (i : Installation) (now : Instant) (rule : RouteRule)
    (event : RoutedEvent) : List Uuid :=
  match rule.recipient with
  | .actor => event.actorUserId.toList
  | .permission key =>
    let scope : Scope := event.organizationId.elim .global .organization
    (i.candidates event.organizationId).filter fun candidate =>
      (i.effectivePermissionsFor now (.user candidate) (.fromScope scope)).allows key
  | .role key => i.roleHolders now key event.organizationId
  | .payloadUser field => (payloadUser uuids event.payload field).toList

end Installation

/-! ### The notifications of an event -/

/-! ### Reading a rule back -/

theorem splitOnce_colon {before after : List Char} (h : ':' ∉ before) :
    Text.splitOnce [':'] (before ++ ':' :: after) = some (before, after) := by
  induction before with
  | nil => simp [Text.splitOnce]
  | cons c before ih =>
    rw [List.mem_cons, not_or] at h
    obtain ⟨hc, hbefore⟩ := h
    simp [Text.splitOnce, hc, ih hbefore]

/-- **A recipient rule is read back** as it was written, whatever colons its key has. -/
theorem decode_encode_rule (rule : RecipientRule) : RecipientRule.decode rule.encode = some rule := by
  have hwritten : ∀ before target : String, ':' ∉ before.toList → before.toList.head? ≠ some 'a' →
      RecipientRule.decode (before ++ ":" ++ target) =
        if before.toList = "permission".toList then some (.permission target)
        else if before.toList = "role".toList then some (.role target)
        else if before.toList = "payload_user".toList then some (.payloadUser target)
        else none := by
    intro before target hcolon hhead
    have hlist : (before ++ ":" ++ target).toList = before.toList ++ ':' :: target.toList := by simp
    have hactor : before ++ ":" ++ target ≠ "actor" := by
      intro h
      have hactor := hlist.symm.trans (congrArg String.toList h)
      cases hbefore : before.toList with
      | nil => simp [hbefore] at hactor
      | cons c rest =>
        rw [hbefore] at hactor hhead
        have hc : c = 'a' := (List.cons.inj hactor).1
        simp [hc] at hhead
    rw [RecipientRule.decode, if_neg hactor, hlist, splitOnce_colon hcolon]
    simp only [String.ofList_toList]
  cases rule with
  | actor => rfl
  | permission key => exact (hwritten "permission" key (by decide) (by decide)).trans (by simp)
  | role key => exact (hwritten "role" key (by decide) (by decide)).trans (by simp)
  | payloadUser field => exact (hwritten "payload_user" field (by decide) (by decide)).trans (by simp)

/-! ### Who is addressed -/

namespace Installation

variable {uuids : UuidText} {i : Installation} {now : Instant} {o userId : Uuid} {rule : RouteRule}
  {event : RoutedEvent}

/-- An active user of the organization, or the holder of a binding for the whole platform. -/
def Within (i : Installation) (now : Instant) (o userId : Uuid) : Prop :=
  (∃ u ∈ i.users, u.id = userId ∧ u.organizationId = some o ∧ u.status = .active) ∨
    ∃ b ∈ i.bindingsFor (.user userId), b.isActiveAt now = true ∧ b.scope = .global

/-- A binding that leads a role rule to a user of the platform. -/
structure Addresses (i : Installation) (now : Instant) (o : Uuid) (key : String) (b : RoleBinding)
  (userId : Uuid) : Prop where
  bound : b ∈ i.db.bindings
  subject : b.subject = .user userId
  role : ∃ r ∈ i.db.roles, r.id = b.roleId ∧ r.key = key
  live : b.isActiveAt now = true
  /-- It is one of the organization, or names none. -/
  scope : b.scope.organizationId = none ∨ b.scope.organizationId = some o
  active : ∃ u ∈ i.users, u.id = userId ∧ u.status = .active

/-- What a rule names itself is within the organization. -/
def Confined (uuids : UuidText) (i : Installation) (now : Instant) (o : Uuid) (event : RoutedEvent) :
    RecipientRule → Prop
  | .actor => ∀ actor ∈ event.actorUserId, i.Within now o actor
  | .permission _ => True
  | .role key => ∀ b userId, i.Addresses now o key b userId → i.Within now o userId
  | .payloadUser field => ∀ userId ∈ payloadUser uuids event.payload field, i.Within now o userId

theorem mem_candidates : userId ∈ i.candidates (some o) ↔
    ∃ u ∈ i.users, u.id = userId ∧ u.organizationId = some o ∧ u.status = .active := by
  simp only [candidates, List.mem_map, List.mem_filter, Table.mem_def, Option.all_some,
    Bool.and_eq_true, decide_eq_true_eq]
  constructor
  · rintro ⟨u, ⟨hu, hactive, ho⟩, hid⟩
    exact ⟨u, hu, hid, ho, hactive⟩
  · rintro ⟨u, hu, hid, ho, hactive⟩
    exact ⟨u, ⟨hu, hactive, ho⟩, hid⟩

theorem any_find? {α κ : Type*} [DecidableEq κ] {key : α → κ} {t : Table α key} {k : κ} {p : α → Bool} :
    (t.find? k).any p = true ↔ ∃ a ∈ t, key a = k ∧ p a = true := by
  rw [Option.any_eq_true]
  simp only [Table.find?_eq_some, and_assoc]

theorem mem_roleHolders {key : String} : userId ∈ i.roleHolders now key (some o) ↔
    ∃ b, i.Addresses now o key b userId := by
  rw [roleHolders, List.mem_dedup, List.mem_filterMap]
  constructor
  · rintro ⟨b, hb, h⟩
    split at h
    · rename_i subject hsubject
      split_ifs at h with hcond
      cases h
      simp only [Bool.and_eq_true, any_find?, Option.isNone_some, Bool.false_or, Bool.or_eq_true,
        Option.isNone_iff_eq_none,
        decide_eq_true_eq] at hcond
      obtain ⟨⟨⟨⟨r, hr, hid, hkey⟩, hlive⟩, hscope⟩, u, hu, huid, hactive⟩ := hcond
      exact ⟨b, hb, hsubject, ⟨r, hr, hid, hkey⟩, hlive, hscope, ⟨u, hu, huid, hactive⟩⟩
    · cases h
  · rintro ⟨b, hb, hsubject, ⟨r, hr, hid, hkey⟩, hlive, hscope, ⟨u, hu, huid, hactive⟩⟩
    refine ⟨b, hb, ?_⟩
    rw [hsubject]
    refine if_pos ?_
    simp only [Bool.and_eq_true, any_find?, Option.isNone_some, Bool.false_or, Bool.or_eq_true,
      Option.isNone_iff_eq_none,
      decide_eq_true_eq]
    exact ⟨⟨⟨⟨r, hr, hid, hkey⟩, hlive⟩, hscope⟩, u, hu, huid, hactive⟩

/-- **A permission rule** addresses active users of the organization only. -/
theorem resolve_permission_within {key : String} (ho : event.organizationId = some o)
    (hrule : rule.recipient = .permission key)
    (h : userId ∈ i.resolveRecipients uuids now rule event) : i.Within now o userId := by
  simp only [resolveRecipients, hrule, ho, List.mem_filter, mem_candidates] at h
  exact .inl h.1

theorem confined_of_within (ho : event.organizationId = some o)
    (h : ∀ userId ∈ i.resolveRecipients uuids now rule event, i.Within now o userId) : i.Confined uuids now o event
      rule.recipient := by
  cases hrule : rule.recipient with
  | actor => exact fun actor hactor => h actor (by simpa [resolveRecipients, hrule] using hactor)
  | permission key => trivial
  | role key =>
    simp only [resolveRecipients, hrule, ho, mem_roleHolders] at h
    exact fun b userId haddresses => h userId ⟨b, haddresses⟩
  | payloadUser field => exact fun userId huser => h userId (by simpa [resolveRecipients, hrule] using huser)

theorem within_of_confined (ho : event.organizationId = some o) (h : i.Confined uuids now o event rule.recipient)
    (huser : userId ∈ i.resolveRecipients uuids now rule event) : i.Within now o userId := by
  cases hrule : rule.recipient with
  | actor =>
    rw [hrule] at h
    exact h userId (by simpa [resolveRecipients, hrule] using huser)
  | permission key => exact resolve_permission_within ho hrule huser
  | role key =>
    simp only [resolveRecipients, hrule, ho, mem_roleHolders] at huser
    obtain ⟨b, haddresses⟩ := huser
    rw [hrule] at h
    exact h b userId haddresses
  | payloadUser field =>
    rw [hrule] at h
    exact h userId (by simpa [resolveRecipients, hrule] using huser)

/-- **The recipients are within the organization** just when the rule is confined to it. -/
theorem resolve_within_iff (uuids : UuidText) (i : Installation) (now : Instant) (o : Uuid) (rule : RouteRule)
    (event : RoutedEvent)
    (ho : event.organizationId = some o) :
    (∀ userId ∈ i.resolveRecipients uuids now rule event, i.Within now o userId) ↔
      i.Confined uuids now o event rule.recipient :=
  ⟨confined_of_within ho, fun h _ => within_of_confined ho h⟩

/-- Two people, one in each of two organizations. -/
def twoTenants : Installation where
  db := {}
  members := []
  users := ⟨[{ id := 10, organizationId := some 1, status := .active },
    { id := 20, organizationId := some 2, status := .active }], by decide⟩

/-- Their identifiers as text. -/
def twoTexts : UuidText where
  parse raw := if raw = "00000000-0000-0000-0000-00000000000a" then some 10
    else if raw = "00000000-0000-0000-0000-000000000014" then some 20 else none
  print id := "00000000-0000-0000-0000-0000000000" ++ if id = 10 then "0a" else "14"

/-- Whom a comment mentions hears of it. -/
def mentionRule : RouteRule where
  eventName := "page.commented"
  category := "mention"
  priority := "normal"
  recipient := .payloadUser "mentioned"
  titleTemplate := "{actor} mentioned you in {subject}"
  urlTemplate := none
  enabled := true

/-- A comment in the first organization. -/
def commented (mentioned : String) : RoutedEvent where
  id := 5
  name := "page.commented"
  actorUserId := some 10
  organizationId := some 1
  payload := .object [("mentioned", .string mentioned), ("title", .string "Prices")]

theorem resolve_within_iff_colleague :
    twoTenants.resolveRecipients twoTexts 0 mentionRule (commented "00000000-0000-0000-0000-00000000000a") = [10] ∧
      ∀ userId ∈ twoTenants.resolveRecipients twoTexts 0 mentionRule (commented "00000000-0000-0000-0000-00000000000a"),
        twoTenants.Within 0 1 userId := by
  refine ⟨by decide, (resolve_within_iff twoTexts twoTenants 0 1 mentionRule _ rfl).mpr fun userId h => .inl ?_⟩
  have hnamed : payloadUser twoTexts (commented "00000000-0000-0000-0000-00000000000a").payload "mentioned"
    = some 10 := by decide
  obtain rfl := Option.some.inj (hnamed.symm.trans h)
  exact ⟨_, List.mem_cons_self .., rfl, rfl, rfl⟩

/-- **A payload of one organization** reaches into another: it names a person there. -/
theorem stranger_addressed : 20 ∈ twoTenants.resolveRecipients twoTexts 0 mentionRule
    (commented "00000000-0000-0000-0000-000000000014") ∧
    ¬ twoTenants.Within 0 1 20 := by
  refine ⟨by decide, ?_⟩
  rintro (⟨u, hu, hid, ho, -⟩ | ⟨b, hb, -⟩)
  · simp only [twoTenants, Table.mem_def, List.mem_cons, List.not_mem_nil, or_false] at hu
    rcases hu with rfl | rfl
    · cases hid
    · cases ho
  · simp [twoTenants, Directory.bindingsFor, Directory.bindingsOfSubject, Table.empty] at hb

end Installation

end Omnion.Notifications
