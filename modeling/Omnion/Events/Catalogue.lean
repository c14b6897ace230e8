import Mathlib.Data.Finset.Sort
import Mathlib.Data.Finset.Union
import Mathlib.Data.String.Basic
import Omnion.Events.Store
import Omnion.Library.Fallible

/-!
# The event catalogue

`crates/events/src/catalogue.rs`: the names the platform records, and how an operator's
selection becomes the list an endpoint stores; `validate_event_name` of `validation.rs`.

## The model

A `BTreeSet` is a finite set, read in order. Strings are ordered by their characters, as by
their UTF-8 bytes.

## What is proved

* `reconcile_reconcile` — the list has no duplicates and matches the events of the selection;
  reconciled again it is the same, just when the selection stands for at most 32 names.
* `group_and_names_refused` — a list that is not accepted again.

## Honest scope

Of the catalogue only the names are kept.
-/

namespace Omnion.Events

/-- An error of the crate, as far as a subscription is refused by it. -/
inductive EventsError where
  /-- An event the platform will not record. -/
  | invalidEvent (message : String)
  /-- An endpoint the platform will not store. -/
  | invalidEndpoint (message : String)
  deriving DecidableEq

/-- `MAX_EVENT_NAME`. -/
def maxEventName : ℕ := 96

/-- `MAX_EVENT_SEGMENT`. -/
def maxEventSegment : ℕ := 32

/-- `MAX_SUBSCRIPTIONS`. -/
def maxSubscriptions : ℕ := 32

/-- A segment is `[a-z][a-z0-9_]*`, and not too long. -/
def isSegment : List Char → Bool
  | [] => false
  | first :: rest =>
    Text.isAsciiLowercase first &&
      rest.all (fun c => Text.isAsciiLowercase c || Text.isAsciiDigit c || c = '_') &&
        rest.length < maxEventSegment

def validateEventName (raw : String) : Except EventsError String :=
  let name := Text.trim raw
  if name = "" then .error (.invalidEvent "the event name is empty")
  else if name.utf8ByteSize > maxEventName then
    .error (.invalidEvent s!"the event name is longer than {maxEventName} characters")
  else
    let segments := name.toList.splitOnP (· = '.')
    if segments.length < 2 then
      .error (.invalidEvent "an event name needs a domain and an action, e.g. page.published")
    else
      match segments.find? (!isSegment ·) with
      | some segment =>
        .error (.invalidEvent s!"{Text.debug (String.ofList segment)} is not a lower-case event segment")
      | none => .ok name

namespace Catalogue

/-- The names of `CATALOGUE`, in table order. -/
def names : List String :=
  ["page.created", "page.updated", "page.published", "page.unpublished", "page.deleted", "page.restored",
    "translation.updated", "translation.published", "media.created", "media.updated", "media.deleted",
    "media.restored", "media.purged", "media.version_created", "media.folder_created", "media.folder_moved",
    "media.folder_deleted", "media.share_created", "media.share_revoked", "media.scan_flagged",
    "media.retention_applied", "media.duplicate_merged", "media.storage_updated", "media.preset_created",
    "media.grant_changed", "media.grant_removed", "media.hold_placed", "media.hold_released", "user.created",
    "user.updated", "user.deleted", "iam.mfa_enrolled", "iam.mfa_removed", "iam.session_revoked",
    "iam.policy_changed", "iam.binding_created", "iam.user_provisioned", "iam.provider_connected",
    "iam.approval_requested", "iam.approval_decided", "security.scan.completed", "security.headers.updated",
    "security.rate_limits.updated", "security.lockout.released", "security.lockout.triggered",
    "security.finding.opened", "security.ip_rule.changed", "site.created", "site.updated", "site.archived",
    "domain.added", "domain.verified", "domain.removed", "plugin.installed", "plugin.activated",
    "plugin.deactivated", "plugin.uninstalled", "theme.activated", "workflow.run.started",
    "workflow.run.completed", "workflow.run.failed", "webhook.endpoint.created", "webhook.endpoint.updated",
    "webhook.endpoint.removed", "webhook.endpoint.tested", "webhook.secret.rotated", "webhook.test",
    "webhook.delivery.failed", "webhook.retention.changed", "webhook.retention.swept",
    "analytics.traffic_spike", "analytics.goal_reached", "analytics.retention_purged",
    "analytics.erasure_completed", "search.reindexed", "notification.created", "notification.routed",
    "notification.preferences.changed", "health.service.degraded", "health.service.recovered",
    "health.threshold.breached", "health.incident.acknowledged", "health.checks.completed", "backup.restored",
    "notification.delivery.succeeded", "order.created"]

/-- The part of a name before the first dot. -/
def group (name : String) : String := String.ofList (name.toList.takeWhile (· ≠ '.'))

def groupMembers (stem : String) : List String := names.filter fun name => group name = stem

/-- The group a wildcard stands for. -/
def groupOf (pattern : String) : Option String :=
  ((pattern.toList.dropSuffix? ['.', '*']).filter fun stem => stem ≠ [] && stem.all Text.isAsciiLowercase).map
    String.ofList

/-- Validate the stem of a group wildcard. -/
def validateGroup (stem : String) : Except EventsError Unit :=
  (validateEventName (stem ++ ".probe")).map fun _ => ()

/-- The names one entry of a selection adds. -/
def namesOf (raw : String) : Except EventsError (Finset String) :=
  let pattern := Text.trim raw
  if pattern = "" then .error (.invalidEndpoint "an event subscription is empty")
  else
    match groupOf pattern with
    | some stem => (validateGroup stem).map fun _ => insert pattern (groupMembers stem).toFinset
    | none => (validateEventName pattern).map fun name => {name}

/-- The loop of `reconcile`. -/
def collect (collected : Finset String) : List String → Except EventsError (Finset String)
  | [] => .ok collected
  | raw :: rest => do
    let more ← namesOf raw
    collect (collected ∪ more) rest

/-- Turn an operator's selection into the list an endpoint stores. -/
def reconcile (subscriptions : List String) : Except EventsError (List String) :=
  if subscriptions = [] then .error (.invalidEndpoint "subscribe the endpoint to at least one event")
  else if subscriptions.length > maxSubscriptions then
    .error (.invalidEndpoint s!"an endpoint subscribes to at most {maxSubscriptions} events")
  else (collect ∅ subscriptions).map fun collected => collected.sort (· ≤ ·)

/-- A stored list covers one event. -/
def subscribedTo (subscriptions : List String) (event : String) : Bool :=
  event ∈ subscriptions || Store.wildcard event ∈ subscriptions

/-! ### Names and groups -/

theorem validateEventName_eq_ok {raw name : String} (h : validateEventName raw = .ok name) :
    name = Text.trim raw ∧ ∀ segment ∈ name.toList.splitOnP (· = '.'), isSegment segment = true := by
  rw [validateEventName] at h
  split_ifs at h
  simp only at h
  split_ifs at h
  split at h
  · cases h
  · next hnone =>
    cases h
    exact ⟨rfl, by simpa using hnone⟩

theorem groupOf_eq_some {pattern stem : String} (h : groupOf pattern = some stem) :
    pattern.toList = stem.toList ++ ['.', '*'] ∧ ∀ c ∈ stem.toList, Text.isAsciiLowercase c = true := by
  obtain ⟨chars, hchars, rfl⟩ := Option.map_eq_some_iff.mp h
  obtain ⟨hsuffix, hstem⟩ := Option.filter_eq_some_iff.mp hchars
  obtain ⟨suffix, hpattern, hbeq⟩ := List.dropSuffix?_eq_some_iff.mp hsuffix
  obtain rfl := eq_of_beq hbeq
  rw [String.toList_ofList]
  simp only [Bool.and_eq_true, List.all_eq_true] at hstem
  exact ⟨hpattern, hstem.2⟩

theorem groupOf_of_validateEventName {raw name : String} (h : validateEventName raw = .ok name) :
    groupOf name = none := by
  by_contra hsome
  obtain ⟨stem, hstem⟩ := Option.ne_none_iff_exists'.mp hsome
  obtain ⟨hname, hlower⟩ := groupOf_eq_some hstem
  have hdots : ∀ c ∈ stem.toList, decide (c = '.') = false := by
    intro c hc
    refine decide_eq_false fun hdot => ?_
    rw [hdot] at hc
    exact absurd (hlower '.' hc) (by decide)
  have hsegments := (validateEventName_eq_ok h).2
  rw [hname, List.splitOnP_append_cons_of_forall_mem hdots '.' rfl] at hsegments
  exact absurd (hsegments ['*'] (List.mem_cons_of_mem _ (List.mem_singleton.mpr rfl))) (by decide)

theorem wildcard_invalid (event : String) : validateEventName (Store.wildcard event) ≠ .ok (Store.wildcard event) := by
  intro h
  have hdots : ∀ c ∈ event.toList.takeWhile (· ≠ '.'), decide (c = '.') = false := by
    intro c hc
    simpa using List.mem_takeWhile_imp hc
  have hlist : (Store.wildcard event).toList = event.toList.takeWhile (· ≠ '.') ++ ['.', '*'] := by
    rw [Store.wildcard, String.toList_append, String.toList_ofList]
    rfl
  have hsegments := (validateEventName_eq_ok h).2
  rw [hlist, List.splitOnP_append_cons_of_forall_mem hdots '.' rfl] at hsegments
  exact absurd (hsegments ['*'] (List.mem_cons_of_mem _ (List.mem_singleton.mpr rfl))) (by decide)

/-- The characters of a valid name. -/
def validChars (l : List Char) : Bool :=
  l ≠ [] && (l.dropWhile Text.isWhitespace = l && l.rdropWhile Text.isWhitespace = l) &&
    String.utf8Len l ≤ maxEventName && (2 ≤ (l.splitOnP (· = '.')).length && (l.splitOnP (· = '.')).all isSegment)

theorem validateEventName_ofList {l : List Char} (h : validChars l = true) :
    validateEventName (String.ofList l) = .ok (String.ofList l) := by
  simp only [validChars, Bool.and_eq_true, decide_eq_true_eq] at h
  obtain ⟨⟨⟨hne, htrim⟩, hlength⟩, hsegments⟩ := h
  have hnone : (l.splitOnP (· = '.')).find? (!isSegment ·) = none := by simpa using hsegments.2
  have hempty : String.ofList l ≠ "" := by rwa [Ne, ← String.toList_eq_nil_iff, String.toList_ofList]
  rw [validateEventName, Text.trim_eq_self_iff.mpr htrim, if_neg hempty, String.utf8ByteSize_ofList,
    if_neg (Nat.not_lt.mpr hlength)]
  simp only [String.toList_ofList, hnone]
  rw [if_neg (Nat.not_lt.mpr hsegments.1)]

theorem cons_eq_map {l : List Char} {texts : List String} {chars : List (List Char)}
    (h : texts = chars.map String.ofList) : String.ofList l :: texts = (l :: chars).map String.ofList := by
  rw [h, List.map_cons]

theorem validateEventName_names : ∀ name ∈ names, validateEventName name = .ok name := by
  obtain ⟨chars, htexts, hvalid⟩ : ∃ chars : List (List Char),
      names = chars.map String.ofList ∧ chars.all validChars = true :=
    ⟨_, by simp only [names]; repeat' first | apply cons_eq_map | exact List.map_nil.symm, by decide +kernel⟩
  rw [htexts, List.forall_mem_map]
  exact fun l hl => validateEventName_ofList (List.all_eq_true.mp hvalid l hl)

/-! ### What a selection stands for -/

/-- The names an entry stands for: itself, and the names of its group. -/
def standsFor (raw : String) : Finset String :=
  insert (Text.trim raw) ((groupOf (Text.trim raw)).elim ∅ fun stem => (groupMembers stem).toFinset)

theorem standsFor_eq (raw : String) : standsFor raw =
    insert (Text.trim raw) ((groupOf (Text.trim raw)).elim ∅ fun stem => (groupMembers stem).toFinset) := rfl

attribute [irreducible] standsFor

/-- The names a selection stands for. -/
def standsForAny (subscriptions : List String) : Finset String := subscriptions.toFinset.biUnion standsFor

theorem standsFor_of_namesOf {raw : String} {added : Finset String} (h : namesOf raw = .ok added) :
    added = standsFor raw := by
  rw [namesOf] at h
  split_ifs at h
  rw [standsFor_eq]
  cases hgroup : groupOf (Text.trim raw) with
  | none =>
    rw [hgroup] at h
    obtain ⟨name, hname, rfl⟩ := Fallible.map_eq_ok.mp h
    have heq := (validateEventName_eq_ok hname).1
    rw [Text.trim_trim] at heq
    rw [heq]
    rfl
  | some stem =>
    rw [hgroup] at h
    obtain ⟨_, -, rfl⟩ := Fallible.map_eq_ok.mp h
    rfl

theorem mem_standsFor {raw name : String} : name ∈ standsFor raw ↔
    name = Text.trim raw ∨ ∃ stem, groupOf (Text.trim raw) = some stem ∧ name ∈ groupMembers stem := by
  rw [standsFor_eq, Finset.mem_insert]
  cases groupOf (Text.trim raw) with
  | none => simp
  | some stem => simp

/-- The entry is accepted. -/
def Accepted (raw : String) : Prop := namesOf raw = .ok (standsFor raw)

theorem standsFor_trim (raw : String) : standsFor (Text.trim raw) = standsFor raw := by
  rw [standsFor_eq, standsFor_eq, Text.trim_trim]

theorem namesOf_trim (raw : String) : namesOf (Text.trim raw) = namesOf raw := by
  rw [namesOf, namesOf, Text.trim_trim]

theorem accepted_of_validateEventName {name : String} (h : validateEventName name = .ok name) :
    Accepted name ∧ standsFor name = {name} := by
  have htrim := (validateEventName_eq_ok h).1
  have hgroup := groupOf_of_validateEventName h
  have hstands : standsFor name = {name} := by
    rw [standsFor_eq, ← htrim, hgroup]
    rfl
  refine ⟨?_, hstands⟩
  have hne : name ≠ "" := by
    rintro rfl
    exact absurd h (by decide)
  rw [Accepted, namesOf, ← htrim, if_neg hne, hgroup, hstands, h]
  rfl

theorem Accepted.closed {raw name : String} (h : Accepted raw) (hname : name ∈ standsFor raw) :
    Accepted name ∧ name ∈ standsFor name ∧ standsFor name ⊆ standsFor raw := by
  rcases mem_standsFor.mp hname with rfl | ⟨stem, -, hmember⟩
  · rw [standsFor_trim, Accepted, namesOf_trim, standsFor_trim]
    exact ⟨h, hname, Finset.Subset.refl _⟩
  · have hcatalogue : name ∈ names := (List.mem_filter.mp hmember).1
    obtain ⟨haccepted, hstands⟩ := accepted_of_validateEventName (validateEventName_names name hcatalogue)
    rw [hstands]
    exact ⟨haccepted, Finset.mem_singleton_self name, Finset.singleton_subset_iff.mpr hname⟩

theorem collect_eq_ok {collected result : Finset String} {subscriptions : List String} :
    collect collected subscriptions = .ok result ↔
      (∀ raw ∈ subscriptions, Accepted raw) ∧ result = collected ∪ standsForAny subscriptions := by
  induction subscriptions generalizing collected with
  | nil => simp [collect, standsForAny, eq_comm]
  | cons raw rest ih =>
    rw [collect]
    cases hadded : namesOf raw with
    | error error =>
      have hnot : ¬ Accepted raw := fun haccepted => by
        rw [Accepted, hadded] at haccepted
        cases haccepted
      simp [bind, Except.bind, hnot]
    | ok added =>
      obtain rfl := standsFor_of_namesOf hadded
      have hall : standsForAny (raw :: rest) = standsFor raw ∪ standsForAny rest := by
        simp [standsForAny, Finset.biUnion_insert]
      have hcollect : (Except.ok (standsFor raw) >>= fun more => collect (collected ∪ more) rest) =
          collect (collected ∪ standsFor raw) rest := rfl
      rw [hcollect, ih, List.forall_mem_cons, hall, Finset.union_assoc]
      exact and_congr_left fun _ => (and_iff_right hadded).symm

/-- **What `reconcile` answers.** -/
theorem reconcile_eq_ok {subscriptions stored : List String} :
    reconcile subscriptions = .ok stored ↔ subscriptions ≠ [] ∧ subscriptions.length ≤ maxSubscriptions ∧
      (∀ raw ∈ subscriptions, Accepted raw) ∧ stored = (standsForAny subscriptions).sort (· ≤ ·) := by
  rw [reconcile]
  split_ifs with hempty hmany
  · simp [hempty]
  · simp [hmany]
  · cases hcollect : collect ∅ subscriptions with
    | error error =>
      have hnot : ¬ ∀ raw ∈ subscriptions, Accepted raw := by
        intro haccepted
        rw [collect_eq_ok.mpr ⟨haccepted, rfl⟩] at hcollect
        cases hcollect
      simp [Except.map, hnot]
    | ok collected =>
      obtain ⟨haccepted, rfl⟩ := collect_eq_ok.mp hcollect
      rw [Finset.empty_union]
      constructor
      · intro h
        exact ⟨hempty, Nat.le_of_not_lt hmany, haccepted, (Except.ok.inj h).symm⟩
      · rintro ⟨-, -, -, rfl⟩
        rfl

section Reconciled

variable {subscriptions stored : List String} (h : reconcile subscriptions = .ok stored)

include h

theorem of_reconcile : subscriptions ≠ [] ∧ subscriptions.length ≤ maxSubscriptions ∧
    (∀ raw ∈ subscriptions, Accepted raw) ∧ stored = (standsForAny subscriptions).sort (· ≤ ·) := reconcile_eq_ok.mp h

theorem mem_stored {name : String} : name ∈ stored ↔ ∃ raw ∈ subscriptions, name ∈ standsFor raw := by
  obtain ⟨-, -, -, rfl⟩ := of_reconcile h
  simp [standsForAny]

theorem accepted_stored : ∀ name ∈ stored, Accepted name := by
  intro name hname
  obtain ⟨-, -, haccepted, -⟩ := of_reconcile h
  obtain ⟨raw, hraw, hstands⟩ := (mem_stored h).mp hname
  exact ((haccepted raw hraw).closed hstands).1

theorem standsForAny_stored : standsForAny stored = standsForAny subscriptions := by
  obtain ⟨-, -, haccepted, -⟩ := of_reconcile h
  ext name
  simp only [standsForAny, Finset.mem_biUnion, List.mem_toFinset]
  constructor
  · rintro ⟨other, hother, hname⟩
    obtain ⟨raw, hraw, hstands⟩ := (mem_stored h).mp hother
    exact ⟨raw, hraw, ((haccepted raw hraw).closed hstands).2.2 hname⟩
  · rintro ⟨raw, hraw, hname⟩
    exact ⟨name, (mem_stored h).mpr ⟨raw, hraw, hname⟩, ((haccepted raw hraw).closed hname).2.1⟩

theorem length_stored : stored.length = (standsForAny subscriptions).card := by
  obtain ⟨-, -, -, rfl⟩ := of_reconcile h
  exact Finset.length_sort _

theorem stored_ne_nil : stored ≠ [] := by
  obtain ⟨hne, -, -, -⟩ := of_reconcile h
  obtain ⟨raw, hraw⟩ := List.exists_mem_of_ne_nil subscriptions hne
  exact List.ne_nil_of_mem ((mem_stored h).mpr ⟨raw, hraw, mem_standsFor.mpr (.inl rfl)⟩)

/-- The list covers what the selection covers. -/
theorem subscribedTo_stored (event : String) :
    subscribedTo stored event = subscribedTo (subscriptions.map Text.trim) event := by
  rw [Bool.eq_iff_iff]
  simp only [subscribedTo, Bool.or_eq_true, decide_eq_true_eq, List.mem_map]
  have hself : ∀ raw ∈ subscriptions, Text.trim raw ∈ stored :=
    fun raw hraw => (mem_stored h).mpr ⟨raw, hraw, mem_standsFor.mpr (.inl rfl)⟩
  -- A member of a group is covered by the group's wildcard; a wildcard is a member of none.
  have hcovers : ∀ name ∈ stored, (∃ raw ∈ subscriptions, Text.trim raw = name) ∨
      name ∈ names ∧ ∃ raw ∈ subscriptions, Text.trim raw = Store.wildcard name := by
    intro name hname
    obtain ⟨raw, hraw, hstands⟩ := (mem_stored h).mp hname
    rcases mem_standsFor.mp hstands with rfl | ⟨stem, hstem, hmember⟩
    · exact .inl ⟨raw, hraw, rfl⟩
    · obtain ⟨hcatalogue, hgroup⟩ := List.mem_filter.mp hmember
      refine .inr ⟨hcatalogue, raw, hraw, ?_⟩
      have hpattern : Text.trim raw = stem ++ ".*" := by
        rw [← String.toList_inj, String.toList_append]
        exact (groupOf_eq_some hstem).1
      rw [hpattern, ← of_decide_eq_true hgroup]
      rfl
  constructor
  · rintro (hevent | hwildcard)
    · rcases hcovers event hevent with hraw | ⟨-, hraw⟩
      · exact .inl hraw
      · exact .inr hraw
    · rcases hcovers _ hwildcard with hraw | ⟨hcatalogue, -⟩
      · exact .inr hraw
      · exact absurd (validateEventName_names _ hcatalogue) (wildcard_invalid event)
  · rintro (⟨raw, hraw, rfl⟩ | ⟨raw, hraw, hwildcard⟩)
    · exact .inl (hself raw hraw)
    · exact .inr (hwildcard ▸ hself raw hraw)

theorem reconcile_stored_iff : reconcile stored = .ok stored ↔
    (standsForAny subscriptions).card ≤ maxSubscriptions := by
  rw [reconcile_eq_ok, standsForAny_stored h, length_stored h]
  obtain ⟨-, -, -, hstored⟩ := of_reconcile h
  exact ⟨fun hagain => hagain.2.1, fun hshort => ⟨stored_ne_nil h, hshort, accepted_stored h, hstored⟩⟩

end Reconciled

/-- **What `reconcile` answers** has no duplicates and covers the events of the selection;
reconciled again it is the same, just when the selection stands for no more than 32 names. -/
theorem reconcile_reconcile {subscriptions stored : List String} (h : reconcile subscriptions = .ok stored) :
    stored.Nodup ∧ (∀ event, subscribedTo stored event = subscribedTo (subscriptions.map Text.trim) event) ∧
      (reconcile stored = .ok stored ↔ (standsForAny subscriptions).card ≤ maxSubscriptions) := by
  refine ⟨?_, subscribedTo_stored h, reconcile_stored_iff h⟩
  obtain ⟨-, -, -, rfl⟩ := of_reconcile h
  exact Finset.sort_nodup _ _

theorem names_reconciled : ∃ stored, reconcile [" site.created ", "page.published", "site.created"] = .ok stored ∧
    stored.Nodup ∧ reconcile stored = .ok stored := by
  obtain ⟨stored, hstored⟩ : ∃ stored,
      reconcile [" site.created ", "page.published", "site.created"] = .ok stored := ⟨_, rfl⟩
  obtain ⟨hnodup, -, hagain⟩ := reconcile_reconcile hstored
  exact ⟨stored, hstored, hnodup, hagain.mpr (by decide +kernel)⟩

/-- A group of one name beside 31 other names stands for too many: the list is not accepted
again. -/
theorem group_and_names_refused : ∃ stored, reconcile ("order.*" :: names.take 31) = .ok stored ∧
    reconcile stored = .error (.invalidEndpoint "an endpoint subscribes to at most 32 events") := by
  have hgroup : Accepted "order.*" := by
    rw [Accepted, namesOf, standsFor_eq]
    rfl
  have hmember : "order.created" ∈ standsFor "order.*" := by
    refine mem_standsFor.mpr (.inr ⟨"order", by decide +kernel, List.mem_filter.mpr ⟨?_, by decide +kernel⟩⟩)
    simp [names]
  have hself : "order.*" ∈ standsFor "order.*" := mem_standsFor.mpr (.inl (by decide +kernel))
  have haccepted : ∀ raw ∈ "order.*" :: names.take 31, Accepted raw ∧ raw ∈ standsFor raw := by
    refine List.forall_mem_cons.mpr ⟨⟨hgroup, hself⟩, fun raw hraw => ?_⟩
    obtain ⟨h, hstands⟩ := accepted_of_validateEventName (validateEventName_names raw (List.mem_of_mem_take hraw))
    exact ⟨h, hstands ▸ Finset.mem_singleton_self raw⟩
  have hstored : reconcile ("order.*" :: names.take 31) = .ok _ :=
    reconcile_eq_ok.mpr ⟨List.cons_ne_nil _ _, by simp [names, maxSubscriptions],
      fun raw hraw => (haccepted raw hraw).1, rfl⟩
  have hmany : maxSubscriptions < (standsForAny ("order.*" :: names.take 31)).card := by
    have hnodup : ("order.created" :: "order.*" :: names.take 31).Nodup := by decide +kernel
    have hsubset : ("order.created" :: "order.*" :: names.take 31).toFinset ⊆
        standsForAny ("order.*" :: names.take 31) := by
      intro name hname
      rw [standsForAny, Finset.mem_biUnion]
      rcases List.mem_cons.mp (List.mem_toFinset.mp hname) with rfl | hname
      · exact ⟨"order.*", List.mem_toFinset.mpr List.mem_cons_self, hmember⟩
      · exact ⟨name, List.mem_toFinset.mpr hname, (haccepted name hname).2⟩
    have hcard := Finset.card_le_card hsubset
    rw [List.toFinset_card_of_nodup hnodup] at hcard
    exact Nat.lt_of_lt_of_le (by simp [names, maxSubscriptions]) hcard
  refine ⟨_, hstored, ?_⟩
  rw [reconcile, if_neg (stored_ne_nil hstored), if_pos ((length_stored hstored).symm ▸ hmany)]
  rfl

end Catalogue

end Omnion.Events
