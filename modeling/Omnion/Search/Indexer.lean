import Mathlib.Logic.Function.Basic
import Omnion.Library.Log
import Omnion.Library.Run
import Omnion.Library.Table
import Omnion.Events.Model

/-!
# The search indexer

`drain` of `crates/search/src/indexer.rs`, any number of it at once, interleaved in any order with the
transactions that insert events. It reads on from the cursor of `search_cursor`, applies each event to
`search_documents`, and moves the cursor, all in one transaction.

## The model

A drain locks the cursor's row, or finds it locked; reads the events after the cursor; applies them one
by one; moves the cursor and commits. A statement of its transaction that fails aborts the transaction:
the statements after it fail too, the move of the cursor among them. A document's title must not be
blank (`search_documents_title_not_blank`), so an upsert may fail by what the source table says; any
statement may fail for a reason of the database's own, which is up to the step. The source tables may
change between two statements. `applied` has the events whose application is durable, `ended` what the
drains that ended had read, and which of these events failed.

## What is proved

* `run_complete` — in the runs where a transaction that commits does so before a drain has read past
  its events, and no application of an event fails, no event behind the cursor is left out, every batch
  is applied whole, and drains alone get to each event there is.
* `blank_name` — the event of an account without a name fails, and nothing of its batch is kept.

## Honest scope

The bus is empty at the start, and the cursor at `0` (`seed_cursor` is left out). Documents are written
by drains only, not by `reindex` or `index_entity`. No event is deleted.
-/

namespace Omnion.Search

open Events (Event NewEvent)

/-! ### What an event asks for -/

/-- What a single event asks the index to do. -/
inductive EventAction where
  /-- (Re)index the entity the event names. -/
  | index
  /-- Drop the entity from the index. -/
  | remove
  deriving DecidableEq

/-- The plan one event name carries. -/
structure EventPlan where
  provider : String
  action : EventAction
  /-- Payload key carrying the entity id. -/
  idKey : String

/-- The event names this build knows, and what they mean for the index. -/
def eventPlan (name : String) : Option EventPlan :=
  if name ∈ ["page.published", "page.updated", "page.created", "page.restored"] then some ⟨"pages", .index, "page_id"⟩
  else if name ∈ ["page.archived", "page.deleted", "page.unpublished"] then some ⟨"pages", .remove, "page_id"⟩
  else if name ∈ ["media.created", "media.updated"] then some ⟨"media", .index, "media_id"⟩
  else if name = "media.deleted" then some ⟨"media", .remove, "media_id"⟩
  else if name ∈ ["user.created", "user.updated"] then some ⟨"users", .index, "user_id"⟩
  else if name ∈ ["user.disabled", "user.deleted"] then some ⟨"users", .remove, "user_id"⟩
  else if name ∈ ["site.created", "site.updated"] then some ⟨"sites", .index, "site_id"⟩
  else none

/-- Read the entity id an event payload carries. -/
def entityIdOf (uuids : UuidText) (payload : Json) (key : String) : Option Uuid :=
  ((payload.get key).or (payload.get "id")).bind fun raw => raw.asStr.bind uuids.parse

/-- One searchable domain. -/
structure ProviderSpec where
  key : String
  /-- Document type stored in `search_documents.entity_type`. -/
  entityType : String

/-- Every provider the platform indexes. -/
def PROVIDERS : List ProviderSpec :=
  [⟨"pages", "page"⟩, ⟨"media", "media"⟩, ⟨"users", "user"⟩, ⟨"sites", "site"⟩, ⟨"logs", "log"⟩,
    ⟨"translations", "translation"⟩, ⟨"settings", "setting"⟩]

/-- Look one provider up by its key. -/
def provider (key : String) : Option ProviderSpec := PROVIDERS.find? fun spec => spec.key = key

theorem eventPlan_registered {name : String} {plan : EventPlan} (h : eventPlan name = some plan) :
    ∃ spec, provider plan.provider = some spec := by
  have hkey : plan.provider ∈ ["pages", "media", "users", "sites"] := by
    revert h
    unfold eventPlan
    split_ifs <;> rintro ⟨⟩ <;> simp
  refine Option.isSome_iff_exists.mp (List.find?_isSome.mpr ?_)
  have hall : ∀ k ∈ ["pages", "media", "users", "sites"], ∃ spec ∈ PROVIDERS, spec.key = k := by decide
  obtain ⟨spec, hspec, hk⟩ := hall _ hkey
  exact ⟨spec, hspec, decide_eq_true hk⟩

/-! ### Documents -/

/-- A row of `search_documents`. -/
structure SearchDocument where
  organizationId : Option Uuid
  siteId : Option Uuid
  provider : String
  entityType : String
  entityId : Uuid
  title : String
  subtitle : String
  url : String
  ownerUserId : Option Uuid
  tags : List String
  body : String
  entityUpdatedAt : Option Instant

/-- The unique columns of a document. -/
def SearchDocument.key (d : SearchDocument) : String × String × Uuid := (d.provider, d.entityType, d.entityId)

/-- The documents. -/
abbrev Index := Table SearchDocument SearchDocument.key

/-- A page with its site and its latest revision. -/
structure PageSource where
  organizationId : Uuid
  siteId : Uuid
  siteName : String
  slug : String
  status : String
  title : String
  summary : Option String
  createdBy : Option Uuid
  updatedAt : Instant

/-- A file with its site. -/
structure MediaSource where
  organizationId : Uuid
  siteId : Uuid
  siteName : String
  filename : String
  contentType : String
  createdBy : Option Uuid
  createdAt : Instant

/-- An account. -/
structure UserSource where
  organizationId : Option Uuid
  displayName : String
  email : String
  status : String
  createdAt : Instant

structure SiteSource where
  organizationId : Uuid
  key : String
  name : String
  status : String
  updatedAt : Instant

/-- The tables documents are written from. -/
structure Sources where
  pages : Uuid → Option PageSource := fun _ => none
  media : Uuid → Option MediaSource := fun _ => none
  users : Uuid → Option UserSource := fun _ => none
  sites : Uuid → Option SiteSource := fun _ => none

/-- `concat_ws(' · ', …)`. -/
def concatWs (parts : List String) : String := " · ".intercalate parts

/-- `PAGES_UPSERT`. -/
def pageDocument (uuids : UuidText) (id : Uuid) (p : PageSource) : SearchDocument where
  organizationId := some p.organizationId
  siteId := some p.siteId
  provider := "pages"
  entityType := "page"
  entityId := id
  title := p.title
  subtitle := concatWs [p.siteName, "/" ++ p.slug, p.status]
  url := "/pages?site=" ++ uuids.print p.siteId ++ "&focus=" ++ uuids.print id
  ownerUserId := p.createdBy
  tags := [p.status]
  body := p.summary.getD ""
  entityUpdatedAt := some p.updatedAt

/-- `MEDIA_UPSERT`. -/
def mediaDocument (uuids : UuidText) (id : Uuid) (m : MediaSource) : SearchDocument where
  organizationId := some m.organizationId
  siteId := some m.siteId
  provider := "media"
  entityType := "media"
  entityId := id
  title := m.filename
  subtitle := concatWs [m.siteName, m.contentType]
  url := "/media?site=" ++ uuids.print m.siteId ++ "&focus=" ++ uuids.print id
  ownerUserId := m.createdBy
  tags := [m.contentType]
  body := ""
  entityUpdatedAt := some m.createdAt

/-- `USERS_UPSERT`. -/
def userDocument (id : Uuid) (u : UserSource) : SearchDocument where
  organizationId := u.organizationId
  siteId := none
  provider := "users"
  entityType := "user"
  entityId := id
  title := u.displayName
  subtitle := concatWs [u.email, u.status]
  url := "/settings/users"
  ownerUserId := some id
  tags := [u.status]
  body := ""
  entityUpdatedAt := some u.createdAt

/-- `SITES_UPSERT`. -/
def siteDocument (id : Uuid) (s : SiteSource) : SearchDocument where
  organizationId := some s.organizationId
  siteId := some id
  provider := "sites"
  entityType := "site"
  entityId := id
  title := s.name
  subtitle := concatWs [s.key, s.status]
  url := "/sites"
  ownerUserId := none
  tags := [s.status]
  body := ""
  entityUpdatedAt := some s.updatedAt

/-- What the upsert of a provider selects for one entity. A disabled account is not indexed. -/
def Sources.select (sources : Sources) (uuids : UuidText) (providerKey : String) (id : Uuid) : Option SearchDocument :=
  match providerKey with
  | "pages" => (sources.pages id).map (pageDocument uuids id)
  | "media" => (sources.media id).map (mediaDocument uuids id)
  | "users" => ((sources.users id).filter fun u => u.status ≠ "disabled").map (userDocument id)
  | "sites" => (sources.sites id).map (siteDocument id)
  -- no event plan leads to the other providers
  | _ => none

/-- `search_documents_title_not_blank`. -/
def titleNotBlank (d : SearchDocument) : Bool := d.title.toList.any (· ≠ ' ')

/-! ### Applying an event -/

/-- Why an event was not applied. -/
inductive SearchError where
  /-- The provider is not registered. -/
  | unknownProvider (key : String)
  | database
  deriving DecidableEq

/-- `do update set …`: every column but the key is refreshed. -/
def SearchDocument.refresh (d row : SearchDocument) : SearchDocument :=
  { d with provider := row.provider, entityType := row.entityType, entityId := row.entityId }

theorem SearchDocument.key_refresh (d row : SearchDocument) : (d.refresh row).key = row.key := rfl

/-- `insert … on conflict (provider, entity_type, entity_id) do update`. -/
def Index.put (index : Index) (d : SearchDocument) : Index :=
  match index.insert? d with
  | some index => index
  | none => index.update (fun row => row.key = d.key) d.refresh d.key_refresh

/-- Write the document of one entity, and count it. -/
def upsert (uuids : UuidText) (sources : Sources) (index : Index) (spec : ProviderSpec) (id : Uuid) :
    Except SearchError (ℕ × Index) :=
  match sources.select uuids spec.key id with
  | none => .ok (0, index)
  | some d => if titleNotBlank d then .ok (1, index.put d) else .error .database

/-- Delete one entity's document rows. -/
def remove (index : Index) (spec : ProviderSpec) (id : Uuid) : Index :=
  index.delete fun d => d.key = (spec.key, spec.entityType, id)

/-- Apply one event; `false` means there was nothing to do with it. With `fault` the database fails. -/
def applyEvent (uuids : UuidText) (sources : Sources) (index : Index) (fault : Bool) (name : String) (payload : Json) :
    Except SearchError (Bool × Index) :=
  match eventPlan name with
  | none => .ok (false, index)
  | some plan =>
    match entityIdOf uuids payload plan.idKey with
    | none => .ok (false, index)
    | some entityId =>
      match provider plan.provider with
      | none => .error (.unknownProvider plan.provider)
      | some spec =>
        if fault then .error .database
        else
          match plan.action with
          | .index => do
            let (written, index) ← upsert uuids sources index spec entityId
            -- the entity vanished between the event and this tick
            let index := if written = 0 then remove index spec entityId else index
            return (true, index)
          | .remove => return (true, remove index spec entityId)

/-! ### Drains -/

/-- What one drain tick did. -/
structure DrainReport where
  applied : ℕ := 0
  /-- Events read but not applicable. -/
  skipped : ℕ := 0
  cursor : ℤ

/-- One event was applied, when the source tables said this. -/
structure Application where
  event : Event
  sources : Sources

/-- What a drain has read and done. -/
structure Batch where
  /-- The events after the cursor. -/
  events : List Event
  /-- Those still to apply. -/
  rest : List Event
  /-- The last of them. -/
  last : ℤ
  /-- `applied` and `skipped`. -/
  report : DrainReport
  /-- The documents, as the transaction sees them. -/
  index : Index
  /-- What was applied, -/
  done : List Application := []
  /-- and what failed. -/
  failed : List ℤ := []
  /-- A statement of the transaction failed. -/
  aborted : Bool := false

/-- One event is applied, or not. -/
def Batch.apply (uuids : UuidText) (sources : Sources) (fault : Bool) (b : Batch) (e : Event)
    (rest : List Event) : Batch :=
  let skipped : Batch := { b with rest, report := { b.report with skipped := b.report.skipped + 1 } }
  -- every statement fails once the transaction is aborted
  if b.aborted then skipped
  else
    match applyEvent uuids sources b.index fault e.name e.payload with
    | .ok (true, index) =>
      { b with rest, report := { b.report with applied := b.report.applied + 1 }, index, done :=
        b.done ++ [⟨e, sources⟩] }
    | .ok (false, index) => { skipped with index, done := b.done ++ [⟨e, sources⟩] }
    | .error error => { skipped with failed := b.failed ++ [e.id], aborted := error = .database }

/-- How far a drain has come. -/
inductive Drain where
  | idle
  | locked (cursor : ℤ) (batch : ℕ)
  /-- Events are read, and applied one by one. -/
  | applying (b : Batch)

/-- What a drain that ended had read, and what of it failed. -/
structure Ended where
  events : List ℤ
  failed : List ℤ
  deriving DecidableEq

/-- The events, the documents, the drains and what they answered. -/
structure Indexer where
  /-- `events`. -/
  log : Log Event := {}
  /-- The tables documents are written from. -/
  sources : Sources := {}
  /-- `search_documents`. -/
  index : Index := .empty
  /-- `search_cursor.last_event_id`. -/
  cursor : ℤ := 0
  /-- The drain that has the cursor's row locked. -/
  holder : Option ℕ := none
  drains : ℕ → Drain := fun _ => .idle
  /-- The applications that were committed. -/
  applied : List Application := []
  /-- The drains that came to an end by themselves. -/
  ended : List Ended := []
  /-- Their reports; `none` is an error. -/
  reports : List (Option DrainReport) := []

/-- What happens. -/
inductive IndexerStep where
  /-- A transaction inserts an event, -/
  | insert (tx : ℕ) (new : NewEvent) (now : Instant)
  /-- commits, -/
  | commit (tx : ℕ)
  /-- or is rolled back. -/
  | rollback (tx : ℕ)
  /-- The source tables change. -/
  | change (sources : Sources)
  /-- A drain locks the cursor, -/
  | lock (i : ℕ) (batch : ℤ)
  /-- reads the events after it, -/
  | read (i : ℕ)
  /-- applies one, -/
  | apply (i : ℕ) (fault : Bool)
  /-- and moves the cursor and commits. -/
  | finish (i : ℕ)
  /-- A drain stops. -/
  | crash (i : ℕ)

/-- The drain that takes the step. -/
def IndexerStep.drainer : IndexerStep → Option ℕ
  | .lock i _ | .read i | .apply i _ | .finish i | .crash i => some i
  | .insert .. | .commit _ | .rollback _ | .change _ => none

namespace Indexer

/-- Drain `i` goes on. -/
def move (s : Indexer) (i : ℕ) (p : Drain) : Indexer := { s with drains := Function.update s.drains i p }

/-- Drain `i` ends, and gives up its lock. -/
def release (s : Indexer) (i : ℕ) : Indexer :=
  { s.move i .idle with holder := if s.holder = some i then none else s.holder }

/-- Drain `i` has read the events after the cursor. -/
def readEvents (s : Indexer) (i : ℕ) (cursor : ℤ) (events : List Event) : Indexer :=
  match events.getLast? with
  | none => { s.release i with reports := s.reports ++ [some { cursor }] }
  | some last => s.move i (.applying { events, rest := events, last := last.id, report := { cursor }, index := s.index })

/-- Drain `i` moves the cursor and commits; an aborted transaction does neither. -/
def finish (s : Indexer) (i : ℕ) (b : Batch) : Indexer :=
  let ended := s.ended ++ [{ events := b.events.map (·.id), failed := b.failed }]
  if b.aborted then { s.release i with ended, reports := s.reports ++ [none] }
  else
    { s.release i with
      cursor := b.last, index := b.index, applied := s.applied ++ b.done, ended
      reports := s.reports ++ [some { b.report with cursor := b.last }] }

end Indexer

def indexerStep (uuids : UuidText) (s : Indexer) : IndexerStep → Option Indexer
  | .insert tx new now => some { s with log := s.log.insert tx fun id => new.row id now }
  | .commit tx => some { s with log := s.log.commit tx }
  | .rollback tx => some { s with log := s.log.rollback tx }
  | .change sources => some { s with sources }
  | .lock i batch =>
    match s.drains i with
    | .idle =>
      match s.holder with
      | none => some { s.move i (.locked s.cursor (max 1 (min batch 1000)).toNat) with holder := some i }
      | some _ => some { s with reports := s.reports ++ [some { cursor := s.cursor }] }
    | _ => none
  | .read i =>
    match s.drains i with
    | .locked cursor batch => some (s.readEvents i cursor (Cursor.next Event.id cursor batch s.log.committed))
    | _ => none
  | .apply i fault =>
    match s.drains i with
    | .applying b =>
      match b.rest with
      | e :: rest => some (s.move i (.applying (b.apply uuids s.sources fault e rest)))
      | [] => none
    | _ => none
  | .finish i =>
    match s.drains i with
    | .applying b => if b.rest = [] then some (s.finish i b) else none
    | _ => none
  | .crash i => some (s.release i)

/-! ### What drains are to do -/

/-- The documents after some events were applied. -/
def replay (uuids : UuidText) (index : Index) (applications : List Application) : Index :=
  applications.foldl (fun index a =>
    match applyEvent uuids a.sources index false a.event.name a.event.payload with
    | .ok (_, index) => index
    | .error _ => index) index

/-- The document an event asks to write. -/
def Sources.document (sources : Sources) (uuids : UuidText) (e : Event) : Option SearchDocument := do
  let plan ← eventPlan e.name
  guard (plan.action = .index)
  let id ← entityIdOf uuids e.payload plan.idKey
  sources.select uuids plan.provider id

/-- The document an event asks to write can be written: its title is not blank. -/
def Indexable (uuids : UuidText) (sources : Sources) (e : Event) : Prop :=
    ∀ d ∈ sources.document uuids e, titleNotBlank d = true

namespace Indexer

/-- The events whose application was committed. -/
def appliedIds (s : Indexer) : List ℤ := s.applied.map (·.event.id)

/-- **No event is left out**: the cursor is never past an event that was not applied, a drain that ends has
applied every event it read but those that failed, and what was applied is in the index. -/
structure Complete (uuids : UuidText) (s : Indexer) : Prop where
  behind : ∀ e ∈ s.log.committed, e.id ≤ s.cursor → e.id ∈ s.appliedIds
  batches : ∀ b ∈ s.ended, ∀ k ∈ b.events, k ∉ b.failed → k ∈ s.appliedIds
  index : s.index = replay uuids .empty s.applied

/-- How far events are read, whether their application is committed or not. -/
def horizon (s : Indexer) : ℤ :=
  match s.holder.map s.drains with
  | some (.applying b) => b.last
  | _ => s.cursor

/-- The event drain `i` is to apply. -/
def next (s : Indexer) (i : ℕ) : Option Event :=
  match s.drains i with
  | .applying b => b.rest.head?
  | _ => none

/-- **The steps allowed**: a transaction commits before a drain has read past its events, and no
application of an event fails. -/
def Fit (uuids : UuidText) (s : Indexer) : IndexerStep → Prop
  | .commit tx => ∀ x ∈ s.log.inflight, x.1 = tx → s.horizon < x.2.id
  | .apply i fault => fault = false ∧ ∀ e ∈ s.next i, Indexable uuids s.sources e
  | _ => True

instance (uuids : UuidText) (s : Indexer) : DecidablePred (s.Fit uuids)
  | .commit tx => inferInstanceAs (Decidable (∀ x ∈ s.log.inflight, x.1 = tx → s.horizon < x.2.id))
  | .apply i fault =>
    inferInstanceAs (Decidable (fault = false ∧ ∀ e ∈ s.next i, ∀ d ∈ s.sources.document uuids e,
      titleNotBlank d = true))
  | .insert .. | .rollback _ | .change _ | .lock .. | .read _ | .finish _ | .crash _ => inferInstanceAs (Decidable True)

/-- Drain `i` goes by itself from `s` to `t`, and nothing else happens. -/
def Alone (uuids : UuidText) (i : ℕ) (s t : Indexer) : Prop :=
  ∃ es, Transition.Run (indexerStep uuids) (Fit uuids) s es t ∧ (∀ x ∈ es, x.drainer = some i) ∧
    t.log = s.log ∧ t.sources = s.sources

/-- Drains alone apply every event there is. -/
def Catches (uuids : UuidText) (s : Indexer) : Prop :=
  s.holder = none → (∀ e ∈ s.log.committed, s.cursor < e.id → Indexable uuids s.sources e) →
    ∀ i, ∀ e ∈ s.log.committed, ∃ t, Alone uuids i s t ∧ e.id ∈ t.appliedIds

def Knows (uuids : UuidText) (s : Indexer) : Drain → Prop
  | .idle => True
  | .locked cursor _ => cursor = s.cursor
  | .applying b =>
    b.aborted = false ∧ b.done.map (·.event.id) ++ b.rest.map (·.id) = b.events.map (·.id) ∧
      b.index = replay uuids s.index b.done ∧ s.log.Reading Event.id s.cursor b.events b.last

/-- **The invariant**: what was applied are the events up to the cursor, and the drain that holds the
cursor has read the next ones. -/
structure Sound (uuids : UuidText) (s : Indexer) : Prop where
  proper : s.log.Proper Event.id
  exact : Cursor.Exact (s.log.Visible Event.id) s.cursor s.appliedIds
  held : ∀ i, s.drains i ≠ .idle → s.holder = some i
  knows : ∀ i, s.Knows uuids (s.drains i)
  ended : ∀ b ∈ s.ended, ∀ k ∈ b.events, k ∈ s.appliedIds
  index : s.index = replay uuids .empty s.applied

end Indexer

section Applying

variable {uuids : UuidText} {sources : Sources} {index index' : Index} {spec : ProviderSpec} {id : Uuid}
  {d : SearchDocument}
  {k : String × String × Uuid} {e : Event} {plan : EventPlan}

variable (index) in
/-- An event whose document can be written is applied. -/
theorem applyEvent_eq_ok (h : Indexable uuids sources e) :
    ∃ r, applyEvent uuids sources index false e.name e.payload = .ok r := by
  unfold applyEvent
  cases hplan : eventPlan e.name with
  | none => exact ⟨_, rfl⟩
  | some plan =>
    cases hid : entityIdOf uuids e.payload plan.idKey with
    | none => exact ⟨(false, index), by simp only [hid]⟩
    | some id =>
      obtain ⟨spec, hspec⟩ := eventPlan_registered hplan
      have hkey : spec.key = plan.provider := by simpa using List.find?_some hspec
      simp only [hid, hspec, Bool.false_eq_true, if_false]
      cases haction : plan.action with
      | remove => exact ⟨_, rfl⟩
      | index =>
        unfold upsert
        rw [hkey]
        cases hselect : sources.select uuids plan.provider id with
        | none => exact ⟨_, rfl⟩
        | some d =>
          have hd : d ∈ sources.document uuids e := by
            simp [Sources.document, hplan, haction, hid, hselect, guard]
          simp only [h d hd, if_true]
          exact ⟨_, rfl⟩

theorem replay_append (uuids : UuidText) (index : Index) (l l' : List Application) :
    replay uuids index (l ++ l') = replay uuids (replay uuids index l) l' :=
  List.foldl_append

end Applying

namespace Indexer

section Steps

variable {uuids : UuidText} {s t : Indexer} {i : ℕ} {p : Drain} {b : Batch} {e : IndexerStep}

theorem knows_apply {event : Event} {rest : List Event} (h : s.Knows uuids (.applying b))
    (hrest : b.rest = event :: rest)
    (hindexable : Indexable uuids s.sources event) :
    s.Knows uuids (.applying (b.apply uuids s.sources false event rest)) := by
  obtain ⟨haborted, hdone, hindex, hreading⟩ := h
  rw [hrest, List.map_cons, ← List.singleton_append, ← List.append_assoc] at hdone
  obtain ⟨⟨written, index⟩, happly⟩ := applyEvent_eq_ok b.index hindexable
  have hreplay : index = replay uuids s.index (b.done ++ [⟨event, s.sources⟩]) := by
    rw [replay_append, ← hindex]
    simp only [replay, List.foldl_cons, List.foldl_nil, happly]
  have hmap : (b.done ++ [(⟨event, s.sources⟩ : Application)]).map (·.event.id) = b.done.map
    (·.event.id) ++ [event.id] :=
    List.map_append
  unfold Batch.apply
  simp only [haborted, Bool.false_eq_true, if_false, happly]
  cases written
  all_goals exact ⟨rfl, hmap ▸ hdone, hreplay, hreading⟩

/-! ### The inserting transactions -/

theorem Sound.holds (h : s.Sound uuids) (hi : s.drains i = p) (hp : p ≠ .idle) : s.holder = some i := h.held i (hi ▸ hp)

theorem Sound.knows_of (h : s.Sound uuids) (hi : s.drains i = p) : s.Knows uuids p := hi ▸ h.knows i

theorem Sound.horizon_eq (h : s.Sound uuids) (hi : s.drains i = .applying b) : s.horizon = b.last := by
  have hheld := h.holds hi (by rintro ⟨⟩)
  simp [horizon, hheld, hi]

theorem Sound.cursor_le (h : s.Sound uuids) : s.cursor ≤ s.horizon := by
  cases hholder : s.holder with
  | none => simp [horizon, hholder]
  | some i =>
    cases hdrain : s.drains i with
    | applying b =>
      obtain ⟨-, -, -, hlt, -⟩ := h.knows_of hdrain
      rw [h.horizon_eq hdrain]
      exact le_of_lt hlt
    | _ => simp [horizon, hholder, hdrain]

theorem Sound.log (h : s.Sound uuids) {log : Log Event} (hproper : log.Proper Event.id)
    (hexact : Cursor.Exact (log.Visible Event.id) s.cursor s.appliedIds)
    (hreading : ∀ i b, s.drains i = .applying b → log.Reading Event.id s.cursor b.events b.last) :
    Sound uuids { s with log } := by
  refine ⟨hproper, hexact, h.held, fun i => ?_, h.ended, h.index⟩
  cases hdrain : s.drains i with
  | idle => trivial
  | locked cursor batch =>
    have hcursor : cursor = s.cursor := h.knows_of hdrain
    exact hcursor
  | applying b =>
    obtain ⟨haborted, hdone, hindex, -⟩ := h.knows_of hdrain
    exact ⟨haborted, hdone, hindex, hreading i b hdrain⟩

theorem Sound.commit (h : s.Sound uuids) {tx : ℕ} (hok : s.Fit uuids (.commit tx)) :
    Sound uuids { s with log := s.log.commit tx } := by
  refine h.log (h.proper.commit tx) (h.exact.appear ?_ ?_) fun i b hdrain => ?_
  · exact fun k hk => Log.visible_commit.mpr (.inl hk)
  · intro k hk
    refine (Log.visible_commit.mp hk).imp_right ?_
    rintro ⟨x, hx, htx, rfl⟩
    exact lt_of_le_of_lt h.cursor_le (hok x hx htx)
  · obtain ⟨-, -, -, hreading⟩ := h.knows_of hdrain
    refine hreading.commit fun x hx htx => ?_
    rw [← h.horizon_eq hdrain]
    exact hok x hx htx

/-! ### The drains -/

theorem Sound.move (h : s.Sound uuids) (hi : s.holder = some i) (hp : s.Knows uuids p) : (s.move i p).Sound uuids := by
  refine ⟨h.proper, h.exact, ?_, ?_, h.ended, h.index⟩
  · exact (Function.forall_update_iff s.drains fun j p => p ≠ .idle → s.holder = some j).mpr
      ⟨fun _ => hi, fun j _ => h.held j⟩
  · exact (Function.forall_update_iff s.drains fun _ p => s.Knows uuids p).mpr ⟨hp, fun j _ => h.knows j⟩

theorem Sound.release (h : s.Sound uuids) (i : ℕ) : (s.release i).Sound uuids := by
  refine ⟨h.proper, h.exact, ?_, ?_, h.ended, h.index⟩
  · refine (Function.forall_update_iff s.drains fun j p => p ≠ .idle → (s.release i).holder = some j).mpr
      ⟨fun hidle => absurd rfl hidle, fun j hj hbusy => ?_⟩
    have hheld := h.held j hbusy
    have hne : s.holder ≠ some i := by
      rw [hheld]
      exact fun hji => hj (Option.some.inj hji)
    show (if s.holder = some i then none else s.holder) = some j
    rw [if_neg hne, hheld]
  · exact (Function.forall_update_iff s.drains fun _ p => s.Knows uuids p).mpr ⟨trivial, fun j _ => h.knows j⟩

theorem Sound.reports (h : s.Sound uuids) (reports : List (Option DrainReport)) : Sound uuids { s with reports } :=
  ⟨h.proper, h.exact, h.held, h.knows, h.ended, h.index⟩

theorem Sound.lock (h : s.Sound uuids) (hfree : s.holder = none) (i batch : ℕ) :
    Sound uuids { s.move i (.locked s.cursor batch) with holder := some i } := by
  have hidle : ∀ j, s.drains j = .idle := fun j => by
    by_contra hbusy
    rw [h.held j hbusy] at hfree
    cases hfree
  refine ⟨h.proper, h.exact, ?_, ?_, h.ended, h.index⟩
  · exact (Function.forall_update_iff s.drains fun j p => p ≠ .idle → some i = some j).mpr
      ⟨fun _ => rfl, fun j _ hbusy => absurd (hidle j) hbusy⟩
  · exact (Function.forall_update_iff s.drains fun _ p => s.Knows uuids p).mpr ⟨rfl, fun j _ => h.knows j⟩

theorem Sound.readEvents (h : s.Sound uuids) (hi : s.holder = some i) (batch : ℕ) :
    (s.readEvents i s.cursor (Cursor.next Event.id s.cursor batch s.log.committed)).Sound uuids := by
  unfold Indexer.readEvents
  split
  · exact (h.release i).reports _
  · rename_i last hlast
    exact h.move hi ⟨rfl, rfl, rfl, h.proper.reading hlast⟩

/-- The drain that ends has applied the next events. -/
theorem Sound.finish (h : s.Sound uuids) (hi : s.drains i = .applying b) (hrest : b.rest = []) :
    (s.finish i b).Sound uuids := by
  have hheld := h.holds hi (by rintro ⟨⟩)
  obtain ⟨haborted, hdone, hindex, hlt, hnodup, hevents⟩ := h.knows_of hi
  rw [hrest, List.map_nil, List.append_nil] at hdone
  have hfinish : s.finish i b = { s.release i with
      cursor := b.last, index := b.index, applied := s.applied ++ b.done
      ended := s.ended ++ [{ events := b.events.map (·.id), failed := b.failed }]
      reports := s.reports ++ [some { b.report with cursor := b.last }] } := by
    simp [Indexer.finish, haborted]
  have happlied : (s.finish i b).appliedIds = s.appliedIds ++ b.events.map (·.id) := by
    rw [hfinish, ← hdone]
    exact List.map_append
  rw [hfinish] at happlied ⊢
  refine ⟨h.proper, ?_, (h.release i).held, ?_, ?_, ?_⟩
  · rw [happlied]
    exact h.exact.advance (le_of_lt hlt) hnodup hevents
  · refine (Function.forall_update_iff s.drains fun _ p => Knows uuids _ p).mpr ⟨trivial, fun j hj => ?_⟩
    -- no other drain is under way
    have hidle : s.drains j = .idle := by
      by_contra hbusy
      exact hj (Option.some.inj ((h.held j hbusy).symm.trans hheld))
    rw [hidle]
    trivial
  · intro c hc k hk
    rw [happlied, List.mem_append]
    rcases List.mem_append.mp hc with hc | hc
    · exact .inl (h.ended c hc k hk)
    · obtain rfl := List.mem_singleton.mp hc
      exact .inr hk
  · exact hindex.trans (by rw [h.index, replay_append])

/-- **One step keeps the invariant.** -/
theorem Sound.step (h : s.Sound uuids) (hok : s.Fit uuids e) (ht : indexerStep uuids s e = some t) : t.Sound uuids := by
  cases e with
  | insert tx new now =>
    cases ht
    refine h.log (h.proper.insert (fun _ => rfl) tx) h.exact fun i b hdrain => ?_
    obtain ⟨-, -, -, hreading⟩ := h.knows_of hdrain
    exact hreading
  | commit tx =>
    cases ht
    exact h.commit hok
  | rollback tx =>
    cases ht
    refine h.log (h.proper.rollback tx) h.exact fun i b hdrain => ?_
    obtain ⟨-, -, -, hreading⟩ := h.knows_of hdrain
    exact hreading
  | change sources =>
    cases ht
    exact ⟨h.proper, h.exact, h.held, h.knows, h.ended, h.index⟩
  | lock i batch =>
    simp only [indexerStep] at ht
    split at ht
    · split at ht
      · cases ht
        exact h.lock ‹_› i _
      · cases ht
        exact h.reports _
    · cases ht
  | read i =>
    simp only [indexerStep] at ht
    split at ht
    · rename_i cursor batch hlocked
      cases ht
      have hcursor : cursor = s.cursor := h.knows_of hlocked
      rw [hcursor]
      exact h.readEvents (h.holds hlocked (by rintro ⟨⟩)) batch
    · cases ht
  | apply i fault =>
    simp only [indexerStep] at ht
    split at ht
    · rename_i b happlying
      split at ht
      · rename_i event rest hrest
        cases ht
        obtain ⟨rfl, hindexable⟩ := hok
        have hnext : event ∈ s.next i := by
          simp [next, happlying, hrest]
        exact h.move (h.holds happlying (by rintro ⟨⟩)) (knows_apply (h.knows_of happlying) hrest
          (hindexable event hnext))
      · cases ht
    · cases ht
  | finish i =>
    simp only [indexerStep] at ht
    split at ht
    · rename_i b happlying
      split_ifs at ht with hrest
      cases ht
      exact h.finish happlying hrest
    · cases ht
  | crash i =>
    cases ht
    exact h.release i

theorem Sound.start : Sound uuids {} where
  proper := Log.Proper.empty
  exact := ⟨List.nodup_nil, fun _ => ⟨fun hk => (List.not_mem_nil hk).elim,
    fun ⟨⟨_, he, _⟩, _⟩ => (List.not_mem_nil he).elim⟩⟩
  held := fun _ hbusy => absurd rfl hbusy
  knows := fun _ => trivial
  ended := fun _ hb => (List.not_mem_nil hb).elim
  index := rfl

theorem Sound.complete (h : s.Sound uuids) : s.Complete uuids where
  behind := fun e he hle => (h.exact.2 e.id).mpr ⟨⟨e, he, rfl⟩, hle⟩
  batches := fun b hb k hk _ => h.ended b hb k hk
  index := h.index

/-! ### A drain alone -/

theorem Alone.refl (uuids : UuidText) (i : ℕ) (s : Indexer) : Alone uuids i s s :=
  ⟨[], .nil, fun _ hx => absurd hx List.not_mem_nil, rfl, rfl⟩

theorem Alone.trans {u : Indexer} (h : Alone uuids i s t) (h' : Alone uuids i t u) : Alone uuids i s u := by
  obtain ⟨es, hrun, hes, hlog, hsources⟩ := h
  obtain ⟨es', hrun', hes', hlog', hsources'⟩ := h'
  refine ⟨es ++ es', hrun.trans hrun', fun x hx => ?_, hlog'.trans hlog, hsources'.trans hsources⟩
  rcases List.mem_append.mp hx with hx | hx
  · exact hes x hx
  · exact hes' x hx

theorem Alone.step (hs : indexerStep uuids s e = some t) (hok : s.Fit uuids e) (he : e.drainer = some i)
    (hlog : t.log = s.log) (hsources : t.sources = s.sources) : Alone uuids i s t := by
  refine ⟨[e], .cons hok hs .nil, fun x hx => ?_, hlog, hsources⟩
  rw [List.mem_singleton.mp hx]
  exact he

theorem Alone.sound (h : Alone uuids i s t) (hs : s.Sound uuids) : t.Sound uuids := by
  obtain ⟨es, hrun, -⟩ := h
  exact hrun.invariant hs fun _ _ _ hx hok hstep => hx.step hok hstep

theorem drains_move (s : Indexer) (i : ℕ) (p : Drain) : (s.move i p).drains i = p := Function.update_self ..

variable (uuids) in
/-- The events read are applied one by one. -/
theorem apply_all {last : ℤ} : ∀ (rest : List Event) (s : Indexer) (b : Batch), s.drains i = .applying b →
    b.rest = rest → b.last = last →
    (∀ e ∈ rest, Indexable uuids s.sources e) →
    ∃ t c, Alone uuids i s t ∧ t.drains i = .applying c ∧ c.rest = [] ∧ c.last = last ∧ t.holder = s.holder
  | [], s, b, hi, hrest, hlast, _ => ⟨s, b, .refl uuids i s, hi, hrest, hlast, rfl⟩
  | e :: rest, s, b, hi, hrest, hlast, hindexable => by
    have hs : indexerStep uuids s (.apply i false) = some
      (s.move i (.applying (b.apply uuids s.sources false e rest))) := by
      simp only [indexerStep, hi, hrest]
    have hok : s.Fit uuids (.apply i false) := by
      refine ⟨rfl, fun x hx => ?_⟩
      obtain rfl : e = x := by
        simpa [next, hi, hrest] using hx
      exact hindexable e List.mem_cons_self
    have hrest' : (b.apply uuids s.sources false e rest).rest = rest := by
      unfold Batch.apply
      split_ifs
      · rfl
      · split <;> rfl
    have hlast' : (b.apply uuids s.sources false e rest).last = last := by
      unfold Batch.apply
      split_ifs
      · exact hlast
      · split <;> exact hlast
    obtain ⟨t, c, halone, hdone, hnil, hlastc, hholder⟩ := apply_all rest (s.move i _) _
      (drains_move s i _) hrest' hlast'
      fun x hx => hindexable x (List.mem_cons_of_mem e hx)
    exact ⟨t, c, (Alone.step hs hok rfl rfl rfl).trans halone, hdone, hnil, hlastc, hholder⟩

/-- A drain alone moves the cursor, when there is an event after it. -/
theorem Sound.drain_alone (h : s.Sound uuids) (hfree : s.holder = none)
    (hindexable : ∀ e ∈ s.log.committed, s.cursor < e.id → Indexable uuids s.sources e)
    (i : ℕ) {e : Event} (he : e ∈ s.log.committed) (hnext : s.cursor < e.id) :
    ∃ t, Alone uuids i s t ∧ t.holder = none ∧ s.cursor < t.cursor := by
  have hidle : s.drains i = .idle := by
    by_contra hbusy
    rw [h.held i hbusy] at hfree
    cases hfree
  have hsome : Cursor.next Event.id s.cursor 1000 s.log.committed ≠ [] := Cursor.next_ne_nil (by decide) he hnext
  generalize hevents : Cursor.next Event.id s.cursor 1000 s.log.committed = events at hsome
  obtain ⟨last, hlast⟩ := Option.ne_none_iff_exists'.mp (mt List.getLast?_eq_none_iff.mp hsome)
  have hmem : ∀ x ∈ events, x ∈ s.log.committed ∧ s.cursor < x.id := fun x hx => Cursor.mem_of_mem_next (hevents ▸ hx)
  obtain ⟨u, hu⟩ : ∃ u : Indexer, u = { s.move i (.locked s.cursor 1000) with holder := some i } := ⟨_, rfl⟩
  have hlock : indexerStep uuids s (.lock i 1000) = some u := by
    simp only [indexerStep, hidle, hfree, hu]
    rfl
  have hlog : u.log = s.log := by
    rw [hu]
    rfl
  have hsources : u.sources = s.sources := by
    rw [hu]
    rfl
  obtain ⟨b, hb⟩ : ∃ b : Batch,
      b = { events, rest := events, last := last.id, report := { cursor := s.cursor }, index := u.index } := ⟨_, rfl⟩
  have hread : indexerStep uuids u (.read i) = some (u.move i (.applying b)) := by
    have hlocked : u.drains i = .locked s.cursor 1000 := by
      rw [hu]
      exact drains_move s i _
    simp only [indexerStep, hlocked, hlog, hevents, Indexer.readEvents, hlast, hb]
  obtain ⟨t, c, halone, hdone, hnil, hlastc, hholder⟩ := apply_all uuids events
    (u.move i (.applying b)) b (drains_move u i _)
    (by rw [hb]) (by rw [hb]) fun x hx => hsources ▸ hindexable x (hmem x hx).1 (hmem x hx).2
  have hbefore : Alone uuids i s t := ((Alone.step hlock trivial rfl hlog hsources).trans
    (.step hread trivial rfl rfl rfl)).trans halone
  obtain ⟨haborted, -⟩ := (hbefore.sound h).knows_of hdone
  have hfinish : indexerStep uuids t (.finish i) = some (t.finish i c) := by
    simp only [indexerStep, hdone, hnil, if_true]
  have hended : t.finish i c = { t.release i with
      cursor := last.id, index := c.index, applied := t.applied ++ c.done
      ended := t.ended ++ [{ events := c.events.map (·.id), failed := c.failed }]
      reports := t.reports ++ [some { c.report with cursor := last.id }] } := by
    simp [Indexer.finish, haborted, hlastc]
  rw [hended] at hfinish
  refine ⟨_, hbefore.trans (.step hfinish trivial rfl rfl rfl), ?_, (hmem last (List.mem_of_getLast? hlast)).2⟩
  show (if t.holder = some i then none else t.holder) = none
  rw [hholder, hu]
  exact if_pos rfl

theorem Sound.reach (i : ℕ) {e : Event} : ∀ (n : ℕ) (s : Indexer), s.Sound uuids → s.holder = none →
    (∀ e ∈ s.log.committed, s.cursor < e.id → Indexable uuids s.sources e) →
    e ∈ s.log.committed → e.id ≤ s.cursor + n → ∃ t, Alone uuids i s t ∧ e.id ≤ t.cursor
  | 0, s, _, _, _, _, hle => ⟨s, .refl uuids i s, by omega⟩
  | n + 1, s, h, hfree, hindexable, he, hle => by
    by_cases hpast : e.id ≤ s.cursor
    · exact ⟨s, .refl uuids i s, hpast⟩
    · obtain ⟨t, halone, hfree', hmoved⟩ := h.drain_alone hfree hindexable i he (not_le.mp hpast)
      obtain ⟨-, -, -, hlog, hsources⟩ := id halone
      have hindexable' : ∀ e ∈ t.log.committed, t.cursor < e.id → Indexable uuids t.sources e := by
        rw [hlog, hsources]
        exact fun e he hlt => hindexable e he (hmoved.trans hlt)
      obtain ⟨u, halone', hreached⟩ := reach i n t (halone.sound h) hfree' hindexable' (hlog ▸ he) (by omega)
      exact ⟨u, halone.trans halone', hreached⟩

theorem Sound.catches (h : s.Sound uuids) : s.Catches uuids := by
  intro hfree hindexable i e he
  obtain ⟨t, halone, hreached⟩ := h.reach i (e.id - s.cursor).toNat s hfree hindexable he (by omega)
  obtain ⟨-, -, -, hlog, -⟩ := id halone
  exact ⟨t, halone, (halone.sound h).complete.behind e (hlog ▸ he) hreached⟩

/-- **No event is left out**: over any interleaving of inserting transactions, their commits and drains in
which a transaction commits before a drain has read past its events and no application of an event fails,
the cursor is never past an event that was not applied, every drain that ended applied its whole batch, and
drains alone apply what is left. -/
theorem run_complete {es : List IndexerStep} (h : Transition.Run (indexerStep uuids) (Fit uuids) {} es s) :
    s.Complete uuids ∧ s.Catches uuids := by
  have hsound : s.Sound uuids := h.invariant Sound.start fun _ _ _ hx hok hs => hx.step hok hs
  exact ⟨hsound.complete, hsound.catches⟩

end Steps

/-! ### Runs -/

/-- One identifier and its text. -/
def sevenText : UuidText where
  parse := fun s => if s = "00000000-0000-0000-0000-000000000007" then some 7 else none
  print := fun id => if id = 7 then "00000000-0000-0000-0000-000000000007" else ""

/-- An account. -/
def named (displayName : String) : Sources where
  users := fun id =>
    if id = 7 then
      some { organizationId := none, displayName, email := "ada@example.com", status := "invited", createdAt := 0 }
    else none

def userUpdated : NewEvent where
  name := "user.updated"
  payload := .object [("user_id", .string "00000000-0000-0000-0000-000000000007")]

/-- The account has no name. Its event is read with another one. -/
def blankName : List IndexerStep :=
  [.change (named ""), .insert 1 userUpdated 0, .commit 1, .insert 2 { name := "page.deleted" } 0,
    .commit 2, .lock 0 100,
    .read 0, .apply 0 false, .apply 0 false, .finish 0]

/-- The first event failed, and the other one is lost with it. -/
theorem blank_name :
    ¬ ∀ (uuids : UuidText) (es : List IndexerStep) (s : Indexer), Transition.Run
      (indexerStep uuids) Transition.Any {} es s →
      s.Complete uuids ∧ s.Catches uuids := by
  intro h
  have hexec : (Transition.exec (indexerStep sevenText) {} blankName).map (fun s => (s.ended, s.appliedIds)) =
      some ([⟨[1, 2], [1]⟩], []) := by decide +kernel
  obtain ⟨s, hs, hresult⟩ := Transition.Run.of_exec_map hexec
  obtain ⟨hended, happlied⟩ : s.ended = [⟨[1, 2], [1]⟩] ∧ s.appliedIds = [] := by
    simpa only [Prod.mk.injEq] using hresult
  have hkept := (h sevenText blankName s hs).1.batches ⟨[1, 2], [1]⟩ (by simp [hended]) 2 (by decide) (by decide)
  rw [happlied] at hkept
  exact absurd hkept List.not_mem_nil

/-- Both transactions commit before the drain, the second first, and the account has a name. -/
def commitsInTime : List IndexerStep :=
  [.change (named "Ada"), .insert 1 userUpdated 0, .insert 2 { name := "page.deleted" } 0, .commit 2,
    .commit 1, .lock 0 100,
    .read 0, .apply 0 false, .apply 0 false, .finish 0]

/-- The drain applies both, and the account is in the index. -/
theorem run_complete_commitsInTime :
    ∃ s, Transition.Run (indexerStep sevenText) (Fit sevenText) {} commitsInTime s ∧
      (s.appliedIds = [1, 2] ∧ s.index.rows.map (·.title) = ["Ada"]) ∧
        (s.Complete sevenText ∧ s.Catches sevenText) := by
  have hexec : (Transition.exec (fun s e => if decide (s.Fit sevenText e) then indexerStep sevenText s e else none)
    {} commitsInTime).map
      (fun s => (s.appliedIds, s.index.rows.map (·.title))) = some ([1, 2], ["Ada"]) := by decide +kernel
  obtain ⟨s, hrun, hresult⟩ := Transition.Run.of_exec_of_map (fun _ _ => of_decide_eq_true) hexec
  exact ⟨s, hrun, by simpa only [Prod.mk.injEq] using hresult, run_complete hrun⟩

end Indexer

end Omnion.Search
