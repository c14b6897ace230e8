import Mathlib.Data.String.Basic
import Omnion.Media.Grants

/-!
# The retention sweep of a media library

`crates/media/src/retention.rs` and `run_once` of `routes/media_retention.rs`: a sweep of a site removes the
superseded versions past their keep window and the trashed files past their purge window. A policy is scoped to
the whole site or to a folder.

## The model

The tables are those of the media library, with the columns that the sweep reads. Each statement of the sweep is a
definition of its own, so that sweeps can also be taken apart statement by statement; `runOnce` is a sweep that
nobody interrupts. A `limit 1` without an order takes the first row as the table has them. Rows that another
statement has locked are an argument of the statements that skip them.

## What is proved

* `sweep_governed_iff` — a sweep treats every file by its governing policy just when the site's window and the
  governing policies are in step (`InStep`).
* `folder_ignored` — a file that its folder's policy would keep for a year and that goes after ninety days.

## Honest scope

Objects in the store, the log of runs, the audit entry and the event are left out. The bound of 63 bits on the
counts is too.
-/

namespace Omnion.Media

/-- A row of `media`, as the sweep reads it. -/
structure MediaFile where
  id : Uuid
  siteId : Uuid
  folderId : Option Uuid
  /-- Object key of the current bytes. -/
  storageKey : String
  filename : String
  sizeBytes : ℤ
  /-- Whether a legal hold is on the file: no retention sweep may remove it. -/
  legalHold : Bool
  /-- When the file was moved to the trash. -/
  deletedAt : Option Instant
  deriving DecidableEq

/-- A row of `media_versions`. -/
structure MediaVersion where
  id : Uuid
  mediaId : Uuid
  version : ℕ
  /-- Object key of this version's bytes. -/
  storageKey : String
  sizeBytes : ℤ
  createdAt : Instant
  deriving DecidableEq

/-- A row of `media_references`: a record that uses a file. -/
structure MediaReference where
  id : Uuid
  mediaId : Uuid
  resourceKind : String
  resourceId : String
  /-- Which field of the record points at the file. -/
  field : String

/-- A row of `media_derivatives`. -/
structure Derivative where
  id : Uuid
  mediaId : Uuid
  /-- Object key of the generated bytes. -/
  storageKey : String

/-- The tables a sweep reads and deletes from. -/
structure Store where
  media : Table MediaFile MediaFile.id
  versions : Table MediaVersion MediaVersion.id
  references : Table MediaReference MediaReference.id
  derivatives : Table Derivative Derivative.id

/-- The three windows, resolved for one file's folder. -/
structure Window where
  keepVersionsDays : ℤ
  trashDays : ℤ
  purgeAfterDays : ℤ

/-- `now_utc() - Duration::days(days)`. -/
def cutoff (now : Instant) (days : ℤ) : Instant := now - days * 86400000000

/-- Why one file may not be purged. -/
structure PurgeRefusal where
  /-- The file that would have been purged. -/
  mediaId : Uuid
  filename : String
  resourceKind : String
  resourceId : String
  field : String

/-- What a purge found, per file. -/
structure PurgeOutcome where
  /-- Files whose bytes and rows are gone. -/
  purged : ℤ := 0
  purgedBytes : ℤ := 0
  /-- Files skipped because a hold applies. -/
  heldBack : ℤ := 0
  /-- Files skipped because something still points at them. -/
  refused : List PurgeRefusal := []
  /-- Storage keys of the removed files. -/
  storageKeys : List String := []

/-- What a version sweep found. -/
structure VersionSweep where
  removed : ℤ
  /-- Bytes those removals reclaimed. -/
  bytes : ℤ
  /-- Files the hold removed from the eligible set. -/
  heldBack : ℤ
  /-- Storage keys of the removed versions. -/
  storageKeys : List String

namespace Store

/-! ### The statements of a sweep -/

/-- `exists (select 1 from media_references r where r.media_id = media.id)`. -/
def isReferenced (s : Store) (mediaId : Uuid) : Bool := s.references.rows.any (·.mediaId = mediaId)

/-- The `where` of the purge. -/
def purgeable (s : Store) (siteId : Uuid) (before : Instant) (file : MediaFile) : Bool :=
  file.siteId = siteId && !file.legalHold && file.deletedAt.any (· < before) && !s.isReferenced file.id

/-- The files a purge claims, in order, but those that others have locked. -/
def claimPurge (s : Store) (siteId : Uuid) (window : Window) (batch : ℕ) (now : Instant) (locked : List Uuid) :
    List MediaFile :=
  (Sorting.sortBy (·.deletedAt.getD 0) (s.media.rows.filter fun file =>
    s.purgeable siteId (cutoff now window.purgeAfterDays) file && !locked.contains file.id)).take batch

/-- Every storage key a set of files owns, current version, superseded history and preset cache alike
(`owned_object_keys`). -/
def allKeysOf (s : Store) (ids : List Uuid) : List String :=
  let keys : List String := (s.media.rows.filter fun file => ids.contains file.id).map (·.storageKey) ++
    (s.versions.rows.filter fun version => ids.contains version.mediaId).map (·.storageKey) ++
    (s.derivatives.rows.filter fun derivative => ids.contains derivative.mediaId).map (·.storageKey)
  (Sorting.sortBy id keys).dedup

/-- The rows `delete from media where id = any($1) and deleted_at is not null` takes. -/
def purges (ids : List Uuid) (file : MediaFile) : Bool := ids.contains file.id && file.deletedAt.isSome

/-- The delete of a purge, with the rows that cascade. -/
def deletePurged (s : Store) (ids : List Uuid) : Store :=
  let gone (mediaId : Uuid) : Bool := s.media.rows.any fun file => file.id = mediaId && purges ids file
  { media := s.media.delete (purges ids)
    versions := s.versions.delete fun version => gone version.mediaId
    references := s.references.delete fun reference => gone reference.mediaId
    derivatives := s.derivatives.delete fun derivative => gone derivative.mediaId }

/-- Purge the trashed files of a site that are past their window and are not held or referenced. -/
def purgeEligible (s : Store) (siteId : Uuid) (window : Window) (batch : ℕ) (now : Instant) : Store × PurgeOutcome :=
  let claimed := s.claimPurge siteId window batch now []
  if claimed.isEmpty then (s, {})
  else
    let ids := claimed.map (·.id)
    (s.deletePurged ids,
      { purged := (s.media.rows.filter (purges ids)).length
        purgedBytes := (claimed.map (·.sizeBytes)).sum
        storageKeys := s.allKeysOf ids })

/-- Whether a version is older than the newest of its file. -/
def superseded (s : Store) (version : MediaVersion) : Bool :=
  s.versions.rows.any fun newer => newer.mediaId = version.mediaId && version.version < newer.version

/-- The `where` of the version sweep, for files that are held or not. -/
def sweepable (s : Store) (siteId : Uuid) (held : Bool) (before : Instant) (version : MediaVersion) : Bool :=
  (s.media.rows.any fun file =>
    file.id = version.mediaId && file.siteId = siteId && file.legalHold = held && file.deletedAt.isNone) &&
  s.superseded version && version.createdAt < before

/-- The versions a sweep claims, in order, but those that others have locked. -/
def claimVersions (s : Store) (siteId : Uuid) (window : Window) (batch : ℕ) (now : Instant) (locked : List Uuid) :
    List MediaVersion :=
  (Sorting.sortBy (·.createdAt) (s.versions.rows.filter fun version =>
    s.sweepable siteId false (cutoff now window.keepVersionsDays) version && !locked.contains version.id)).take batch

/-- The count of versions that only a hold keeps. -/
def heldVersions (s : Store) (siteId : Uuid) (window : Window) (now : Instant) : ℕ :=
  (s.versions.rows.filter (s.sweepable siteId true (cutoff now window.keepVersionsDays))).length

/-- `delete from media_versions where id = any($1)`. -/
def deleteVersions (s : Store) (ids : List Uuid) : Store :=
  { s with versions := s.versions.delete fun version => ids.contains version.id }

/-- What a sweep reports of the versions it claimed. -/
def versionSweep (claimed : List MediaVersion) (heldBack : ℕ) : VersionSweep where
  removed := claimed.length
  bytes := (claimed.map (·.sizeBytes)).sum
  heldBack
  storageKeys := claimed.map (·.storageKey)

/-- Remove superseded versions past their keep window. -/
def sweepVersions (s : Store) (siteId : Uuid) (window : Window) (batch : ℕ) (now : Instant) : Store × VersionSweep :=
  let claimed := s.claimVersions siteId window batch now []
  let heldBack := s.heldVersions siteId window now
  if claimed.isEmpty then (s, ⟨0, 0, heldBack, []⟩)
  else (s.deleteVersions (claimed.map (·.id)), versionSweep claimed heldBack)

/-- The files of a site that are past their purge window, with the reason each was skipped. -/
def purgeCandidates (s : Store) (siteId : Uuid) (window : Window) (batch : ℕ) (now : Instant) :
    List PurgeRefusal × ℕ × ℕ :=
  let before := cutoff now window.purgeAfterDays
  let heldBack := (s.media.rows.filter fun file =>
    file.siteId = siteId && file.legalHold && file.deletedAt.any (· < before)).length
  let past := Sorting.sortBy (fun file : MediaFile => toLex (file.deletedAt.getD 0, file.id))
    (s.media.rows.filter fun file =>
    file.siteId = siteId && !file.legalHold && file.deletedAt.any (· < before))
  let refused := (past.flatMap fun file =>
    (s.references.rows.filter fun reference => reference.mediaId = file.id && reference.resourceKind ≠ "").map
      fun reference =>
        ⟨file.id, file.filename, reference.resourceKind, reference.resourceId, reference.field⟩).take batch
  (refused, (refused.map (·.mediaId)).dedup.length, heldBack)

end Store

/-! ### Policies -/

/-- A row of `media_retention_policies`. -/
structure RetentionPolicy where
  id : Uuid
  siteId : Uuid
  /-- How the policy is named on the settings screen. -/
  name : String
  /-- The folder the policy governs; `none` means the whole site. -/
  folderId : Option Uuid
  /-- How long a superseded version survives. -/
  keepVersionsDays : ℤ
  /-- How long a trashed file can be restored. -/
  trashDays : ℤ
  /-- How long after `trashDays` the bytes actually go. -/
  purgeAfterDays : ℤ
  /-- Whether the hold applies to everything this policy would otherwise touch. -/
  legalHold : Bool
  /-- Whether the worker acts on this row. -/
  enabled : Bool
  createdAt : Instant
  deriving DecidableEq

def RetentionPolicy.window (policy : RetentionPolicy) : Window :=
  ⟨policy.keepVersionsDays, policy.trashDays, policy.purgeAfterDays⟩

/-- The library, its folders and the policies. -/
structure Retention where
  store : Store
  folders : Table Folder Folder.id
  policies : Table RetentionPolicy RetentionPolicy.id

/-- Files one sweep touches at most, per pass (`SWEEP_BATCH`). -/
def sweepBatch : ℕ := 200

/-- What a run adds up. -/
structure RunTotals where
  versionsRemoved : ℤ
  versionsBytes : ℤ
  purged : ℤ
  purgedBytes : ℤ
  /-- Files the sweep declined to purge because something points at them. -/
  refused : ℤ
  /-- Files the hold removed from the eligible set. -/
  heldBack : ℤ

namespace Retention

/-- The row `site_policy` inserts where there is none, with the defaults of its columns. -/
def standardPolicy (id siteId : Uuid) (now : Instant) : RetentionPolicy where
  id
  siteId
  name := "Standard retention"
  folderId := none
  keepVersionsDays := 365
  trashDays := 30
  purgeAfterDays := 90
  legalHold := false
  enabled := true
  createdAt := now

/-- The policy of a site that governs the whole site. -/
def sitePolicy (r : Retention) (siteId newId : Uuid) (now : Instant) : RetentionPolicy × Retention :=
  match (Sorting.sortBy (·.createdAt) (r.policies.rows.filter fun policy =>
      policy.siteId = siteId && policy.folderId = none)).head? with
  | some policy => (policy, r)
  | none =>
    let standard := standardPolicy newId siteId now
    match r.policies.rows.find? fun policy => policy.siteId = siteId && policy.name = standard.name with
    | some policy => (policy, r)
    | none => (standard, { r with policies := (r.policies.insert? standard).getD r.policies })

/-- An enabled policy of the site on one folder. -/
def folderPolicy (r : Retention) (siteId folderId : Uuid) : Option RetentionPolicy :=
  r.policies.rows.find? fun policy => policy.siteId = siteId && policy.folderId = some folderId && policy.enabled

/-- Sweep one site: superseded versions, then the trash. The sweep of the versions is at `sweptAt`, the purge at
`purgedAt`. -/
def runOnce (r : Retention) (siteId newId : Uuid) (now sweptAt purgedAt : Instant) :
    Retention × RunTotals × List String :=
  let (policy, r) := r.sitePolicy siteId newId now
  let (store, versions) := r.store.sweepVersions siteId policy.window sweepBatch sweptAt
  let (store, purge) := store.purgeEligible siteId policy.window sweepBatch purgedAt
  let (_, refused, held) := store.purgeCandidates siteId policy.window sweepBatch purgedAt
  ({ r with store },
    { versionsRemoved := versions.removed
      versionsBytes := versions.bytes
      purged := purge.purged
      purgedBytes := purge.purgedBytes
      refused
      heldBack := versions.heldBack + purge.heldBack + (held + purge.heldBack) },
    versions.storageKeys ++ purge.storageKeys)

end Retention

/-! ### What the statements take and leave -/

namespace Store

variable {s : Store} {siteId : Uuid} {window : Window} {batch : ℕ} {now before : Instant} {locked ids : List Uuid}
  {file : MediaFile} {version : MediaVersion} {key : String}

theorem purgeable_iff : s.purgeable siteId before file = true ↔
    file.siteId = siteId ∧ file.legalHold = false ∧ (∃ deletedAt, file.deletedAt = some deletedAt ∧
      deletedAt < before) ∧
      s.isReferenced file.id = false := by
  simp [purgeable, Option.any_eq_true, and_assoc]

theorem purgeable_of_past {before' : Instant} (h : s.purgeable siteId before file = true)
    (hpast : ∀ deletedAt, file.deletedAt = some deletedAt → deletedAt < before') : s.purgeable siteId
      before' file = true := by
  obtain ⟨hsite, hhold, ⟨deletedAt, hdeleted, -⟩, hreferenced⟩ := purgeable_iff.mp h
  exact purgeable_iff.mpr ⟨hsite, hhold, ⟨deletedAt, hdeleted, hpast deletedAt hdeleted⟩, hreferenced⟩

theorem sweepable_iff {held : Bool} : s.sweepable siteId held before version = true ↔
    ((∃ file ∈ s.media, file.id = version.mediaId ∧ file.siteId = siteId ∧ file.legalHold = held ∧
      file.deletedAt = none) ∧
      s.superseded version = true) ∧ version.createdAt < before := by
  simp [sweepable, Table.mem_def, and_assoc]

theorem of_mem_claimPurge (h : file ∈ s.claimPurge siteId window batch now locked) :
    file ∈ s.media ∧ s.purgeable siteId (cutoff now window.purgeAfterDays) file = true := by
  have hmem := List.mem_of_mem_take h
  simp only [Sorting.mem_sortBy, List.mem_filter, Bool.and_eq_true] at hmem
  exact ⟨hmem.1, hmem.2.1⟩

theorem of_mem_claimVersions (h : version ∈ s.claimVersions siteId window batch now locked) :
    version ∈ s.versions ∧ s.sweepable siteId false (cutoff now window.keepVersionsDays) version = true := by
  have hmem := List.mem_of_mem_take h
  simp only [Sorting.mem_sortBy, List.mem_filter, Bool.and_eq_true] at hmem
  exact ⟨hmem.1, hmem.2.1⟩

theorem mem_media_deletePurged : file ∈ (s.deletePurged ids).media ↔
    file ∈ s.media ∧ ¬ (file.id ∈ ids ∧ file.deletedAt.isSome = true) := by
  simp [deletePurged, Table.mem_delete, purges]

/-- **What a purge leaves**: every file it did not claim. -/
theorem mem_purgeEligible : file ∈ (s.purgeEligible siteId window batch now).1.media ↔
    file ∈ s.media ∧ file ∉ s.claimPurge siteId window batch now [] := by
  have hclaimed : ∀ {file : MediaFile}, file ∈ s.media →
      (file.id ∈ (s.claimPurge siteId window batch now []).map (·.id) ∧ file.deletedAt.isSome = true ↔
        file ∈ s.claimPurge siteId window batch now []) := by
    intro file hfile
    constructor
    · rintro ⟨hid, -⟩
      obtain ⟨claimed, hclaimed, hid⟩ := List.mem_map.mp hid
      rwa [← Table.eq_of_key (of_mem_claimPurge hclaimed).1 hfile hid]
    · intro h
      obtain ⟨-, -, -, ⟨deletedAt, hdeleted, -⟩, -⟩ := (of_mem_claimPurge h).imp_right purgeable_iff.mp
      exact ⟨List.mem_map.mpr ⟨file, h, rfl⟩, by simp [hdeleted]⟩
  rw [purgeEligible]
  split
  · rename_i hempty
    simp [List.isEmpty_iff.mp hempty]
  · rw [mem_media_deletePurged]
    exact and_congr_right fun hfile => not_congr (hclaimed hfile)

/-- **What a sweep of the versions leaves**: every version it did not claim. -/
theorem mem_sweepVersions : version ∈ (s.sweepVersions siteId window batch now).1.versions ↔
    version ∈ s.versions ∧ version ∉ s.claimVersions siteId window batch now [] := by
  rw [sweepVersions]
  split
  · rename_i hempty
    simp [List.isEmpty_iff.mp hempty]
  · simp only [deleteVersions, Table.mem_delete, List.contains_eq_mem, decide_eq_false_iff_not]
    refine and_congr_right fun hversion => not_congr ⟨fun hid => ?_, fun h => List.mem_map.mpr ⟨version, h, rfl⟩⟩
    obtain ⟨claimed, hclaimed, hid⟩ := List.mem_map.mp hid
    rwa [← Table.eq_of_key (of_mem_claimVersions hclaimed).1 hversion hid]

theorem sweepVersions_frame : (s.sweepVersions siteId window batch now).1.media = s.media ∧
    (s.sweepVersions siteId window batch now).1.references = s.references := by
  rw [sweepVersions]
  split <;> exact ⟨rfl, rfl⟩

theorem claimPurge_congr {s' : Store} (hmedia : s.media = s'.media) (hreferences : s.references = s'.references) :
    s.claimPurge siteId window batch now locked = s'.claimPurge siteId window batch now locked := by
  simp only [claimPurge, purgeable, isReferenced, hmedia, hreferences]

theorem mem_versions_purgeEligible (hfile : file ∈ s.media) (hid : file.id = version.mediaId)
    (hlive : file.deletedAt = none) :
    version ∈ (s.purgeEligible siteId window batch now).1.versions ↔ version ∈ s.versions := by
  have hkept : ∀ ids, (s.media.rows.any fun other => other.id = version.mediaId && purges ids other) = false := by
    intro ids
    rw [List.any_eq_false]
    intro other hother
    by_cases hsame : other.id = version.mediaId
    · rw [Table.eq_of_key hother hfile (hsame.trans hid.symm)]
      simp [purges, hlive]
    · simp [hsame]
  rw [purgeEligible]
  split
  · rfl
  · simp [deletePurged, Table.mem_delete, hkept]

end Store

/-! ### Which policy governs a file -/

namespace Retention

variable {r : Retention} {siteId newId : Uuid} {folderId : Option Uuid} {now sweptAt purgedAt : Instant}
  {fallback policy policy' : RetentionPolicy} {file : MediaFile} {version : MediaVersion}

/-- A folder's parent. -/
def parent (r : Retention) (id : Uuid) : Option Uuid := (r.folders.find? id).bind (·.parentId)

/-- A folder is a number of links above another, or it itself. -/
def At (r : Retention) (folderId : Option Uuid) (level : ℕ) (id : Uuid) : Prop :=
  folderId.bind (Forest.climb r.parent level) = some id

/-- The enabled policy of the nearest folder on the path that has one. -/
def Nearest (r : Retention) (siteId : Uuid) (folderId : Option Uuid) (policy : RetentionPolicy) : Prop :=
  ∃ level id, r.At folderId level id ∧ r.folderPolicy siteId id = some policy ∧
    ∀ nearer < level, ∀ other, r.At folderId nearer other → r.folderPolicy siteId other = none

/-- **The governing policy**: that of the nearest folder on the path that has one, else the site's. -/
def Governing (r : Retention) (siteId : Uuid) (folderId : Option Uuid) (fallback policy : RetentionPolicy) : Prop :=
  r.Nearest siteId folderId policy ∨ (∀ other, ¬ r.Nearest siteId folderId other) ∧ policy = fallback

/-! ### When a sweep goes by the governing policies -/

/-- A policy lets a trashed file go. -/
def DueForPurge (r : Retention) (siteId : Uuid) (policy : RetentionPolicy) (purgedAt : Instant)
    (file : MediaFile) : Prop :=
  policy.legalHold = false ∧ r.store.purgeable siteId (cutoff purgedAt policy.purgeAfterDays) file = true

/-- A policy lets a version go. -/
def DueForSweep (r : Retention) (siteId : Uuid) (policy : RetentionPolicy) (sweptAt : Instant)
    (version : MediaVersion) :
    Prop :=
  policy.legalHold = false ∧ r.store.sweepable siteId false (cutoff sweptAt policy.keepVersionsDays) version = true

/-- **A sweep by the governing policies**: what it removes the governing policy lets go, and what the governing policy
lets go the statements of the sweep select. -/
structure Governed (r : Retention) (siteId newId : Uuid) (now sweptAt purgedAt : Instant) : Prop where
  purged : ∀ file ∈ r.store.media, file ∉ (r.runOnce siteId newId now sweptAt purgedAt).1.store.media →
    ∀ policy, r.Governing siteId file.folderId (r.sitePolicy siteId newId now).1 policy →
      r.DueForPurge siteId policy purgedAt file
  offered : ∀ file ∈ r.store.media, ∀ policy, r.Governing siteId file.folderId
    (r.sitePolicy siteId newId now).1 policy →
    r.DueForPurge siteId policy purgedAt file →
      r.store.purgeable siteId (cutoff purgedAt (r.sitePolicy siteId newId now).1.purgeAfterDays) file = true
  swept : ∀ version ∈ r.store.versions, ∀ file ∈ r.store.media, file.id = version.mediaId → file.deletedAt = none →
    version ∉ (r.runOnce siteId newId now sweptAt purgedAt).1.store.versions →
      ∀ policy, r.Governing siteId file.folderId (r.sitePolicy siteId newId now).1 policy →
        r.DueForSweep siteId policy sweptAt version
  offeredVersions : ∀ version ∈ r.store.versions, ∀ file ∈ r.store.media, file.id = version.mediaId →
    ∀ policy, r.Governing siteId file.folderId (r.sitePolicy siteId newId now).1 policy →
      r.DueForSweep siteId policy sweptAt version →
        r.store.sweepable siteId false (cutoff sweptAt
          (r.sitePolicy siteId newId now).1.keepVersionsDays) version = true

/-- The files a sweep claims. -/
def claimedFiles (r : Retention) (siteId newId : Uuid) (now purgedAt : Instant) : List MediaFile :=
  r.store.claimPurge siteId (r.sitePolicy siteId newId now).1.window sweepBatch purgedAt []

/-- The versions a sweep claims. -/
def claimedVersions (r : Retention) (siteId newId : Uuid) (now sweptAt : Instant) : List MediaVersion :=
  r.store.claimVersions siteId (r.sitePolicy siteId newId now).1.window sweepBatch sweptAt []

/-- The rows of files a sweep reaches: past the site's window, with fewer than 200 such rows ahead, which were deleted
before or are before it in the table. -/
def ReachesFile (r : Retention) (siteId newId : Uuid) (now purgedAt : Instant) (file : MediaFile) : Prop :=
  let before := cutoff purgedAt (r.sitePolicy siteId newId now).1.purgeAfterDays
  r.store.purgeable siteId before file = true ∧
    (r.store.media.rows.filter fun other => r.store.purgeable siteId before other ∧
      (other.deletedAt.getD 0 < file.deletedAt.getD 0 ∨ other.deletedAt.getD 0 = file.deletedAt.getD 0 ∧
        r.store.media.rows.idxOf other < r.store.media.rows.idxOf file)).length < sweepBatch

/-- The rows of versions a sweep reaches, by when they were created. -/
def ReachesVersion (r : Retention) (siteId newId : Uuid) (now sweptAt : Instant) (version : MediaVersion) : Prop :=
  let before := cutoff sweptAt (r.sitePolicy siteId newId now).1.keepVersionsDays
  r.store.sweepable siteId false before version = true ∧
    (r.store.versions.rows.filter fun other => r.store.sweepable siteId false before other ∧
      (other.createdAt < version.createdAt ∨ other.createdAt = version.createdAt ∧
        r.store.versions.rows.idxOf other < r.store.versions.rows.idxOf version)).length < sweepBatch

/-- **The site's windows and the policies are in step**: where a folder's policy governs, it has no hold on what is
reached and its own window has passed too, and it lets nothing go before the site's window has; and where the site's
policy governs what is reached, that has no hold. -/
structure InStep (r : Retention) (siteId newId : Uuid) (now sweptAt purgedAt : Instant) : Prop where
  file : ∀ file ∈ r.store.media, r.ReachesFile siteId newId now purgedAt file →
    ∀ policy, r.Nearest siteId file.folderId policy →
      policy.legalHold = false ∧ ∀ deletedAt, file.deletedAt = some deletedAt →
        deletedAt < cutoff purgedAt policy.purgeAfterDays
  fileHold : ∀ file ∈ r.store.media, r.ReachesFile siteId newId now purgedAt file →
    (∀ policy, ¬ r.Nearest siteId file.folderId policy) → (r.sitePolicy siteId newId now).1.legalHold = false
  fileWindow : ∀ file ∈ r.store.media, ∀ policy, r.Nearest siteId file.folderId policy →
    r.DueForPurge siteId policy purgedAt file → ∀ deletedAt, file.deletedAt = some deletedAt →
      deletedAt < cutoff purgedAt (r.sitePolicy siteId newId now).1.purgeAfterDays
  version : ∀ version ∈ r.store.versions, r.ReachesVersion siteId newId now sweptAt version →
    ∀ file ∈ r.store.media, file.id = version.mediaId → ∀ policy, r.Nearest siteId file.folderId policy →
      policy.legalHold = false ∧ version.createdAt < cutoff sweptAt policy.keepVersionsDays
  versionHold : ∀ version ∈ r.store.versions, r.ReachesVersion siteId newId now sweptAt version →
    ∀ file ∈ r.store.media, file.id = version.mediaId →
    (∀ policy, ¬ r.Nearest siteId file.folderId policy) → (r.sitePolicy siteId newId now).1.legalHold = false
  versionWindow : ∀ version ∈ r.store.versions, ∀ file ∈ r.store.media, file.id = version.mediaId →
    ∀ policy, r.Nearest siteId file.folderId policy → r.DueForSweep siteId policy sweptAt version →
      version.createdAt < cutoff sweptAt (r.sitePolicy siteId newId now).1.keepVersionsDays

theorem mem_claimedFiles : file ∈ r.claimedFiles siteId newId now purgedAt ↔
    file ∈ r.store.media ∧ r.ReachesFile siteId newId now purgedAt file := by
  rw [claimedFiles, Store.claimPurge]
  simp only [List.contains_nil, Bool.not_false, Bool.and_true]
  constructor
  · intro h
    obtain ⟨hmem, hpast⟩ := List.mem_filter.mp (Sorting.mem_sortBy.mp (List.mem_of_mem_take h))
    exact ⟨hmem, hpast, (Sorting.mem_take_sortBy_filter (List.Nodup.of_map _ r.store.media.nodup) hmem hpast _).mp h⟩
  · rintro ⟨hmem, hpast, hfew⟩
    exact (Sorting.mem_take_sortBy_filter (List.Nodup.of_map _ r.store.media.nodup) hmem hpast _).mpr hfew

theorem mem_claimedVersions : version ∈ r.claimedVersions siteId newId now sweptAt ↔
    version ∈ r.store.versions ∧ r.ReachesVersion siteId newId now sweptAt version := by
  rw [claimedVersions, Store.claimVersions]
  simp only [List.contains_nil, Bool.not_false, Bool.and_true]
  constructor
  · intro h
    obtain ⟨hmem, hpast⟩ := List.mem_filter.mp (Sorting.mem_sortBy.mp (List.mem_of_mem_take h))
    exact ⟨hmem, hpast, (Sorting.mem_take_sortBy_filter (List.Nodup.of_map _ r.store.versions.nodup) hmem hpast _).mp h⟩
  · rintro ⟨hmem, hpast, hfew⟩
    exact (Sorting.mem_take_sortBy_filter (List.Nodup.of_map _ r.store.versions.nodup) hmem hpast _).mpr hfew

theorem sitePolicy_store : (r.sitePolicy siteId newId now).2.store = r.store := by
  simp only [sitePolicy]
  split
  · rfl
  · split <;> rfl

theorem mem_media_runOnce : file ∈ (r.runOnce siteId newId now sweptAt purgedAt).1.store.media ↔
    file ∈ r.store.media ∧ file ∉ r.claimedFiles siteId newId now purgedAt := by
  simp only [runOnce, Store.mem_purgeEligible, sitePolicy_store]
  rw [Store.claimPurge_congr Store.sweepVersions_frame.1 Store.sweepVersions_frame.2, Store.sweepVersions_frame.1,
    claimedFiles]

/-- Of the files that are not in the trash, a sweep removes the versions it claims. -/
theorem mem_versions_runOnce (hfile : file ∈ r.store.media) (hid : file.id = version.mediaId)
    (hlive : file.deletedAt = none) :
    version ∈ (r.runOnce siteId newId now sweptAt purgedAt).1.store.versions ↔
      version ∈ r.store.versions ∧ version ∉ r.claimedVersions siteId newId now sweptAt := by
  simp only [runOnce, sitePolicy_store]
  have hkept : file ∈ (r.store.sweepVersions siteId (r.sitePolicy siteId newId now).1.window sweepBatch
    sweptAt).1.media := by
    rw [Store.sweepVersions_frame.1]
    exact hfile
  rw [Store.mem_versions_purgeEligible hkept hid hlive, Store.mem_sweepVersions, claimedVersions]

theorem InStep.of_governed (h : r.Governed siteId newId now sweptAt purgedAt) :
    r.InStep siteId newId now sweptAt purgedAt := by
  have hfile : ∀ file ∈ r.claimedFiles siteId newId now purgedAt, ∀ policy,
      r.Governing siteId file.folderId (r.sitePolicy siteId newId now).1 policy →
        r.DueForPurge siteId policy purgedAt file := by
    intro file hclaimed
    exact h.purged file (Store.of_mem_claimPurge hclaimed).1 fun hkept => (mem_media_runOnce.mp hkept).2 hclaimed
  have hversion : ∀ version ∈ r.claimedVersions siteId newId now sweptAt, ∀ file ∈ r.store.media,
      file.id = version.mediaId → ∀ policy, r.Governing siteId file.folderId (r.sitePolicy siteId newId now).1 policy →
        r.DueForSweep siteId policy sweptAt version := by
    intro version hclaimed file hmem hid
    obtain ⟨hmemVersion, hsweepable⟩ := Store.of_mem_claimVersions hclaimed
    -- the file the statement joined is this one
    obtain ⟨⟨⟨other, hother, hotherId, -, -, hlive⟩, -⟩, -⟩ := Store.sweepable_iff.mp hsweepable
    obtain rfl := Table.eq_of_key hother hmem (hotherId.trans hid.symm)
    exact h.swept version hmemVersion other hother hid hlive fun hkept =>
      ((mem_versions_runOnce hother hid hlive).mp hkept).2 hclaimed
  refine ⟨fun file hmem hreached policy hnearest => ?_, fun file hmem hreached hnone => ?_,
    fun file hmem policy hnearest hdue => ?_,
    fun version hmemVersion hreached file hmem hid policy hnearest => ?_,
    fun version hmemVersion hreached file hmem hid hnone => ?_,
    fun version hmemVersion file hmem hid policy hnearest hdue => ?_⟩
  · obtain ⟨hhold, hpurgeable⟩ := hfile file (mem_claimedFiles.mpr ⟨hmem, hreached⟩) policy (.inl hnearest)
    obtain ⟨-, -, ⟨deletedAt, hdeleted, hpast⟩, -⟩ := Store.purgeable_iff.mp hpurgeable
    refine ⟨hhold, fun deletedAt' hdeleted' => ?_⟩
    rwa [← Option.some.inj (hdeleted.symm.trans hdeleted')]
  · exact (hfile file (mem_claimedFiles.mpr ⟨hmem, hreached⟩) _ (.inr ⟨hnone, rfl⟩)).1
  · intro deletedAt hdeleted
    obtain ⟨-, -, ⟨deletedAt', hdeleted', hpast⟩, -⟩ :=
      Store.purgeable_iff.mp (h.offered file hmem policy (.inl hnearest) hdue)
    rwa [Option.some.inj (hdeleted.symm.trans hdeleted')]
  · obtain ⟨hhold, hsweepable⟩ :=
      hversion version (mem_claimedVersions.mpr ⟨hmemVersion, hreached⟩) file hmem hid policy (.inl hnearest)
    exact ⟨hhold, (Store.sweepable_iff.mp hsweepable).2⟩
  · exact (hversion version (mem_claimedVersions.mpr ⟨hmemVersion, hreached⟩) file hmem hid _ (.inr ⟨hnone, rfl⟩)).1
  · exact (Store.sweepable_iff.mp (h.offeredVersions version hmemVersion file hmem hid policy (.inl hnearest) hdue)).2

theorem InStep.governed (h : r.InStep siteId newId now sweptAt purgedAt) :
    r.Governed siteId newId now sweptAt purgedAt := by
  refine ⟨fun file hmem hgone policy hpolicy => ?_, fun file hmem policy hpolicy hdue => ?_,
    fun version hmemVersion file hmem hid hlive hgone policy hpolicy => ?_,
    fun version hmemVersion file hmem hid policy hpolicy hdue => ?_⟩
  · have hclaimed : file ∈ r.claimedFiles siteId newId now purgedAt := by
      by_contra hclaimed
      exact hgone (mem_media_runOnce.mpr ⟨hmem, hclaimed⟩)
    obtain ⟨-, hreached⟩ := mem_claimedFiles.mp hclaimed
    rcases hpolicy with hnearest | ⟨hnone, rfl⟩
    · obtain ⟨hhold, hpast⟩ := h.file file hmem hreached policy hnearest
      exact ⟨hhold, Store.purgeable_of_past hreached.1 hpast⟩
    · exact ⟨h.fileHold file hmem hreached hnone, hreached.1⟩
  · rcases hpolicy with hnearest | ⟨-, rfl⟩
    · exact Store.purgeable_of_past hdue.2 (h.fileWindow file hmem policy hnearest hdue)
    · exact hdue.2
  · have hclaimed : version ∈ r.claimedVersions siteId newId now sweptAt := by
      by_contra hclaimed
      exact hgone ((mem_versions_runOnce hmem hid hlive).mpr ⟨hmemVersion, hclaimed⟩)
    obtain ⟨-, hreached⟩ := mem_claimedVersions.mp hclaimed
    rcases hpolicy with hnearest | ⟨hnone, rfl⟩
    · obtain ⟨hhold, hpast⟩ := h.version version hmemVersion hreached file hmem hid policy hnearest
      exact ⟨hhold, Store.sweepable_iff.mpr ⟨(Store.sweepable_iff.mp hreached.1).1, hpast⟩⟩
    · exact ⟨h.versionHold version hmemVersion hreached file hmem hid hnone, hreached.1⟩
  · rcases hpolicy with hnearest | ⟨-, rfl⟩
    · exact Store.sweepable_iff.mpr
        ⟨(Store.sweepable_iff.mp hdue.2).1, h.versionWindow version hmemVersion file hmem hid policy hnearest hdue⟩
    · exact hdue.2

variable (r siteId newId now sweptAt purgedAt)

/-- **A sweep treats every file by its governing policy** just when the site's windows and the policies are in step. -/
theorem sweep_governed_iff : r.Governed siteId newId now sweptAt purgedAt ↔
    r.InStep siteId newId now sweptAt purgedAt :=
  ⟨InStep.of_governed, InStep.governed⟩

/-! ### A folder with a policy of its own -/

/-- Folder 2 keeps what is deleted for a year, below folder 3 with its file 9, deleted at 0; the site keeps it for
ninety days. -/
def campaignLibrary : Retention where
  store :=
    { media := ⟨[⟨9, 1, some 3, "sites/1/9.png", "hero.png", 2048, false, some 0⟩], by decide⟩
      versions := ⟨[], by decide⟩
      references := ⟨[], by decide⟩
      derivatives := ⟨[], by decide⟩ }
  folders := ⟨[⟨2, none⟩, ⟨3, some 2⟩], by decide⟩
  policies := ⟨[standardPolicy 1 1 0,
      { standardPolicy 2 1 0 with name := "Campaigns", folderId := some 2, purgeAfterDays := 365 }],
    by decide⟩

/-- A sweep a hundred days later takes it. -/
theorem folder_ignored : ¬ campaignLibrary.Governed 1 7 0 (100 * 86400000000) (100 * 86400000000) ∧
    (campaignLibrary.runOnce 1 7 0 (100 * 86400000000) (100 * 86400000000)).1.store.media.rows = [] := by
  have hgone : (campaignLibrary.runOnce 1 7 0 (100 * 86400000000) (100 * 86400000000)).1.store.media.rows = [] := by
    decide +kernel
  refine ⟨fun h => ?_, hgone⟩
  have hnearest : campaignLibrary.Nearest 1 (some 3)
      { standardPolicy 2 1 0 with name := "Campaigns", folderId := some 2, purgeAfterDays := 365 } := by
    refine ⟨1, 2, by unfold At; decide +kernel, by decide +kernel, fun nearer hlt other hat => ?_⟩
    obtain rfl := Nat.lt_one_iff.mp hlt
    obtain rfl : 3 = other := Option.some.inj hat
    decide +kernel
  obtain ⟨-, hdue⟩ := h.purged _ (.head _) (by rw [Table.mem_def, hgone]; exact List.not_mem_nil) _ (.inl hnearest)
  exact absurd hdue (by decide +kernel)

end Retention

end Omnion.Media
