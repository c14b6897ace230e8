import Mathlib.Data.Prod.Lex
import Omnion.Library.Sorting
import Omnion.Library.Versions
import Omnion.Media.Versions

/-!
# The scanning pipeline

`claim_pending`, `apply_verdict` and `close_quarantine` of `crates/media/src/scanning.rs` with the sweep of
`routes/media_scan.rs`: a worker claims pending files, reads the bytes of each, posts them to the scanner and writes the
verdict onto the row, with a quarantine where it is a flag; a reviewer closes a quarantine.

## The model

Any number of parties run next to each other, one statement a step: workers, reviewers, and the replace and restore
calls that make other bytes current. What a transaction has written is locked until it ends, and a statement that
wants a locked row waits. A statement reads the rows committed when it begins. The scanner's answer is any verdict,
and comes at any time. A transaction can be dropped before it commits.

## What is proved

* `run_clean` — in every run whose steps are `Unswapped` the scanner has returned clean for the content of every file
  that is marked clean.
* `replaced_clean` — a file that is replaced after its scan stays clean.

## Honest scope

The keys under which calls put and delete objects are arguments: which they are is the subject of the version history.
The names a scan request carries, the run log and the events are left out. Files are not deleted.
-/

namespace Omnion.Media

open Transition Versions

/-- The `scan_status` of a file. -/
inductive ScanStatus where
  | pending
  | clean
  | flagged
  | skipped
  | error
  deriving DecidableEq

/-- What a scanner said about a file. -/
inductive Verdict where
  /-- The scanner looked and found nothing. -/
  | clean (engine : String)
  | flagged (engine detail : String)
  | error (detail : String)
  /-- Nobody looked: the file is above the scanner's ceiling. -/
  | skipped (limitMb : ℤ)

/-- The `scan_status` this verdict writes on the file. -/
def Verdict.status : Verdict → ScanStatus
  | .clean _ => .clean
  | .flagged .. => .flagged
  | .error _ => .error
  | .skipped _ => .skipped

/-- The `scan_detail` this verdict writes on the file. -/
def Verdict.detail : Verdict → String
  | .clean _ => ""
  | .flagged _ detail => detail
  | .error detail => detail
  | .skipped _ => ""

/-- The engine name, for the run log. -/
def Verdict.engine : Verdict → String
  | .clean engine => engine
  | .flagged engine _ => engine
  | _ => ""

/-- A site's scanning policy. -/
structure SiteScan where
  enabled : Bool
  /-- Whether a file whose scan could not complete is served. -/
  servesOnError : Bool
  maxScanMb : ℤ

/-- Whether a file this large goes to the scanner at all. -/
def SiteScan.scansSize (settings : SiteScan) (sizeBytes : ℤ) : Bool :=
  max sizeBytes 0 ≤ max (settings.maxScanMb * (1024 * 1024)) 0

/-- A row of `media`, as the pipeline reads it. -/
structure ScannedFile where
  siteId : Uuid
  /-- Object key of the current bytes. -/
  storageKey : String
  sizeBytes : ℤ
  createdAt : Instant
  deletedAt : Option Instant
  scanStatus : ScanStatus
  scanDetail : String
  scanEngine : Option String
  scannedAt : Option Instant

/-- A row of `media_quarantines`. -/
structure Quarantine where
  mediaId : Uuid
  siteId : Uuid
  detail : String
  runId : Option Uuid
  quarantinedAt : Instant
  quarantinedBy : Option Uuid
  releasedAt : Option Instant
  releasedBy : Option Uuid
  releaseReason : String

/-- Whether the quarantine is one of the file, and open. -/
def Quarantine.holds (row : Quarantine) (mediaId : Uuid) : Bool := row.mediaId = mediaId ∧ row.releasedAt = none

/-- One file the sweep is about to scan. -/
structure PendingScan where
  mediaId : Uuid
  /-- Object key to read the bytes from. -/
  storageKey : String
  sizeBytes : ℤ
  siteId : Uuid

/-- How many files one sweep takes at a time. -/
def Scanning.sweepBatch : ℤ := 50

/-- Longest release reason stored. -/
def releaseReasonLimit : ℕ := 300

/-- Reduce a release reason to something worth storing. -/
def releaseReason (raw : String) : Option String :=
  let trimmed := (Text.trim raw).toList
  if trimmed = [] then none
  else if releaseReasonLimit < trimmed.length then some (String.ofList (trimmed.take releaseReasonLimit ++ ['…']))
  else some (String.ofList trimmed)

/-! ### The parties -/

/-- A run: what the sweep has read of its site, and what it writes of itself. -/
structure Sweep where
  siteId : Uuid
  settings : SiteScan
  runId : Uuid
  actor : Uuid

/-- How far a party is. -/
inductive ScanStage where
  | idle
  /-- A worker has these files left, -/
  | sweeping (run : Sweep) (rest : List PendingScan)
  /-- has posted the bytes of one, -/
  | posting (run : Sweep) (scan : PendingScan) (bytes : Content) (rest : List PendingScan)
  /-- has its verdict, and what it has posted, -/
  | judged (run : Sweep) (scan : PendingScan) (sent : Option Content) (verdict : Verdict) (rest : List PendingScan)
  /-- has written the flag onto the row, -/
  | marked (run : Sweep) (scan : PendingScan) (verdict : Verdict) (rest : List PendingScan)
  /-- and has no statement left. -/
  | held (run : Sweep) (scan : PendingScan) (verdict : Verdict) (opened : Option Uuid) (rest : List PendingScan)
  /-- A reviewer has closed the quarantine, -/
  | closing (quarantineId mediaId : Uuid)
  /-- and has no statement left. -/
  | released (quarantineId mediaId : Uuid)
  /-- A replace or restore has made its bytes the current ones. -/
  | appended (mediaId : Uuid)

/-- What a release leaves. -/
structure Release where
  mediaId : Uuid
  media : Rows Uuid ℕ ScannedFile
  quarantines : Rows Uuid ℕ Quarantine

/-- The tables, the objects and the parties. -/
structure Scanning where
  mediaIds : List Uuid
  media : Rows Uuid ℕ ScannedFile
  quarantineIds : List Uuid
  quarantines : Rows Uuid ℕ Quarantine
  objects : String → Option Content
  /-- What the scanner has returned clean for. -/
  cleared : List Content
  parties : ℕ → ScanStage
  releases : List Release

/-- What happens. -/
inductive ScanEvent where
  /-- Bytes are put under a key, -/
  | put (key : String) (bytes : Content)
  /-- or an object is deleted. -/
  | delete (key : String)
  /-- A file is uploaded. -/
  | upload (id siteId : Uuid) (key : String) (sizeBytes : ℤ) (now : Instant)
  /-- A worker claims files, -/
  | claim (w : ℕ) (run : Sweep)
  /-- reads the bytes of the next, -/
  | fetch (w : ℕ)
  /-- has the scanner's answer, -/
  | answer (w : ℕ) (verdict : Verdict)
  /-- and executes the statements of `apply_verdict`. -/
  | mark (w : ℕ) (now : Instant)
  | hold (w : ℕ) (id : Uuid) (now : Instant)
  /-- A reviewer executes the statements of `close_quarantine`. -/
  | close (r : ℕ) (quarantineId : Uuid) (reason : String) (actor : Uuid) (now : Instant)
  | reopen (r : ℕ)
  /-- A replace or restore executes the update of `append_version`. -/
  | append (c : ℕ) (mediaId : Uuid) (key : String) (sizeBytes : ℤ)
  | commit (p : ℕ)
  | drop (p : ℕ)

namespace Scanning

/-- An empty library. -/
def init : Scanning := ⟨[], fun _ => {}, [], fun _ => {}, fun _ => none, [], fun _ => .idle, []⟩

/-- Party `p` goes on. -/
def move (s : Scanning) (p : ℕ) (stage : ScanStage) : Scanning :=
    { s with parties := Function.update s.parties p stage }

/-- Party `p` writes a file and goes on. -/
def writeFile (s : Scanning) (p : ℕ) (id : Uuid) (file : ScannedFile) (stage : ScanStage) : Scanning :=
  { s.move p stage with media := s.media.write p id (some file) }

/-- Party `p` writes a quarantine and goes on. -/
def writeQuarantine (s : Scanning) (p : ℕ) (id : Uuid) (row : Quarantine) (stage : ScanStage) : Scanning :=
  { s.move p stage with quarantines := s.quarantines.write p id (some row) }

/-- Party `p` commits. -/
def commit (s : Scanning) (p : ℕ) (stage : ScanStage) : Scanning :=
  { s.move p stage with media := s.media.commit p, quarantines := s.quarantines.commit p }

/-- Party `p` is rolled back. -/
def abort (s : Scanning) (p : ℕ) (stage : ScanStage) : Scanning :=
  { s.move p stage with media := s.media.rollback p, quarantines := s.quarantines.rollback p }

/-- The pending files of a site that nobody has locked, oldest first. -/
def claimPending (s : Scanning) (w : ℕ) (siteId : Uuid) (limit : ℤ) : List PendingScan :=
  let candidates : List (Uuid × ScannedFile) := s.mediaIds.filterMap fun id =>
    match (s.media id).committed with
    | some file =>
      if file.siteId = siteId ∧ file.scanStatus = .pending ∧ file.deletedAt = none ∧ (s.media id).free w = true then
        some (id, file)
      else none
    | none => none
  let ordered := Sorting.sortBy (fun row : Uuid × ScannedFile => toLex (row.2.createdAt, row.1)) candidates
  (ordered.take (max 1 (min limit sweepBatch)).toNat).map fun row =>
    ⟨row.1, row.2.storageKey, row.2.sizeBytes, row.2.siteId⟩

/-- Party `p` sees an open quarantine of the file. -/
def hasOpen (s : Scanning) (p : ℕ) (mediaId : Uuid) : Bool :=
  s.quarantineIds.any fun id => ((s.quarantines id).seen p).any (·.holds mediaId)

/-- `scan_one`, up to the post. -/
def scanOne (s : Scanning) (w : ℕ) (run : Sweep) (scan : PendingScan) (rest : List PendingScan) : Scanning :=
  if run.settings.scansSize scan.sizeBytes then
    match s.objects scan.storageKey with
    | some bytes => s.move w (.posting run scan bytes rest)
    | none => s.move w (.judged run scan none (.error "the file's bytes could not be read from the object store") rest)
  else s.move w (.judged run scan none (.skipped run.settings.maxScanMb) rest)

/-- The update of `apply_verdict`. A locked row makes it wait. -/
def markFile (s : Scanning) (w : ℕ) (run : Sweep) (scan : PendingScan) (verdict : Verdict) (rest : List PendingScan)
    (now : Instant) : Option Scanning :=
  match (s.media scan.mediaId).seen w with
  | none => none
  | some file =>
    if (s.media scan.mediaId).free w then
      let stage := if verdict.status = .flagged then .marked run scan verdict rest else .held run scan verdict none rest
      some (s.writeFile w scan.mediaId { file with
        scanStatus := verdict.status, scanDetail := verdict.detail, scanEngine := some verdict.engine
        scannedAt := some now } stage)
    else none

/-- The insert of `apply_verdict`, unless the file has an open quarantine. `media_quarantine_detail_present` refuses an
empty detail. -/
def holdFile (s : Scanning) (w : ℕ) (run : Sweep) (scan : PendingScan) (verdict : Verdict) (rest : List PendingScan)
    (id : Uuid) (now : Instant) : Option Scanning :=
  if id ∈ s.quarantineIds then none
  else if s.hasOpen w scan.mediaId then some (s.move w (.held run scan verdict none rest))
  else if verdict.detail = "" then some (s.abort w (.sweeping run rest))
  else
    some { s.writeQuarantine w id ⟨scan.mediaId, run.siteId, verdict.detail, some run.runId, now,
      some run.actor, none, none,
      ""⟩ (.held run scan verdict (some id) rest) with quarantineIds := id :: s.quarantineIds }

/-- The first update of `close_quarantine`. -/
def closeQuarantine (s : Scanning) (r : ℕ) (id : Uuid) (reason : String) (actor : Uuid)
    (now : Instant) : Option Scanning :=
  match releaseReason reason with
  | none => some s
  | some reason =>
    match (s.quarantines id).seen r with
    | none => some s
    | some row =>
      if row.releasedAt = none then
        if (s.quarantines id).free r then
          some (s.writeQuarantine r id { row with
            releasedAt := some now, releasedBy := some actor, releaseReason := reason } (.closing id row.mediaId))
        else none
      else some s

/-- The second update of `close_quarantine`. -/
def reopenFile (s : Scanning) (r : ℕ) (id mediaId : Uuid) : Option Scanning :=
  match (s.media mediaId).seen r with
  | none => some (s.move r (.released id mediaId))
  | some file =>
    if file.scanStatus = .flagged then
      if (s.media mediaId).free r then
        some (s.writeFile r mediaId { file with
          scanStatus := .skipped, scanDetail := "released from quarantine without a further scan" }
            (.released id mediaId))
      else none
    else some (s.move r (.released id mediaId))

/-- The update of `append_version`. -/
def appendVersion (s : Scanning) (c : ℕ) (mediaId : Uuid) (key : String) (sizeBytes : ℤ) : Option Scanning :=
  match (s.media mediaId).seen c with
  | none => none
  | some file =>
    if (s.media mediaId).free c then
      some (s.writeFile c mediaId { file with storageKey := key, sizeBytes } (.appended mediaId))
    else none

def step (s : Scanning) : ScanEvent → Option Scanning
  | .put key bytes => some { s with objects := Function.update s.objects key (some bytes) }
  | .delete key => some { s with objects := Function.update s.objects key none }
  | .upload id siteId key sizeBytes now =>
    if id ∈ s.mediaIds then none
    else
      let file : ScannedFile := ⟨siteId, key, sizeBytes, now, none, .pending, "", none, none⟩
      some { s with mediaIds := id :: s.mediaIds, media := Function.update s.media id { committed := some file } }
  | .claim w run =>
    match s.parties w with
    | .idle =>
      if run.settings.enabled then some (s.move w (.sweeping run (s.claimPending w run.siteId sweepBatch))) else none
    | _ => none
  | .fetch w =>
    match s.parties w with
    | .sweeping run (scan :: rest) => some (s.scanOne w run scan rest)
    | _ => none
  | .answer w verdict =>
    match s.parties w with
    | .posting run scan bytes rest =>
      some { s.move w (.judged run scan (some bytes) verdict rest) with
        cleared := if verdict.status = .clean then bytes :: s.cleared else s.cleared }
    | _ => none
  | .mark w now =>
    match s.parties w with
    | .judged run scan _ verdict rest => s.markFile w run scan verdict rest now
    | _ => none
  | .hold w id now =>
    match s.parties w with
    | .marked run scan verdict rest => s.holdFile w run scan verdict rest id now
    | _ => none
  | .close r id reason actor now =>
    match s.parties r with
    | .idle => s.closeQuarantine r id reason actor now
    | _ => none
  | .reopen r =>
    match s.parties r with
    | .closing id mediaId => s.reopenFile r id mediaId
    | _ => none
  | .append c mediaId key sizeBytes =>
    match s.parties c with
    | .idle => s.appendVersion c mediaId key sizeBytes
    | _ => none
  | .commit p =>
    match s.parties p with
    | .held run _ _ _ rest => some (s.commit p (.sweeping run rest))
    | .released _ mediaId =>
      let t := s.commit p .idle
      some { t with releases := s.releases ++ [⟨mediaId, t.media, t.quarantines⟩] }
    | .appended _ => some (s.commit p .idle)
    | _ => none
  | .drop p => some (s.abort p .idle)

end Scanning

/-! ### The content of clean files -/

namespace Scanning

/-- The scanner has returned clean for the file's content. -/
def Cleared (s : Scanning) (file : ScannedFile) : Prop :=
  ∀ content, s.objects file.storageKey = some content → content ∈ s.cleared

/-- **Clean files are scanned**: the scanner has returned clean for the content of every file that is marked clean. -/
def CleanScanned (s : Scanning) : Prop :=
  ∀ id file, (s.media id).committed = some file → file.scanStatus = .clean → s.Cleared file

/-- **No content is swapped.** When the verdict clean is written onto a file, its content is what the worker has posted.
When other bytes become current, or are put under the current key, the file is not clean, or the scanner has returned
clean for them. -/
def Unswapped (s : Scanning) : ScanEvent → Prop
  | .put key bytes => ∀ id ∈ s.mediaIds, ∀ file,
      ((s.media id).committed = some file ∨ ∃ p, (s.media id).held = some (p, some file)) →
        file.scanStatus = .clean → file.storageKey = key → bytes ∈ s.cleared
  | .mark w _ => ∀ run scan sent verdict rest, s.parties w = .judged run scan sent verdict rest →
    verdict.status = .clean →
      ∀ file, (s.media scan.mediaId).seen w = some file → ∀ content, s.objects file.storageKey = some content →
        sent = some content
  | .append c mediaId key _ => ∀ file, (s.media mediaId).seen c = some file → file.scanStatus = .clean →
      ∀ content, s.objects key = some content → content ∈ s.cleared
  | _ => True

/-- **What holds of every state.** The scanner has returned clean for the content of the clean versions of a row, and
for what a worker with the verdict clean has posted. -/
structure Vouched (s : Scanning) : Prop where
  ids : ∀ id, id ∉ s.mediaIds → s.media id = {}
  committed : s.CleanScanned
  held : ∀ id p file, (s.media id).held = some (p, some file) → file.scanStatus = .clean → s.Cleared file
  sent : ∀ w run scan sent verdict rest, s.parties w = .judged run scan sent verdict rest → verdict.status = .clean →
    ∃ bytes, sent = some bytes ∧ bytes ∈ s.cleared

variable {s t : Scanning} {p w r c : ℕ} {id mediaId : Uuid} {file : ScannedFile} {stage : ScanStage} {e : ScanEvent}
  {es : List ScanEvent} {row : Quarantine} {key : String} {bytes : Content} {now : Instant}

theorem parties_move_self : (s.move p stage).parties p = stage := Function.update_self ..

theorem parties_move_of_ne (h : w ≠ p) : (s.move p stage).parties w = s.parties w := Function.update_of_ne h ..

theorem Vouched.seen (h : s.Vouched) (hseen : (s.media id).seen p = some file) (hclean : file.scanStatus = .clean) :
    s.Cleared file := by
  rcases (s.media id).seen_cases p with hheld | ⟨-, hcommitted⟩
  · exact h.held id p file (hheld.trans (by rw [hseen])) hclean
  · exact h.committed id file (hcommitted.symm.trans hseen) hclean

theorem Vouched.move (h : s.Vouched)
    (hstage : ∀ run scan sent verdict rest, stage = .judged run scan sent verdict rest → verdict.status = .clean →
      ∃ bytes, sent = some bytes ∧ bytes ∈ s.cleared) : (s.move p stage).Vouched := by
  refine ⟨h.ids, h.committed, h.held, fun w run scan sent verdict rest hw => ?_⟩
  by_cases hwp : w = p
  · rw [hwp, parties_move_self] at hw
    exact hstage run scan sent verdict rest hw
  · rw [parties_move_of_ne hwp] at hw
    exact h.sent w run scan sent verdict rest hw

theorem Vouched.writeFile (h : s.Vouched) (hid : id ∈ s.mediaIds)
    (hstage : ∀ run scan sent verdict rest, stage ≠ .judged run scan sent verdict rest)
    (hfile : file.scanStatus = .clean → s.Cleared file) : (s.writeFile p id file stage).Vouched := by
  have hmove := h.move (p := p) fun run scan sent verdict rest heq => absurd heq (hstage run scan sent verdict rest)
  refine ⟨fun id' hid' => ?_, fun id' file' hcommitted hclean => ?_, fun id' p' file' hheld hclean => ?_, hmove.sent⟩
  · have hne : id' ≠ id := fun heq => hid' (heq ▸ hid)
    exact (Rows.write_of_ne hne).trans (h.ids id' hid')
  · exact h.committed id' file' (Rows.committed_write.symm.trans hcommitted) hclean
  · by_cases heq : id' = id
    · subst heq
      simp only [Scanning.writeFile, Rows.write_self, Option.some.injEq, Prod.mk.injEq] at hheld
      obtain ⟨-, rfl⟩ := hheld
      exact hfile hclean
    · simp only [Scanning.writeFile, Rows.write_of_ne heq] at hheld
      exact h.held id' p' file' hheld hclean

theorem Vouched.writeQuarantine {quarantineIds : List Uuid} (h : s.Vouched)
    (hstage : ∀ run scan sent verdict rest, stage ≠ .judged run scan sent verdict rest) :
    ({ s.writeQuarantine p id row stage with quarantineIds } : Scanning).Vouched := by
  have hmove := h.move (p := p) fun run scan sent verdict rest heq => absurd heq (hstage run scan sent verdict rest)
  exact ⟨h.ids, h.committed, h.held, hmove.sent⟩

theorem Vouched.commit (h : s.Vouched) (hstage : ∀ run scan sent verdict rest,
    stage ≠ .judged run scan sent verdict rest) :
    (s.commit p stage).Vouched := by
  have hmove := h.move (p := p) fun run scan sent verdict rest heq => absurd heq (hstage run scan sent verdict rest)
  refine ⟨fun id hid => Rows.commit_of_empty (h.ids id hid), fun id file hcommitted hclean => ?_,
    fun id q file hheld hclean => ?_, hmove.sent⟩
  · exact h.seen (Rows.committed_commit.symm.trans hcommitted) hclean
  · exact h.held id q file (Rows.held_commit.mp hheld).1 hclean

theorem Vouched.abort (h : s.Vouched) (hstage : ∀ run scan sent verdict rest,
    stage ≠ .judged run scan sent verdict rest) :
    (s.abort p stage).Vouched := by
  have hmove := h.move (p := p) fun run scan sent verdict rest heq => absurd heq (hstage run scan sent verdict rest)
  refine ⟨fun id hid => Rows.rollback_of_empty (h.ids id hid), fun id file hcommitted hclean => ?_,
    fun id q file hheld hclean => ?_, hmove.sent⟩
  · exact h.committed id file (Rows.committed_rollback.symm.trans hcommitted) hclean
  · exact h.held id q file (Rows.held_rollback.mp hheld).1 hclean

theorem Vouched.put (h : s.Vouched) (hok : s.Unswapped (.put key bytes)) :
    ({ s with objects := Function.update s.objects key (some bytes) } : Scanning).Vouched := by
  have hkey : ∀ {id file}, ((s.media id).committed = some file ∨ ∃ p, (s.media id).held = some (p, some file)) →
      file.scanStatus = .clean → s.Cleared file → ∀ content,
        Function.update s.objects key (some bytes) file.storageKey = some content → content ∈ s.cleared := by
    intro id file hversion hclean hcleared content hcontent
    by_cases hkey : file.storageKey = key
    · rw [hkey, Function.update_self] at hcontent
      cases hcontent
      refine hok id ?_ file hversion hclean hkey
      by_contra hid
      rw [h.ids id hid] at hversion
      rcases hversion with hversion | ⟨p, hversion⟩ <;> cases hversion
    · rw [Function.update_of_ne hkey] at hcontent
      exact hcleared content hcontent
  refine ⟨h.ids, fun id file hcommitted hclean => ?_, fun id p file hheld hclean => ?_, h.sent⟩
  · exact hkey (.inl hcommitted) hclean (h.committed id file hcommitted hclean)
  · exact hkey (.inr ⟨p, hheld⟩) hclean (h.held id p file hheld hclean)

theorem Vouched.delete (h : s.Vouched) :
    ({ s with objects := Function.update s.objects key none } : Scanning).Vouched := by
  have hkey : ∀ {file : ScannedFile}, s.Cleared file → ∀ content,
      Function.update s.objects key none file.storageKey = some content → content ∈ s.cleared := by
    intro file hcleared content hcontent
    by_cases hkey : file.storageKey = key
    · rw [hkey, Function.update_self] at hcontent
      cases hcontent
    · rw [Function.update_of_ne hkey] at hcontent
      exact hcleared content hcontent
  exact ⟨h.ids, fun id file hcommitted hclean => hkey (h.committed id file hcommitted hclean),
    fun id p file hheld hclean => hkey (h.held id p file hheld hclean), h.sent⟩

theorem Vouched.upload (h : s.Vouched) (hid : id ∉ s.mediaIds) (hpending : file.scanStatus = .pending) :
    ({ s with mediaIds := id :: s.mediaIds, media := Function.update s.media id { committed := some file } } :
      Scanning).Vouched := by
  refine ⟨fun id' hid' => ?_, fun id' file' hcommitted hclean => ?_, fun id' p file' hheld hclean => ?_, h.sent⟩
  · obtain ⟨hne, hold⟩ := not_or.mp (mt List.mem_cons.mpr hid')
    exact (Function.update_of_ne hne ..).trans (h.ids id' hold)
  · by_cases heq : id' = id
    · subst heq
      simp only [Function.update_self, Option.some.injEq] at hcommitted
      rw [← hcommitted, hpending] at hclean
      cases hclean
    · simp only [Function.update_of_ne heq] at hcommitted
      exact h.committed id' file' hcommitted hclean
  · by_cases heq : id' = id
    · subst heq
      simp only [Function.update_self] at hheld
      cases hheld
    · simp only [Function.update_of_ne heq] at hheld
      exact h.held id' p file' hheld hclean

theorem Vouched.answer {run : Sweep} {scan : PendingScan} {verdict : Verdict}
    {rest : List PendingScan} (h : s.Vouched) :
    ({ s.move w (.judged run scan (some bytes) verdict rest) with
      cleared := if verdict.status = .clean then bytes :: s.cleared else s.cleared } : Scanning).Vouched := by
  have hsub : ∀ {content}, content ∈ s.cleared →
      content ∈ if verdict.status = .clean then bytes :: s.cleared else s.cleared := by
    intro content hcontent
    split_ifs
    · exact List.mem_cons_of_mem _ hcontent
    · exact hcontent
  refine ⟨h.ids,
    fun id file hcommitted hclean content hcontent => hsub (h.committed id file hcommitted hclean content hcontent),
    fun id p file hheld hclean content hcontent => hsub (h.held id p file hheld hclean content hcontent),
    fun w' run' scan' sent verdict' rest' hw hclean => ?_⟩
  by_cases hww : w' = w
  · subst hww
    obtain ⟨rfl, rfl, rfl, rfl, rfl⟩ := ScanStage.judged.inj (parties_move_self.symm.trans hw)
    refine ⟨bytes, rfl, ?_⟩
    rw [if_pos hclean]
    exact List.mem_cons_self
  · obtain ⟨bytes', hsent, hmem⟩ := h.sent w' run' scan' sent verdict' rest'
      ((parties_move_of_ne hww).symm.trans hw) hclean
    exact ⟨bytes', hsent, hsub hmem⟩

theorem Vouched.step_fetch (h : s.Vouched) (hstep : step s (.fetch w) = some t) : t.Vouched := by
  simp only [Scanning.step] at hstep
  split at hstep
  · rename_i run scan rest _
    cases hstep
    rw [scanOne]
    split_ifs
    · split
      · exact h.move fun _ _ _ _ _ => ScanStage.noConfusion
      · refine h.move fun _ _ _ _ _ hjudged hclean => ?_
        obtain ⟨-, -, -, rfl, -⟩ := ScanStage.judged.inj hjudged
        cases hclean
    · refine h.move fun _ _ _ _ _ hjudged hclean => ?_
      obtain ⟨-, -, -, rfl, -⟩ := ScanStage.judged.inj hjudged
      cases hclean
  · cases hstep

theorem Vouched.step_mark (h : s.Vouched) (hok : s.Unswapped (.mark w now)) (hstep : step s (.mark w now) = some t) :
    t.Vouched := by
  simp only [Scanning.step] at hstep
  split at hstep
  · rename_i run scan sent verdict rest hstage
    rw [markFile] at hstep
    split at hstep
    · cases hstep
    · rename_i file hseen
      split_ifs at hstep with hfree hflag <;>
      · cases hstep
        refine h.writeFile (Rows.mem_of_seen h.ids hseen) (fun _ _ _ _ _ => ScanStage.noConfusion)
          fun hclean content hcontent => ?_
        obtain ⟨bytes, hsent, hmem⟩ := h.sent w run scan sent verdict rest hstage hclean
        have heq := hok run scan sent verdict rest hstage hclean file hseen content hcontent
        rw [hsent] at heq
        exact Option.some.inj heq ▸ hmem
  · cases hstep

theorem Vouched.step_hold (h : s.Vouched) (hstep : step s (.hold w id now) = some t) : t.Vouched := by
  simp only [Scanning.step] at hstep
  split at hstep
  · rw [holdFile] at hstep
    split_ifs at hstep
    · cases hstep
      exact h.move fun _ _ _ _ _ => ScanStage.noConfusion
    · cases hstep
      exact h.abort fun _ _ _ _ _ => ScanStage.noConfusion
    · cases hstep
      exact h.writeQuarantine fun _ _ _ _ _ => ScanStage.noConfusion
  · cases hstep

theorem Vouched.step_close (h : s.Vouched) {reason : String} {actor : Uuid}
    (hstep : step s (.close r id reason actor now) = some t) : t.Vouched := by
  simp only [Scanning.step] at hstep
  split at hstep
  · rw [closeQuarantine] at hstep
    split at hstep
    · cases hstep
      exact h
    · split at hstep
      · cases hstep
        exact h
      · split_ifs at hstep
        · cases hstep
          exact h.writeQuarantine fun _ _ _ _ _ => ScanStage.noConfusion
        · cases hstep
          exact h
  · cases hstep

theorem Vouched.step_reopen (h : s.Vouched) (hstep : step s (.reopen r) = some t) : t.Vouched := by
  simp only [Scanning.step] at hstep
  split at hstep
  · rw [reopenFile] at hstep
    split at hstep
    · cases hstep
      exact h.move fun _ _ _ _ _ => ScanStage.noConfusion
    · rename_i file hseen
      split_ifs at hstep
      · cases hstep
        refine h.writeFile (Rows.mem_of_seen h.ids hseen) (fun _ _ _ _ _ => ScanStage.noConfusion) fun hclean => ?_
        cases hclean
      · cases hstep
        exact h.move fun _ _ _ _ _ => ScanStage.noConfusion
  · cases hstep

/-- **What the steps keep.** -/
theorem Vouched.step (h : s.Vouched) (hok : s.Unswapped e) (hstep : step s e = some t) : t.Vouched := by
  cases e with
  | put key bytes =>
    cases hstep
    exact h.put hok
  | delete key =>
    cases hstep
    exact h.delete
  | upload id siteId key sizeBytes now =>
    simp only [Scanning.step] at hstep
    split_ifs at hstep with hid
    cases hstep
    exact h.upload hid rfl
  | claim w run =>
    simp only [Scanning.step] at hstep
    split at hstep
    · split_ifs at hstep
      cases hstep
      exact h.move fun _ _ _ _ _ => ScanStage.noConfusion
    · cases hstep
  | fetch w => exact h.step_fetch hstep
  | answer w verdict =>
    simp only [Scanning.step] at hstep
    split at hstep
    · cases hstep
      exact h.answer
    · cases hstep
  | mark w now => exact h.step_mark hok hstep
  | hold w id now => exact h.step_hold hstep
  | close r id reason actor now => exact h.step_close hstep
  | reopen r => exact h.step_reopen hstep
  | append c mediaId key sizeBytes =>
    simp only [Scanning.step] at hstep
    split at hstep
    · rw [appendVersion] at hstep
      split at hstep
      · cases hstep
      · rename_i file hseen
        split_ifs at hstep
        cases hstep
        exact h.writeFile (Rows.mem_of_seen h.ids hseen) (fun _ _ _ _ _ => ScanStage.noConfusion)
          fun hclean content hcontent =>
          hok file hseen hclean content hcontent
    · cases hstep
  | commit p =>
    simp only [Scanning.step] at hstep
    split at hstep
    · cases hstep
      exact h.commit fun _ _ _ _ _ => ScanStage.noConfusion
    · cases hstep
      have hcommit : (s.commit p .idle).Vouched := h.commit fun _ _ _ _ _ => ScanStage.noConfusion
      exact ⟨hcommit.ids, hcommit.committed, hcommit.held, hcommit.sent⟩
    · cases hstep
      exact h.commit fun _ _ _ _ _ => ScanStage.noConfusion
    · cases hstep
  | drop p =>
    cases hstep
    exact h.abort fun _ _ _ _ _ => ScanStage.noConfusion

theorem Vouched.init : init.Vouched :=
  ⟨fun _ _ => rfl, fun _ _ hfile => (nomatch hfile), fun _ _ _ hheld => (nomatch hheld),
    fun _ _ _ _ _ _ hw => (nomatch hw)⟩

/-- **Clean files are scanned** in every run in which no content is swapped. -/
theorem run_clean (h : Run step Unswapped init es s) : s.CleanScanned :=
  (h.invariant Vouched.init fun _ _ _ hinv hok hstep => hinv.step hok hstep).committed

/-! ### Two runs -/

/-- A test of `Unswapped`. -/
def isUnswapped (s : Scanning) : ScanEvent → Bool
  | .put key bytes => s.mediaIds.all fun id =>
      ((s.media id).committed.toList ++ ((s.media id).held.bind (·.2)).toList).all fun file =>
        file.scanStatus ≠ .clean || file.storageKey ≠ key || bytes ∈ s.cleared
  | .mark w _ =>
    match s.parties w with
    | .judged _ scan sent verdict _ => verdict.status ≠ .clean ||
        ((s.media scan.mediaId).seen w).all fun file => (s.objects file.storageKey).all (sent = some ·)
    | _ => true
  | .append c mediaId key _ => ((s.media mediaId).seen c).all fun file =>
      file.scanStatus ≠ .clean || (s.objects key).all (· ∈ s.cleared)
  | _ => true

theorem unswapped_of_isUnswapped (h : s.isUnswapped e = true) : s.Unswapped e := by
  cases e with
  | put key bytes =>
    intro id hid file hversion hclean hkey
    have hmem : file ∈ (s.media id).committed.toList ++ ((s.media id).held.bind (·.2)).toList := by
      rcases hversion with hcommitted | ⟨p, hheld⟩
      · simp [hcommitted]
      · simp [hheld]
    have htest := List.all_eq_true.mp (List.all_eq_true.mp h id hid) file hmem
    simpa [hclean, hkey] using htest
  | mark w now =>
    intro run scan sent verdict rest hw hclean file hseen content hcontent
    simpa [isUnswapped, hw, hclean, hseen, hcontent] using h
  | append c mediaId key sizeBytes =>
    intro file hseen hclean content hcontent
    simpa [isUnswapped, hseen, hclean, hcontent] using h
  | _ => trivial

/-- A sweep of site 1. -/
def logoSweep : Sweep := ⟨1, ⟨true, false, 25⟩, 9, 3⟩

/-- A file is uploaded and scanned. -/
theorem run_clean_scanned : ∃ s, Run step Unswapped init
    [.put "logo.png" [1], .upload 7 1 "logo.png" 1 0, .claim 1 logoSweep, .fetch 1,
      .answer 1 (.clean "clamav"), .mark 1 5,
      .commit 1] s ∧ ((s.media 7).committed.map (·.scanStatus) = some .clean) ∧ s.CleanScanned := by
  have hexec : (exec (fun s e => if s.isUnswapped e then s.step e else none) init
      [.put "logo.png" [1], .upload 7 1 "logo.png" 1 0, .claim 1 logoSweep, .fetch 1,
        .answer 1 (.clean "clamav"), .mark 1 5,
        .commit 1]).map (fun s => (s.media 7).committed.map (·.scanStatus)) = some (some .clean) := by
    decide +kernel
  obtain ⟨s, hrun, hclean⟩ := Run.of_exec_of_map (fun _ _ => unswapped_of_isUnswapped) hexec
  exact ⟨s, hrun, hclean, run_clean hrun⟩

/-- A file that is replaced after its scan stays clean. -/
theorem replaced_clean : ∃ s, Run step Any init
    [.put "logo.png" [1], .upload 7 1 "logo.png" 1 0, .claim 1 logoSweep, .fetch 1,
      .answer 1 (.clean "clamav"), .mark 1 5,
      .commit 1, .put "logo/v2.png" [2], .append 2 7 "logo/v2.png" 1, .commit 2] s ∧ ¬ s.CleanScanned := by
  have hexec : (exec step init
      [.put "logo.png" [1], .upload 7 1 "logo.png" 1 0, .claim 1 logoSweep, .fetch 1,
        .answer 1 (.clean "clamav"), .mark 1 5,
        .commit 1, .put "logo/v2.png" [2], .append 2 7 "logo/v2.png" 1, .commit 2]).map
      (fun s => ((s.media 7).committed.map fun file => (file.scanStatus, s.objects file.storageKey), s.cleared)) =
        some (some (.clean, some [2]), [[1]]) := by
    decide +kernel
  obtain ⟨s, hrun, hend⟩ := Run.of_exec_map hexec
  obtain ⟨hfile, hcleared⟩ := Prod.mk.inj hend
  obtain ⟨file, hcommitted, hrow⟩ := Option.map_eq_some_iff.mp hfile
  obtain ⟨hclean, hcontent⟩ := Prod.mk.inj hrow
  refine ⟨s, hrun, fun h => ?_⟩
  have hmem := h 7 file hcommitted hclean [2] hcontent
  rw [hcleared] at hmem
  exact absurd hmem (by decide)

end Scanning

end Omnion.Media
