import Omnion.Backup.Part
import Omnion.Core.Text
import Omnion.Identity.Secrets
import Omnion.Library.Wrapping

/-!
# The restore preview

`build_preview` of `crates/backup/src/restore.rs`: what of an archive can be restored, what that
would cost, the warnings, and the phrase an operator has to type. It goes by the manifest and by
what re-reading the artifacts found.

## The model

The evidence on a part is the first piece that names it. The loop over the manifest's parts adds
up the totals, in `i64`.

## What is proved

* `buildPreview_sound_iff` — a preview offers only parts that are done and were re-read as
  recorded, adds the offered parts up, and comes with a phrase when it offers something, just when
  the evidence is `Honest`, the totals `Add` up, and the run has an identifier.
* `corrupt_offered` — a part whose artifact has another checksum than the recorded one is offered.

## Honest scope

`Sha256` is a parameter. `i64` arithmetic wraps around, as in a release build.
-/

namespace Omnion.Backup

open Identity Wrapping

/-- `MANIFEST_VERSION`. -/
def manifestVersion : ℕ := 1

/-- `STALE_AFTER_DAYS`. -/
def staleAfterDays : ℤ := 7

/-- A number as an `i64`. -/
def i64 (n : ℤ) : ℤ := wrap 0x8000000000000000 n

/-- What a part does to live data when it is restored. -/
inductive RestoreMode where
  /-- Live rows are replaced by the archive's. -/
  | replace
  /-- The archive is applied on top of what is there; nothing is dropped. -/
  | merge
  /-- Recorded for the operator's information; nothing is written to live tables. -/
  | advisory
  deriving DecidableEq

def RestoreMode.forPart (part : String) : RestoreMode :=
  if part = "database" ∨ part = "media" then .replace
  else if part = "themes" ∨ part = "plugins" then .advisory
  else .merge

/-- Whether restoring this part can remove live data. -/
def RestoreMode.isDestructive (mode : RestoreMode) : Bool := mode = .replace

/-- How one part of the archive reads to a restore. -/
structure RestorablePart where
  part : String
  /-- Whether its artifact was re-read successfully. -/
  available : Bool
  /-- Why it is not available, when it is not. -/
  reason : Option String
  /-- Things the archive holds for this part. -/
  itemCount : ℤ
  /-- Bytes the archive holds for this part. -/
  sizeBytes : ℤ
  /-- Hex SHA-256 of the artifact, when it was re-read. -/
  checksum : Option String
  /-- Live rows or objects this part would overwrite. -/
  liveMatches : ℤ
  /-- Live rows or objects this part would remove. -/
  liveDropped : ℤ
  mode : RestoreMode

/-- How serious a warning is. -/
inductive WarningSeverity where
  | notice
  | caution
  | danger

/-- The warning kinds. -/
inductive RestoreWarningCode where
  | staleArchive
  | notTheNewest
  | dataLoss
  | partUnavailable
  | runIncomplete
  | manifestVersion
  | passphraseRequired

/-- One thing the operator must know before pressing the button. -/
structure RestoreWarning where
  severity : WarningSeverity
  code : RestoreWarningCode
  message : String

structure RestorePreview where
  backupId : String
  label : String
  /-- When the run finished, RFC 3339, when it did. -/
  finishedAt : Option String
  /-- How old the archive is, in whole days. -/
  ageDays : ℤ
  /-- Every part in the manifest, available or not. -/
  parts : List RestorablePart
  warnings : List RestoreWarning
  /-- Sum of the available parts' bytes. -/
  restorableBytes : ℤ
  /-- How many objects or rows the whole restore would drop from live data. -/
  totalLiveDropped : ℤ
  /-- How many the whole restore would overwrite in place. -/
  totalLiveMatches : ℤ
  /-- The phrase the operator must type. Empty when the run cannot be restored at all. -/
  confirmPhrase : String
  /-- Whether anything at all is restorable. -/
  restorable : Bool

/-- What the route read about one part's live side. -/
structure LiveCounts where
  /-- Live rows or objects that exist now. -/
  total : ℤ := 0
  /-- Of those, the ones the archive also holds. -/
  matching : ℤ := 0

/-- Live rows the archive does not hold. -/
def LiveCounts.dropped (live : LiveCounts) : ℤ := max (i64 (live.total - live.matching)) 0

/-- Everything the caller knows about one archived part. -/
structure PartEvidence where
  part : Part
  /-- What re-reading the artifact found: its checksum and size, or the store's words. -/
  artifact : Except String (String × ℤ)
  /-- The live side, for the cost of replacing it. -/
  live : LiveCounts

/-- The phrase an operator must type to confirm this run. -/
def confirmPhrase (hashes : Hashes) (backupId : String) : String :=
  let trimmed := Text.trim backupId
  if trimmed.isEmpty || !trimmed.toList.all fun c => (Hex.value c).isSome || c = '-' then ""
  else
    let digest := Hex.encode (hashes.sha256 trimmed.toUTF8.toList).bytes
    "RESTORE " ++ String.ofList (digest.take 8)

/-- `str::parse::<i64>` on a few bytes: digits, after a sign or none. -/
def parseI64 (raw : List UInt8) : Option ℤ :=
  let (negative, number) := match raw with
    | 43 :: number => (false, number)
    | 45 :: number => (true, number)
    | number => (false, number)
  if number ≠ [] ∧ number.all fun byte => 48 ≤ byte && byte ≤ 57 then
    let value := number.foldl (fun n byte => n * 10 + (byte.toNat - 48 : ℤ)) 0
    some (if negative then -value else value)
  else none

/-- Days since 1970-01-01 for a proleptic Gregorian date. -/
def daysFromCivil (year : ℤ) (month day : ℕ) : ℤ :=
  let year := if month ≤ 2 then year - 1 else year
  let era := (if 0 ≤ year then year else year - 399).tdiv 400
  let yoe := year - era * 400
  let mp := (month + 9) % 12
  let doy : ℤ := (153 * (mp : ℤ) + 2).tdiv 5 + day - 1
  let doe := yoe * 365 + yoe.tdiv 4 - yoe.tdiv 100 + doy
  era * 146097 + doe - 719468

/-- RFC 3339 to seconds of the epoch. The fields are cut out by their bytes; one that is cut inside a
character has a byte that is no digit. -/
def parseEpoch (text : String) : Option ℤ := do
  let bytes := text.toUTF8.toList
  guard (19 ≤ bytes.length ∧ bytes[4]? = some 45 ∧ bytes[7]? = some 45 ∧ bytes[13]? = some 58)
  let year ← parseI64 (bytes.take 4)
  let month ← parseI64 ((bytes.drop 5).take 2)
  let day ← parseI64 ((bytes.drop 8).take 2)
  let hour ← parseI64 ((bytes.drop 11).take 2)
  let minute ← parseI64 ((bytes.drop 14).take 2)
  let second ← parseI64 ((bytes.drop 17).take 2)
  guard (1 ≤ month ∧ month ≤ 12 ∧ 1 ≤ day ∧ day ≤ 31)
  pure (daysFromCivil year month.toNat day.toNat * 86400 + hour * 3600 + minute * 60 + second)

def evidenceOn (evidence : List PartEvidence) (entry : Part) : Option PartEvidence :=
  evidence.find? fun item => item.part.part = entry.part

/-- What the evidence says of a part: whether it is available, its checksum, and why it is not. -/
def inspect (entry : Part) : Option PartEvidence → Bool × Option String × Option String
  | none => (false, none, some "not inspected")
  | some item =>
    match item.artifact with
    | .ok (checksum, size) =>
      if size ≠ entry.sizeBytes then
        (false, none,
          some ("artifact is " ++ toString size ++ " bytes, the manifest recorded " ++ toString entry.sizeBytes))
      else (true, some checksum, none)
    | .error reason => (false, none, some reason)

/-- Why a part that is not done is not. -/
def statusReason (entry : Part) : Option String :=
  match entry.status with
  | .done => none
  | .failed => some (entry.error.getD "the part failed during the run")
  | other => some ("the part ended as `" ++ other.asStr ++ "`")

/-- The live side of a part. -/
def liveOn (evidence : List PartEvidence) (entry : Part) : LiveCounts :=
    ((evidenceOn evidence entry).map (·.live)).getD {}

def previewPart (evidence : List PartEvidence) (entry : Part) : RestorablePart :=
  let mode := RestoreMode.forPart entry.part
  let (available, checksum, reason) := inspect entry (evidenceOn evidence entry)
  let live := liveOn evidence entry
  { part := entry.part
    available
    reason := reason.or (statusReason entry)
    itemCount := entry.itemCount
    sizeBytes := entry.sizeBytes
    checksum
    liveMatches := if mode.isDestructive then max live.matching 0 else 0
    liveDropped := if mode.isDestructive then max live.dropped 0 else 0
    mode }

/-- The loop's parts and totals. -/
structure Priced where
  parts : List RestorablePart := []
  restorableBytes : ℤ := 0
  totalLiveDropped : ℤ := 0
  totalLiveMatches : ℤ := 0

/-- The body of the loop over the manifest's parts. -/
def Priced.visit (evidence : List PartEvidence) (priced : Priced) (entry : Part) : Priced :=
  let part := previewPart evidence entry
  let live := liveOn evidence entry
  let priced :=
    if part.available then
      { priced with
        restorableBytes := i64 (priced.restorableBytes + max entry.sizeBytes 0)
        totalLiveMatches := i64 (priced.totalLiveMatches + max live.matching 0)
        totalLiveDropped :=
          i64 (priced.totalLiveDropped + max (if part.mode.isDestructive then live.dropped else 0) 0) }
    else priced
  { priced with parts := priced.parts ++ [part] }

/-- The warnings, in the order the wizard reads them. -/
def previewWarnings (manifest : Manifest) (priced : Priced) (restorable : Bool) (ageDays : ℤ) : List RestoreWarning :=
  let missing := (priced.parts.filter (!·.available)).map (·.part)
  (if manifest.version ≠ manifestVersion then
    [⟨.danger, .manifestVersion, "this archive was written by manifest version " ++ toString manifest.version ++
      " and this build reads version " ++ toString manifestVersion ++ "; it may not restore cleanly"⟩]
  else []) ++
  (if missing ≠ [] then
    [⟨.caution, .partUnavailable,
      if restorable then
        "not part of this restore: " ++ ", ".intercalate missing ++ ". The other parts are on the destination."
      else "nothing is restorable — " ++ ", ".intercalate missing ++ " could not be read from the destination."⟩]
  else []) ++
  (if manifest.parts.any (·.status ≠ .done) then
    [⟨.caution, .runIncomplete, "this run did not finish cleanly, so it is a partial restore point"⟩]
  else []) ++
  (if restorable && staleAfterDays ≤ ageDays then
    [⟨.caution, .staleArchive, "this restore point is " ++ toString ageDays ++ " day" ++
      (if ageDays = 1 then "" else "s") ++ " old; everything written since is not in it"⟩]
  else []) ++
  (if 0 < priced.totalLiveDropped then
    [⟨.danger, .dataLoss, toString priced.totalLiveDropped ++ " live item" ++
      (if priced.totalLiveDropped = 1 then "" else "s") ++ " would be dropped: " ++
      toString priced.totalLiveDropped ++ (if priced.totalLiveDropped = 1 then " is" else " are") ++
      " not in this archive"⟩]
  else [])

def buildPreview (hashes : Hashes) (backupId label : String) (manifest : Manifest) (evidence : List PartEvidence)
    (finishedAt : Option String) (now : ℤ) : RestorePreview :=
  let priced := manifest.parts.foldl (Priced.visit evidence) {}
  let restorable := priced.parts.any (·.available)
  let ageDays :=
    ((finishedAt.bind parseEpoch).map fun stamp => (max (i64 (now - stamp)) 0).tdiv 86400).getD 0
  { backupId
    label
    finishedAt
    ageDays
    parts := priced.parts
    warnings := previewWarnings manifest priced restorable ageDays
    restorableBytes := priced.restorableBytes
    totalLiveDropped := priced.totalLiveDropped
    totalLiveMatches := priced.totalLiveMatches
    confirmPhrase := if restorable then confirmPhrase hashes backupId else ""
    restorable }

/-! ### What a preview should say -/

/-- The run has an identifier that a phrase can be made of. -/
def Nameable (backupId : String) : Prop :=
  Text.trim backupId ≠ "" ∧ ∀ c ∈ (Text.trim backupId).toList, (Hex.value c).isSome ∨ c = '-'

def RestorePreview.offered (preview : RestorePreview) : List RestorablePart := preview.parts.filter (·.available)

/-- The part is done, and its artifact was re-read with the size and the checksum that are recorded. -/
def RereadAsRecorded (evidence : List PartEvidence) (entry : Part) : Prop :=
  entry.status = .done ∧ ∃ item checksum, evidenceOn evidence entry = some item ∧
    item.artifact = .ok (checksum, entry.sizeBytes) ∧ entry.checksum = some checksum

/-- **What a preview is for**: the manifest's parts, of which it offers those that are done and were re-read as
recorded; what they add up to; and a phrase when something is offered. -/
structure Sound (manifest : Manifest) (evidence : List PartEvidence) (preview : RestorePreview) : Prop where
  parts : preview.parts.map (·.part) = manifest.parts.map (·.part)
  available : ∀ x ∈ manifest.parts.zip preview.parts, x.2.available = true → RereadAsRecorded evidence x.1
  bytes : preview.restorableBytes = (preview.offered.map (·.sizeBytes)).sum
  dropped : preview.totalLiveDropped = (preview.offered.map (·.liveDropped)).sum
  matched : preview.totalLiveMatches = (preview.offered.map (·.liveMatches)).sum
  phrase : preview.confirmPhrase ≠ "" ↔ preview.offered ≠ []

/-- The artifact of the part was re-read with the size that is recorded. -/
def reread (evidence : List PartEvidence) (entry : Part) : Bool :=
  match evidenceOn evidence entry with
  | none => false
  | some item =>
    match item.artifact with
    | .ok (_, size) => size = entry.sizeBytes
    | .error _ => false

def rereadParts (manifest : Manifest) (evidence : List PartEvidence) : List Part :=
  manifest.parts.filter (reread evidence)

/-- Nothing was re-read with the size that is recorded but a part that is done, with the checksum that is recorded. -/
def Honest (manifest : Manifest) (evidence : List PartEvidence) : Prop :=
  ∀ entry ∈ rereadParts manifest evidence, RereadAsRecorded evidence entry

/-- What is added to the total of live matches for a part that replaces nothing. -/
def mergedMatches (evidence : List PartEvidence) (entry : Part) : ℤ :=
  if (RestoreMode.forPart entry.part).isDestructive then 0 else max (liveOn evidence entry).matching 0

/-- The sums of the parts that were re-read are numbers of 64 bits. What the totals count beyond them, for sizes
below zero and for parts that replace nothing, adds up to no difference. -/
structure Adds (manifest : Manifest) (evidence : List PartEvidence) : Prop where
  bytes : Fits 0x8000000000000000 ((rereadParts manifest evidence).map (·.sizeBytes)).sum
  negative : (2 * 0x8000000000000000 : ℤ) ∣ ((rereadParts manifest evidence).map fun entry => max
    (-entry.sizeBytes) 0).sum
  dropped : Fits 0x8000000000000000
    ((rereadParts manifest evidence).map fun entry => (previewPart evidence entry).liveDropped).sum
  matched : Fits 0x8000000000000000
    ((rereadParts manifest evidence).map fun entry => (previewPart evidence entry).liveMatches).sum
  merged : (2 * 0x8000000000000000 : ℤ) ∣ ((rereadParts manifest evidence).map (mergedMatches evidence)).sum

section Preview

variable {hashes : Hashes} {backupId label : String} {manifest : Manifest} {evidence : List PartEvidence}
  {finishedAt : Option String} {now : ℤ} {entry : Part} {entries : List Part} {priced : Priced}

theorem available_previewPart : (previewPart evidence entry).available = reread evidence entry := by
  unfold previewPart reread
  cases evidenceOn evidence entry with
  | none => rfl
  | some item =>
    rcases hartifact : item.artifact with reason | ⟨checksum, size⟩
    · simp [inspect, hartifact]
    · by_cases hsize : size = entry.sizeBytes <;> simp [inspect, hartifact, hsize]

theorem mode_previewPart : (previewPart evidence entry).mode = RestoreMode.forPart entry.part := rfl

theorem foldl_visit_parts (priced : Priced) :
    (entries.foldl (Priced.visit evidence) priced).parts = priced.parts ++ entries.map (previewPart evidence) := by
  induction entries generalizing priced with
  | nil => simp
  | cons entry entries ih =>
    rw [List.foldl_cons, ih]
    simp only [Priced.visit]
    split_ifs <;> simp

theorem foldl_visit_total (total : Priced → ℤ) (f : Part → ℤ)
    (hvisit : ∀ priced entry, total (Priced.visit evidence priced entry) =
      if reread evidence entry then i64 (total priced + f entry) else total priced) (hzero : total {} = 0) :
    total (entries.foldl (Priced.visit evidence) {}) = i64 ((entries.filter (reread evidence)).map f).sum := by
  have hfold : ∀ priced, total (entries.foldl (Priced.visit evidence) priced) =
      (entries.filter (reread evidence)).foldl (fun sum entry => i64 (sum + f entry)) (total priced) := by
    induction entries with
    | nil => exact fun _ => rfl
    | cons entry entries ih =>
      intro priced
      rw [List.foldl_cons, ih, hvisit]
      by_cases hentry : reread evidence entry = true <;> simp [hentry]
  have hwrap := foldl_wrap 0x8000000000000000 f (entries.filter (reread evidence)) 0
  rw [show wrap 0x8000000000000000 0 = 0 by decide, zero_add] at hwrap
  rw [hfold, hzero]
  exact hwrap

theorem parts_buildPreview :
    (buildPreview hashes backupId label manifest evidence finishedAt now).parts =
      manifest.parts.map (previewPart evidence) := foldl_visit_parts {}

theorem offered_buildPreview :
    (buildPreview hashes backupId label manifest evidence finishedAt now).offered =
      (rereadParts manifest evidence).map (previewPart evidence) := by
  simp only [RestorePreview.offered, parts_buildPreview, List.filter_map, Function.comp_def, available_previewPart,
    rereadParts]

/-- **The totals of a preview.** -/
theorem buildPreview_totals (hashes : Hashes) (backupId label : String) (manifest : Manifest)
    (evidence : List PartEvidence) (finishedAt : Option String) (now : ℤ) :
    let preview := buildPreview hashes backupId label manifest evidence finishedAt now
    preview.restorableBytes = i64 ((rereadParts manifest evidence).map fun entry => max entry.sizeBytes 0).sum ∧
      preview.totalLiveDropped =
        i64 ((rereadParts manifest evidence).map fun entry => (previewPart evidence entry).liveDropped).sum ∧
      preview.totalLiveMatches =
        i64 ((rereadParts manifest evidence).map fun entry => max (liveOn evidence entry).matching 0).sum := by
  refine ⟨foldl_visit_total (·.restorableBytes) _ (fun priced entry => ?_) rfl,
    foldl_visit_total (·.totalLiveDropped) _ (fun priced entry => ?_) rfl,
    foldl_visit_total (·.totalLiveMatches) _ (fun priced entry => ?_) rfl⟩
  · simp only [Priced.visit, available_previewPart]
    split_ifs <;> rfl
  · have hmax : max (if (RestoreMode.forPart entry.part).isDestructive then (liveOn evidence entry).dropped else 0) 0 =
        (previewPart evidence entry).liveDropped := by
      cases hmode : (RestoreMode.forPart entry.part).isDestructive <;> simp [previewPart, hmode]
    rw [← hmax]
    by_cases hreread : reread evidence entry = true
    · simp only [Priced.visit, available_previewPart, mode_previewPart, if_pos hreread]
      rfl
    · simp only [Priced.visit, available_previewPart, if_neg hreread]
  · simp only [Priced.visit, available_previewPart]
    split_ifs <;> rfl

theorem confirmPhrase_ne_empty : confirmPhrase hashes backupId ≠ "" ↔ Nameable backupId := by
  have hphrase : ∀ digest : String, "RESTORE " ++ digest ≠ "" := by
    intro digest h
    have hlength := congrArg String.length h
    simp at hlength
  have hiff : Nameable backupId ↔ ((Text.trim backupId).isEmpty ||
      !(Text.trim backupId).toList.all fun c => (Hex.value c).isSome || c = '-') = false := by
    simp [Nameable, Bool.or_eq_false_iff]
  rw [hiff]
  simp only [confirmPhrase]
  split
  · rename_i h
    simp [h]
  · rename_i h
    simp [hphrase, h]

theorem i64_sum_iff (entries : List Part) {f g extra : Part → ℤ} (h : ∀ entry, f entry = g entry + extra entry) :
    i64 (entries.map f).sum = (entries.map g).sum ↔
      Fits 0x8000000000000000 (entries.map g).sum ∧ (2 * 0x8000000000000000 : ℤ) ∣ (entries.map extra).sum := by
  have hsum : (entries.map f).sum - (entries.map g).sum = (entries.map extra).sum := by
    rw [show f = fun entry => g entry + extra entry from funext h, List.sum_map_add, add_sub_cancel_left]
  rw [i64, wrap_eq_iff (by decide), hsum]
  rfl

theorem forall_zip_map {P : Part × RestorablePart → Prop} {f : Part → RestorablePart} :
    (∀ x ∈ entries.zip (entries.map f), P x) ↔ ∀ entry ∈ entries, P (entry, f entry) := by
  induction entries with
  | nil => simp
  | cons entry entries ih => simp only [List.map_cons, List.zip_cons_cons, List.forall_mem_cons, ih]

/-! Each thing a preview should say comes down to one condition. -/

theorem available_iff :
    (∀ x ∈ manifest.parts.zip (buildPreview hashes backupId label manifest evidence finishedAt now).parts,
      x.2.available = true → RereadAsRecorded evidence x.1) ↔ Honest manifest evidence := by
  rw [parts_buildPreview, forall_zip_map, Honest, rereadParts]
  simp only [available_previewPart, List.mem_filter, and_imp]

theorem sum_offered (g : RestorablePart → ℤ) :
    ((buildPreview hashes backupId label manifest evidence finishedAt now).offered.map g).sum =
      ((rereadParts manifest evidence).map fun entry => g (previewPart evidence entry)).sum := by
  rw [offered_buildPreview, List.map_map]
  rfl

theorem restorableBytes_iff :
    (buildPreview hashes backupId label manifest evidence finishedAt now).restorableBytes =
        ((buildPreview hashes backupId label manifest evidence finishedAt now).offered.map (·.sizeBytes)).sum ↔
      Fits 0x8000000000000000 ((rereadParts manifest evidence).map (·.sizeBytes)).sum ∧
        (2 * 0x8000000000000000 : ℤ) ∣ ((rereadParts manifest evidence).map fun entry => max
          (-entry.sizeBytes) 0).sum := by
  rw [(buildPreview_totals ..).1, sum_offered]
  refine i64_sum_iff _ fun entry => ?_
  change max entry.sizeBytes 0 = entry.sizeBytes + max (-entry.sizeBytes) 0
  omega

theorem totalLiveDropped_iff :
    (buildPreview hashes backupId label manifest evidence finishedAt now).totalLiveDropped =
        ((buildPreview hashes backupId label manifest evidence finishedAt now).offered.map (·.liveDropped)).sum ↔
      Fits 0x8000000000000000
        ((rereadParts manifest evidence).map fun entry => (previewPart evidence entry).liveDropped).sum := by
  rw [(buildPreview_totals ..).2.1, sum_offered, i64_sum_iff _ fun entry => (add_zero _).symm]
  simp

theorem totalLiveMatches_iff :
    (buildPreview hashes backupId label manifest evidence finishedAt now).totalLiveMatches =
        ((buildPreview hashes backupId label manifest evidence finishedAt now).offered.map (·.liveMatches)).sum ↔
      Fits 0x8000000000000000
        ((rereadParts manifest evidence).map fun entry => (previewPart evidence entry).liveMatches).sum ∧
        (2 * 0x8000000000000000 : ℤ) ∣ ((rereadParts manifest evidence).map (mergedMatches evidence)).sum := by
  rw [(buildPreview_totals ..).2.2, sum_offered]
  refine i64_sum_iff _ fun entry => ?_
  cases hmode : (RestoreMode.forPart entry.part).isDestructive <;> simp [previewPart, mergedMatches, hmode]

theorem phrase_iff :
    ((buildPreview hashes backupId label manifest evidence finishedAt now).confirmPhrase ≠ "" ↔
        (buildPreview hashes backupId label manifest evidence finishedAt now).offered ≠ []) ↔
      (rereadParts manifest evidence ≠ [] → Nameable backupId) := by
  set preview := buildPreview hashes backupId label manifest evidence finishedAt now
  have hparts : preview.parts = manifest.parts.map (previewPart evidence) := parts_buildPreview
  have hoffered : preview.offered = (rereadParts manifest evidence).map (previewPart evidence) := offered_buildPreview
  have hrestorable : (preview.parts.any (·.available) = true) ↔ rereadParts manifest evidence ≠ [] := by
    rw [hparts, rereadParts, ne_eq, List.filter_eq_nil_iff]
    simp [available_previewPart]
  have hphrase : preview.confirmPhrase = if preview.parts.any (·.available) then confirmPhrase
    hashes backupId else "" :=
    rfl
  rw [hphrase, hoffered, ne_eq, ne_eq, List.map_eq_nil_iff]
  by_cases hnone : rereadParts manifest evidence = []
  · simp [hrestorable, hnone]
  · rw [if_pos (hrestorable.mpr hnone), ← ne_eq, confirmPhrase_ne_empty]
    simp [hnone]

variable (hashes backupId label manifest evidence finishedAt now)

/-- **What a preview offers was re-read as recorded, and it says what it adds up to**, just when the evidence is
honest, the totals add up, and the run can be named if anything is offered. -/
theorem buildPreview_sound_iff :
    Sound manifest evidence (buildPreview hashes backupId label manifest evidence finishedAt now) ↔
      Honest manifest evidence ∧ Adds manifest evidence ∧ (rereadParts manifest evidence ≠ [] → Nameable backupId) := by
  constructor
  · intro h
    obtain ⟨hfits, hnegative⟩ := restorableBytes_iff.mp h.bytes
    obtain ⟨hfits', hmerged⟩ := totalLiveMatches_iff.mp h.matched
    have hadds : Adds manifest evidence := ⟨hfits, hnegative, totalLiveDropped_iff.mp h.dropped, hfits', hmerged⟩
    exact ⟨available_iff.mp h.available, hadds, phrase_iff.mp h.phrase⟩
  · rintro ⟨hhonest, hadds, hnamed⟩
    refine ⟨?_, available_iff.mpr hhonest, restorableBytes_iff.mpr ⟨hadds.bytes, hadds.negative⟩,
      totalLiveDropped_iff.mpr hadds.dropped, totalLiveMatches_iff.mpr ⟨hadds.matched, hadds.merged⟩,
      phrase_iff.mpr hnamed⟩
    rw [parts_buildPreview, List.map_map]
    rfl

end Preview

/-! ### A corrupt archive -/

/-- Hash functions, as far as the first bytes of the hash of one identifier. -/
def confirmHashes : Hashes where
  sha256 _ := ⟨[0xae, 0x11, 0xf7, 0xe8] ++ List.replicate 28 0, rfl⟩
  hmacSha1 _ _ := .zeros 20
  hmacSha256 _ _ := .zeros 32

/-- A database of 4096 bytes, as the run recorded it. -/
def recordedDatabase : Part := Part.done "database" 5 4096 "3f0a" "/p/database.json"

/-- Re-reading its artifact finds as many bytes with another checksum. -/
def corruptEvidence : List PartEvidence := [⟨recordedDatabase, .ok ("77c1", 4096), {}⟩]

/-- The preview of that archive. -/
def corruptPreview : RestorePreview :=
  buildPreview confirmHashes "0199abcd-1234-7000-8000-000000000001" "nightly" ⟨"b", 1, [recordedDatabase], "t"⟩
    corruptEvidence none 0

/-- It is offered, without a warning. -/
theorem corrupt_offered : ¬ Sound ⟨"b", 1, [recordedDatabase], "t"⟩ corruptEvidence corruptPreview ∧
    corruptPreview.confirmPhrase = "RESTORE ae11f7e8" ∧ corruptPreview.warnings = [] := by
  refine ⟨fun h => ?_, by decide +kernel, by decide +kernel⟩
  obtain ⟨-, item, checksum, hitem, hartifact, hrecorded⟩ :=
    h.available (recordedDatabase, previewPart corruptEvidence recordedDatabase) (.head _) (by decide +kernel)
  obtain rfl := Option.some.inj (hitem.symm.trans (rfl : evidenceOn corruptEvidence recordedDatabase =
    some ⟨recordedDatabase, .ok ("77c1", 4096), {}⟩))
  obtain ⟨rfl, -⟩ := Prod.mk.inj (Except.ok.inj hartifact)
  exact absurd hrecorded (by decide)

end Omnion.Backup
