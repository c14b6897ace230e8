import Mathlib.Data.Nat.Cast.Basic
import Omnion.Backup.Preview

/-!
# Writing an archive's objects back

`restore_objects` of `crates/backup/src/restore_objects.rs`: every object of the index is read from
the archive, hashed and written to the library, and a report counts what landed.

## The model

What reads, writes and touches changes a world of its own, and answers what it likes. `attempt` is
what becomes of an object; the report counts the attempts up, in `i32` and `i64`. A ledger of the calls
is kept by the callees (`Collaborators.logged`), not by the code.

## What is proved

* `restoreObjects_accounted_iff` — an object is written just when its bytes were read with the recorded
  checksum, and the report counts every object, every byte and every failure: just when the numbers
  of the objects that landed and that failed, and the sum of the sizes, fit.
* `sizes_overflow` — two objects that landed, of a negative size together.

## Honest scope

`Sha256` is a parameter. `i32` and `i64` arithmetic wraps around, as in a release build.
-/

namespace Omnion.Backup

open Identity Wrapping

/-- A number as an `i32`. -/
def i32 (n : ℤ) : ℤ := wrap 0x80000000 n

/-- One object of the index. -/
structure CopiedObject where
  id : Uuid
  siteId : Uuid
  storageKey : String
  filename : String
  contentType : String
  archiveKey : String
  /-- Bytes that were written to the archive. -/
  sizeBytes : ℤ
  checksum : String

/-- One object that could not be written back. -/
structure RestoreFailure where
  storageKey : String
  archiveKey : String
  reason : String

/-- What a media restore did. -/
structure MediaRestoreReport where
  objectsRestored : ℤ := 0
  rowsTouched : ℤ := 0
  bytesRestored : ℤ := 0
  objectsFailed : ℤ := 0
  failures : List RestoreFailure := []
  /-- Live items the restore removed. -/
  dropped : ℤ := 0

/-- `MAX_REPORTED_FAILURES`. -/
def maxReportedFailures : ℕ := 20

/-- The archive's reader, the library's writer and what touches its rows. -/
structure Collaborators (σ : Type) where
  read : CopiedObject → StateM σ (Except String (List UInt8))
  write : CopiedObject → List UInt8 → StateM σ (Except String Unit)
  touch : CopiedObject → StateM σ Bool

/-- The hex SHA-256 of an artifact's bytes. -/
def bytesChecksum (hashes : Hashes) (bytes : List UInt8) : String :=
  String.ofList (Hex.encode (hashes.sha256 bytes).bytes)

/-- Record one failure, capping the list and never the count. -/
def countFailure (report : MediaRestoreReport) (object : CopiedObject) (reason : String) : MediaRestoreReport :=
  { report with
    objectsFailed := i32 (report.objectsFailed + 1)
    failures :=
      if report.failures.length < maxReportedFailures then
        report.failures ++ [⟨object.storageKey, object.archiveKey, reason⟩]
      else report.failures }

/-- Why an object with another checksum is refused. -/
def corruptReason (checksum recorded : String) : String :=
  s!"the archived bytes hash to {checksum}, the index recorded {recorded}"

variable {σ : Type}

/-- The body of the loop. -/
def restoreObject (hashes : Hashes) (c : Collaborators σ) (report : MediaRestoreReport) (object : CopiedObject) :
    StateM σ MediaRestoreReport := do
  match ← c.read object with
  | .error reason => pure (countFailure report object reason)
  | .ok bytes =>
    let checksum := bytesChecksum hashes bytes
    if checksum ≠ object.checksum then pure (countFailure report object (corruptReason checksum object.checksum))
    else
      match ← c.write object bytes with
      | .error reason => pure (countFailure report object reason)
      | .ok () =>
        let report :=
          { report with
            objectsRestored := i32 (report.objectsRestored + 1)
            bytesRestored := i64 (report.bytesRestored + max object.sizeBytes 0) }
        if ← c.touch object then pure { report with rowsTouched := i32 (report.rowsTouched + 1) }
        else pure report

/-- Write every archived object back into the live library. -/
def restoreObjects (hashes : Hashes) (c : Collaborators σ) (objects : List CopiedObject) :
    StateM σ MediaRestoreReport :=
  objects.foldlM (restoreObject hashes c) {}

/-! ### What becomes of an object -/

/-- What became of an object. -/
inductive Attempt where
  | unread (object : CopiedObject) (reason : String)
  | corrupt (object : CopiedObject) (bytes : List UInt8)
  | unwritten (object : CopiedObject) (bytes : List UInt8) (reason : String)
  | landed (object : CopiedObject) (bytes : List UInt8) (touched : Bool)

/-- A call, and its answer. -/
inductive Call where
  | read (object : CopiedObject) (answer : Except String (List UInt8))
  | write (object : CopiedObject) (bytes : List UInt8) (answer : Except String Unit)
  | touch (object : CopiedObject) (answer : Bool)

namespace Attempt

def object : Attempt → CopiedObject
  | unread object _ | corrupt object _ | unwritten object _ _ | landed object _ _ => object

/-- What the archive answered. -/
def archived : Attempt → Except String (List UInt8)
  | unread _ reason => .error reason
  | corrupt _ bytes | unwritten _ bytes _ | landed _ bytes _ => .ok bytes

/-- What was handed to the library. -/
def written : Attempt → Option (List UInt8)
  | unread _ _ | corrupt _ _ => none
  | unwritten _ bytes _ | landed _ bytes _ => some bytes

/-- The calls that were made. -/
def calls : Attempt → List Call
  | unread object reason => [.read object (.error reason)]
  | corrupt object bytes => [.read object (.ok bytes)]
  | unwritten object bytes reason => [.read object (.ok bytes), .write object bytes (.error reason)]
  | landed object bytes touched => [.read object (.ok bytes), .write object bytes (.ok ()), .touch object touched]

/-- The failure it is, unless the object landed. -/
def failure (hashes : Hashes) : Attempt → Option RestoreFailure
  | unread object reason | unwritten object _ reason => some ⟨object.storageKey, object.archiveKey, reason⟩
  | corrupt object bytes =>
    some ⟨object.storageKey, object.archiveKey, corruptReason (bytesChecksum hashes bytes) object.checksum⟩
  | landed _ _ _ => none

/-- The object that landed. -/
def restored : Attempt → Option CopiedObject
  | landed object _ _ => some object
  | _ => none

end Attempt

/-- An object is read, hashed, written, and its row touched. -/
def attempt (hashes : Hashes) (c : Collaborators σ) (object : CopiedObject) : StateM σ Attempt := do
  match ← c.read object with
  | .error reason => pure (.unread object reason)
  | .ok bytes =>
    if bytesChecksum hashes bytes ≠ object.checksum then pure (.corrupt object bytes)
    else
      match ← c.write object bytes with
      | .error reason => pure (.unwritten object bytes reason)
      | .ok () => return .landed object bytes (← c.touch object)

/-- The objects, one after the other. -/
def attempts (hashes : Hashes) (c : Collaborators σ) (objects : List CopiedObject) : StateM σ (List Attempt) :=
  objects.mapM (attempt hashes c)

/-- The callees keep a ledger. -/
def Collaborators.logged (c : Collaborators σ) : Collaborators (σ × List Call) where
  read object := fun (s, log) => match c.read object s with | (answer, s') => (answer, s', log ++ [.read object answer])
  write object bytes := fun (s, log) =>
    match c.write object bytes s with | (answer, s') => (answer, s', log ++ [.write object bytes answer])
  touch object := fun (s, log) =>
    match c.touch object s with | (answer, s') => (answer, s', log ++ [.touch object answer])

/-- The size that is recorded of an object, none if it is negative. -/
def CopiedObject.size (object : CopiedObject) : ℕ := object.sizeBytes.toNat

/-- The objects that landed. -/
def restoredOf (l : List Attempt) : List CopiedObject := l.filterMap Attempt.restored

/-- The failures, in the order of the index. -/
def failuresOf (hashes : Hashes) (l : List Attempt) : List RestoreFailure := l.filterMap (Attempt.failure hashes)

/-- **What a restore is to do and to report**, of an index, what became of its objects, and the calls. -/
structure Accounted (hashes : Hashes) (objects : List CopiedObject) (l : List Attempt) (calls : List Call)
    (report : MediaRestoreReport) : Prop where
  /-- Every object is attempted, in the order of the index, -/
  each : l.map Attempt.object = objects
  /-- by these calls and no others. -/
  calls : calls = l.flatMap Attempt.calls
  /-- Bytes are written just when they were read and have the checksum of the index. -/
  written : ∀ a ∈ l, ∀ bytes,
    a.written = some bytes ↔ a.archived = .ok bytes ∧ bytesChecksum hashes bytes = a.object.checksum
  total : report.objectsRestored + report.objectsFailed = objects.length
  bytes : report.bytesRestored = ((restoredOf l).map CopiedObject.size).sum
  /-- The failures that are named are the first ones, -/
  failures : report.failures = (failuresOf hashes l).take maxReportedFailures
  /-- and all are counted. -/
  failed : report.objectsFailed = (failuresOf hashes l).length

/-- The numbers are in their types. -/
structure Counts (hashes : Hashes) (l : List Attempt) : Prop where
  restored : (restoredOf l).length < 0x80000000
  failed : (failuresOf hashes l).length < 0x80000000
  bytes : ((restoredOf l).map CopiedObject.size).sum < 0x8000000000000000

/-! ### The report of the attempts -/

section

variable {hashes : Hashes} {c : Collaborators σ} {object : CopiedObject}
  {objects : List CopiedObject} {l : List Attempt}
  {report : MediaRestoreReport} {s : σ} {log : List Call} {a : Attempt}

/-- What an attempt adds to the report. -/
def MediaRestoreReport.record (hashes : Hashes) (report : MediaRestoreReport) : Attempt → MediaRestoreReport
  | .unread object reason | .unwritten object _ reason => countFailure report object reason
  | .corrupt object bytes => countFailure report object (corruptReason (bytesChecksum hashes bytes) object.checksum)
  | .landed object _ touched =>
    { report with
      objectsRestored := i32 (report.objectsRestored + 1)
      bytesRestored := i64 (report.bytesRestored + max object.sizeBytes 0)
      rowsTouched := if touched then i32 (report.rowsTouched + 1) else report.rowsTouched }

/-- The ways in which an attempt ends. -/
inductive Became (hashes : Hashes) (c : Collaborators σ) (object : CopiedObject) (s : σ) : Attempt → σ → Prop where
  | unread {reason : String} {s₁ : σ} (hread : c.read object s = (.error reason, s₁)) :
    Became hashes c object s (.unread object reason) s₁
  | corrupt {bytes : List UInt8} {s₁ : σ} (hread : c.read object s = (.ok bytes, s₁))
    (hsum : bytesChecksum hashes bytes ≠ object.checksum) : Became hashes c object s (.corrupt object bytes) s₁
  | unwritten {bytes : List UInt8} {reason : String} {s₁ s₂ : σ} (hread : c.read object s = (.ok bytes, s₁))
    (hsum : bytesChecksum hashes bytes = object.checksum) (hwrite : c.write object bytes s₁ = (.error reason, s₂)) :
    Became hashes c object s (.unwritten object bytes reason) s₂
  | landed {bytes : List UInt8} {touched : Bool} {s₁ s₂ s₃ : σ} (hread : c.read object s = (.ok bytes, s₁))
    (hsum : bytesChecksum hashes bytes = object.checksum) (hwrite : c.write object bytes s₁ = (.ok (), s₂))
    (htouch : c.touch object s₂ = (touched, s₃)) : Became hashes c object s (.landed object bytes touched) s₃

theorem exists_became (hashes : Hashes) (c : Collaborators σ) (object : CopiedObject) (s : σ) :
    ∃ a s', Became hashes c object s a s' := by
  cases hread : c.read object s with
  | mk archived s₁ =>
    cases archived with
    | error reason => exact ⟨_, _, .unread hread⟩
    | ok bytes =>
      by_cases hsum : bytesChecksum hashes bytes = object.checksum
      · cases hwrite : c.write object bytes s₁ with
        | mk stored s₂ =>
          cases stored with
          | error reason => exact ⟨_, _, .unwritten hread hsum hwrite⟩
          | ok => exact ⟨_, _, .landed hread hsum hwrite rfl⟩
      · exact ⟨_, _, .corrupt hread hsum⟩

namespace Became

variable {s' : σ}

theorem attempt_eq (h : Became hashes c object s a s') : attempt hashes c object s = (a, s') := by
  simp only [attempt, bind, StateT.bind]
  cases h with
  | unread hread =>
    rw [hread]
    rfl
  | corrupt hread hsum =>
    simp only [hread, if_pos hsum]
    rfl
  | unwritten hread hsum hwrite =>
    simp only [hread, if_neg (not_not.mpr hsum), StateT.bind, bind, hwrite]
    rfl
  | landed hread hsum hwrite htouch =>
    simp only [hread, if_neg (not_not.mpr hsum), StateT.bind, bind, hwrite, htouch]
    rfl

/-- **The body of the loop** records what became of the object. -/
theorem restoreObject_eq (h : Became hashes c object s a s') :
    restoreObject hashes c report object s = (report.record hashes a, s') := by
  simp only [restoreObject, bind, StateT.bind]
  cases h with
  | unread hread =>
    rw [hread]
    rfl
  | corrupt hread hsum =>
    simp only [hread, if_pos hsum]
    rfl
  | unwritten hread hsum hwrite =>
    simp only [hread, if_neg (not_not.mpr hsum), StateT.bind, bind, hwrite]
    rfl
  | @landed _ touched _ _ _ hread hsum hwrite htouch =>
    simp only [hread, if_neg (not_not.mpr hsum), StateT.bind, bind, hwrite, htouch]
    cases touched <;> rfl

theorem logged_read {answer : Except String (List UInt8)} (h : c.read object s = (answer, s')) (log : List Call) :
    c.logged.read object (s, log) = (answer, s', log ++ [.read object answer]) := by
  simp only [Collaborators.logged, h]

theorem logged_write {bytes : List UInt8} {answer : Except String Unit} (h : c.write object bytes s = (answer, s'))
    (log : List Call) :
    c.logged.write object bytes (s, log) = (answer, s', log ++ [.write object bytes answer]) := by
  simp only [Collaborators.logged, h]

theorem logged_touch {answer : Bool} (h : c.touch object s = (answer, s')) (log : List Call) :
    c.logged.touch object (s, log) = (answer, s', log ++ [.touch object answer]) := by
  simp only [Collaborators.logged, h]

theorem logged (h : Became hashes c object s a s') (log : List Call) :
    Became hashes c.logged object (s, log) a (s', log ++ a.calls) := by
  cases h with
  | unread hread => exact .unread (logged_read hread log)
  | corrupt hread hsum => exact .corrupt (logged_read hread log) hsum
  | unwritten hread hsum hwrite =>
    have h := Became.unwritten (logged_read hread log) hsum (logged_write hwrite _)
    rwa [List.append_assoc] at h
  | landed hread hsum hwrite htouch =>
    have h := Became.landed (logged_read hread log) hsum (logged_write hwrite _) (logged_touch htouch _)
    rwa [List.append_assoc, List.append_assoc] at h

end Became

theorem attempts_cons : attempts hashes c (object :: objects) s =
    (((attempt hashes c object s).1 :: (attempts hashes c objects (attempt hashes c object s).2).1,
      (attempts hashes c objects (attempt hashes c object s).2).2) : List Attempt × σ) := by
  simp only [attempts, List.mapM_cons, bind, StateT.bind]
  rfl

/-- **The report is that of the attempts.** -/
theorem foldlM_restoreObject : objects.foldlM (restoreObject hashes c) report s =
    (((attempts hashes c objects s).1.foldl (MediaRestoreReport.record hashes) report,
      (attempts hashes c objects s).2) :
      MediaRestoreReport × σ) := by
  induction objects generalizing report s with
  | nil => rfl
  | cons object objects ih =>
    obtain ⟨a, s', h⟩ := exists_became hashes c object s
    simp only [List.foldlM_cons, bind, StateT.bind, h.restoreObject_eq, attempts_cons, h.attempt_eq]
    exact ih

theorem attempts_logged : attempts hashes c.logged objects (s, log) =
    (((attempts hashes c objects s).1, (attempts hashes c objects s).2,
      log ++ (attempts hashes c objects s).1.flatMap Attempt.calls) : List Attempt × σ × List Call) := by
  induction objects generalizing s log with
  | nil =>
    rw [show (attempts hashes c [] s).1 = [] from rfl, List.flatMap_nil, List.append_nil]
    rfl
  | cons object objects ih =>
    obtain ⟨a, s', h⟩ := exists_became hashes c object s
    rw [attempts_cons, attempts_cons, (h.logged log).attempt_eq, h.attempt_eq]
    simp only [ih, List.flatMap_cons, List.append_assoc]

/-! ### The counts -/

theorem foldl_record_total {β : Type} (half : ℕ) (count : MediaRestoreReport → ℤ) (part : Attempt → Option β)
    (f : β → ℤ)
    (hsome : ∀ report a b, part a = some b → count (report.record hashes a) = wrap half (count report + f b))
    (hnone : ∀ report a, part a = none → count (report.record hashes a) = count report) (x : ℤ)
    (hreport : count report = wrap half x) :
    count (l.foldl (MediaRestoreReport.record hashes) report) = wrap half (x + ((l.filterMap part).map f).sum) := by
  induction l generalizing report x with
  | nil => simpa using hreport
  | cons a l ih =>
    rw [List.foldl_cons]
    cases hpart : part a with
    | none => rw [List.filterMap_cons_none hpart, ih x ((hnone report a hpart).trans hreport)]
    | some b =>
      rw [List.filterMap_cons_some hpart, List.map_cons, List.sum_cons, ← add_assoc]
      exact ih _ (by rw [hsome report a b hpart, hreport, wrap_add_wrap])

theorem record_of_restored (hashes : Hashes) (report : MediaRestoreReport) (h : a.restored = some object) :
    (report.record hashes a).objectsRestored = i32 (report.objectsRestored + 1) ∧
      (report.record hashes a).bytesRestored = i64 (report.bytesRestored + object.size) ∧
      (report.record hashes a).objectsFailed = report.objectsFailed ∧
      (report.record hashes a).failures = report.failures := by
  cases a with
  | landed object' bytes touched =>
    obtain rfl : object' = object := Option.some.inj h
    exact ⟨rfl, by rw [CopiedObject.size, Int.toNat_eq_max]; rfl, rfl, rfl⟩
  | _ => cases h

theorem record_of_failure (report : MediaRestoreReport) {failure : RestoreFailure}
    (h : a.failure hashes = some failure) :
    (report.record hashes a).objectsRestored = report.objectsRestored ∧
      (report.record hashes a).bytesRestored = report.bytesRestored ∧
      (report.record hashes a).objectsFailed = i32 (report.objectsFailed + 1) ∧
      (report.record hashes a).failures =
        if report.failures.length < maxReportedFailures then report.failures ++ [failure] else report.failures := by
  cases a with
  | landed => cases h
  | _ =>
    cases h
    exact ⟨rfl, rfl, rfl, rfl⟩

theorem restored_eq_none_iff (hashes : Hashes) : a.restored = none ↔ ∃ failure, a.failure hashes = some failure := by
  cases a <;> simp [Attempt.restored, Attempt.failure]

theorem failure_eq_none_iff : a.failure hashes = none ↔ ∃ object, a.restored = some object := by
  cases a <;> simp [Attempt.restored, Attempt.failure]

theorem objectsRestored_foldl :
    (l.foldl (MediaRestoreReport.record hashes) {}).objectsRestored = i32 (restoredOf l).length := by
  rw [foldl_record_total 0x80000000 (·.objectsRestored) Attempt.restored (fun _ => 1)
    (fun report a object h => (record_of_restored hashes report h).1)
    (fun report a h => by
      obtain ⟨failure, hfailure⟩ := (restored_eq_none_iff hashes).mp h
      exact (record_of_failure report hfailure).1) 0 rfl]
  simp [restoredOf, i32]

theorem bytesRestored_foldl : (l.foldl (MediaRestoreReport.record hashes) {}).bytesRestored =
    i64 ((restoredOf l).map CopiedObject.size).sum := by
  rw [foldl_record_total 0x8000000000000000 (·.bytesRestored) Attempt.restored (fun object => (object.size : ℤ))
    (fun report a object h => (record_of_restored hashes report h).2.1)
    (fun report a h => by
      obtain ⟨failure, hfailure⟩ := (restored_eq_none_iff hashes).mp h
      exact (record_of_failure report hfailure).2.1) 0 rfl]
  have hcast := map_list_sum (Nat.castAddMonoidHom ℤ) ((restoredOf l).map CopiedObject.size)
  rw [List.map_map] at hcast
  rw [zero_add]
  exact congrArg (wrap 0x8000000000000000) hcast.symm

theorem objectsFailed_foldl : (l.foldl (MediaRestoreReport.record hashes) {}).objectsFailed =
    i32 (failuresOf hashes l).length := by
  rw [foldl_record_total 0x80000000 (·.objectsFailed) (Attempt.failure hashes) (fun _ => 1)
    (fun report a failure h => (record_of_failure report h).2.2.1)
    (fun report a h => by
      obtain ⟨object, hobject⟩ := failure_eq_none_iff.mp h
      exact (record_of_restored hashes report hobject).2.2.1) 0 rfl]
  simp [failuresOf, i32]

/-- The failures that are named. -/
theorem failures_foldl (hreport : report.failures.length ≤ maxReportedFailures) :
    (l.foldl (MediaRestoreReport.record hashes) report).failures =
      (report.failures ++ failuresOf hashes l).take maxReportedFailures := by
  induction l generalizing report with
  | nil => simp [failuresOf, List.take_of_length_le hreport]
  | cons a l ih =>
    rw [List.foldl_cons]
    cases hfailure : a.failure hashes with
    | none =>
      obtain ⟨object, hobject⟩ := failure_eq_none_iff.mp hfailure
      have hsame := (record_of_restored hashes report hobject).2.2.2
      rw [ih (hsame ▸ hreport), hsame, failuresOf, failuresOf, List.filterMap_cons_none hfailure]
    | some failure =>
      have hnew := (record_of_failure report hfailure).2.2.2
      rw [failuresOf, List.filterMap_cons_some hfailure, ← failuresOf]
      by_cases hshort : report.failures.length < maxReportedFailures
      · rw [if_pos hshort] at hnew
        rw [ih (by rw [hnew, List.length_append]; exact hshort), hnew, List.append_assoc, List.singleton_append]
      · rw [if_neg hshort] at hnew
        have hfull : report.failures.length = maxReportedFailures := by omega
        rw [ih (hnew ▸ hreport), hnew, ← hfull, List.take_left, List.take_left]

/-! ### What is accounted for -/

/-- **The calls and the report** of a restore are those of the attempts. -/
theorem restoreObjects_logged (hashes : Hashes) (c : Collaborators σ) (objects : List CopiedObject) (s : σ) :
    restoreObjects hashes c.logged objects (s, []) =
      (((attempts hashes c objects s).1.foldl (MediaRestoreReport.record hashes) {}, (attempts hashes c objects s).2,
        (attempts hashes c objects s).1.flatMap Attempt.calls) : MediaRestoreReport × σ × List Call) := by
  rw [restoreObjects, foldlM_restoreObject, attempts_logged, List.nil_append]

theorem map_object_attempts (hashes : Hashes) (c : Collaborators σ) (objects : List CopiedObject) (s : σ) :
    (attempts hashes c objects s).1.map Attempt.object = objects := by
  induction objects generalizing s with
  | nil => rfl
  | cons object objects ih =>
    obtain ⟨a, s', h⟩ := exists_became hashes c object s
    have hobject : a.object = object := by cases h <;> rfl
    rw [attempts_cons, h.attempt_eq, List.map_cons, ih, hobject]

/-- **Bytes are written** just when they were read with the checksum of the index. -/
theorem written_attempts (ha : a ∈ (attempts hashes c objects s).1) (bytes : List UInt8) :
    a.written = some bytes ↔ a.archived = .ok bytes ∧ bytesChecksum hashes bytes = a.object.checksum := by
  induction objects generalizing s with
  | nil => cases ha
  | cons object objects ih =>
    obtain ⟨a', s', h⟩ := exists_became hashes c object s
    rw [attempts_cons, h.attempt_eq, List.mem_cons] at ha
    rcases ha with rfl | ha
    · cases h with
      | unread => simp [Attempt.written, Attempt.archived]
      | corrupt _ hsum =>
        refine iff_of_false nofun ?_
        rintro ⟨hbytes, hsame⟩
        exact hsum (Except.ok.inj hbytes ▸ hsame)
      | unwritten _ hsum =>
        refine ⟨fun hbytes => ?_, fun hbytes => congrArg some (Except.ok.inj hbytes.1)⟩
        cases hbytes
        exact ⟨rfl, hsum⟩
      | landed _ hsum =>
        refine ⟨fun hbytes => ?_, fun hbytes => congrArg some (Except.ok.inj hbytes.1)⟩
        cases hbytes
        exact ⟨rfl, hsum⟩
    · exact ih ha

theorem length_restoredOf_add (hashes : Hashes) (l : List Attempt) :
    (restoredOf l).length + (failuresOf hashes l).length = l.length := by
  induction l with
  | nil => rfl
  | cons a l ih =>
    rw [restoredOf, failuresOf]
    cases hfailure : a.failure hashes with
    | none =>
      obtain ⟨object, hobject⟩ := failure_eq_none_iff.mp hfailure
      rw [List.filterMap_cons_none hfailure, List.filterMap_cons_some hobject, List.length_cons, List.length_cons, ← ih,
        restoredOf, failuresOf]
      omega
    | some failure =>
      rw [List.filterMap_cons_some hfailure, List.filterMap_cons_none
        ((restored_eq_none_iff hashes).mpr ⟨failure, hfailure⟩),
        List.length_cons, List.length_cons, ← ih, restoredOf, failuresOf]
      omega

theorem wrap_natCast_iff {half n : ℕ} (hhalf : 0 < half) : wrap half n = n ↔ n < half := by
  rw [wrap_eq_iff hhalf, Fits]
  constructor
  · rintro ⟨⟨-, hlt⟩, -⟩
    exact_mod_cast hlt
  · intro hlt
    exact ⟨⟨by omega, by exact_mod_cast hlt⟩, by simp⟩

/-- **What is accounted for** is every object, every byte and every failure, just when the counts are
in their types. -/
theorem restoreObjects_accounted_iff (hashes : Hashes) (c : Collaborators σ) (objects : List CopiedObject) (s : σ) :
    Accounted hashes objects (attempts hashes c objects s).1 (restoreObjects hashes c.logged objects (s, [])).2.2
      (restoreObjects hashes c.logged objects (s, [])).1 ↔ Counts hashes (attempts hashes c objects s).1 := by
  rw [restoreObjects_logged]
  have heach := map_object_attempts hashes c objects s
  have hlength : objects.length = (restoredOf (attempts hashes c objects s).1).length +
      (failuresOf hashes (attempts hashes c objects s).1).length := by
    rw [length_restoredOf_add, ← List.length_map Attempt.object, heach]
  constructor
  · intro h
    have hrestored : i32 (restoredOf (attempts hashes c objects s).1).length =
        (restoredOf (attempts hashes c objects s).1).length := by
      have htotal := h.total
      rw [h.failed, objectsRestored_foldl, hlength] at htotal
      omega
    exact ⟨(wrap_natCast_iff (by decide)).mp hrestored,
      (wrap_natCast_iff (by decide)).mp (objectsFailed_foldl.symm.trans h.failed),
      (wrap_natCast_iff (by decide)).mp (bytesRestored_foldl.symm.trans h.bytes)⟩
  · rintro ⟨hrestored, hfailed, hbytes⟩
    have hfailed' := objectsFailed_foldl.trans ((wrap_natCast_iff (by decide)).mpr hfailed)
    refine ⟨heach, rfl, fun a ha => written_attempts ha, ?_,
      bytesRestored_foldl.trans ((wrap_natCast_iff (by decide)).mpr hbytes), ?_, hfailed'⟩
    · rw [hfailed', objectsRestored_foldl, show i32 _ = _ from (wrap_natCast_iff (by decide)).mpr hrestored, hlength]
      exact (Nat.cast_add _ _).symm
    · exact failures_foldl (Nat.zero_le _)

end

/-! ### Sizes that do not fit -/

/-- An archive that answers with no bytes, and a library that takes everything. -/
def willing : Collaborators Unit where
  read _ := pure (.ok [])
  write _ _ := pure (.ok ())
  touch _ := pure true

/-- An object of the largest size there is. -/
def hugeObject : CopiedObject where
  id := 1
  siteId := 2
  storageKey := "site/2/clip.mp4"
  filename := "clip.mp4"
  contentType := "video/mp4"
  archiveKey := "media/clip.mp4"
  sizeBytes := 0x7fffffffffffffff
  checksum := bytesChecksum confirmHashes []

/-- Two of these. -/
theorem sizes_overflow : ¬ Accounted confirmHashes [hugeObject, hugeObject]
    (attempts confirmHashes willing [hugeObject, hugeObject] ()).1
    (restoreObjects confirmHashes willing.logged [hugeObject, hugeObject] ((), [])).2.2
    (restoreObjects confirmHashes willing.logged [hugeObject, hugeObject] ((), [])).1 := by
  intro h
  exact absurd h.bytes (by decide +kernel)

end Omnion.Backup
