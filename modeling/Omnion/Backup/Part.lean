import Mathlib.Data.Int.Notation
import Mathlib.Data.List.Basic

/-!
# The parts of a backup and the status of a run

A backup run has parts, each with a status of its own. `summarise` reads the run's
status off its parts: it counts the parts that are done and the parts that failed,
and does not look at those still queued or running.

## What is proved

* `summarise_meets_summary_iff` — the status of a run says of its parts what it is
  documented to say (`Summary`) exactly when no part is finished while another is
  still open.
* `done_next_to_queued` — a part that is done next to one that is queued makes a run
  that has succeeded.
-/

namespace Omnion.Backup

/-- One part's outcome. -/
inductive PartStatus where
  | queued
  | running
  /-- Produced, with a size and a checksum. -/
  | done
  | failed
  deriving DecidableEq

/-- The value stored in `backup_parts.status`. -/
def PartStatus.asStr : PartStatus → String
  | .queued => "queued"
  | .running => "running"
  | .done => "done"
  | .failed => "failed"

theorem PartStatus.asStr_injective : Function.Injective PartStatus.asStr := by
  intro a b
  cases a <;> cases b <;> simp [PartStatus.asStr]

inductive RunStatus where
  | queued
  | running
  /-- Every asked-for part produced its artifact. -/
  | succeeded
  /-- At least one part produced its artifact and at least one did not (`Partial`). -/
  | partially
  | failed
  deriving DecidableEq

/-- One part of a run. -/
structure Part where
  part : String
  status : PartStatus
  /-- How many things it accounted for, an `i32`. -/
  itemCount : ℤ
  /-- How many bytes the artifact occupies, an `i64`. -/
  sizeBytes : ℤ
  /-- The digest of the artifact, once it exists. -/
  checksum : Option String
  /-- The artifact's key under the run's prefix, once it exists. -/
  storagePath : Option String
  error : Option String
  deriving DecidableEq

/-- A part that has not started. -/
def Part.queued (part : String) : Part :=
  { part, status := .queued, itemCount := 0, sizeBytes := 0, checksum := none, storagePath := none, error := none }

/-- A part that produced its artifact. -/
def Part.done (part : String) (itemCount sizeBytes : ℤ) (checksum storagePath : String) : Part :=
  { part, status := .done, itemCount, sizeBytes, checksum := some checksum, storagePath := some storagePath,
    error := none }

/-- The manifest a run leaves behind, which a verification compares against. -/
structure Manifest where
  backupId : String
  /-- The schema version, a `u32`. -/
  version : ℕ
  parts : List Part
  createdAt : String

/-- Count the parts that are done and the parts that failed. -/
def countFinished (parts : List Part) : ℕ × ℕ :=
  parts.foldl (fun (done, failed) part =>
    match part.status with
    | .done => (done + 1, failed)
    | .failed => (done, failed + 1)
    | .queued | .running => (done, failed)) (0, 0)

/-- Derive a run's status from its parts. -/
def summarise (parts : List Part) : RunStatus :=
  let (done, failed) := countFinished parts
  if failed = 0 ∧ done = 0 then
    -- Nothing finished: the run is still in flight.
    .running
  else if failed = 0 then .succeeded
  else if done = 0 then .failed
  else .partially

/-! ### What a status says of the parts -/

/-- Nothing has been decided about the part yet. -/
def PartStatus.IsOpen (s : PartStatus) : Prop := s = .queued ∨ s = .running

/-- The run is over. -/
def RunStatus.IsTerminal (s : RunStatus) : Prop := s = .succeeded ∨ s = .partially ∨ s = .failed

instance : DecidablePred PartStatus.IsOpen :=
  fun s => inferInstanceAs (Decidable (s = .queued ∨ s = .running))

instance : DecidablePred RunStatus.IsTerminal :=
  fun s => inferInstanceAs (Decidable (s = .succeeded ∨ s = .partially ∨ s = .failed))

/-- What the status of a run is documented to say of its parts. -/
structure Summary (parts : List Part) (status : RunStatus) : Prop where
  /-- A run succeeded when it has parts and every one of them produced its artifact. -/
  succeeded : status = .succeeded ↔ parts ≠ [] ∧ ∀ p ∈ parts, p.status = .done
  /-- A run that is over has no part left to decide. -/
  terminal : status.IsTerminal → ∀ p ∈ parts, ¬ p.status.IsOpen
  /-- A run whose parts are all decided is over. -/
  settled : parts ≠ [] → (∀ p ∈ parts, ¬ p.status.IsOpen) → status.IsTerminal
  /-- In a failed run no part produced its artifact. -/
  failed : status = .failed → ∀ p ∈ parts, p.status ≠ .done
  /-- In a partial run one part did and one did not. -/
  partially : status = .partially → (∃ p ∈ parts, p.status = .done) ∧ ∃ p ∈ parts, p.status ≠ .done

theorem countFinished_eq (parts : List Part) :
    countFinished parts =
      (parts.countP fun p => p.status = .done, parts.countP fun p => p.status = .failed) := by
  -- The counts are added to those the loop has so far.
  have hloop : ∀ done failed : ℕ, parts.foldl (fun (done, failed) part =>
      match part.status with
      | .done => (done + 1, failed)
      | .failed => (done, failed + 1)
      | .queued | .running => (done, failed)) (done, failed) =
        (done + parts.countP fun p => p.status = .done, failed + parts.countP fun p => p.status = .failed) := by
    induction parts with
    | nil => simp
    | cons p parts ih =>
      intro done failed
      rcases hp : p.status <;> simp [hp, ih, Nat.add_assoc, Nat.add_comm 1]
  simpa [countFinished] using hloop 0 0

variable {parts : List Part}

/-- The status depends on whether some part is done and whether some part failed. -/
theorem summarise_eq (parts : List Part) :
    summarise parts =
      if ∃ p ∈ parts, p.status = .failed then
        if ∃ p ∈ parts, p.status = .done then .partially else .failed
      else if ∃ p ∈ parts, p.status = .done then .succeeded else .running := by
  have hzero : ∀ s : PartStatus, parts.countP (fun p => p.status = s) = 0 ↔ ¬ ∃ p ∈ parts, p.status = s := by
    simp [List.countP_eq_zero]
  simp only [summarise, countFinished_eq, hzero]
  split_ifs <;> grind

theorem isOpen_iff (s : PartStatus) : s.IsOpen ↔ s ≠ .done ∧ s ≠ .failed := by
  cases s <;> decide

theorem isTerminal_summarise : (summarise parts).IsTerminal ↔ ∃ p ∈ parts, ¬ p.status.IsOpen := by
  rw [summarise_eq]
  constructor
  · intro h
    split_ifs at h with hfailed hdone hdone
    · obtain ⟨p, hp, hps⟩ := hfailed
      exact ⟨p, hp, by rw [hps]; decide⟩
    · obtain ⟨p, hp, hps⟩ := hfailed
      exact ⟨p, hp, by rw [hps]; decide⟩
    · obtain ⟨p, hp, hps⟩ := hdone
      exact ⟨p, hp, by rw [hps]; decide⟩
    · exact absurd h (by decide)
  · rintro ⟨p, hp, hfinished⟩
    split_ifs with hfailed hdone hdone
    · decide
    · decide
    · decide
    · refine absurd ((isOpen_iff _).mpr ⟨fun h => hdone ⟨p, hp, h⟩, fun h => hfailed ⟨p, hp, h⟩⟩) hfinished

theorem summary_of_open (hopen : ∀ p ∈ parts, p.status.IsOpen) : Summary parts (summarise parts) := by
  have hnone : ∀ s : PartStatus, ¬ s.IsOpen → ¬ ∃ p ∈ parts, p.status = s := by
    rintro s hs ⟨p, hp, rfl⟩
    exact hs (hopen p hp)
  have hrunning : summarise parts = .running := by
    rw [summarise_eq, if_neg (hnone .failed (by decide)), if_neg (hnone .done (by decide))]
  rw [hrunning]
  refine ⟨⟨by simp, fun ⟨hne, hdone⟩ => ?_⟩, fun h => absurd h (by decide), fun hne hfinished => ?_, by simp, by simp⟩
  · obtain ⟨p, hp⟩ := List.exists_mem_of_ne_nil _ hne
    exact absurd ⟨p, hp, hdone p hp⟩ (hnone .done (by decide))
  · obtain ⟨p, hp⟩ := List.exists_mem_of_ne_nil _ hne
    exact absurd (hopen p hp) (hfinished p hp)

theorem summary_of_finished (hfinished : ∀ p ∈ parts, ¬ p.status.IsOpen) :
    Summary parts (summarise parts) := by
  rcases eq_or_ne parts [] with rfl | hne
  · exact summary_of_open (by simp)
  have hends : ∀ p ∈ parts, p.status = .done ∨ p.status = .failed := by
    intro p hp
    have := hfinished p hp
    rw [isOpen_iff] at this
    tauto
  obtain ⟨p, hp⟩ := List.exists_mem_of_ne_nil _ hne
  have hterminal : (summarise parts).IsTerminal := isTerminal_summarise.mpr ⟨p, hp, hfinished p hp⟩
  refine ⟨?_, fun _ => hfinished, fun _ _ => hterminal, ?_, ?_⟩ <;> rw [summarise_eq]
  · split_ifs <;> grind
  · split_ifs <;> grind
  · split_ifs <;> grind

/-- **The status says of the parts what it should** exactly when no part is finished
while another is still open. -/
theorem summarise_meets_summary_iff (parts : List Part) :
    Summary parts (summarise parts) ↔
      (∀ p ∈ parts, p.status.IsOpen) ∨ ∀ p ∈ parts, ¬ p.status.IsOpen := by
  constructor
  · intro h
    by_cases hfinished : ∃ p ∈ parts, ¬ p.status.IsOpen
    · exact .inr (h.terminal (isTerminal_summarise.mpr hfinished))
    · exact .inl (by simpa using hfinished)
  · rintro (hopen | hfinished)
    · exact summary_of_open hopen
    · exact summary_of_finished hfinished

/-- A part that is done next to one that is queued makes a run that has succeeded. -/
theorem done_next_to_queued :
    ¬ Summary [Part.done "database" 10 100 "aa" "d", Part.queued "media"]
      (summarise [Part.done "database" 10 100 "aa" "d", Part.queued "media"]) := by
  intro h
  have hsucceeded := h.succeeded.mp (by decide)
  exact absurd (hsucceeded.2 (Part.queued "media") (by decide)) (by decide)

end Omnion.Backup
