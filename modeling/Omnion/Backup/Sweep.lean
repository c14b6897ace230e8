import Mathlib.Data.Prod.Lex
import Omnion.Backup.Part
import Omnion.Core.Text
import Omnion.Library.Sorting
import Omnion.Library.Table

/-!
# The retention sweep of backups

`prune_candidates` of `crates/backup/src/store.rs`, which chooses the runs of a tenant that may go,
and `sweep_organization` of `crates/backup/src/sweep.rs`, which removes their artifacts and their
rows.

## The model

A statement's `order by` sorts rows that are equal in it as the table has them. The subquery for
the run to spare has no row when no unprotected run has succeeded, and then `b.id <> (select ..)`
is not true of any run. What happens to the artifacts on the destination, and whether the database
answers, are parameters of a sweep.

## What is proved

* `sweep_retains_iff` — a sweep leaves what it should and offers everything else whose window has
  passed (`Retains`) just when the runs are `Regular`.
* `queued_removed`, `nothing_offered` — a sweep that removes a queued run, and one that is offered nothing.

## Honest scope

Nobody else writes the tenant's rows during a sweep. A tenant is given by its id, `null` for the
platform.
-/

namespace Omnion.Backup

/-- A row of `backups`. -/
structure BackupRow where
  id : Uuid
  /-- Tenant the run belongs to; null for the platform. -/
  organizationId : Option Uuid
  status : RunStatus
  /-- Prefix its artifacts live under. -/
  storagePrefix : String
  /-- Whether the prune sweep will leave it alone. -/
  isProtected : Bool
  /-- When the prune sweep may remove it. -/
  retainUntil : Option Instant
  createdAt : Instant
  finishedAt : Option Instant
  deriving DecidableEq

/-- The table `backups`. -/
abbrev Backups := Table BackupRow BackupRow.id

/-- `order by finished_at desc nulls last, created_at desc`. -/
def BackupRow.newestFirst (b : BackupRow) : ℕ ×ₗ ℤ ×ₗ ℤ :=
  toLex (if b.finishedAt.isSome then 0 else 1, toLex (-b.finishedAt.getD 0, -b.createdAt))

/-- The subquery: the run to spare. -/
def spared (backups : Backups) (organizationId : Option Uuid) : Option BackupRow :=
  (Sorting.sortBy BackupRow.newestFirst (backups.rows.filter fun b =>
    b.organizationId = organizationId && b.status = .succeeded && !b.isProtected)).head?

/-- The statement's `where`. -/
def prunable (backups : Backups) (organizationId : Option Uuid) (now : Instant) (b : BackupRow) : Bool :=
  b.organizationId = organizationId && b.status ∉ [RunStatus.failed, .running] && !b.isProtected &&
    b.retainUntil.any (· ≤ now) && (spared backups organizationId).any fun newest => b.id ≠ newest.id

/-- The runs it selects, in order. -/
def pruned (backups : Backups) (organizationId : Option Uuid) (now : Instant) : List BackupRow :=
  Sorting.sortBy (·.retainUntil.getD 0) (backups.rows.filter (prunable backups organizationId now))

/-- Runs the prune sweep may remove. -/
def pruneCandidates (backups : Backups) (organizationId : Option Uuid) (now : Instant) : List BackupRow :=
  (pruned backups organizationId now).take 100

/-- Why a statement on a run fails. -/
inductive DeleteBackupError where
  | notFound
  | database

/-- What the destination and the database do during a sweep. -/
structure World where
  /-- `remove_run_artifacts`: whether the removal is complete, or why it was refused. -/
  removeRunArtifacts : BackupRow → Except String Bool
  /-- Whether the database answers when the row of a run is to be deleted. -/
  answers : Uuid → Bool

/-- Delete a run. -/
def deleteBackup (world : World) (backups : Backups) (id : Uuid) (organizationId : Option Uuid) :
    Except DeleteBackupError Backups :=
  if world.answers id then
    if backups.rows.any fun b => b.id = id && b.organizationId = organizationId then
      .ok (backups.delete fun b => b.id = id && b.organizationId = organizationId)
    else .error .notFound
  else .error .database

/-- One artifact the sweep could not remove. -/
structure StrandedArtifact where
  /-- The run whose bytes are still on the destination. -/
  backupId : Uuid
  path : String
  reason : String

/-- What one sweep did. -/
structure SweepReport where
  walked : ℕ
  candidates : ℕ
  /-- Runs whose artifacts were completely removed. -/
  removed : ℕ
  /-- Runs whose row is gone but whose artifacts could not all be removed. -/
  partially : ℕ
  /-- Tenants whose sweep failed outright. -/
  failed : ℕ
  /-- The artifacts the sweep could not take. -/
  stranded : List StrandedArtifact
  sweptAt : Instant

/-- `MAX_REPORTED_STRANDED`. -/
def maxReportedStranded : ℕ := 5

/-- One candidate: its bytes first, its row second. -/
def sweepRun (world : World) (organizationId : Option Uuid) : Backups × SweepReport → BackupRow → Backups × SweepReport
  | (backups, report), run =>
    let (partially, stranded) : Bool × List StrandedArtifact := match world.removeRunArtifacts run with
      | .ok complete => (!complete, [])
      | .error reason => (true, [⟨run.id, run.storagePrefix, reason⟩])
    let report := { report with stranded := report.stranded ++ stranded }
    match deleteBackup world backups run.id organizationId with
    | .error _ => (backups, report)
    | .ok backups =>
      (backups, if partially then { report with partially := report.partially + 1 }
        else { report with removed := report.removed + 1 })

/-- Run one sweep for one tenant. -/
def sweepOrganization (world : World) (backups : Backups) (organizationId : Option Uuid) (now : Instant) :
    Backups × SweepReport :=
  let candidates := pruneCandidates backups organizationId now
  let report : SweepReport :=
    { walked := 1, candidates := candidates.length, removed := 0, partially := 0, failed := 0, stranded :=
      [], sweptAt := now }
  let (backups, report) := candidates.foldl (sweepRun world organizationId) (backups, report)
  (backups, { report with stranded := report.stranded.take maxReportedStranded })

/-! ### What a sweep should leave -/

variable {backups backups' : Backups} {organizationId : Option Uuid} {now : Instant} {b : BackupRow} {world : World}

/-- The newest run of the tenant that has succeeded. -/
def newestSucceeded (backups : Backups) (organizationId : Option Uuid) : Option BackupRow :=
  (Sorting.sortBy BackupRow.newestFirst (backups.rows.filter fun b =>
    b.organizationId = organizationId && b.status = .succeeded)).head?

/-- What a sweep of the tenant leaves: runs that are in flight, protected runs, and the newest run that has
succeeded. -/
def Exempt (backups : Backups) (organizationId : Option Uuid) (b : BackupRow) : Prop :=
  b.status = .queued ∨ b.status = .running ∨ b.isProtected = true ∨ newestSucceeded backups organizationId = some b

/-- The window of a run of the tenant has passed. -/
def Expired (organizationId : Option Uuid) (now : Instant) (b : BackupRow) : Prop :=
  b.organizationId = organizationId ∧ ∃ retainUntil, b.retainUntil = some retainUntil ∧ retainUntil ≤ now

instance instDecidableExpired : Decidable (Expired organizationId now b) :=
  decidable_of_iff (b.organizationId = organizationId ∧ b.retainUntil.any (· ≤ now) = true) (by
    simp [Expired, Option.any_eq_true])

/-- The tenant can restore the run. -/
def Restorable (organizationId : Option Uuid) (b : BackupRow) : Prop :=
  b.organizationId = organizationId ∧ b.status = .succeeded

/-- **Retention**: whatever the destination and the database do, a sweep of the tenant removes runs of its own
alone, none that is exempt, and leaves a run to restore if there was one; and it is offered every other run whose
window has passed. -/
structure Retains (backups : Backups) (organizationId : Option Uuid) (now : Instant) : Prop where
  exempt : ∀ world, ∀ b ∈ backups, b ∉ (sweepOrganization world backups organizationId now).1 →
    b.organizationId = organizationId ∧ ¬ Exempt backups organizationId b
  restorable : ∀ world, (∃ b ∈ backups, Restorable organizationId b) →
    ∃ b ∈ (sweepOrganization world backups organizationId now).1, Restorable organizationId b
  offered : ∀ b ∈ backups, Expired organizationId now b → ¬ Exempt backups organizationId b →
    b ∈ pruneCandidates backups organizationId now

/-- A run that its window and its protection let go, and that is neither running nor spared. -/
def Due (backups : Backups) (organizationId : Option Uuid) (now : Instant) (b : BackupRow) : Prop :=
  Expired organizationId now b ∧ b.isProtected = false ∧ b.status ≠ .running ∧ spared backups organizationId ≠ some b

instance instDecidableDue : Decidable (Due backups organizationId now b) := inferInstanceAs (Decidable (_ ∧ _))

/-- The window of a run ended before another's, or with it, and the table has it first. -/
def Ahead (backups : Backups) (a b : BackupRow) : Prop :=
  a.retainUntil.getD 0 < b.retainUntil.getD 0 ∨
    a.retainUntil.getD 0 = b.retainUntil.getD 0 ∧ backups.rows.idxOf a < backups.rows.idxOf b

instance instDecidableAhead {a : BackupRow} : Decidable (Ahead backups a b) := inferInstanceAs (Decidable (_ ∨ _))

/-- **The runs a sweep is right about.** Without a run to spare, nothing but queued runs is due. With one, no run
that is due has failed, and the run is the newest that has succeeded unless its window is open; at most a hundred of
the runs that are due are over, and a queued run that is due has a hundred due runs ahead of it. -/
structure Regular (backups : Backups) (organizationId : Option Uuid) (now : Instant) : Prop where
  unspared : spared backups organizationId = none →
    ∀ b ∈ backups, Due backups organizationId now b → b.status = .queued
  failed : spared backups organizationId ≠ none →
    ∀ b ∈ backups, Due backups organizationId now b → b.status ≠ .failed
  newest : ∀ b, spared backups organizationId = some b → Expired organizationId now b →
    newestSucceeded backups organizationId = some b
  batch : spared backups organizationId ≠ none →
    (backups.rows.filter fun b => Due backups organizationId now b ∧ b.status ≠ .queued).length ≤ 100
  queued : spared backups organizationId ≠ none →
    ∀ b ∈ backups, Due backups organizationId now b → b.status = .queued →
      100 ≤ (backups.rows.filter fun a => Due backups organizationId now a ∧ Ahead backups a b).length

theorem spared_spec (h : spared backups organizationId = some b) :
    b ∈ backups ∧ b.organizationId = organizationId ∧ b.status = .succeeded ∧ b.isProtected = false := by
  obtain ⟨hmem, -⟩ := Sorting.of_head?_sortBy h
  simpa [and_assoc, Table.mem_def] using hmem

/-- `b.id <> (select ..)` is true where there is a run to spare, and it is another one. -/
theorem id_ne_spared_iff (hb : b ∈ backups) : (∃ newest, spared backups organizationId = some newest
    ∧ b.id ≠ newest.id) ↔
    spared backups organizationId ≠ none ∧ spared backups organizationId ≠ some b := by
  constructor
  · rintro ⟨newest, hnewest, hid⟩
    rw [hnewest]
    refine ⟨nofun, fun heq => hid ?_⟩
    rw [Option.some.inj heq]
  · rintro ⟨hsome, hne⟩
    obtain ⟨newest, hnewest⟩ := Option.ne_none_iff_exists'.mp hsome
    refine ⟨newest, hnewest, fun hid => hne ?_⟩
    rw [hnewest, Table.eq_of_key hb (spared_spec hnewest).1 hid]

/-- The runs the statement selects are those that are due and have not failed, if there is one to spare. -/
theorem mem_pruned : b ∈ pruned backups organizationId now ↔
    b ∈ backups ∧ spared backups organizationId ≠ none ∧ Due backups organizationId now b ∧ b.status ≠ .failed := by
  rw [pruned, Sorting.mem_sortBy, List.mem_filter, prunable, ← Table.mem_def]
  simp only [Bool.and_eq_true, decide_eq_true_eq, List.mem_cons, List.not_mem_nil, or_false, not_or, Bool.not_eq_true',
    Option.any_eq_true]
  constructor
  · rintro ⟨hb, ⟨⟨⟨htenant, hfailed, hrunning⟩, hprotected⟩, hwindow⟩, hnewest⟩
    obtain ⟨hsome, hne⟩ := (id_ne_spared_iff hb).mp hnewest
    exact ⟨hb, hsome, ⟨⟨htenant, hwindow⟩, hprotected, hrunning, hne⟩, hfailed⟩
  · rintro ⟨hb, hsome, ⟨⟨htenant, hwindow⟩, hprotected, hrunning, hne⟩, hfailed⟩
    exact ⟨hb, ⟨⟨⟨htenant, hfailed, hrunning⟩, hprotected⟩, hwindow⟩, (id_ne_spared_iff hb).mpr ⟨hsome, hne⟩⟩

theorem nodup_pruned : (pruned backups organizationId now).Nodup :=
  (Sorting.sortBy_perm _ _).nodup_iff.mpr ((List.Nodup.of_map _ backups.nodup).filter _)

section Spared

variable (hspared : spared backups organizationId ≠ none)
  (hfailed : ∀ b ∈ backups, Due backups organizationId now b → b.status ≠ .failed)

include hspared hfailed

theorem pruned_eq : pruned backups organizationId now =
    Sorting.sortBy (·.retainUntil.getD 0) (backups.rows.filter fun b => Due backups organizationId now b) := by
  rw [pruned]
  refine congrArg _ (List.filter_congr fun b hb => ?_)
  have hselected : b ∈ pruned backups organizationId now ↔ _ := mem_pruned
  rw [pruned, Sorting.mem_sortBy, List.mem_filter] at hselected
  rw [Bool.eq_iff_iff, decide_eq_true_iff]
  exact ⟨fun h => (hselected.mp ⟨hb, h⟩).2.2.1, fun h => (hselected.mpr ⟨hb, hspared, h, hfailed b hb h⟩).2⟩

theorem length_pruned_over : ((pruned backups organizationId now).filter fun b => b.status ≠ .queued).length =
    (backups.rows.filter fun b => Due backups organizationId now b ∧ b.status ≠ .queued).length := by
  rw [pruned_eq hspared hfailed, ((Sorting.sortBy_perm _ _).filter _).length_eq, List.filter_filter]
  congr 2
  funext b
  simp [Bool.and_comm]

theorem mem_pruneCandidates_iff (hb : b ∈ backups) (hdue : Due backups organizationId now b) :
    b ∈ pruneCandidates backups organizationId now ↔
      (backups.rows.filter fun a => Due backups organizationId now a ∧ Ahead backups a b).length < 100 := by
  rw [pruneCandidates, pruned_eq hspared hfailed, Sorting.mem_take_sortBy_filter (List.Nodup.of_map _ backups.nodup) hb
    (decide_eq_true hdue)]
  refine iff_of_eq (congrArg (fun l : List BackupRow => l.length < 100) (List.filter_congr fun a _ => ?_))
  exact decide_eq_decide.mpr (by simp only [Ahead, decide_eq_true_eq])

end Spared

/-! ### What a sweep does -/

theorem deleteBackup_ok {id : Uuid} (h : deleteBackup world backups id organizationId = .ok backups') :
    world.answers id = true ∧ backups' = backups.delete fun b => b.id = id && b.organizationId = organizationId := by
  unfold deleteBackup at h
  split_ifs at h with hanswers hrow
  exact ⟨hanswers, (Except.ok.inj h).symm⟩

/-- What is left after some candidates: the rows that are no candidate's, and those of candidates the database did
not answer for. -/
theorem mem_foldl_sweepRun {candidates : List BackupRow} {report : SweepReport} :
    b ∈ (candidates.foldl (sweepRun world organizationId) (backups, report)).1 ↔
      b ∈ backups ∧ ∀ run ∈ candidates, b.id = run.id → b.organizationId = organizationId →
        world.answers run.id = false := by
  induction candidates generalizing backups report with
  | nil => simp
  | cons run candidates ih =>
    -- one candidate, whatever its artifacts do
    have hrun : ∀ x : BackupRow, x ∈ (sweepRun world organizationId (backups, report) run).1 ↔
        x ∈ backups ∧ (x.id = run.id → x.organizationId = organizationId → world.answers run.id = false) := by
      intro x
      simp only [sweepRun]
      cases hdelete : deleteBackup world backups run.id organizationId with
      | ok backups' =>
        obtain ⟨hanswers, rfl⟩ := deleteBackup_ok hdelete
        simp [Table.mem_delete, hanswers]
      | error error =>
        unfold deleteBackup at hdelete
        split_ifs at hdelete with hanswers hrow
        · have hnone : ∀ x ∈ backups, x.id = run.id → x.organizationId ≠ organizationId := by
            intro x hx hid htenant
            exact hrow (List.any_eq_true.mpr ⟨x, hx, by simp [hid, htenant]⟩)
          exact ⟨fun hx => ⟨hx, fun hid htenant => absurd htenant (hnone x hx hid)⟩, And.left⟩
        · exact ⟨fun hx => ⟨hx, fun _ _ => by simpa using hanswers⟩, And.left⟩
    rw [List.foldl_cons, ← Prod.mk.eta (p := sweepRun world organizationId (backups, report) run), ih, hrun]
    simp only [List.mem_cons, forall_eq_or_imp, and_assoc]

/-- **What a sweep removes**: the candidates whose rows the database lets go. -/
theorem mem_sweepOrganization : b ∈ (sweepOrganization world backups organizationId now).1 ↔
    b ∈ backups ∧ (b ∈ pruneCandidates backups organizationId now → world.answers b.id = false) := by
  simp only [sweepOrganization, mem_foldl_sweepRun]
  refine and_congr_right fun hb => ⟨fun h hcandidate => ?_, fun h run hrun hid _ => ?_⟩
  · exact h b hcandidate rfl (mem_pruned.mp (List.mem_of_mem_take hcandidate)).2.2.1.1.1
  · obtain rfl := Table.eq_of_key hb (mem_pruned.mp (List.mem_of_mem_take hrun)).1 hid
    exact h hrun

/-! ### When a sweep retains what it should -/

/-- The newest run that has succeeded is the run to spare, unless it is protected. -/
theorem spared_of_newestSucceeded (h : newestSucceeded backups organizationId = some b)
    (hprotected : b.isProtected = false) :
    spared backups organizationId = some b := by
  have hspared := Sorting.head?_sortBy_filter (p := fun b => !b.isProtected) h (by simp [hprotected])
  rw [List.filter_filter] at hspared
  rw [spared, ← hspared]
  congr 3
  funext x
  simp [Bool.and_comm]

theorem Due.not_exempt (h : Due backups organizationId now b) (hqueued : b.status ≠ .queued) :
    ¬ Exempt backups organizationId b := by
  obtain ⟨-, hprotected, hrunning, hspared⟩ := h
  rintro (h | h | h | h)
  · exact hqueued h
  · exact hrunning h
  · simp [hprotected] at h
  · exact hspared (spared_of_newestSucceeded h hprotected)

/-- A run a sweep should be offered is due, unless it is spared for a newer one that is protected. -/
theorem due_of_not_exempt (hexpired : Expired organizationId now b) (hspared : spared backups organizationId ≠ some b)
    (h : ¬ Exempt backups organizationId b) : Due backups organizationId now b ∧ b.status ≠ .queued := by
  simp only [Exempt, not_or, Bool.not_eq_true] at h
  exact ⟨⟨hexpired, h.2.2.1, h.2.1, hspared⟩, h.1⟩

/-- A tenant with a run to restore has one after a sweep, whatever the runs are. -/
theorem exists_restorable_sweepOrganization (h : ∃ b ∈ backups, Restorable organizationId b) :
    ∃ b ∈ (sweepOrganization world backups organizationId now).1, Restorable organizationId b := by
  have hkept : ∀ b ∈ backups, b ∉ pruned backups organizationId now →
      b ∈ (sweepOrganization world backups organizationId now).1 := by
    intro b hb hpruned
    exact mem_sweepOrganization.mpr ⟨hb, fun hcandidate => absurd (List.mem_of_mem_take hcandidate) hpruned⟩
  cases hspared : spared backups organizationId with
  | none =>
    obtain ⟨b, hb, hrestorable⟩ := h
    exact ⟨b, hkept b hb fun hpruned => (mem_pruned.mp hpruned).2.1 hspared, hrestorable⟩
  | some newest =>
    obtain ⟨hnewest, htenant, hsucceeded, -⟩ := spared_spec hspared
    exact ⟨newest, hkept newest hnewest fun hpruned => (mem_pruned.mp hpruned).2.2.1.2.2.2 hspared, htenant, hsucceeded⟩

theorem Regular.status_ne_queued (h : Regular backups organizationId now)
    (hb : b ∈ pruneCandidates backups organizationId now) : b.status ≠ .queued := by
  intro hqueued
  obtain ⟨hmem, hspared, hdue, -⟩ := mem_pruned.mp (List.mem_of_mem_take hb)
  have hfew := (mem_pruneCandidates_iff hspared (h.failed hspared) hmem hdue).mp hb
  exact absurd (h.queued hspared b hmem hdue hqueued) (not_le.mpr hfew)

/-- When at most a hundred of the runs selected are over and the first hundred are, the statement's limit leaves no
run out that is over. -/
theorem mem_pruneCandidates_of_batch (hregular : Regular backups organizationId now)
    (hpruned : b ∈ pruned backups organizationId now) (hqueued : b.status ≠ .queued) :
    b ∈ pruneCandidates backups organizationId now := by
  by_contra hleft
  have hsplit := List.take_append_drop 100 (pruned backups organizationId now)
  have hdrop : b ∈ (pruned backups organizationId now).drop 100 := by
    rw [← hsplit] at hpruned
    exact (List.mem_append.mp hpruned).resolve_left hleft
  have htake : ((pruned backups organizationId now).take 100).filter (fun b => b.status ≠ .queued) =
      (pruned backups organizationId now).take 100 :=
    List.filter_eq_self.mpr fun run hrun => decide_eq_true (hregular.status_ne_queued hrun)
  -- a run beyond the limit makes the limit full, and itself one too many
  have hfull : ((pruned backups organizationId now).take 100).length = 100 := by
    rw [List.length_take]
    have := List.length_pos_of_mem hdrop
    rw [List.length_drop] at this
    omega
  have hmore : 0 < (((pruned backups organizationId now).drop 100).filter fun b => b.status ≠ .queued).length :=
    List.length_pos_of_mem (List.mem_filter.mpr ⟨hdrop, decide_eq_true hqueued⟩)
  obtain ⟨-, hspared, -, -⟩ := mem_pruned.mp hpruned
  have hbatch := hregular.batch hspared
  rw [← length_pruned_over hspared (hregular.failed hspared), ← hsplit, List.filter_append,
    List.length_append, htake, hfull] at hbatch
  omega

theorem Retains.regular (h : Retains backups organizationId now) : Regular backups organizationId now := by
  have hoffered : ∀ b ∈ backups, Due backups organizationId now b → b.status ≠ .queued →
      b ∈ pruneCandidates backups organizationId now :=
    fun b hb hdue hqueued => h.offered b hb hdue.1 (hdue.not_exempt hqueued)
  have hfailed : ∀ b ∈ backups, Due backups organizationId now b → b.status ≠ .failed := by
    intro b hb hdue hfailed
    have hcandidate := hoffered b hb hdue (by simp [hfailed])
    exact (mem_pruned.mp (List.mem_of_mem_take hcandidate)).2.2.2 hfailed
  refine ⟨fun hspared b hb hdue => ?_, fun _ => hfailed, fun b hspared hexpired => ?_, fun hspared => ?_,
    fun hspared b hb hdue hqueued => ?_⟩
  · by_contra hqueued
    exact (mem_pruned.mp (List.mem_of_mem_take (hoffered b hb hdue hqueued))).2.1 hspared
  · obtain ⟨hb, htenant, hsucceeded, hprotected⟩ := spared_spec hspared
    by_contra hnewest
    have hexempt : ¬ Exempt backups organizationId b := by simp [Exempt, hsucceeded, hprotected, hnewest]
    have hcandidate := h.offered b hb hexpired hexempt
    exact (mem_pruned.mp (List.mem_of_mem_take hcandidate)).2.2.1.2.2.2 hspared
  · have hsub : (pruned backups organizationId now).filter (fun b => b.status ≠ .queued) ⊆
        pruneCandidates backups organizationId now := by
      intro b hb
      obtain ⟨hpruned, hqueued⟩ := List.mem_filter.mp hb
      obtain ⟨hb, -, hdue, -⟩ := mem_pruned.mp hpruned
      exact hoffered b hb hdue (of_decide_eq_true hqueued)
    rw [← length_pruned_over hspared hfailed]
    exact (List.subperm_of_subset (nodup_pruned.filter _) hsub).length_le.trans (List.length_take_le _ _)
  · -- a sweep of a database that answers removes a queued run that is a candidate
    by_contra hfew
    have hcandidate := (mem_pruneCandidates_iff hspared hfailed hb hdue).mpr (not_le.mp hfew)
    let world : World := ⟨fun _ => .ok true, fun _ => true⟩
    have hremoved : b ∉ (sweepOrganization world backups organizationId now).1 := fun hkept => by
      simpa [world] using (mem_sweepOrganization.mp hkept).2 hcandidate
    exact (h.exempt world b hb hremoved).2 (.inl hqueued)

theorem Regular.retains (h : Regular backups organizationId now) : Retains backups organizationId now := by
  refine ⟨fun world b hb hremoved => ?_, fun world => exists_restorable_sweepOrganization,
    fun b hb hexpired hexempt => ?_⟩
  · have hcandidate : b ∈ pruneCandidates backups organizationId now := by
      by_contra hcandidate
      exact hremoved (mem_sweepOrganization.mpr ⟨hb, fun h => absurd h hcandidate⟩)
    obtain ⟨-, -, hdue, -⟩ := mem_pruned.mp (List.mem_of_mem_take hcandidate)
    exact ⟨hdue.1.1, hdue.not_exempt (h.status_ne_queued hcandidate)⟩
  · have hspared : spared backups organizationId ≠ some b := fun hspared =>
      hexempt (.inr (.inr (.inr (h.newest b hspared hexpired))))
    obtain ⟨hdue, hqueued⟩ := due_of_not_exempt hexpired hspared hexempt
    have hsome : spared backups organizationId ≠ none := fun hnone => hqueued (h.unspared hnone b hb hdue)
    have hpruned := mem_pruned.mpr ⟨hb, hsome, hdue, h.failed hsome b hb hdue⟩
    exact mem_pruneCandidates_of_batch h hpruned hqueued

variable (backups organizationId now)

/-- **A sweep retains what it should and is offered the rest** just when the runs of the tenant are regular. -/
theorem sweep_retains_iff : Retains backups organizationId now ↔ Regular backups organizationId now :=
  ⟨Retains.regular, Regular.retains⟩

/-! ### Runs a sweep is wrong about -/

/-- A run of the platform that was asked for at an instant and whose window ended at 10. -/
def expiredRun (id : Uuid) (status : RunStatus) (createdAt : Instant) : BackupRow where
  id
  organizationId := none
  status
  storagePrefix := "platform"
  isProtected := false
  retainUntil := some 10
  createdAt
  finishedAt := none

/-- A run that succeeded, and one that waits to be started. -/
def queuedAfter : Backups := ⟨[expiredRun 1 .succeeded 5, expiredRun 2 .queued 9], by decide⟩

/-- A sweep at 20 removes the run that waits. -/
theorem queued_removed : ¬ Retains queuedAfter none 20 ∧
    (sweepOrganization ⟨fun _ => .ok true, fun _ => true⟩ queuedAfter none 20).1.rows
      = [expiredRun 1 .succeeded 5] := by
  have hrows : (sweepOrganization ⟨fun _ => .ok true, fun _ => true⟩ queuedAfter none 20).1.rows =
      [expiredRun 1 .succeeded 5] := by decide +kernel
  refine ⟨fun h => ?_, hrows⟩
  have hremoved : expiredRun 2 .queued 9 ∉ (sweepOrganization ⟨fun _ => .ok true, fun _ => true⟩
    queuedAfter none 20).1 := by
    rw [Table.mem_def, hrows]
    decide
  exact (h.exempt _ _ (.tail _ (.head _)) hremoved).2 (.inl rfl)

theorem nothing_offered : ¬ Retains ⟨[expiredRun 1 .partially 5], by decide⟩ none 20 := by
  intro h
  have hoffered := h.offered (expiredRun 1 .partially 5) (.head _) ⟨rfl, 10, rfl, by decide⟩
    (by unfold Exempt; decide +kernel)
  revert hoffered
  decide +kernel

end Omnion.Backup
