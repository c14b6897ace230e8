import Omnion.Backup.Cadence
import Omnion.Backup.RestoreObjects
import Omnion.Library.DepthFirst
import Omnion.Library.Words

/-!
# Removing the artifacts of a run

`remove_run_artifacts` of `crates/backup/src/purge.rs`: the directory of a run is removed whole, or else walked and
removed entry by entry, and a report says what is gone.

## The model

A `Tree` is a directory as it is listed, every entry with what the calls on it answer (`Answers`): any of them may be
refused, or find that somebody else was faster. Beside the report there is what became of the disk: the paths that are
left, and the number of entries the call took away.

## What is proved

* `removeRunArtifacts_accounted_iff` — a report is complete only when the directory is gone, with the number of entries
  that were removed, exactly in the cases of `Faithful`.
* `emptied_complete` — so a report may be complete though the directory is there.

## Honest scope

Names in a directory are distinct, and the tree changes only as the answers say. A link is a file.
`i32` arithmetic wraps
around, as in a release build.
-/

namespace Omnion.Backup.RemoveRun

open Wrapping DepthFirst

/-! ### The directory of a run -/

/-- `str::trim_matches('/')`. -/
def trimSlashes (s : String) : String := String.ofList (Words.trim (· = '/') s.toList)

/-- Normalise a storage prefix so a key built from it is never a partial segment. -/
def storagePrefix (raw : String) : String :=
  let trimmed := trimSlashes (Text.trim raw)
  if trimmed = "" then "" else "/" ++ trimmed ++ "/"

/-- `Path::join`, of a path that does not begin with a separator. -/
def pathJoin (base path : String) : String :=
  if base.toList.getLast? = some '/' then base ++ path else base ++ "/" ++ path

/-- `DirEntry::path`, in a directory whose path does not end with a separator. -/
def entryPath (directory name : String) : String := directory ++ "/" ++ name

/-- The local root a run writes under, joined to the run's prefix. -/
def localRootFor (root raw : String) : String :=
  let normalised := storagePrefix raw
  if normalised = "" then Text.trim root else pathJoin (Text.trim root) (trimSlashes normalised)

/-- Resolve the directory one run's artifacts live in. -/
def runDirectory (root raw : String) : Except BackupError String :=
  let trimmedRoot := Text.trim root
  let normalised := storagePrefix raw
  if trimmedRoot = "" then .error (.invalid "the destination root is empty, so there is nothing to remove from")
  else if trimmedRoot.toList.head? ≠ some '/' then
    .error (.invalid ("\x60" ++ trimmedRoot ++
      "\x60 is a relative destination root — give an absolute one, so a delete " ++
      "does not resolve against the working directory of whatever process happened to run it"))
  else if normalised = "" then
    .error (.invalid ("this backup has no storage prefix, so its directory cannot be identified; refusing " ++
      "to remove the destination root itself"))
  else if (normalised.toList.splitOnP (· = '/')).any (· = ['.', '.']) then
    .error (.invalid ("this backup's storage prefix \x60" ++ normalised ++ "\x60 points outside the destination root"))
  else .ok (localRootFor trimmedRoot normalised)

/-! ### What is on the disk -/

/-- The two times the directory is read. -/
inductive Pass where
  | counting
  | walking

/-- What a removal answers. -/
inductive Removal where
  | done
  | notFound
  | refused (reason : String)
  deriving DecidableEq

/-- It answers with a reason. -/
def Removal.isRefused : Removal → Bool
  | refused _ => true
  | _ => false

/-- What the calls on an entry answer. -/
structure Answers where
  /-- Why `read_dir` is refused. -/
  unreadable : Pass → Option String := fun _ => none
  /-- `file_type` answers. -/
  typed : Pass → Bool := fun _ => true
  /-- `remove_file`. -/
  removal : Removal := .done
  /-- It is still there when `remove_dir_all` has failed. -/
  survives : Bool := true

/-- The entries of a directory, as `next_entry` gives them. -/
inductive Tree where
  | nil
  /-- `next_entry` fails in these passes, and gives nothing more. -/
  | stop (fails : Pass → Bool) (rest : Tree)
  | file (name : String) (answers : Answers) (rest : Tree)
  | dir (name : String) (answers : Answers) (below rest : Tree)

/-- An entry that was given. -/
structure DirEntry where
  path : String
  answers : Answers
  /-- What is in it, where it is a directory. -/
  below : Option Tree

/-- A directory to be read. -/
structure Directory where
  path : String
  answers : Answers
  tree : Tree

namespace Tree

/-- How many entries there are, at any depth. -/
def size : Tree → ℕ
  | nil => 0
  | stop _ rest => rest.size
  | file _ _ rest => rest.size + 1
  | dir _ _ below rest => below.size + rest.size + 1

/-- Their paths. -/
def paths (path : String) : Tree → List String
  | nil => []
  | stop _ rest => rest.paths path
  | file name _ rest => entryPath path name :: rest.paths path
  | dir name _ below rest => entryPath path name :: (below.paths (entryPath path name) ++ rest.paths path)

/-- What is left when `remove_dir_all` has failed. -/
def survivors : Tree → Tree
  | nil => nil
  | stop fails rest => stop fails rest.survivors
  | file name answers rest => if answers.survives then file name answers rest.survivors else rest.survivors
  | dir name answers below rest =>
    if answers.survives then dir name answers below.survivors rest.survivors else rest.survivors

def given (pass : Pass) (path : String) : Tree → List DirEntry
  | nil => []
  | stop fails rest => if fails pass then [] else rest.given pass path
  | file name answers rest => ⟨entryPath path name, answers, none⟩ :: rest.given pass path
  | dir name answers below rest => ⟨entryPath path name, answers, some below⟩ :: rest.given pass path

end Tree

/-- `read_dir`, and `next_entry` until it gives nothing more. -/
def Directory.read (pass : Pass) (d : Directory) : Except String (List DirEntry) :=
  match d.answers.unreadable pass with
  | some reason => .error reason
  | none => .ok (d.tree.given pass d.path)

/-- The entry as a directory: `file_type` has to answer. -/
def DirEntry.directory (pass : Pass) (e : DirEntry) : Option Directory :=
  if e.answers.typed pass then e.below.map fun tree => ⟨e.path, e.answers, tree⟩ else none

def Directory.children (pass : Pass) (d : Directory) : List Directory :=
  match d.read pass with
  | .error _ => []
  | .ok entries => entries.filterMap (DirEntry.directory pass)

theorem Tree.sum_given (pass : Pass) (path : String) (t : Tree) :
    (((t.given pass path).filterMap (DirEntry.directory pass)).map fun d => d.tree.size + 1).sum ≤ t.size := by
  induction t with
  | nil => simp [given]
  | stop fails rest ih =>
    rw [given, size]
    split_ifs
    · simp
    · exact ih
  | file name answers rest ih =>
    simp only [given, size, List.filterMap_cons, DirEntry.directory, Option.map_none, ite_self]
    omega
  | dir name answers below rest _ ih =>
    simp only [given, size, List.filterMap_cons, DirEntry.directory, Option.map_some]
    split_ifs
    · simp only [List.map_cons, List.sum_cons]
      omega
    · dsimp only
      omega

def directories (pass : Pass) : Nested Directory where
  children := Directory.children pass
  weight d := d.tree.size + 1
  lighter d := by
    unfold Directory.children Directory.read
    split
    · simp
    · rename_i entries hread
      split at hread
      · cases hread
      · cases hread
        exact Nat.lt_succ_of_le (d.tree.sum_given pass d.path)

/-! ### Reports -/

/-- One entry that could not be removed. -/
structure PurgeFailure where
  /-- The path as the operating system named it. -/
  path : String
  /-- The operating system's own words. -/
  reason : String
  deriving DecidableEq

/-- What a removal actually did. -/
structure PurgeReport where
  /-- The directory that was targeted, in full. -/
  root : String := ""
  /-- Whether the run's own directory existed at all. -/
  existed : Bool := false
  /-- How many filesystem entries were removed, at any depth. -/
  removedEntries : ℤ := 0
  /-- How many entries could not be removed. -/
  failedEntries : ℤ := 0
  failures : List PurgeFailure := []

/-- Whether every entry that was targeted is gone. -/
def PurgeReport.isComplete (report : PurgeReport) : Bool := report.failedEntries = 0

/-- `MAX_REPORTED_PURGE_FAILURES`. -/
def maxReportedPurgeFailures : ℕ := 3

/-- Count the entries of a directory. -/
def countDirectory (total : ℤ) (d : Directory) : ℤ :=
  match d.read .counting with
  | .error _ => total
  | .ok entries => entries.foldl (fun total _ => i32 (total + 1)) total

/-- Count the entries under a directory. -/
def countEntries (d : Directory) : ℤ := walk (directories .counting) countDirectory 0 [d]

/-- What became of the disk. -/
structure Disk where
  left : List String
  /-- How many entries the call has removed. -/
  taken : ℕ
  deriving DecidableEq

/-- The counters of `walk_and_remove`, and the disk. -/
structure Walked where
  removed : ℤ
  failed : ℤ
  failures : List PurgeFailure
  disk : Disk
  deriving DecidableEq

/-- One failure, in the list while there is room in it. -/
def Walked.fail (s : Walked) (path reason : String) : Walked :=
  { s with
    failed := i32 (s.failed + 1)
    failures := if s.failures.length < maxReportedPurgeFailures then s.failures ++ [⟨path, reason⟩] else s.failures }

/-- `remove_file`, which removes no directory. -/
def DirEntry.removeFile (e : DirEntry) : Removal :=
  match e.answers.removal with
  | .done => if e.below.isSome then .refused "Is a directory (os error 21)" else .done
  | answer => answer

def leadsInto (directory path : String) : Bool := (entryPath directory "").toList.isPrefixOf path.toList

/-- One entry of a directory, unless it is a directory itself. -/
def removeEntry (s : Walked) (e : DirEntry) : Walked :=
  if (e.directory .walking).isSome then s
  else
    match e.removeFile with
    | .done =>
      { s with removed := i32 (s.removed + 1), disk := ⟨s.disk.left.filter (· ≠ e.path), s.disk.taken + 1⟩ }
    | .notFound =>
      { s with disk := { s.disk with left := s.disk.left.filter fun p => p ≠ e.path && !leadsInto e.path p } }
    | .refused reason => s.fail e.path reason

/-- The entries of one directory. -/
def removeIn (s : Walked) (d : Directory) : Walked :=
  match d.read .walking with
  | .error reason => s.fail d.path reason
  | .ok entries => entries.foldl removeEntry s

/-- Remove what is left of a directory one entry at a time, counting both halves. -/
def walkAndRemove (s : Walked) (d : Directory) : Walked := walk (directories .walking) removeIn s [d]

/-- The directory of a run, and the calls on it as a whole. -/
structure Deletion where
  directory : Option (Answers × Tree)
  /-- `exists` can tell. -/
  visible : Bool := true
  /-- `remove_dir_all`. -/
  removal : Removal := .done

/-- What is there when `remove_dir_all` has failed: a directory that has gone meanwhile cannot be read. -/
def surviving (path : String) (answers : Answers) (tree : Tree) : Directory × List String :=
  if answers.survives then (⟨path, answers, tree.survivors⟩, path :: tree.survivors.paths path)
  else (⟨path, { answers with unreadable := fun _ => some "No such file or directory (os error 2)" }, .nil⟩, [])

/-- Remove a run's directory from the destination, and report exactly what happened. -/
def removeRunArtifacts (a : Deletion) (root raw : String) : Except BackupError (PurgeReport × Disk) := do
  let path ← runDirectory root raw
  match a.directory with
  | none => return ({ root := path }, ⟨[], 0⟩)
  | some (answers, tree) =>
    if !a.visible then return ({ root := path }, ⟨path :: tree.paths path, 0⟩)
    let before := countEntries ⟨path, answers, tree⟩
    match a.removal with
    | .done => return ({ root := path, existed := true, removedEntries := before }, ⟨[], tree.size⟩)
    | .notFound => return ({ root := path, existed := true, removedEntries := before }, ⟨[], 0⟩)
    | .refused reason =>
      let (directory, left) := surviving path answers tree
      let s := walkAndRemove ⟨0, 0, [⟨path, reason⟩], left, tree.size - directory.tree.size⟩ directory
      return ({
        root := path
        existed := true
        removedEntries := s.removed
        failedEntries := s.failed
        failures := s.failures.take maxReportedPurgeFailures }, s.disk)

/-! ### What is to hold -/

/-- **What is to hold of a report**: when it is complete, the directory is gone, the number of entries is that of those
that were removed, and each that is left was reported. -/
def Accounted (report : PurgeReport) (disk : Disk) : Prop :=
  report.isComplete = true → report.root ∉ disk.left ∧ report.removedEntries = disk.taken ∧
    ∀ path ∈ disk.left, ∃ failure ∈ report.failures, failure.path = path

namespace Tree

/-- How many entries the count comes by. -/
def counted : Tree → ℕ
  | nil => 0
  | stop fails rest => if fails .counting then 0 else rest.counted
  | file _ _ rest => rest.counted + 1
  | dir _ answers below rest =>
    (if answers.typed .counting = true ∧ answers.unreadable .counting = none then below.counted else 0) +
      rest.counted + 1

/-- It comes by all of them: whatever has entries is recognised as a directory, and read to its end. -/
def Shown : Tree → Prop
  | nil => True
  | stop fails rest => rest.size = 0 ∨ fails .counting = false ∧ rest.Shown
  | file _ _ rest => rest.Shown
  | dir _ answers below rest =>
    (below.size = 0 ∨ (answers.typed .counting = true ∧ answers.unreadable .counting = none) ∧ below.Shown) ∧ rest.Shown

/-- How many removals and readings the walk is refused. -/
def refusals : Tree → ℕ
  | nil => 0
  | stop fails rest => if fails .walking then 0 else rest.refusals
  | file _ answers rest => rest.refusals + if answers.removal.isRefused then 1 else 0
  | dir _ answers below rest => rest.refusals +
    if answers.typed .walking then if answers.unreadable .walking = none then below.refusals else 1
    else if answers.removal = .notFound then 0 else 1

end Tree

/-- How many entries the count comes by in a directory. -/
def Directory.counted (d : Directory) : ℕ := if d.answers.unreadable .counting = none then d.tree.counted else 0

def Directory.refusals (d : Directory) : ℕ := if d.answers.unreadable .walking = none then d.tree.refusals else 1

/-- When it holds: nothing is there; or `exists` can tell that the directory is there, and it is removed whole, all its
entries were counted before, and fewer than `2 ^ 31`; or somebody else has removed it, before an entry was counted; or
it could not be removed whole, and the walk is refused something too. -/
def Faithful (a : Deletion) : Prop :=
  match a.directory with
  | none => True
  | some (answers, tree) =>
    a.visible = true ∧
    match a.removal with
    | .done => (tree.size = 0 ∨ answers.unreadable .counting = none ∧ tree.Shown) ∧ tree.size < 2 ^ 31
    | .notFound => 2 ^ 32 ∣ Directory.counted ⟨"", answers, tree⟩
    | .refused _ => answers.survives = true → ¬ 2 ^ 32 ∣ Directory.refusals ⟨"", answers, tree.survivors⟩

/-! ### Counting -/

variable {t : Tree} {d : Directory} {s : Walked} {root : String}

theorem Tree.counted_le_size (t : Tree) : t.counted ≤ t.size := by
  induction t with
  | nil => simp [counted]
  | stop fails rest ih =>
    rw [counted, size]
    split_ifs <;> omega
  | file name answers rest ih =>
    rw [counted, size]
    omega
  | dir name answers below rest ihBelow ih =>
    rw [counted, size]
    split_ifs <;> omega

/-- **The count comes by every entry** just when it is shown all of them. -/
theorem Tree.counted_eq_size_iff (t : Tree) : t.counted = t.size ↔ t.Shown := by
  induction t with
  | nil => simp [counted, size, Shown]
  | stop fails rest ih =>
    have hle := rest.counted_le_size
    rw [counted, size, Shown]
    cases fails .counting with
    | true => simp [eq_comm]
    | false =>
      simp only [Bool.false_eq_true, if_false, true_and, ← ih]
      omega
  | file name answers rest ih =>
    rw [counted, size, Shown, ← ih]
    omega
  | dir name answers below rest ihBelow ih =>
    have hle := rest.counted_le_size
    have hbelow := below.counted_le_size
    rw [counted, size, Shown, ← ih, ← ihBelow]
    split_ifs with hread
    · simp only [hread, true_and]
      omega
    · simp only [hread, false_and, or_false]
      omega

theorem Directory.counted_le_size (d : Directory) : d.counted ≤ d.tree.size := by
  have hle := d.tree.counted_le_size
  rw [counted]
  split_ifs <;> omega

theorem Tree.counted_given (path : String) (t : Tree) :
    t.counted = (t.given .counting path).length +
      (((t.given .counting path).filterMap (DirEntry.directory .counting)).map Directory.counted).sum := by
  induction t with
  | nil => simp [counted, given]
  | stop fails rest ih =>
    rw [counted, given]
    split_ifs <;> simp [ih]
  | file name answers rest ih =>
    simp only [counted, given, List.length_cons, List.filterMap_cons, DirEntry.directory, Option.map_none, ite_self, ih]
    omega
  | dir name answers below rest _ ih =>
    simp only [counted, given, List.length_cons, List.filterMap_cons, DirEntry.directory, Option.map_some, ih]
    cases answers.typed .counting with
    | false => simp only [Bool.false_eq_true, false_and, if_false]; omega
    | true =>
      simp only [true_and, if_true, List.map_cons, List.sum_cons, Directory.counted]
      omega

/-- How many entries a directory gives. -/
def Directory.shown (d : Directory) : ℕ :=
  match d.read .counting with
  | .error _ => 0
  | .ok entries => entries.length

theorem Directory.counted_eq (d : Directory) :
    d.counted = d.shown + (((directories .counting).children d).map Directory.counted).sum := by
  have hchildren : (directories .counting).children d = d.children .counting := rfl
  rw [hchildren, counted, shown, Directory.children, Directory.read]
  cases hreason : d.answers.unreadable .counting with
  | some reason => simp
  | none => simpa using d.tree.counted_given d.path

theorem countDirectory_i32 (n : ℤ) (d : Directory) : countDirectory (i32 n) d = i32 (n + d.shown) := by
  unfold countDirectory Directory.shown
  cases d.read .counting with
  | error reason => simp
  | ok entries =>
    have hfold := foldl_wrap 0x80000000 (fun _ : DirEntry => (1 : ℤ)) entries n
    simpa [i32] using hfold

/-- **The number of entries**, as an `i32`. -/
theorem countEntries_eq (d : Directory) : countEntries d = i32 d.counted := by
  have hfold : ∀ (l : List Directory) (n : ℤ),
      l.foldl countDirectory (i32 n) = i32 (n + ((l.map Directory.shown).sum : ℕ)) := by
    intro l
    induction l with
    | nil => simp
    | cons d l ih =>
      intro n
      rw [List.foldl_cons, countDirectory_i32, ih, List.map_cons, List.sum_cons]
      push_cast
      rw [add_assoc]
  have hsum : ((order (directories .counting) [d]).map Directory.shown).sum = ([d].map Directory.counted).sum :=
    sum_order Directory.counted_eq
  rw [countEntries, walk_eq_foldl, show (0 : ℤ) = i32 0 from rfl, hfold, hsum]
  simp

/-! ### The walk -/

/-- The walk is refused the removal of an entry. -/
def DirEntry.fails (e : DirEntry) : Bool := (e.directory .walking).isNone && e.removeFile.isRefused

/-- How many refusals there are in the directory itself. -/
def Directory.fails (d : Directory) : ℕ :=
  match d.read .walking with
  | .error _ => 1
  | .ok entries => entries.countP DirEntry.fails

theorem Tree.refusals_given (path : String) (t : Tree) :
    t.refusals = (t.given .walking path).countP DirEntry.fails +
      (((t.given .walking path).filterMap (DirEntry.directory .walking)).map Directory.refusals).sum := by
  induction t with
  | nil => simp [refusals, given]
  | stop fails rest ih =>
    rw [refusals, given]
    split_ifs <;> simp [ih]
  | file name answers rest ih =>
    have hentry : DirEntry.fails ⟨entryPath path name, answers, none⟩ = answers.removal.isRefused := by
      cases hremoval : answers.removal <;>
        simp [DirEntry.fails, DirEntry.directory, DirEntry.removeFile, hremoval, Removal.isRefused]
    simp only [refusals, given, List.countP_cons, List.filterMap_cons, DirEntry.directory,
      Option.map_none, ite_self, ih,
      hentry]
    omega
  | dir name answers below rest _ ih =>
    simp only [refusals, given, List.countP_cons, List.filterMap_cons, ih]
    cases htyped : answers.typed .walking with
    | true =>
      simp [DirEntry.fails, DirEntry.directory, htyped, Directory.refusals]
      omega
    | false =>
      cases hremoval : answers.removal <;>
        simp [DirEntry.fails, DirEntry.directory, DirEntry.removeFile, htyped, hremoval, Removal.isRefused] <;> omega

theorem Directory.refusals_eq (d : Directory) :
    d.refusals = d.fails + (((directories .walking).children d).map Directory.refusals).sum := by
  have hchildren : (directories .walking).children d = d.children .walking := rfl
  rw [hchildren, refusals, fails, Directory.children, Directory.read]
  cases hreason : d.answers.unreadable .walking with
  | some reason => simp
  | none => simpa using d.tree.refusals_given d.path

theorem i32_add (n m : ℤ) : i32 (i32 n + m) = i32 (n + m) := wrap_add_wrap

theorem removeEntry_failed (s : Walked) (e : DirEntry) :
    (removeEntry s e).failed = if e.fails then i32 (s.failed + 1) else s.failed := by
  unfold removeEntry DirEntry.fails
  cases hdirectory : e.directory .walking with
  | some d => simp
  | none => cases hremoval : e.removeFile <;> simp [Walked.fail, Removal.isRefused]

theorem removeIn_failed {n : ℤ} (hs : s.failed = i32 n) (d : Directory) :
    (removeIn s d).failed = i32 (n + d.fails) := by
  have hfold : ∀ (entries : List DirEntry) (s : Walked) (n : ℤ), s.failed = i32 n →
      (entries.foldl removeEntry s).failed = i32 (n + entries.countP DirEntry.fails) := by
    intro entries
    induction entries with
    | nil => simp
    | cons e entries ih =>
      intro s n hs
      rw [List.foldl_cons, List.countP_cons]
      by_cases hfails : e.fails
      · rw [ih _ (n + 1) (by rw [removeEntry_failed, if_pos hfails, hs, i32_add]), if_pos hfails]
        push_cast
        rw [add_right_comm, add_assoc]
      · rw [ih _ n (by rw [removeEntry_failed, if_neg hfails, hs]), if_neg hfails, add_zero]
  unfold removeIn Directory.fails
  cases d.read .walking with
  | error reason =>
    simp only [Walked.fail, hs, i32_add, Nat.cast_one]
  | ok entries => exact hfold entries s n hs

/-- **What the walk is refused** is counted, as an `i32`. -/
theorem walkAndRemove_failed (hs : s.failed = 0) (d : Directory) : (walkAndRemove s d).failed = i32 d.refusals := by
  have hfold : ∀ (l : List Directory) (s : Walked) (n : ℤ), s.failed = i32 n →
      (l.foldl removeIn s).failed = i32 (n + ((l.map Directory.fails).sum : ℕ)) := by
    intro l
    induction l with
    | nil => simp
    | cons d l ih =>
      intro s n hs
      rw [List.foldl_cons, ih _ _ (removeIn_failed hs d), List.map_cons, List.sum_cons]
      push_cast
      rw [add_assoc]
  have hsum : ((order (directories .walking) [d]).map Directory.fails).sum = ([d].map Directory.refusals).sum :=
    sum_order Directory.refusals_eq
  rw [walkAndRemove, walk_eq_foldl, hfold _ s 0 hs, hsum, List.map_singleton, List.sum_singleton, zero_add]

/-! ### What the walk leaves -/

theorem length_entryPath (directory name : String) :
    directory.toList.length < (entryPath directory name).toList.length := by
  simp [entryPath]

theorem length_lt_of_given {pass : Pass} {path : String} {e : DirEntry} (h : e ∈ t.given pass path) :
    path.toList.length < e.path.toList.length := by
  induction t with
  | nil => simp [Tree.given] at h
  | stop fails rest ih =>
    rw [Tree.given] at h
    split_ifs at h
    · simp at h
    · exact ih h
  | file name answers rest ih =>
    rcases List.mem_cons.mp h with rfl | h
    · exact length_entryPath path name
    · exact ih h
  | dir name answers below rest _ ih =>
    rcases List.mem_cons.mp h with rfl | h
    · exact length_entryPath path name
    · exact ih h

theorem length_lt_of_read {pass : Pass} {entries : List DirEntry} {e : DirEntry} (h : d.read pass = .ok entries)
    (he : e ∈ entries) : d.path.toList.length < e.path.toList.length := by
  unfold Directory.read at h
  split at h
  · cases h
  · cases h
    exact length_lt_of_given he

theorem length_lt_of_child {pass : Pass} {c : Directory} (h : c ∈ d.children pass) :
    d.path.toList.length < c.path.toList.length := by
  unfold Directory.children at h
  cases hread : d.read pass with
  | error reason => simp [hread] at h
  | ok entries =>
    rw [hread] at h
    obtain ⟨e, he, hdirectory⟩ := List.mem_filterMap.mp h
    have hlt := length_lt_of_read hread he
    unfold DirEntry.directory at hdirectory
    split_ifs at hdirectory
    obtain ⟨below, -, rfl⟩ := Option.map_eq_some_iff.mp hdirectory
    exact hlt

theorem mem_left_removeEntry {e : DirEntry} (hlt : root.toList.length < e.path.toList.length)
    (hs : root ∈ s.disk.left) : root ∈ (removeEntry s e).disk.left := by
  have hne : root ≠ e.path := by
    rintro rfl
    exact lt_irrefl _ hlt
  have hinto : leadsInto e.path root = false := by
    rw [leadsInto, ← Bool.not_eq_true, List.isPrefixOf_iff_prefix]
    intro hprefix
    have hlength := hprefix.length_le
    have := length_entryPath e.path ""
    omega
  unfold removeEntry
  split_ifs
  · exact hs
  · cases e.removeFile <;> simp [Walked.fail, hs, hne, hinto]

theorem mem_left_removeIn (hle : root.toList.length ≤ d.path.toList.length) (hs : root ∈ s.disk.left) :
    root ∈ (removeIn s d).disk.left := by
  unfold removeIn
  cases hread : d.read .walking with
  | error reason => exact hs
  | ok entries =>
    refine List.foldlRecOn (motive := fun s : Walked => root ∈ s.disk.left) entries removeEntry hs fun s hs e he => ?_
    exact mem_left_removeEntry (hle.trans_lt (length_lt_of_read hread he)) hs

/-- **The walk leaves the directory standing.** -/
theorem walk_root (hs : d.path ∈ s.disk.left) : d.path ∈ (walkAndRemove s d).disk.left :=
  walk_invariant (p := fun s : Walked => d.path ∈ s.disk.left)
    (q := fun c : Directory => d.path.toList.length ≤ c.path.toList.length)
    (fun _ hc _ hchild => hc.trans (length_lt_of_child hchild).le)
      (fun _ _ hc hs => mem_left_removeIn hc hs) hs (by simp)

/-! ### The report -/

theorem i32_natCast_eq_zero_iff (n : ℕ) : i32 n = 0 ↔ 2 ^ 32 ∣ n := by
  rw [i32, wrap_eq_iff (by decide)]
  simp only [Fits, Int.sub_zero]
  omega

/-- A number that is not greater is the `i32` of the other when they are equal, and fit. -/
theorem i32_natCast_eq_iff {n m : ℕ} (h : n ≤ m) : i32 n = m ↔ n = m ∧ m < 2 ^ 31 := by
  rw [i32, wrap_eq_iff (by decide)]
  simp only [Fits]
  omega

theorem counted_whole_iff (path : String) (answers : Answers) (tree : Tree) :
    countEntries ⟨path, answers, tree⟩ = tree.size ↔
      (tree.size = 0 ∨ answers.unreadable .counting = none ∧ tree.Shown) ∧ tree.size < 2 ^ 31 := by
  rw [countEntries_eq, i32_natCast_eq_iff (Directory.counted_le_size _), Directory.counted]
  refine and_congr_left fun _ => ?_
  by_cases hread : answers.unreadable .counting = none
  · have hle := tree.counted_le_size
    simp only [hread, if_true, true_and, ← tree.counted_eq_size_iff]
    omega
  · simp [hread, eq_comm]

/-- A directory that could not be removed whole is left standing, or can no longer be read; so a complete report is
false, and no report is complete where the directory has gone. -/
theorem refused_accounted_iff {path : String} {answers : Answers} {tree : Tree} {failures : List PurgeFailure}
    {removed : ℕ} {reported : PurgeReport} (hs : s = walkAndRemove ⟨0, 0, failures,
      (surviving path answers tree).2, removed⟩ (surviving path answers tree).1)
    (hroot : reported.root = path) (hfailed : reported.failedEntries = s.failed) :
    Accounted reported s.disk ↔
      (answers.survives = true → ¬ 2 ^ 32 ∣ Directory.refusals ⟨"", answers, tree.survivors⟩) := by
  have hcount : s.failed = i32 (surviving path answers tree).1.refusals := by
    rw [hs]
    exact walkAndRemove_failed rfl _
  have hcomplete : reported.isComplete = true ↔ 2 ^ 32 ∣ (surviving path answers tree).1.refusals := by
    rw [PurgeReport.isComplete, decide_eq_true_iff, hfailed, hcount, i32_natCast_eq_zero_iff]
  unfold Accounted
  rw [hcomplete]
  cases hsurvives : answers.survives with
  | false =>
    have hgone : (surviving path answers tree).1.refusals = 1 := by simp [surviving, hsurvives, Directory.refusals]
    rw [hgone]
    simp
  | true =>
    have hstays : reported.root ∈ s.disk.left := by
      have hdirectory : (surviving path answers tree).1.path = path := by simp [surviving, hsurvives]
      have hleft := walk_root (d := (surviving path answers tree).1)
        (s := ⟨0, 0, failures, (surviving path answers tree).2, removed⟩) (by simp [surviving, hsurvives])
      rwa [← hs, hdirectory, ← hroot] at hleft
    have hrefusals : (surviving path answers tree).1.refusals =
        Directory.refusals ⟨"", answers, tree.survivors⟩ := by
      simp [surviving, hsurvives, Directory.refusals]
    simp [hrefusals, hstays]

/-- **A report tells what was removed** in these cases, and in no other. -/
theorem removeRunArtifacts_accounted_iff (a : Deletion) (root raw : String) (report : PurgeReport) (disk : Disk)
    (h : removeRunArtifacts a root raw = .ok (report, disk)) : Accounted report disk ↔ Faithful a := by
  unfold removeRunArtifacts at h
  cases hpath : runDirectory root raw with
  | error e => simp [hpath, bind, Except.bind] at h
  | ok path =>
    simp only [hpath, bind, Except.bind] at h
    obtain ⟨directory, visible, removal⟩ := a
    cases directory with
    | none =>
      simp only [pure, Except.pure, Except.ok.injEq, Prod.mk.injEq] at h
      obtain ⟨rfl, rfl⟩ := h
      simp [Accounted, Faithful]
    | some found =>
      obtain ⟨answers, tree⟩ := found
      cases visible with
      | false =>
        simp only [Bool.not_false, if_true, pure, Except.pure, Except.ok.injEq, Prod.mk.injEq] at h
        obtain ⟨rfl, rfl⟩ := h
        simp [Accounted, Faithful, PurgeReport.isComplete]
      | true =>
        simp only [Bool.not_true, Bool.false_eq_true, if_false, pure, Except.pure] at h
        cases removal with
        | done =>
          simp only [Except.ok.injEq, Prod.mk.injEq] at h
          obtain ⟨rfl, rfl⟩ := h
          simp [Accounted, Faithful, PurgeReport.isComplete, counted_whole_iff]
        | notFound =>
          simp only [Except.ok.injEq, Prod.mk.injEq] at h
          obtain ⟨rfl, rfl⟩ := h
          have hcount : (Directory.mk path answers tree).counted = (Directory.mk "" answers tree).counted := rfl
          simp [Accounted, Faithful, PurgeReport.isComplete, countEntries_eq, i32_natCast_eq_zero_iff, hcount]
        | refused reason =>
          simp only [Except.ok.injEq, Prod.mk.injEq] at h
          obtain ⟨rfl, rfl⟩ := h
          simp only [Faithful, true_and]
          exact refused_accounted_iff rfl rfl rfl

/-! ### A directory that is busy -/

/-- A directory with a file in it, removed with the answer `reason`. -/
def busy (removal : Removal) : Deletion :=
  { directory := some ({}, .file "manifest.json" {} .nil), removal }

/-- The directory cannot be removed, as a mount point cannot, but the file in it can. The report is complete, and the
directory is there. -/
theorem emptied_complete :
    ¬ ∀ (a : Deletion) (root raw : String) (report : PurgeReport) (disk : Disk),
      removeRunArtifacts a root raw = .ok (report, disk) → Accounted report disk := by
  intro h
  have hdirectory : runDirectory "/backups" "/run-a" = .ok "/backups/run-a" := by decide +kernel
  have hrun : removeRunArtifacts (busy (.refused "Device or resource busy (os error 16)")) "/backups" "/run-a" =
      .ok ({
        root := "/backups/run-a", existed := true, removedEntries := 1
        failures := [⟨"/backups/run-a", "Device or resource busy (os error 16)"⟩] }, ⟨["/backups/run-a"], 1⟩) := by
    have hwalk : walkAndRemove ⟨0, 0, [⟨"/backups/run-a", "Device or resource busy (os error 16)"⟩],
        ["/backups/run-a", "/backups/run-a/manifest.json"], 0⟩ ⟨"/backups/run-a", {}, .file "manifest.json" {} .nil⟩ =
        ⟨1, 0, [⟨"/backups/run-a", "Device or resource busy (os error 16)"⟩], ⟨["/backups/run-a"], 1⟩⟩ := by
      rw [walkAndRemove, walk_eq_foldl, order, Nested.push]
      rw [show (directories .walking).children ⟨"/backups/run-a", {}, .file "manifest.json" {} .nil⟩ = [] from rfl]
      simp only [List.reverse_nil, List.append_nil, order]
      decide +kernel
    simp [removeRunArtifacts, hdirectory, busy, surviving, Tree.survivors, Tree.paths, Tree.size, entryPath, bind,
      Except.bind, pure, Except.pure, hwalk, maxReportedPurgeFailures]
  exact (h _ _ _ _ _ hrun rfl).1 (by simp)

/-- A directory that is removed whole. -/
theorem removed_whole : Accounted ⟨"/backups/run-a", true, 1, 0, []⟩ ⟨[], 1⟩ := by
  have hdirectory : runDirectory "/backups" "/run-a" = .ok "/backups/run-a" := by decide +kernel
  refine (removeRunArtifacts_accounted_iff (busy .done) "/backups" "/run-a" _ _ ?_).mpr ?_
  · simp [removeRunArtifacts, hdirectory, busy, countEntries_eq, Directory.counted, Tree.counted, Tree.size, bind,
      Except.bind, pure, Except.pure, i32, wrap]
  · simp [Faithful, busy, Tree.size, Tree.Shown]

end Omnion.Backup.RemoveRun
