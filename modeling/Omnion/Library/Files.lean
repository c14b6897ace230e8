import Mathlib.Data.List.Infix
import Mathlib.Logic.Function.Basic
import Mathlib.Tactic.SplitIfs
import Mathlib.Tactic.Tauto

/-!
# Files and directories

A volume holds files and directories by path, and the calls of an operating system on them:
making a directory, making all directories of a path, writing, reading and removing a file. A
path is its names from the last to the first, so that what is above it is its tail. A volume
holds the names that `fits` accepts.

## What is proved

* `lookup_eq_ok`, `lookup_eq_notFound` — a path is found where something is there, and is told
  apart as missing only while it is `Reachable`: no file stands on the way to it, and no
  directory on the way would have to hold a name it cannot.
* `createDirAll_spec` — all directories of a path are made just when the path is `Creatable`, and
  whatever happens nothing else comes into being.
* `writeFile_spec`, `removeFile_eq_ok` — a file is written or removed, and nothing else changes.
-/

namespace Files

/-- What a path leads to. -/
inductive Node where
  | dir
  | file (bytes : List UInt8)
  deriving DecidableEq

/-- Why a call fails. -/
inductive Fault where
  | notFound
  | notADirectory
  | isADirectory
  | alreadyExists
  | nameTooLong
  deriving DecidableEq

/-- What is stored. -/
structure Volume (Name : Type*) where
  /-- What is at a path. -/
  node : List Name → Option Node
  /-- The names it can hold. -/
  fits : Name → Bool
  /-- The root is a directory. -/
  root : node [] = some .dir
  /-- Above whatever there is, is a directory, -/
  above : ∀ name path, node (name :: path) ≠ none → node path = some .dir
  /-- and its name is one that fits. -/
  named : ∀ name path, node (name :: path) ≠ none → fits name = true

namespace Volume

variable {Name : Type*} [DecidableEq Name]

/-- Nothing but the root. -/
def bare (fits : Name → Bool) : Volume Name where
  node path := if path = [] then some .dir else none
  fits := fits
  root := rfl
  above := by simp
  named := by simp

/-- Put something at a path, in a directory and where none is. -/
def place (v : Volume Name) (name : Name) (path : List Name) (n : Node) : Volume Name :=
  if h : v.node path = some .dir ∧ v.fits name = true ∧ v.node (name :: path) ≠ some .dir then {
    node := Function.update v.node (name :: path) (some n)
    fits := v.fits
    root := by rw [Function.update_of_ne (by simp), v.root]
    above := fun other at_ hother => by
      have hat : at_ ≠ name :: path := by
        rintro rfl
        rw [Function.update_of_ne (by simp)] at hother
        exact h.2.2 (v.above _ _ hother)
      rw [Function.update_of_ne hat]
      by_cases hself : other :: at_ = name :: path
      · rw [(List.cons.inj hself).2, h.1]
      · rw [Function.update_of_ne hself] at hother
        exact v.above _ _ hother
    named := fun other at_ hother => by
      by_cases hself : other :: at_ = name :: path
      · rw [(List.cons.inj hself).1, h.2.1]
      · rw [Function.update_of_ne hself] at hother
        exact v.named _ _ hother }
  else v

/-- Take a file away. -/
def erase (v : Volume Name) (path : List Name) : Volume Name :=
  if h : v.node path ≠ some .dir then {
    node := Function.update v.node path none
    fits := v.fits
    root := by
      rw [Function.update_of_ne, v.root]
      rintro rfl
      exact h v.root
    above := fun other at_ hother => by
      have hold : v.node (other :: at_) ≠ none := by
        intro hnone
        rw [Function.update_apply] at hother
        split_ifs at hother
        · exact hother rfl
        · exact hother hnone
      have hdir := v.above _ _ hold
      rw [Function.update_of_ne, hdir]
      rintro rfl
      exact h hdir
    named := fun other at_ hother => by
      rw [Function.update_apply] at hother
      split_ifs at hother
      · exact absurd rfl hother
      · exact v.named _ _ hother }
  else v

/-! ### The calls -/

/-- Walk to a path. -/
def lookup (v : Volume Name) : List Name → Except Fault Node
  | [] => .ok .dir
  | name :: path =>
    match v.lookup path with
    | .error fault => .error fault
    | .ok (.file _) => .error .notADirectory
    | .ok .dir =>
      if v.fits name then
        match v.node (name :: path) with
        | none => .error .notFound
        | some n => .ok n
      else .error .nameTooLong

/-- The path leads to a directory. -/
def isDir (v : Volume Name) (path : List Name) : Bool :=
  match v.lookup path with
  | .ok .dir => true
  | _ => false

/-- Make a directory. -/
def mkdir (v : Volume Name) (name : Name) (path : List Name) : Except Fault (Volume Name) :=
  match v.lookup path with
  | .error fault => .error fault
  | .ok (.file _) => .error .notADirectory
  | .ok .dir =>
    match v.lookup (name :: path) with
    | .ok _ => .error .alreadyExists
    | .error .notFound => .ok (v.place name path .dir)
    | .error fault => .error fault

/-- Make a directory, and those above it that are missing. -/
def createDirAll : List Name → Volume Name → Except Fault Unit × Volume Name
  | [], v => (.ok (), v)
  | name :: path, v =>
    match v.mkdir name path with
    | .ok made => (.ok (), made)
    | .error .notFound =>
      match createDirAll path v with
      | (.error fault, made) => (.error fault, made)
      | (.ok (), made) =>
        match made.mkdir name path with
        | .ok made => (.ok (), made)
        | .error fault => (if made.isDir (name :: path) then .ok () else .error fault, made)
    | .error fault => (if v.isDir (name :: path) then .ok () else .error fault, v)

/-- Write a file, or replace what is in it. -/
def writeFile (v : Volume Name) (path : List Name) (bytes : List UInt8) : Except Fault (Volume Name) :=
  match path with
  | [] => .error .isADirectory
  | name :: path =>
    match v.lookup path with
    | .error fault => .error fault
    | .ok (.file _) => .error .notADirectory
    | .ok .dir =>
      match v.lookup (name :: path) with
      | .ok .dir => .error .isADirectory
      | .ok (.file _) | .error .notFound => .ok (v.place name path (.file bytes))
      | .error fault => .error fault

def readFile (v : Volume Name) (path : List Name) : Except Fault (List UInt8) :=
  match v.lookup path with
  | .ok (.file bytes) => .ok bytes
  | .ok .dir => .error .isADirectory
  | .error fault => .error fault

def removeFile (v : Volume Name) (path : List Name) : Except Fault (Volume Name) :=
  match v.lookup path with
  | .ok (.file _) => .ok (v.erase path)
  | .ok .dir => .error .isADirectory
  | .error fault => .error fault

/-! ### What is found -/

variable {v made : Volume Name} {name : Name} {path other : List Name} {n : Node} {bytes : List UInt8}

/-- No file stands on the way to a path, and each name on the way fits the directory that is there. -/
def Reachable (v : Volume Name) : List Name → Prop
  | [] => True
  | name :: path => v.Reachable path ∧ (∀ bytes, v.node path ≠ some (.file bytes)) ∧
    (v.node path = some .dir → v.fits name = true)

omit [DecidableEq Name] in
theorem reachable_of_node (h : v.node path ≠ none) : v.Reachable path := by
  induction path with
  | nil => trivial
  | cons name path ih =>
    have hdir := v.above _ _ h
    refine ⟨ih (by simp [hdir]), fun bytes hfile => ?_, fun _ => v.named _ _ h⟩
    rw [hdir] at hfile
    cases hfile

omit [DecidableEq Name] in
theorem node_of_suffix (h : v.node path ≠ none) (hsuffix : other <:+ path) : v.node other ≠ none := by
  induction path with
  | nil => rwa [List.suffix_nil.mp hsuffix]
  | cons name path ih =>
    rcases List.suffix_cons_iff.mp hsuffix with rfl | hsuffix
    · exact h
    · exact ih (by simp [v.above _ _ h]) hsuffix

omit [DecidableEq Name] in
/-- **A path is found** where something is. -/
theorem lookup_eq_ok : v.lookup path = .ok n ↔ v.node path = some n := by
  induction path generalizing n with
  | nil => simp [lookup, v.root, eq_comm]
  | cons name path ih =>
    rw [lookup]
    constructor
    · intro h
      split at h
      · cases h
      · cases h
      · split_ifs at h
        split at h
        · cases h
        · rename_i hnode
          rw [hnode, Except.ok.inj h]
    · intro h
      have hdir := ih.mpr (v.above name path (by simp [h]))
      have hfits := v.named name path (by simp [h])
      simp [hdir, hfits, h]

omit [DecidableEq Name] in
/-- **A path is missing** where nothing is, and nothing is in the way. -/
theorem lookup_eq_notFound : v.lookup path = .error .notFound ↔ v.node path = none ∧ v.Reachable path := by
  induction path with
  | nil => simp [lookup, v.root]
  | cons name path ih =>
    cases hnode : v.node (name :: path) with
    | some n => simp [lookup_eq_ok.mpr hnode]
    | none =>
      simp only [true_and, Reachable]
      rw [lookup]
      cases hat : v.node path with
      | none =>
        constructor
        · intro h
          cases hlookup : v.lookup path with
          | ok n =>
            rw [lookup_eq_ok.mp hlookup] at hat
            cases hat
          | error fault =>
            rw [hlookup] at h
            exact ⟨(ih.mp (hlookup.trans h)).2, by simp⟩
        · rintro ⟨hreach, -, -⟩
          rw [ih.mpr ⟨hat, hreach⟩]
      | some n =>
        rw [lookup_eq_ok.mpr hat]
        cases n with
        | file bytes => simp
        | dir =>
          by_cases hfits : v.fits name = true
          · simp [hfits, hnode, (reachable_of_node (by simp [hat]) : v.Reachable path)]
          · simp [hfits]

omit [DecidableEq Name] in
@[simp] theorem isDir_iff : v.isDir path = true ↔ v.node path = some .dir := by
  rw [isDir, ← lookup_eq_ok]
  split <;> simp_all

/-! ### What the calls change -/

section Place

variable (hdir : v.node path = some .dir) (hfits : v.fits name = true) (hfree : v.node (name :: path) ≠ some .dir)

include hdir hfits hfree in
theorem node_place : (v.place name path n).node = Function.update v.node (name :: path) (some n) := by
  rw [place, dif_pos ⟨hdir, hfits, hfree⟩]

@[simp] theorem fits_place : (v.place name path n).fits = v.fits := by
  unfold place
  split_ifs <;> rfl

theorem node_erase (h : v.node path ≠ some .dir) : (v.erase path).node = Function.update v.node path none := by
  rw [erase, dif_pos h]

@[simp] theorem fits_erase : (v.erase path).fits = v.fits := by
  unfold erase
  split_ifs <;> rfl

end Place

theorem mkdir_eq_ok : v.mkdir name path = .ok made ↔
    v.node path = some .dir ∧ v.fits name = true ∧ v.node (name :: path) = none ∧ made = v.place name path .dir := by
  rw [mkdir]
  constructor
  · intro h
    split at h
    · cases h
    · cases h
    · rename_i hdir
      split at h
      · cases h
      · rename_i hmissing
        obtain ⟨hnone, -, -, hfits⟩ := lookup_eq_notFound.mp hmissing
        have hdir := lookup_eq_ok.mp hdir
        exact ⟨hdir, hfits hdir, hnone, (Except.ok.inj h).symm⟩
      · cases h
  · rintro ⟨hdir, hfits, hnone, rfl⟩
    have hreach : v.Reachable (name :: path) := ⟨reachable_of_node (by simp [hdir]), by simp [hdir], fun _ => hfits⟩
    rw [lookup_eq_ok.mpr hdir, lookup_eq_notFound.mpr ⟨hnone, hreach⟩]

theorem mkdir_eq_notFound : v.mkdir name path = .error .notFound ↔ v.node path = none ∧ v.Reachable path := by
  rw [← lookup_eq_notFound, mkdir]
  split
  · rename_i fault hfault
    rw [hfault, Except.error.injEq, Except.error.injEq]
  · rename_i hfile
    simp [hfile]
  · rename_i hdir
    rw [hdir]
    split <;> simp_all

/-- All directories of a path can be made: no file is in their place, and their names fit. -/
def Creatable (v : Volume Name) : List Name → Prop
  | [] => True
  | name :: path => v.Creatable path ∧ v.fits name = true ∧ ∀ bytes, v.node (name :: path) ≠ some (.file bytes)

omit [DecidableEq Name] in
theorem Creatable.not_file (h : v.Creatable path) : v.node path ≠ some (.file bytes) := by
  cases path with
  | nil => simp [v.root]
  | cons name path => exact h.2.2 bytes

omit [DecidableEq Name] in
theorem Creatable.reachable (h : v.Creatable path) : v.Reachable path := by
  induction path with
  | nil => trivial
  | cons name path ih => exact ⟨ih h.1, fun _ => h.1.not_file, fun _ => h.2.1⟩

omit [DecidableEq Name] in
theorem creatable_of_dir (h : v.node path = some .dir) : v.Creatable path := by
  induction path with
  | nil => trivial
  | cons name path ih =>
    have hsome : v.node (name :: path) ≠ none := by simp [h]
    exact ⟨ih (v.above _ _ hsome), v.named _ _ hsome, by simp [h]⟩

omit [DecidableEq Name] in
/-- **Below a directory**, directories can be made while their names fit and no file stands in the way. -/
theorem creatable_append_iff {pre : List Name} (h : v.node path = some .dir) :
    v.Creatable (pre ++ path) ↔ (∀ name ∈ pre, v.fits name = true) ∧ v.Reachable (pre ++ path) ∧
      ∀ bytes, v.node (pre ++ path) ≠ some (.file bytes) := by
  induction pre with
  | nil => simp [creatable_of_dir h, (reachable_of_node (by simp [h]) : v.Reachable path), h]
  | cons name pre ih =>
    simp only [List.cons_append, Creatable, Reachable, ih, List.forall_mem_cons]
    tauto

/-- `made` is the volume with some directories of a path that were missing. -/
def Grown (v made : Volume Name) (path : List Name) : Prop :=
  made.fits = v.fits ∧ ∀ q, made.node q = v.node q ∨ v.node q = none ∧ made.node q = some .dir ∧ q <:+ path

omit [DecidableEq Name] in
theorem Grown.refl : v.Grown v path := ⟨rfl, fun _ => .inl rfl⟩

omit [DecidableEq Name] in
theorem Grown.mono (h : v.Grown made path) (hpath : path <:+ other) : v.Grown made other :=
  ⟨h.1, fun q => (h.2 q).imp_right fun ⟨hnone, hdir, hq⟩ => ⟨hnone, hdir, hq.trans hpath⟩⟩

theorem Grown.place (h : v.Grown made path) (hdir : made.node path = some .dir) (hfits : made.fits name = true)
    (hnone : made.node (name :: path) = none) (hold : v.node (name :: path) = none) :
    v.Grown (made.place name path .dir) (name :: path) := by
  refine ⟨fits_place.trans h.1, fun q => ?_⟩
  rw [node_place hdir hfits (by simp [hnone])]
  by_cases hq : q = name :: path
  · subst hq
    exact .inr ⟨hold, Function.update_self .., List.suffix_refl _⟩
  · rw [Function.update_of_ne hq]
    exact (h.mono (List.suffix_cons _ _)).2 q

/-- **Making all directories of a path** succeeds just when it can, and nothing but these
directories comes into being. -/
theorem createDirAll_spec (path : List Name) (v : Volume Name) :
    v.Grown (createDirAll path v).2 path ∧ ((createDirAll path v).1 = .ok () ↔ v.Creatable path) ∧
      ((createDirAll path v).1 = .ok () → (createDirAll path v).2.node path = some .dir) := by
  induction path generalizing v with
  | nil => exact ⟨Grown.refl, iff_of_true (by rfl) trivial, fun _ => v.root⟩
  | cons name path ih =>
    rw [createDirAll]
    split
    · rename_i made hmade
      obtain ⟨hdir, hfits, hnone, rfl⟩ := mkdir_eq_ok.mp hmade
      refine ⟨Grown.refl.place hdir hfits hnone hnone, iff_of_true rfl
        ⟨creatable_of_dir hdir, hfits, by simp [hnone]⟩, fun _ => ?_⟩
      rw [node_place hdir hfits (by simp [hnone]), Function.update_self]
    · rename_i hmissing
      obtain ⟨hnone, -⟩ := mkdir_eq_notFound.mp hmissing
      have hbelow : v.node (name :: path) = none := by
        by_contra hsome
        rw [v.above _ _ hsome] at hnone
        cases hnone
      obtain ⟨hgrown, hiff, hmade⟩ := ih v
      split
      · rename_i fault made hresult
        rw [hresult] at hgrown hiff
        refine ⟨hgrown.mono (List.suffix_cons _ _), iff_of_false (by simp) fun hcreatable => ?_, by simp⟩
        exact absurd (hiff.mpr hcreatable.1) (by simp)
      · rename_i made hresult
        rw [hresult] at hgrown hiff hmade
        have hdir : made.node path = some .dir := hmade rfl
        have hstill : made.node (name :: path) = none := by
          rcases hgrown.2 (name :: path) with hsame | ⟨-, -, hsuffix⟩
          · rw [hsame, hbelow]
          · exact absurd hsuffix.length_le (by simp)
        split
        · rename_i more hmore
          obtain ⟨-, hfits, -, rfl⟩ := mkdir_eq_ok.mp hmore
          refine ⟨hgrown.place hdir hfits hstill hbelow, iff_of_true rfl
            ⟨hiff.mp rfl, hgrown.1 ▸ hfits, by simp [hbelow]⟩, fun _ => ?_⟩
          rw [node_place hdir hfits (by simp [hstill]), Function.update_self]
        · rename_i fault hfault
          have hnot : made.isDir (name :: path) = false := by
            rw [← Bool.not_eq_true, isDir_iff, hstill]
            simp
          have hfits : ¬ v.fits name = true := by
            intro hfits
            rw [mkdir_eq_ok.mpr ⟨hdir, hgrown.1 ▸ hfits, hstill, rfl⟩] at hfault
            cases hfault
          simp only [hnot, Bool.false_eq_true, if_false]
          exact ⟨hgrown.mono (List.suffix_cons _ _), iff_of_false (by simp)
            fun hcreatable => hfits hcreatable.2.1, by simp⟩
    · rename_i fault hne hfault
      refine ⟨Grown.refl, ?_⟩
      by_cases hdir : v.node (name :: path) = some .dir
      · have : v.isDir (name :: path) = true := isDir_iff.mpr hdir
        simp only [this, if_true]
        exact ⟨iff_of_true trivial (creatable_of_dir hdir), fun _ => hdir⟩
      · have : v.isDir (name :: path) = false := by rwa [← Bool.not_eq_true, isDir_iff]
        simp only [this, Bool.false_eq_true, if_false]
        refine ⟨iff_of_false (by simp) fun hcreatable => ?_, by simp⟩
        -- a path that can be made and is not there is made, or what is above it is missing
        cases hat : v.node path with
        | none =>
          rw [mkdir_eq_notFound.mpr ⟨hat, hcreatable.1.reachable⟩] at hfault
          exact hne (Except.error.inj hfault).symm
        | some n =>
          cases n with
          | file bytes => exact hcreatable.1.not_file hat
          | dir =>
            cases hself : v.node (name :: path) with
            | none =>
              rw [mkdir_eq_ok.mpr ⟨hat, hcreatable.2.1, hself, rfl⟩] at hfault
              cases hfault
            | some n =>
              cases n with
              | file bytes => exact hcreatable.not_file hself
              | dir => exact hdir hself

/-- **A file is written** in a directory, where no directory is. -/
theorem writeFile_spec : v.writeFile (name :: path) bytes = .ok made ↔
    v.node path = some .dir ∧ v.fits name = true ∧ v.node (name :: path) ≠ some .dir ∧
      made = v.place name path (.file bytes) := by
  rw [writeFile]
  constructor
  · intro h
    split at h
    · cases h
    · cases h
    · rename_i hdir
      have hdir := lookup_eq_ok.mp hdir
      split at h
      · cases h
      · rename_i hfile
        have hfile := lookup_eq_ok.mp hfile
        exact ⟨hdir, v.named name path (by simp [hfile]), by simp [hfile], (Except.ok.inj h).symm⟩
      · rename_i hmissing
        obtain ⟨hnone, -, -, hfits⟩ := lookup_eq_notFound.mp hmissing
        exact ⟨hdir, hfits hdir, by simp [hnone], (Except.ok.inj h).symm⟩
      · cases h
  · rintro ⟨hdir, hfits, hfree, rfl⟩
    rw [lookup_eq_ok.mpr hdir]
    cases hself : v.node (name :: path) with
    | none =>
      have hreach : v.Reachable (name :: path) := ⟨reachable_of_node (by simp [hdir]), by simp [hdir], fun _ => hfits⟩
      rw [lookup_eq_notFound.mpr ⟨hself, hreach⟩]
    | some n =>
      cases n with
      | file bytes => rw [lookup_eq_ok.mpr hself]
      | dir => exact absurd hself hfree

omit [DecidableEq Name] in
/-- A file is read where one is, -/
theorem readFile_eq_ok : v.readFile path = .ok bytes ↔ v.node path = some (.file bytes) := by
  rw [← lookup_eq_ok, readFile]
  split <;> simp_all

omit [DecidableEq Name] in
/-- and missing where nothing is and nothing is in the way. -/
theorem readFile_eq_notFound : v.readFile path = .error .notFound ↔ v.node path = none ∧ v.Reachable path := by
  rw [← lookup_eq_notFound, readFile]
  split <;> simp_all

/-- A file is removed where one is, -/
theorem removeFile_eq_ok : v.removeFile path = .ok made ↔ (∃ bytes, v.node path = some (.file bytes)) ∧
    made = v.erase path := by
  rw [removeFile]
  split
  · rename_i bytes hfile
    simp [lookup_eq_ok.mp hfile, eq_comm]
  · rename_i hdir
    simp [lookup_eq_ok.mp hdir]
  · rename_i fault hfault
    refine iff_of_false (by simp) ?_
    rintro ⟨⟨bytes, hfile⟩, -⟩
    rw [lookup_eq_ok.mpr hfile] at hfault
    cases hfault

/-- and missing where nothing is and nothing is in the way. -/
theorem removeFile_eq_notFound : v.removeFile path = .error .notFound ↔ v.node path = none ∧ v.Reachable path := by
  rw [← lookup_eq_notFound, removeFile]
  split <;> simp_all

end Volume

end Files
