import Omnion.Library.Run
import Omnion.Permissions.Roles

/-!
# The matrix save

`replace_role_permissions` of `crates/permissions/src/roles.rs` with
`versions::record`: any number of saves of one role, taken apart into the statements
they make, interleaved in any order.

## The model

A save is validated, checks `expected_version` against the latest version, reads
the entries the role holds, replaces them in a transaction, and records a version
whose number it computes in the insert. The statements run under READ COMMITTED:
the delete removes the rows committed when it was made, so a row another save
commits in between stays, and collides with the inserts on a common key only. Rows
are tagged by the transaction that inserted them to say which those are. A save
that stops in between is one that takes no further step.

## What is proved

* `run_safe` — no update is lost in the runs where a save passes its check only
  while no other save is between its check and its version.
* `save_twice` — two saves that overlap can both succeed on one expected version.

## Honest scope

The other operations that record versions are not part of a run, and version
numbers do not overflow.
-/

namespace Omnion.Permissions

open Std

/-- One changed entry of a role's permission set. -/
structure PermissionChange where
  key : String
  before : Option Effect
  after : Option Effect

/-- What changed between two permission sets. -/
structure RoleDiff where
  added : List RolePermission := []
  removed : List RolePermission := []
  changed : List PermissionChange := []

/-- A permission set as a map. -/
def entryMap (entries : List RolePermission) : TreeMap String Effect :=
  entries.foldl (fun m e => m.insert e.key e.effect) ∅

/-- Diff two permission sets. -/
def diff (before after : List RolePermission) : RoleDiff where
  added := (entryMap after).toList.filterMap fun (key, effect) =>
    if (entryMap before)[key]?.isNone then some ⟨key, effect⟩ else none
  changed := (entryMap after).toList.filterMap fun (key, effect) =>
    match (entryMap before)[key]? with
    | some previous => if previous ≠ effect then some ⟨key, some previous, some effect⟩ else none
    | none => none
  removed := (entryMap before).toList.filterMap fun (key, effect) =>
    if (entryMap after).contains key then none else some ⟨key, effect⟩

/-- What the entries of a save were found to be: the unknown keys, the repeated keys,
and one entry for each known key. -/
def sortEntries (entries : List RolePermission) : List String × List String × TreeMap String Effect :=
  entries.foldl (fun (unknown, duplicates, validated) e =>
    if Catalogue.isKnown e.key = false then (unknown ++ [e.key], duplicates, validated)
    else (unknown, if validated.contains e.key then duplicates ++ [e.key] else duplicates,
      validated.insert e.key e.effect)) ([], [], ∅)

/-- The validation of a save: unknown keys and duplicates fail the whole request. -/
def validateEntries (entries : List RolePermission) : Except PermissionsError (List RolePermission) :=
  let (unknown, duplicates, validated) := sortEntries entries
  let unknown := (unknown.insertionSort (· ≤ ·)).dedup
  let duplicates := (duplicates.insertionSort (· ≤ ·)).dedup
  if unknown.isEmpty && duplicates.isEmpty then .ok (validated.toList.map fun (k, e) => ⟨k, e⟩)
  else .error (.invalidEntries unknown duplicates)

/-- A row of `role_versions`, of the one role. -/
structure RoleVersion where
  version : ℤ
  name : String
  description : String
  priority : ℤ
  inheritsRoleId : Option Uuid
  /-- Whether inherited permissions applied. -/
  inheritPermissions : Bool
  permissions : List RolePermission
  change : String
  changedBy : Option Uuid

/-- The latest version number, `0` when the role has no history yet. Numbers are
positive. -/
def latestVersion (versions : List RoleVersion) : ℤ := versions.foldl (fun m v => max m v.version) 0

/-- A committed row of `role_permissions`, of the one role. -/
structure TaggedEntry where
  /-- The transaction that inserted it. -/
  tag : ℕ
  entry : RolePermission

/-- A save that passed validation. -/
structure Save where
  role : Role
  after : List RolePermission
  expected : Option ℤ
  changedBy : Option Uuid
  deriving DecidableEq

/-- How far a save has come. -/
inductive Phase where
  | idle
  | started (save : Save)
  | checked (save : Save)
  /-- The entries held before are read. -/
  | read (save : Save) (before : List RolePermission)
  /-- The transaction is open and deletes the rows of these tags. -/
  | deleting (save : Save) (before : List RolePermission) (snapshot : List ℕ)
  | written (save : Save) (before : List RolePermission)
  /-- The version number is computed. -/
  | numbered (save : Save) (before : List RolePermission) (version : ℤ)
  /-- The version is recorded: the save succeeds. -/
  | saved (save : Save) (before : List RolePermission) (version : ℤ)
  | refused (error : PermissionsError)
  deriving DecidableEq

/-- One role, its history, and the saves. -/
structure Saves where
  role : Option Role
  rows : List TaggedEntry
  /-- The tag of the next transaction. -/
  nextTag : ℕ
  versions : List RoleVersion
  calls : ℕ → Phase

namespace Saves

/-- Save `c` goes on to a phase. -/
def move (s : Saves) (c : ℕ) (p : Phase) : Saves := { s with calls := Function.update s.calls c p }

/-- The entries the role holds. -/
def entries (s : Saves) : List RolePermission := s.rows.map (·.entry)

end Saves

/-- The statements of a save. -/
inductive SaveEvent where
  /-- The role is found and the entries are validated. -/
  | begin (c : ℕ) (entries : List RolePermission) (expected : Option ℤ) (changedBy : Option Uuid)
  | check (c : ℕ)
  | readBefore (c : ℕ)
  /-- The transaction begins and deletes. -/
  | delete (c : ℕ)
  /-- The transaction inserts and commits. -/
  | commit (c : ℕ)
  /-- The insert of the version reads the latest number. -/
  | number (c : ℕ)
  /-- The insert of the version is made. -/
  | record (c : ℕ)

/-- The start of a save. -/
def beginSave (role : Option Role) (entries : List RolePermission) (expected : Option ℤ)
    (changedBy : Option Uuid) : Phase :=
  match role with
  | none => .refused .roleNotFound
  | some role =>
    if role.isSystem then .refused .systemRole
    else
      match validateEntries entries with
      | .error e => .refused e
      | .ok after => .started { role, after, expected, changedBy }

def checkVersion (versions : List RoleVersion) (save : Save) : Phase :=
  match save.expected with
  | none => .checked save
  | some expected =>
    if latestVersion versions ≠ expected then .refused (.versionConflict expected (latestVersion versions))
    else .checked save

/-- The row a save records. -/
def Save.version (save : Save) (version : ℤ) : RoleVersion :=
  { version, name := save.role.name, description := save.role.description, priority := save.role.priority,
    inheritsRoleId := save.role.inheritsRoleId, inheritPermissions := save.role.inheritPermissions,
    permissions := save.after, change := "permissions", changedBy := save.changedBy }

def saveStep (s : Saves) : SaveEvent → Option Saves
  | .begin c entries expected changedBy =>
    match s.calls c with
    | .idle => some (s.move c (beginSave s.role entries expected changedBy))
    | _ => none
  | .check c =>
    match s.calls c with
    | .started save => some (s.move c (checkVersion s.versions save))
    | _ => none
  | .readBefore c =>
    match s.calls c with
    | .checked save => some (s.move c (.read save (s.entries.insertionSort fun a b => a.key ≤ b.key)))
    | _ => none
  | .delete c =>
    match s.calls c with
    | .read save before => some (s.move c (.deleting save before (s.rows.map (·.tag))))
    | _ => none
  | .commit c =>
    match s.calls c with
    | .deleting save before snapshot =>
      let kept := s.rows.filter (·.tag ∉ snapshot)
      if save.after.any fun e => kept.any (·.entry.key = e.key) then
        some (s.move c (.refused (.database "role_permissions_pkey")))
      else
        some { s.move c (.written save before) with
               rows := kept ++ save.after.map (⟨s.nextTag, ·⟩), nextTag := s.nextTag + 1 }
    | _ => none
  | .number c =>
    match s.calls c with
    | .written save before => some (s.move c (.numbered save before (latestVersion s.versions + 1)))
    | _ => none
  | .record c =>
    match s.calls c with
    | .numbered save before version =>
      if s.versions.any (·.version = version) then
        some (s.move c (.refused (.database "role_versions_role_id_version_key")))
      else
        some { s.move c (.saved save before version) with versions := s.versions ++ [save.version version] }
    | _ => none

/-! ### What a statement does -/

/-- The statements, and what each does. -/
inductive Took (s : Saves) : SaveEvent → Saves → Prop where
  | begin {c : ℕ} {entries : List RolePermission} {expected : Option ℤ} {changedBy : Option Uuid} :
      s.calls c = .idle →
      Took s (.begin c entries expected changedBy) (s.move c (beginSave s.role entries expected changedBy))
  | check {c : ℕ} {save : Save} : s.calls c = .started save →
      Took s (.check c) (s.move c (checkVersion s.versions save))
  | readBefore {c : ℕ} {save : Save} : s.calls c = .checked save →
      Took s (.readBefore c) (s.move c (.read save (s.entries.insertionSort fun a b => a.key ≤ b.key)))
  | delete {c : ℕ} {save : Save} {before : List RolePermission} : s.calls c = .read save before →
      Took s (.delete c) (s.move c (.deleting save before (s.rows.map (·.tag))))
  | collide {c : ℕ} {save : Save} {before : List RolePermission} {snapshot : List ℕ} :
      s.calls c = .deleting save before snapshot →
      Took s (.commit c) (s.move c (.refused (.database "role_permissions_pkey")))
  | commit {c : ℕ} {save : Save} {before : List RolePermission} {snapshot : List ℕ} :
      s.calls c = .deleting save before snapshot →
      Took s (.commit c) { s.move c (.written save before) with
        rows := (s.rows.filter (·.tag ∉ snapshot)) ++ save.after.map (⟨s.nextTag, ·⟩), nextTag := s.nextTag + 1 }
  | number {c : ℕ} {save : Save} {before : List RolePermission} : s.calls c = .written save before →
      Took s (.number c) (s.move c (.numbered save before (latestVersion s.versions + 1)))
  | clash {c : ℕ} {save : Save} {before : List RolePermission} {v : ℤ} : s.calls c = .numbered save before v →
      (∃ row ∈ s.versions, row.version = v) →
      Took s (.record c) (s.move c (.refused (.database "role_versions_role_id_version_key")))
  | record {c : ℕ} {save : Save} {before : List RolePermission} {v : ℤ} : s.calls c = .numbered save before v →
      (∀ row ∈ s.versions, row.version ≠ v) →
      Took s (.record c) { s.move c (.saved save before v) with versions := s.versions ++ [save.version v] }

theorem took {s t : Saves} {e : SaveEvent} (h : saveStep s e = some t) : Took s e t := by
  cases e with
  | begin c entries expected changedBy =>
    simp only [saveStep] at h
    split at h <;> cases h
    exact .begin ‹_›
  | check c =>
    simp only [saveStep] at h
    split at h <;> cases h
    exact .check ‹_›
  | readBefore c =>
    simp only [saveStep] at h
    split at h <;> cases h
    exact .readBefore ‹_›
  | delete c =>
    simp only [saveStep] at h
    split at h <;> cases h
    exact .delete ‹_›
  | commit c =>
    simp only [saveStep] at h
    split at h
    · split at h <;> cases h
      · exact .collide ‹_›
      · exact .commit ‹_›
    · cases h
  | number c =>
    simp only [saveStep] at h
    split at h <;> cases h
    exact .number ‹_›
  | record c =>
    simp only [saveStep] at h
    split at h
    · split at h <;> cases h
      · next hv => exact .clash ‹_› (by simpa using hv)
      · next hv => exact .record ‹_› (by simpa using hv)
    · cases h

theorem le_latestVersion {versions : List RoleVersion} {row : RoleVersion} (h : row ∈ versions) :
    row.version ≤ latestVersion versions := by
  have key : ∀ (l : List RoleVersion) (m : ℤ), m ≤ l.foldl (fun m v => max m v.version) m ∧
      ∀ row ∈ l, row.version ≤ l.foldl (fun m v => max m v.version) m := by
    intro l
    induction l with
    | nil => simp
    | cons a l ih =>
      intro m
      obtain ⟨hm, hl⟩ := ih (max m a.version)
      refine ⟨(le_max_left _ _).trans hm, fun row hrow => ?_⟩
      rcases List.mem_cons.mp hrow with rfl | hrow
      · exact (le_max_right _ _).trans hm
      · exact hl row hrow
  exact (key versions 0).2 row h

theorem latestVersion_append (versions : List RoleVersion) (row : RoleVersion) :
    latestVersion (versions ++ [row]) = max (latestVersion versions) row.version := by
  rw [latestVersion, List.foldl_append]
  rfl

/-! ### The phases -/

/-- A save that succeeded. -/
def Phase.Saved : Phase → Prop
  | .saved _ _ _ => True
  | _ => False

/-- A save between its check and its version. -/
def Phase.InFlight : Phase → Prop
  | .checked _ | .read _ _ | .deleting _ _ _ | .written _ _ | .numbered _ _ _ => True
  | _ => False

/-- A save whose entries are committed and whose version is not. -/
def Phase.Writing : Phase → Prop
  | .written _ _ | .numbered _ _ _ => True
  | _ => False

theorem beginSave_cases (role : Option Role) (entries : List RolePermission) (expected : Option ℤ)
    (changedBy : Option Uuid) :
    (∃ save, beginSave role entries expected changedBy = .started save) ∨
      ∃ e, beginSave role entries expected changedBy = .refused e := by
  cases role with
  | none => exact .inr ⟨_, rfl⟩
  | some role =>
    simp only [beginSave]
    split
    · exact .inr ⟨_, rfl⟩
    · cases validateEntries entries with
      | error e => exact .inr ⟨e, rfl⟩
      | ok after => exact .inl ⟨_, rfl⟩

theorem checkVersion_cases (versions : List RoleVersion) (save : Save) :
    (checkVersion versions save = .checked save ∧ ∀ e ∈ save.expected, latestVersion versions = e) ∨
      ∃ e, checkVersion versions save = .refused e := by
  unfold checkVersion
  cases save.expected with
  | none => exact .inl ⟨rfl, by simp⟩
  | some expected =>
    by_cases h : latestVersion versions = expected
    · exact .inl ⟨by simp [h], by simpa using h⟩
    · exact .inr ⟨_, by simp [h]; rfl⟩

namespace Saves

variable {s t : Saves} {c d : ℕ} {p q : Phase}

@[simp] theorem move_self : (s.move c p).calls c = p := Function.update_self ..

theorem move_of_ne (h : d ≠ c) : (s.move c p).calls d = s.calls d := Function.update_of_ne h ..

/-! ### Version numbers -/

/-- Every number is used once. -/
structure Numbered (s : Saves) : Prop where
  nodup : (s.versions.map (·.version)).Nodup
  /-- The version of a save is in the history. -/
  recorded : ∀ {c save before v}, s.calls c = .saved save before v → save.version v ∈ s.versions
  distinct : ∀ {c d save save' before before' v}, s.calls c = .saved save before v →
    s.calls d = .saved save' before' v → c = d

theorem Numbered.move (h : s.Numbered) (hp : ¬ p.Saved) : (s.move c p).Numbered := by
  have hold : ∀ {d save before v}, (s.move c p).calls d = .saved save before v →
      s.calls d = .saved save before v := by
    intro d save before v hd
    by_cases hdc : d = c
    · subst hdc
      obtain rfl := move_self.symm.trans hd
      exact absurd trivial hp
    · rwa [move_of_ne hdc] at hd
  exact ⟨h.nodup, fun hc => h.recorded (hold hc), fun hc hd => h.distinct (hold hc) (hold hd)⟩

theorem Numbered.step {e : SaveEvent} (h : s.Numbered) (hs : saveStep s e = some t) : t.Numbered := by
  cases took hs with
  | begin =>
    apply h.move
    rcases beginSave_cases s.role _ _ _ with ⟨_, hp⟩ | ⟨_, hp⟩ <;> rw [hp] <;> exact not_false
  | check =>
    apply h.move
    rcases checkVersion_cases s.versions _ with ⟨hp, -⟩ | ⟨_, hp⟩ <;> rw [hp] <;> exact not_false
  | readBefore => exact h.move not_false
  | delete => exact h.move not_false
  | collide => exact h.move not_false
  | number => exact h.move not_false
  | clash => exact h.move not_false
  | @commit c save before =>
    have hm : (s.move c (.written save before)).Numbered := h.move not_false
    exact ⟨hm.nodup, hm.recorded, hm.distinct⟩
  | @record c save before v hc hfree =>
    have hold : ∀ {d save' before' v'}, d ≠ c → (s.move c (.saved save before v)).calls d = .saved save' before' v' →
        s.calls d = .saved save' before' v' := fun hdc hd => by rwa [move_of_ne hdc] at hd
    have hnew : ∀ {d save' before' v'}, d ≠ c → (s.move c (.saved save before v)).calls d = .saved save' before' v' →
        v' ≠ v := fun hdc hd hv => hfree _ (h.recorded (hold hdc hd)) hv
    refine ⟨?_, fun {d save' before' v'} hd => ?_, fun {d d' save' save'' before' before'' v'} hd hd' => ?_⟩
    · simp only [List.map_append, List.map_cons, List.map_nil]
      refine List.nodup_append.mpr ⟨h.nodup, List.nodup_singleton _, ?_⟩
      intro x hx y hy hxy
      obtain ⟨row, hrow, rfl⟩ := List.mem_map.mp hx
      obtain rfl := List.mem_singleton.mp hy
      exact hfree row hrow hxy
    · by_cases hdc : d = c
      · subst hdc
        obtain ⟨rfl, rfl, rfl⟩ := Phase.saved.inj (move_self.symm.trans hd)
        exact List.mem_append_right _ (List.mem_singleton_self _)
      · exact List.mem_append_left _ (h.recorded (hold hdc hd))
    · by_cases hdc : d = c
      · by_cases hdc' : d' = c
        · rw [hdc, hdc']
        · subst hdc
          obtain ⟨-, -, rfl⟩ := Phase.saved.inj (move_self.symm.trans hd)
          exact absurd rfl (hnew hdc' hd')
      · by_cases hdc' : d' = c
        · subst hdc'
          obtain ⟨-, -, rfl⟩ := Phase.saved.inj (move_self.symm.trans hd')
          exact absurd rfl (hnew hdc hd)
        · exact h.distinct (hold hdc hd) (hold hdc' hd')

/-! ### No update is lost -/

/-- The save expects the latest version, if it expects one. -/
def Expects (s : Saves) (save : Save) : Prop := ∀ e ∈ save.expected, latestVersion s.versions = e

/-- The entries are those of the save that recorded the latest version, if one did. -/
def Reflects (s : Saves) (l : List RolePermission) : Prop :=
  ∀ {d save before}, s.calls d = .saved save before (latestVersion s.versions) → ∀ e, e ∈ save.after ↔ e ∈ l

/-- What is known of a save in flight that nobody overlaps. -/
def FlightOk (s : Saves) : Phase → Prop
  | .checked save => s.Expects save
  | .read save before => s.Expects save ∧ ∀ e, e ∈ before ↔ e ∈ s.entries
  | .deleting save before snapshot => s.Expects save ∧ (∀ e, e ∈ before ↔ e ∈ s.entries) ∧
      ∀ row ∈ s.rows, row.tag ∈ snapshot
  | .written save before => s.Expects save ∧ s.Reflects before ∧ ∀ e, e ∈ save.after ↔ e ∈ s.entries
  | .numbered save before v => s.Expects save ∧ s.Reflects before ∧ (∀ e, e ∈ save.after ↔ e ∈ s.entries) ∧
      v = latestVersion s.versions + 1
  | _ => True

/-- **The invariant** of runs whose saves do not overlap. -/
structure Inv (s : Saves) : Prop where
  numbered : s.Numbered
  solo : ∀ {c d}, (s.calls c).InFlight → (s.calls d).InFlight → c = d
  flight : ∀ c, s.FlightOk (s.calls c)
  /-- Between saves the role holds what the latest version says. -/
  quiet : (∀ c, ¬ (s.calls c).Writing) → s.Reflects s.entries
  /-- A save records the version after the one it expected. -/
  expected : ∀ {c save before v}, s.calls c = .saved save before v → ∀ e ∈ save.expected, v = e + 1
  /-- A save read what the version before it wrote. -/
  image : ∀ {c d save save' before before' v}, s.calls c = .saved save before (v + 1) →
    s.calls d = .saved save' before' v → ∀ e, e ∈ save'.after ↔ e ∈ before

theorem Inv.flightOk (h : s.Inv) (hc : s.calls c = p) : s.FlightOk p := hc ▸ h.flight c

theorem Inv.alone (h : s.Inv) (hc : s.calls c = p) (hp : p.InFlight) :
    ∀ d, d ≠ c → ¬ (s.calls d).InFlight :=
  fun _ hdc hd => hdc (h.solo hd (hc ▸ hp))

theorem flightOk_of_not_inFlight (h : ¬ p.InFlight) : s.FlightOk p := by
  cases p <;> first | trivial | exact absurd trivial h

/-- What a move of save `c` from one unsuccessful phase to another leaves. -/
theorem Inv.move (h : s.Inv) (hc : s.calls c = q) (hq : ¬ q.Saved) (hp : ¬ p.Saved) (hok : s.FlightOk p)
    (hsolo : p.InFlight → ∀ d, d ≠ c → ¬ (s.calls d).InFlight) (hwriting : q.Writing → p.Writing) :
    (s.move c p).Inv := by
  subst hc
  have hsaved : ∀ {d save before v}, (s.move c p).calls d = .saved save before v ↔
      s.calls d = .saved save before v := by
    intro d save before v
    by_cases hdc : d = c
    · subst hdc
      rw [move_self]
      exact ⟨fun h => absurd (h ▸ trivial : p.Saved) hp, fun h => absurd (h ▸ trivial : (s.calls d).Saved) hq⟩
    · rw [move_of_ne hdc]
  have hreflects : ∀ {l}, s.Reflects l → (s.move c p).Reflects l := fun hl _ _ _ hd => hl (hsaved.mp hd)
  have hflight : ∀ {q}, s.FlightOk q → (s.move c p).FlightOk q := by
    intro q hq
    cases q with
    | written save before => exact ⟨hq.1, hreflects hq.2.1, hq.2.2⟩
    | numbered save before v => exact ⟨hq.1, hreflects hq.2.1, hq.2.2⟩
    | _ => exact hq
  refine ⟨h.numbered.move hp, ?_, ?_, ?_, fun hd => h.expected (hsaved.mp hd),
    fun hd hd' => h.image (hsaved.mp hd) (hsaved.mp hd')⟩
  · intro d d' hd hd'
    by_cases hdc : d = c
    · by_cases hdc' : d' = c
      · rw [hdc, hdc']
      · subst hdc
        rw [move_self] at hd
        rw [move_of_ne hdc'] at hd'
        exact absurd hd' (hsolo hd d' hdc')
    · by_cases hdc' : d' = c
      · subst hdc'
        rw [move_self] at hd'
        rw [move_of_ne hdc] at hd
        exact absurd hd (hsolo hd' d hdc)
      · rw [move_of_ne hdc] at hd
        rw [move_of_ne hdc'] at hd'
        exact h.solo hd hd'
  · intro d
    by_cases hdc : d = c
    · subst hdc
      rw [move_self]
      exact hflight hok
    · rw [move_of_ne hdc]
      exact hflight (h.flight d)
  · intro hquiet
    refine hreflects (h.quiet fun d hd => hquiet d ?_)
    by_cases hdc : d = c
    · subst hdc
      rw [move_self]
      exact hwriting hd
    · rwa [move_of_ne hdc]

theorem inFlight_of_writing (h : p.Writing) : p.InFlight := by
  cases p <;> trivial

/-- While only save `c` is in flight, who is in flight after its move is `c`. -/
theorem eq_of_inFlight_move (h : ∀ d, d ≠ c → ¬ (s.calls d).InFlight)
    (hd : ((s.move c p).calls d).InFlight) :
    d = c := by
  by_contra hdc
  rw [move_of_ne hdc] at hd
  exact h d hdc hd

/-- A save passes its check only while no other is in flight. -/
def NoOverlap (s : Saves) : SaveEvent → Prop
  | .check c => ∀ save, s.calls c = .started save → checkVersion s.versions save = .checked save →
      ∀ d, d ≠ c → ¬ (s.calls d).InFlight
  | _ => True

/-- The commit of a save's entries. -/
theorem Inv.commit {save : Save} {before : List RolePermission} {snapshot : List ℕ} (h : s.Inv)
    (hc : s.calls c = .deleting save before snapshot) :
    Inv { s.move c (.written save before) with
      rows := (s.rows.filter (·.tag ∉ snapshot)) ++ save.after.map (⟨s.nextTag, ·⟩), nextTag := s.nextTag + 1 } := by
  obtain ⟨hexpects, hbefore, hall⟩ := h.flightOk hc
  have hothers := h.alone hc trivial
  have hmoved : (s.move c (.written save before)).Numbered := h.numbered.move not_false
  have hkept : s.rows.filter (·.tag ∉ snapshot) = [] :=
    List.filter_eq_nil_iff.mpr fun row hrow => by simpa using hall row hrow
  -- before the transaction nobody was writing, so the entries read are the latest version's
  have hreflects : s.Reflects before := by
    have hquiet : s.Reflects s.entries := h.quiet fun d hd => by
      by_cases hdc : d = c
      · rw [hdc, hc] at hd
        exact hd
      · exact hothers d hdc (inFlight_of_writing hd)
    intro d save' before' hd e
    exact (hquiet hd e).trans (hbefore e).symm
  have hsaved : ∀ {d save' before' v}, (s.move c (.written save before)).calls d = .saved save' before' v →
      s.calls d = .saved save' before' v := by
    intro d save' before' v hd
    by_cases hdc : d = c
    · subst hdc
      exact absurd (move_self.symm.trans hd) (by simp)
    · rwa [move_of_ne hdc] at hd
  refine ⟨⟨hmoved.nodup, hmoved.recorded, hmoved.distinct⟩, ?_, ?_, ?_, fun hd => h.expected (hsaved hd),
    fun hd hd' => h.image (hsaved hd) (hsaved hd')⟩
  · exact fun hd hd' => (eq_of_inFlight_move hothers hd).trans (eq_of_inFlight_move hothers hd').symm
  · intro d
    by_cases hdc : d = c
    · subst hdc
      show FlightOk _ ((s.move d _).calls d)
      rw [move_self]
      refine ⟨hexpects, fun hd => hreflects (hsaved hd), fun e => ?_⟩
      simp only [entries, hkept, List.nil_append, List.map_map, Function.comp_def, List.map_id']
    · exact flightOk_of_not_inFlight (by
        show ¬ ((s.move c _).calls d).InFlight
        rw [move_of_ne hdc]
        exact hothers d hdc)
  · intro hquiet
    refine absurd ?_ (hquiet c)
    show ((s.move c _).calls c).Writing
    rw [move_self]
    trivial

/-- The version of a save recorded, which is the one after the latest. -/
theorem Inv.record {save : Save} {before : List RolePermission} {v : ℤ} (h : s.Inv)
    (hc : s.calls c = .numbered save before v)
    (hnumbered : Numbered { s.move c (.saved save before v) with versions := s.versions ++ [save.version v] }) :
    Inv { s.move c (.saved save before v) with versions := s.versions ++ [save.version v] } := by
  obtain ⟨hexpects, hreflects, hafter, rfl⟩ := h.flightOk hc
  have hothers := h.alone hc trivial
  have hlatest : latestVersion (s.versions ++ [save.version (latestVersion s.versions + 1)]) =
      latestVersion s.versions + 1 := by
    rw [latestVersion_append]
    exact max_eq_right (by show _ ≤ _ + 1; omega)
  have hnone : ∀ d, ¬ ((s.move c (.saved save before (latestVersion s.versions + 1))).calls d).InFlight := by
    intro d
    by_cases hdc : d = c
    · rw [hdc, move_self]
      exact not_false
    · rw [move_of_ne hdc]
      exact hothers d hdc
  -- a save recorded before has at most the number that was the latest
  have hcases : ∀ {d save' before' v},
      (s.move c (.saved save before (latestVersion s.versions + 1))).calls d = .saved save' before' v →
      (d = c ∧ save' = save ∧ before' = before ∧ v = latestVersion s.versions + 1) ∨
        (s.calls d = .saved save' before' v ∧ v ≤ latestVersion s.versions) := by
    intro d save' before' v hd
    by_cases hdc : d = c
    · subst hdc
      obtain ⟨rfl, rfl, rfl⟩ := Phase.saved.inj (move_self.symm.trans hd)
      exact .inl ⟨rfl, rfl, rfl, rfl⟩
    · rw [move_of_ne hdc] at hd
      exact .inr ⟨hd, le_latestVersion (h.numbered.recorded hd)⟩
  refine ⟨hnumbered, fun hd => absurd hd (hnone _), fun d => flightOk_of_not_inFlight (hnone d), ?_, ?_, ?_⟩
  · intro _ d save' before' hd
    rw [hlatest] at hd
    rcases hcases hd with ⟨-, rfl, -, -⟩ | ⟨-, hle⟩
    · exact hafter
    · omega
  · intro d save' before' v hd e he
    rcases hcases hd with ⟨-, rfl, -, rfl⟩ | ⟨hd, -⟩
    · rw [hexpects e he]
    · exact h.expected hd e he
  · intro d d' save' save'' before' before'' v hd hd'
    rcases hcases hd with ⟨-, rfl, rfl, hv⟩ | ⟨hd, hle⟩
    · rcases hcases hd' with ⟨-, -, -, hv'⟩ | ⟨hd', -⟩
      · omega
      · obtain rfl : v = latestVersion s.versions := by omega
        exact hreflects hd'
    · rcases hcases hd' with ⟨-, -, -, hv'⟩ | ⟨hd', -⟩
      · omega
      · exact h.image hd hd'

/-- **One statement keeps the invariant.** -/
theorem Inv.step {e : SaveEvent} (h : s.Inv) (hok : s.NoOverlap e) (hs : saveStep s e = some t) :
    t.Inv := by
  have hnumbered := h.numbered.step hs
  cases took hs with
  | @begin c entries expected changedBy hc =>
    rcases beginSave_cases s.role entries expected changedBy with ⟨save, hp⟩ | ⟨e, hp⟩ <;> rw [hp]
    · exact h.move hc not_false not_false trivial (fun h => h.elim) id
    · exact h.move hc not_false not_false trivial (fun h => h.elim) fun h => h.elim
  | @check c save hc =>
    rcases checkVersion_cases s.versions save with ⟨hp, hexpects⟩ | ⟨e, hp⟩
    · have halone := hok save hc hp
      rw [hp]
      exact h.move hc not_false not_false hexpects (fun _ => halone) id
    · rw [hp]
      exact h.move hc not_false not_false trivial (fun h => h.elim) id
  | @readBefore c save hc =>
    have hread : s.FlightOk (.read save (s.entries.insertionSort fun a b => a.key ≤ b.key)) :=
      ⟨h.flightOk hc, fun e => List.mem_insertionSort _⟩
    exact h.move hc not_false not_false hread (fun _ => h.alone hc trivial) id
  | @delete c save before hc =>
    obtain ⟨hexpects, hbefore⟩ := h.flightOk hc
    have hall : ∀ row ∈ s.rows, row.tag ∈ s.rows.map (·.tag) := fun row hrow => List.mem_map_of_mem hrow
    exact h.move hc not_false not_false ⟨hexpects, hbefore, hall⟩ (fun _ => h.alone hc trivial) id
  | @collide c save before snapshot hc =>
    exact h.move hc not_false not_false trivial (fun h => h.elim) fun h => h.elim
  | @number c save before hc =>
    obtain ⟨hexpects, hreflects, hafter⟩ := h.flightOk hc
    exact h.move hc not_false not_false ⟨hexpects, hreflects, hafter, rfl⟩ (fun _ => h.alone hc trivial)
      fun _ => trivial
  | @clash c save before v hc hv =>
    -- the number is the one after the latest, so nobody has it
    obtain ⟨-, -, -, hnext⟩ := h.flightOk hc
    obtain ⟨row, hrow, hrowv⟩ := hv
    have hle := le_latestVersion hrow
    omega
  | @commit c save before snapshot hc => exact h.commit hc
  | @record c save before v hc hfree => exact h.record hc hnumbered

/-! ### Runs -/

/-- No save was made yet, and the history is one the table allows. -/
structure Start (s : Saves) : Prop where
  nodup : (s.versions.map (·.version)).Nodup
  idle : ∀ c, s.calls c = .idle

theorem Start.numbered (h : s.Start) : s.Numbered :=
  ⟨h.nodup, fun hc => absurd ((h.idle _).symm.trans hc) (by simp),
    fun hc => absurd ((h.idle _).symm.trans hc) (by simp)⟩

theorem Start.inv (h : s.Start) : s.Inv where
  numbered := h.numbered
  solo := fun {c _} hc _ => by
    rw [h.idle c] at hc
    exact hc.elim
  flight := fun c => by rw [h.idle c]; trivial
  quiet := fun _ _ _ _ hd => absurd ((h.idle _).symm.trans hd) (by simp)
  expected := fun hc => absurd ((h.idle _).symm.trans hc) (by simp)
  image := fun hc => absurd ((h.idle _).symm.trans hc) (by simp)

/-- No update is lost: of the saves that carry one expected version one succeeds at
most, and each save read, as the set it replaced, what the version before its own
wrote. -/
structure NoLostUpdate (s : Saves) : Prop where
  /-- One save for an expected version. -/
  once : ∀ {c d save save' before before' v v' e}, s.calls c = .saved save before v →
    s.calls d = .saved save' before' v' → save.expected = some e → save'.expected = some e → c = d
  /-- The permission set of a version is the before-image of the next. -/
  image : ∀ {c d save save' before before' v}, s.calls c = .saved save before (v + 1) →
    s.calls d = .saved save' before' v → ∀ e, e ∈ save'.after ↔ e ∈ before
  numbers : s.Numbered

/-- **Saves that do not overlap lose nothing**: whatever the order of the statements,
as long as a save passes its check only while no other is between its check and its
version. -/
theorem run_safe {es : List SaveEvent} (h0 : s.Start) (h : Transition.Run saveStep NoOverlap s es t) :
    t.NoLostUpdate := by
  have hinv : t.Inv := h.invariant h0.inv fun _ _ _ hx hok hs => hx.step hok hs
  refine ⟨?_, hinv.image, hinv.numbered⟩
  intro c d save save' before before' v v' e hc hd he he'
  -- both record the version after the one they expected
  have hv := hinv.expected hc e he
  have hv' := hinv.expected hd e he'
  rw [← hv'] at hv
  subst hv
  exact hinv.numbered.distinct hc hd

/-- A role with one version and no entries. -/
def blank : Saves where
  role := some ⟨1, some 7, "editor", "Editor", "", 500, none, true, false⟩
  rows := []
  nextTag := 0
  versions := [⟨1, "Editor", "", 500, none, true, [], "created", none⟩]
  calls := fun _ => .idle

theorem blank_start : blank.Start := ⟨by decide, fun _ => rfl⟩

/-- The statements of a save, from its start to its version. -/
def whole (c : ℕ) (key : String) (expected : ℤ) : List SaveEvent :=
  [.begin c [⟨key, .allow⟩] (some expected) none, .check c, .readBefore c, .delete c, .commit c, .number c, .record c]

/-- Two saves on version 1, both past their check before either writes. -/
def overlapping : List SaveEvent :=
  (whole 0 "users.read" 1).take 2 ++ (whole 1 "users.create" 1).take 2 ++
    (whole 0 "users.read" 1).drop 2 ++ (whole 1 "users.create" 1).drop 2

/-- What such a save writes. -/
def oneKey (key : String) : Save :=
  { role := ⟨1, some 7, "editor", "Editor", "", 500, none, true, false⟩, after := [⟨key, .allow⟩],
    expected := some 1, changedBy := none }

/-- Both succeed: one records version 2, the other version 3. -/
theorem save_twice :
    ¬ ∀ (s t : Saves) (es : List SaveEvent), s.Start → Transition.Run saveStep Transition.Any s es t →
      t.NoLostUpdate := by
  intro h
  have hexec : (Transition.exec saveStep blank overlapping).map (fun t => (t.calls 0, t.calls 1)) =
      some (.saved (oneKey "users.read") [] 2, .saved (oneKey "users.create") [⟨"users.read", .allow⟩] 3) := by
    decide
  obtain ⟨t, ht, hcalls⟩ := Transition.Run.of_exec_map hexec
  obtain ⟨hc, hd⟩ := Prod.mk.inj hcalls
  exact absurd ((h blank t overlapping blank_start ht).once hc hd rfl rfl) (by decide)

/-- Two saves one after the other: the second is on the version the first recorded. -/
theorem run_safe_whole :
    ∃ t, Transition.Run saveStep NoOverlap blank (whole 0 "users.read" 1 ++ whole 1 "users.create" 2) t ∧
      (t.calls 0).Saved ∧ (t.calls 1).Saved ∧ t.NoLostUpdate := by
  have hrun : ∃ t, Transition.Run saveStep NoOverlap blank (whole 0 "users.read" 1 ++ whole 1 "users.create" 2) t ∧
      (t.calls 0).Saved ∧ (t.calls 1).Saved := by
    refine ⟨_, .cons trivial rfl (.cons ?first rfl (.cons trivial rfl (.cons trivial rfl (.cons trivial rfl
      (.cons trivial rfl (.cons trivial rfl (.cons trivial rfl (.cons ?second rfl (.cons trivial rfl
      (.cons trivial rfl (.cons trivial rfl (.cons trivial rfl (.cons trivial rfl .nil))))))))))))), trivial, trivial⟩
    case first =>
      rintro save - - (_ | d) hd
      · exact absurd rfl hd
      · exact not_false
    case second =>
      rintro save - - (_ | _ | d) hd
      · exact not_false
      · exact absurd rfl hd
      · exact not_false
  obtain ⟨t, hrun, hfirst, hsecond⟩ := hrun
  exact ⟨t, hrun, hfirst, hsecond, run_safe blank_start hrun⟩

end Saves

end Omnion.Permissions
