import Omnion.Permissions.Catalogue
import Mathlib.Data.List.Sort
import Std.Data.TreeMap.Lemmas

/-!
# Roles

`crates/permissions/src/roles.rs`: creation, update, duplication and permission
sets of roles, and the check a change of the parent link has to pass.

The ids `gen_random_uuid` and `Uuid::new_v4` draw are arguments. The two walks of
`validate_parent_change` are recursions: the walk up on the steps it has left,
which the source bounds, the walk down on a fuel for every role it can meet, which it
never runs out of (`validateParentChange_eq_ok_iff`).
-/

namespace Omnion.Permissions

open Std

/-- A role to create. -/
structure NewRole where
  organizationId : Uuid
  key : String
  name : String
  description : String
  priority : ℤ
  /-- Optional parent role to inherit from. -/
  inheritsRoleId : Option Uuid

/-- How a role update changes the parent link. -/
inductive ParentChange where
  | keep
  /-- Point the role at a new parent. -/
  | set (parent : Uuid)
  /-- Detach the role from its parent. -/
  | clear

/-- A partial update of a role: the fields a caller left out are kept. -/
structure RoleUpdate where
  name : Option String := none
  description : Option String := none
  priority : Option ℤ := none
  /-- What to do with the parent link. -/
  parent : ParentChange := .keep
  /-- Whether inherited permissions apply. -/
  inheritPermissions : Option Bool := none

/-- Look a role up by id. -/
def findRole (id : Uuid) : Call (Option Role) := .read fun db => db.roles.find? id

/-- Look a role up by key. -/
def findRoleByKey (organizationId : Option Uuid) (key : String) : Call (Option Role) :=
  .read fun db => db.roles.rows.find? fun r => r.key = key && r.organizationId = organizationId

/-- The entries of one role, by key. -/
def Db.entriesOf (db : Db) (roleId : Uuid) : List RolePermission :=
  ((db.entries.rows.filter fun e => e.roleId = roleId).map (·.entry)).insertionSort fun a b => a.key ≤ b.key

/-- `permission_entries`, of one role. -/
def permissionEntries (roleId : Uuid) : Call (List RolePermission) := .read (·.entriesOf roleId)

/-- A role is visible in the scope of an organization: its own, or the platform's. -/
def Role.visibleIn (r : Role) (organizationId : Option Uuid) : Bool :=
  r.organizationId.isNone || (r.organizationId.isSome && r.organizationId == organizationId)

/-- The parent links of the roles visible in one scope, keyed by role id. -/
def visibleLinks (roles : Table Role Role.id) (organizationId : Option Uuid) :
    TreeMap Uuid (Option Uuid) :=
  .ofList ((roles.rows.filter (·.visibleIn organizationId)).map fun r => (r.id, r.inheritsRoleId))

/-- `parent_links`: read them. -/
def parentLinks (organizationId : Option Uuid) : Call (TreeMap Uuid (Option Uuid)) :=
  .read fun db => visibleLinks db.roles organizationId

/-! ### The check of a parent change -/

/-- Walk up from the new parent, `n` being the steps left of the limit: the role must
not appear, and the chain must stay short. -/
def walkUp (links : TreeMap Uuid (Option Uuid)) (roleId : Uuid) :
    ℕ → List Uuid → Option Uuid → Except PermissionsError Unit
  | _, _, none => .ok ()
  | 0, visited, some id =>
    if id = roleId ∨ id ∈ visited then .error .inheritanceCycle
    else .error (.inheritanceDepthExceeded maxInheritanceDepth)
  | n + 1, visited, some id =>
    if id = roleId ∨ id ∈ visited then .error .inheritanceCycle
    else walkUp links roleId n (id :: visited) (links[id]?.join)

/-- The children of a role, as the map built from the links lists them. -/
def childrenOf (links : TreeMap Uuid (Option Uuid)) (id : Uuid) : List Uuid :=
  links.toList.filterMap fun (child, parent) => if parent = some id then some child else none

/-- Walk down from the role: a long descendant chain counts against the same limit.
The frontier is a stack, its top first. -/
def walkDown (links : TreeMap Uuid (Option Uuid)) :
    ℕ → List (Uuid × ℕ) → List Uuid → Except PermissionsError Unit
  | 0, _, _ => .error (.inheritanceDepthExceeded maxInheritanceDepth)
  | _ + 1, [], _ => .ok ()
  | n + 1, (id, depth) :: frontier, seen =>
    if id ∈ seen ∨ maxInheritanceDepth < depth then
      .error (.inheritanceDepthExceeded maxInheritanceDepth)
    else
      walkDown links n (((childrenOf links id).map fun child => (child, depth + 1)).reverse ++ frontier)
        (id :: seen)

/-- Validate a parent change against the whole graph. -/
def validateParentChange (links : TreeMap Uuid (Option Uuid)) (roleId : Uuid) (parent : Option Uuid) :
    Except PermissionsError Unit := do
  walkUp links roleId maxInheritanceDepth [] parent
  walkDown links (links.size + 2) [(roleId, 0)] []

/-! ### The operations -/

/-- The check of the parent a new role names. -/
def checkNewParent (organizationId standIn : Uuid) : Option Uuid → Call Unit
  | none => pure ()
  | some parentId => do
    let parent ← Query.orFail .roleNotFound (← findRole parentId)
    .require (parent.organizationId = none ∨ parent.organizationId = some organizationId)
      .crossOrganizationInheritance
    -- the role has no id yet, so a fresh one stands in for it
    let links ← parentLinks (some organizationId)
    .check (validateParentChange links standIn (some parentId))

/-- Create a role an organization owns. -/
def createRole (new : NewRole) (standIn id : Uuid) : Call Role := do
  let key ← .check (validateRoleKey new.key)
  let name ← .check (validateRoleName new.name)
  let priority ← .check (validatePriority new.priority)
  checkNewParent new.organizationId standIn new.inheritsRoleId
  insertRole
    { id, organizationId := some new.organizationId, key, name, description := Text.trim new.description,
      priority, inheritsRoleId := new.inheritsRoleId, inheritPermissions := true, isSystem := false }

/-- The parent link an update asks for, when it is allowed. -/
def updatedParent (role : Role) : ParentChange → Call (Option Uuid)
  | .keep => pure role.inheritsRoleId
  | .clear => pure none
  | .set newParent => do
    .require (newParent ≠ role.id) .selfInheritance
    let parentRole ← Query.orFail .roleNotFound (← findRole newParent)
    .require (parentRole.organizationId = none ∨ parentRole.organizationId = role.organizationId)
      .crossOrganizationInheritance
    let links ← parentLinks (role.organizationId.or parentRole.organizationId)
    .check (validateParentChange links role.id (some newParent))
    pure (some newParent)

/-- The row of a role after an update. -/
def Role.updated (role : Role) (update : RoleUpdate) (name : Option String) (priority : Option ℤ)
    (parent : Option Uuid) : Role :=
  { role with
    name := name.getD role.name
    description := (update.description.map Text.trim).getD role.description
    priority := priority.getD role.priority
    inheritsRoleId := parent
    inheritPermissions := update.inheritPermissions.getD role.inheritPermissions }

/-- Write the row of an updated role. -/
def writeRole (roleId : Uuid) (f : Role → Role) (hf : ∀ r, (f r).id = r.id) : Call Role :=
  .statement fun db =>
  match db.roles.find? roleId with
  | none => .error (.database "no rows returned")
  | some role =>
    if (f role).inheritsRoleId = some roleId then .error (.database "roles_no_self_inheritance")
    else if ((f role).inheritsRoleId.any fun parent => (db.roles.find? parent).isNone) then
      .error (.database "roles_inherits_role_id_fkey")
    else .ok (f role, { db with roles := db.roles.update (·.id = roleId) f hf })

/-- Update a role's own fields and its parent link. -/
def updateRole (roleId : Uuid) (update : RoleUpdate) : Call Role := do
  let role ← Query.orFail .roleNotFound (← findRole roleId)
  .require (role.isSystem = false) .systemRole
  let name ← .check (update.name.mapM validateRoleName)
  let priority ← .check (update.priority.mapM validatePriority)
  let parent ← updatedParent role update.parent
  writeRole roleId (·.updated update name priority parent) fun _ => rfl

/-- The parent link of a copy: kept only when the parent is usable in the target
organization. -/
def copiedParent (source : Role) (organizationId : Uuid) : Call (Option Uuid) :=
  match source.inheritsRoleId with
  | none => pure none
  | some parentId => do
    let parentRole ← Query.orFail .roleNotFound (← findRole parentId)
    pure (if parentRole.organizationId = none ∨ parentRole.organizationId = some organizationId then
      some parentId else none)

/-- Insert entries one after the other. -/
def insertEntries (roleId : Uuid) : List RolePermission → Call Unit
  | [] => pure ()
  | entry :: rest => do
    insertEntry ⟨roleId, entry⟩
    insertEntries roleId rest

/-- Clone a role into an organization under a new key and name. -/
def duplicateRole (sourceId organizationId : Uuid) (key name : String) (id : Uuid) : Call Role := do
  let source ← Query.orFail .roleNotFound (← findRole sourceId)
  .require (source.organizationId = none ∨ source.organizationId = some organizationId)
    .crossOrganizationInheritance
  let key ← .check (validateRoleKey key)
  let name ← .check (validateRoleName name)
  let parent ← copiedParent source organizationId
  let entries ← permissionEntries sourceId
  .transaction do
    let role ← insertRole
      { id, organizationId := some organizationId, key, name, description := source.description,
        priority := source.priority, inheritsRoleId := parent,
        inheritPermissions := source.inheritPermissions, isSystem := false }
    insertEntries role.id entries
    pure role

/-- One entry for each key, by key: a later entry for a key replaces an earlier one. -/
def dedupEntries (entries : List RolePermission) : List RolePermission :=
  (entries.foldl (fun (m : TreeMap String Effect) e => m.insert e.key e.effect) ∅).toList.map fun (k, e) => ⟨k, e⟩

/-- Replace a role's permission set. -/
def setRolePermissions (roleId : Uuid) (entries : List RolePermission) :
    Call (List RolePermission) := do
  let role ← Query.orFail .roleNotFound (← findRole roleId)
  .require (role.isSystem = false) .systemRole
  .check (entries.forM fun entry => Catalogue.expectKnown entry.key)
  .transaction do
    .statement fun db => .ok ((), { db with entries := db.entries.delete (·.roleId = roleId) })
    insertEntries roleId (dedupEntries entries)
  permissionEntries roleId

/-! ### What an accepted call did -/

variable {db db' : Db}

theorem findRole_returns {id : Uuid} {o : Option Role} :
    (findRole id).Returns db o db' ↔ db.roles.find? id = o ∧ db = db' := Query.returns_read

theorem parentLinks_returns {organizationId : Option Uuid} {links : TreeMap Uuid (Option Uuid)} :
    (parentLinks organizationId).Returns db links db' ↔ visibleLinks db.roles organizationId = links ∧ db = db' :=
  Query.returns_read

theorem mem_entriesOf {roleId : Uuid} {e : RolePermission} :
    e ∈ db.entriesOf roleId ↔ ⟨roleId, e⟩ ∈ db.entries := by
  simp only [Db.entriesOf, List.mem_insertionSort, List.mem_map, List.mem_filter, decide_eq_true_eq, Table.mem_def]
  constructor
  · rintro ⟨⟨_, _⟩, ⟨h, rfl⟩, rfl⟩
    exact h
  · exact fun h => ⟨_, ⟨h, rfl⟩, rfl⟩

theorem insertEntries_returns {roleId : Uuid} {l : List RolePermission} {u : Unit}
    (h : (insertEntries roleId l).Returns db u db') :
    (db'.roles = db.roles ∧ db'.bindings = db.bindings ∧ db'.requests = db.requests) ∧
      ∀ row, row ∈ db'.entries ↔ row ∈ db.entries ∨ ∃ e ∈ l, row = ⟨roleId, e⟩ := by
  induction l generalizing db with
  | nil =>
    obtain ⟨-, rfl⟩ := Query.returns_pure.mp h
    exact ⟨⟨rfl, rfl, rfl⟩, by simp⟩
  | cons e l ih =>
    obtain ⟨_, db₁, he, hl⟩ := Query.returns_bind.mp h
    obtain ⟨entries, hins, rfl⟩ := insertEntry_returns he
    obtain ⟨⟨hr, hb, hq⟩, hrows⟩ := ih hl
    refine ⟨⟨hr, hb, hq⟩, fun row => ?_⟩
    rw [hrows, Table.mem_insert? hins, List.exists_mem_cons_iff, or_assoc]

/-- Replacing a permission set leaves the entries given, one for each key, and those
of other roles. -/
theorem setRolePermissions_returns {roleId : Uuid} {entries l : List RolePermission}
    (h : (setRolePermissions roleId entries).Returns db l db') :
    (db'.roles = db.roles ∧ db'.bindings = db.bindings ∧ db'.requests = db.requests) ∧
      ∀ row, row ∈ db'.entries ↔
        (row ∈ db.entries ∧ row.roleId ≠ roleId) ∨ ∃ e ∈ dedupEntries entries, row = ⟨roleId, e⟩ := by
  simp only [setRolePermissions, permissionEntries, Query.returns_bind, findRole_returns, Query.returns_orFail,
    Query.returns_require, Query.returns_check, Query.returns_transaction, Query.returns_statement,
    Query.returns_read] at h
  obtain ⟨_, _, ⟨rfl, rfl⟩, role, _, ⟨hrole, rfl⟩, _, _, ⟨-, rfl⟩, _, _, ⟨-, rfl⟩, _, _,
    ⟨_, db₁, hdel, hins⟩, -, rfl⟩ := h
  obtain ⟨-, rfl⟩ := by simpa using hdel
  obtain ⟨hsame, hrows⟩ := insertEntries_returns hins
  refine ⟨hsame, fun row => ?_⟩
  rw [hrows, Table.mem_delete, decide_eq_false_iff_not]

theorem dedupEntries_singleton (e : RolePermission) : dedupEntries [e] = [e] := rfl

/-! ### Refused calls -/

open Query in
theorem checkNewParent_reads {organizationId standIn : Uuid} {parent : Option Uuid} :
    (checkNewParent organizationId standIn parent).Reads := by
  cases parent with
  | none => exact reads_pure
  | some parentId =>
    exact reads_read.bind fun _ => reads_orFail.bind fun _ => reads_require.bind fun _ =>
      reads_read.bind fun _ => reads_check

open Query in
theorem createRole_atomic {new : NewRole} {standIn id : Uuid} : (createRole new standIn id).Atomic :=
  reads_check.bind_atomic fun _ => reads_check.bind_atomic fun _ => reads_check.bind_atomic fun _ =>
    checkNewParent_reads.bind_atomic fun _ => atomic_statement

end Omnion.Permissions
