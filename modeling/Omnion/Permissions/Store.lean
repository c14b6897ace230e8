import Omnion.Library.Query
import Omnion.Library.Table
import Omnion.Permissions.Model

/-!
# The IAM tables

The tables of `database/migrations` the modelled functions of `crates/permissions`
read and write, and the statements they share. A statement the database refuses
leaves the tables as they were; the constraint that refuses it is the error.
-/

namespace Omnion.Permissions

/-- The value of `permission_requests.status`. -/
inductive RequestStatus where
  | pending | approved | rejected | expired
  deriving DecidableEq

/-- A row of `permission_requests`. -/
structure PermissionRequest where
  id : Uuid
  /-- Organization the request belongs to. -/
  organizationId : Uuid
  requesterId : Uuid
  permissionKey : String
  /-- Resource kind the ask is limited to, when it is. -/
  resourceType : Option String
  /-- Resource pattern the ask is limited to, when it is. -/
  resourceId : Option String
  justification : String
  status : RequestStatus
  decidedBy : Option Uuid
  decidedAt : Option Instant
  decisionNote : Option String
  /-- Window the approval granted, in minutes. -/
  grantMinutes : Option ℤ
  bindingId : Option Uuid

/-- A row of `role_permissions`. -/
structure RoleEntry where
  roleId : Uuid
  entry : RolePermission

/-- The primary key of `role_permissions`. -/
def RoleEntry.key (e : RoleEntry) : Uuid × String := (e.roleId, e.entry.key)

/-- The tables. -/
structure Db where
  /-- `roles`. -/
  roles : Table Role Role.id := .empty
  /-- `role_permissions`. -/
  entries : Table RoleEntry RoleEntry.key := .empty
  /-- `role_bindings`. -/
  bindings : Table RoleBinding RoleBinding.id := .empty
  /-- `permission_requests`. -/
  requests : Table PermissionRequest PermissionRequest.id := .empty

/-- A call of the permissions store. -/
abbrev Call (α : Type) := Query Db PermissionsError α

/-- Two roles clash on the unique indexes over the key of a role in its scope. -/
def Role.clashes (a b : Role) : Bool := a.organizationId == b.organizationId && a.key == b.key

/-- Insert a row of `roles`. -/
def insertRole (role : Role) : Call Role := .statement fun db =>
  if role.inheritsRoleId = some role.id then .error (.database "roles_no_self_inheritance")
  else if db.roles.rows.any role.clashes then .error .roleKeyTaken
  else if (role.inheritsRoleId.any fun parent => (db.roles.find? parent).isNone) then
    .error (.database "roles_inherits_role_id_fkey")
  else
    match db.roles.insert? role with
    | none => .error .roleKeyTaken
    | some roles => .ok (role, { db with roles })

/-- Insert a row of `role_permissions`. -/
def insertEntry (row : RoleEntry) : Call Unit := .statement fun db =>
  match db.entries.insert? row with
  | none => .error (.database "role_permissions_pkey")
  | some entries =>
    if (db.roles.find? row.roleId).isNone then .error (.database "role_permissions_role_id_fkey")
    else .ok ((), { db with entries })

/-- The columns of the unique index `role_bindings_active_key`. -/
def RoleBinding.activeKey (b : RoleBinding) : Uuid × Subject × String × Uuid × Uuid × String :=
  (b.roleId, b.subject, b.scope.scopeType, b.scope.organizationId.getD 0, b.scope.siteId.getD 0,
    b.scope.resourceId.getD "")

/-- Insert a row of `role_bindings`. -/
def insertBinding (binding : RoleBinding) : Call Uuid := .statement fun db =>
  if db.bindings.rows.any (fun b => b.revokedAt.isNone && binding.activeKey = b.activeKey) then
    .error (.database "role_bindings_active_key")
  else
    match db.bindings.insert? binding with
    | none => .error (.database "role_bindings_pkey")
    | some bindings =>
      if (db.roles.find? binding.roleId).isNone then .error (.database "role_bindings_role_id_fkey")
      else .ok (binding.id, { db with bindings })

/-- The parent link of every role of the table. -/
def parentLink (roles : Table Role Role.id) (id : Uuid) : Option Uuid :=
  (roles.find? id).bind (·.inheritsRoleId)

/-! ### What an accepted insert did -/

theorem insertRole_returns {db db' : Db} {role r : Role} (h : (insertRole role).Returns db r db') :
    r = role ∧ role.inheritsRoleId ≠ some role.id ∧
      (∀ other ∈ db.roles, other.organizationId = role.organizationId → other.key ≠ role.key) ∧
      (∀ parent ∈ role.inheritsRoleId, (db.roles.find? parent).isSome) ∧
      ∃ roles, db.roles.insert? role = some roles ∧ db' = { db with roles } := by
  simp only [insertRole, Query.returns_statement] at h
  split_ifs at h with hself hclash hparent
  cases hins : db.roles.insert? role with
  | none => simp [hins] at h
  | some roles =>
    simp only [hins, Except.ok.injEq, Prod.mk.injEq] at h
    refine ⟨h.1.symm, hself, fun other ho horg hkey => hclash ?_, fun parent hp => ?_, roles, rfl, h.2.symm⟩
    · exact List.any_eq_true.mpr ⟨other, ho, by simp [Role.clashes, horg, hkey]⟩
    · rw [Option.mem_def.mp hp] at hparent
      simpa [Option.isSome_iff_ne_none] using hparent

theorem insertEntry_returns {db db' : Db} {row : RoleEntry} (h : (insertEntry row).Returns db () db') :
    ∃ entries, db.entries.insert? row = some entries ∧ db' = { db with entries } := by
  simp only [insertEntry, Query.returns_statement] at h
  cases hins : db.entries.insert? row with
  | none => simp [hins] at h
  | some entries =>
    simp only [hins] at h
    split_ifs at h
    simp only [Except.ok.injEq, Prod.mk.injEq, true_and] at h
    exact ⟨entries, rfl, h.symm⟩

theorem insertBinding_returns {db db' : Db} {binding : RoleBinding} {id : Uuid}
    (h : (insertBinding binding).Returns db id db') :
    id = binding.id ∧ ∃ bindings, db.bindings.insert? binding = some bindings ∧ db' = { db with bindings } := by
  simp only [insertBinding, Query.returns_statement] at h
  cases hins : db.bindings.insert? binding with
  | none =>
    rw [hins] at h
    split_ifs at h
  | some bindings =>
    rw [hins] at h
    split_ifs at h
    simp only [Except.ok.injEq, Prod.mk.injEq] at h
    exact ⟨h.1.symm, bindings, rfl, h.2.symm⟩

end Omnion.Permissions
