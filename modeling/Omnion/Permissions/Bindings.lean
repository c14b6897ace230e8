import Omnion.Permissions.Approvals

/-!
# Who holds which permission

`bindings.rs`, `groups.rs` and `evaluate.rs` of `crates/permissions/src`: the permissions of a
subject in a scope are those of the roles that are bound to it there, for a person also through
the groups they belong to.

## Honest scope

The context is that of a plain scope (`ResourceContext::from_scope`), which names no department,
module or path, so that bindings of these kinds never apply. The order of the bindings, on which
no decision depends (`decision_verdict`), is that of the table.
-/

namespace Omnion.Permissions

open Std

/-- A row of `group_members`. -/
structure GroupMember where
  groupId : Uuid
  userId : Uuid

/-- Where a request runs, as `from_scope` has it. -/
structure ResourceContext where
  organizationId : Option Uuid
  siteId : Option Uuid

/-- `from_scope`. -/
def ResourceContext.fromScope (scope : Scope) : ResourceContext :=
  { organizationId := scope.organizationId, siteId := scope.siteId }

/-- `applies_to`, for a context without department, module and path. -/
def Scope.appliesTo (context : ResourceContext) : Scope → Bool
  | .global => true
  | .organization o => context.organizationId == some o
  | .site _ s => context.siteId == some s
  | .department .. | .module .. | .resource .. => false

/-- What the resolution reads: the tables of the roles, and the members of the groups. -/
structure Directory where
  db : Db
  members : List GroupMember

namespace Directory

variable (d : Directory)

/-- `bindings_of_subject`. -/
def bindingsOfSubject (subject : Subject) : List RoleBinding := d.db.bindings.rows.filter (·.subject = subject)

/-- `member_groups`. -/
def memberGroups (userId : Uuid) : List Uuid := (d.members.filter (·.userId = userId)).map (·.groupId)

/-- Every binding that speaks for a subject. -/
def bindingsFor (subject : Subject) : List RoleBinding :=
  match subject with
  | .user userId =>
    d.bindingsOfSubject subject ++ d.db.bindings.rows.filter fun b =>
      match b.subject with
      | .group groupId => groupId ∈ d.memberGroups userId
      | _ => false
  | _ => d.bindingsOfSubject subject

/-- The live bindings of a subject that apply to `context`. -/
def activeForContext (now : Instant) (subject : Subject) (context : ResourceContext) : List RoleBinding :=
  (d.bindingsFor subject).filter fun b => b.isActiveAt now && b.scope.appliesTo context

/-- The permissions a subject holds in one context. -/
def effectivePermissionsFor (now : Instant) (subject : Subject) (context : ResourceContext) : EffectivePermissions :=
  (loadRoleGraph d.db context.organizationId).effective ((d.activeForContext now subject context).map (·.roleId))

/-- The permissions an account holds in one scope. -/
def effectivePermissions (now : Instant) (userId : Uuid) (scope : Scope) : EffectivePermissions :=
  d.effectivePermissionsFor now (.user userId) (.fromScope scope)

end Directory

/-- The granted keys, sorted. -/
def EffectivePermissions.grantedKeys (p : EffectivePermissions) : List String :=
  p.grants.keys.filter fun key => !p.denials.contains key

end Omnion.Permissions
