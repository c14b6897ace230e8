import Omnion.Core.Text

/-!
# The IAM value types

Roles, permission entries, scopes and role bindings of `crates/permissions`, with
the checks a role's own fields pass before they are written. Timestamps and the
display columns no modelled function reads are left out.
-/

namespace Omnion.Permissions

/-- Highest priority a role may carry. -/
def maxPriority : ℤ := 1000

/-- Lowest priority a role may carry. -/
def minPriority : ℤ := 0

/-- Longest inheritance chain a role may sit in. -/
def maxInheritanceDepth : ℕ := 8

/-- Longest accepted role key. -/
def maxRoleKeyLength : ℕ := 64

/-- Longest accepted role name. -/
def maxRoleNameLength : ℕ := 80

/-- The errors of the permissions store the modelled functions return. -/
inductive PermissionsError where
  /-- The database refused a statement, by the constraint it names. -/
  | database (constraint : String)
  /-- The role key is not a usable slug. -/
  | invalidRoleKey (key : String)
  /-- The role name is empty or too long. -/
  | invalidRoleName (name : String)
  | invalidPriority (min max : ℤ)
  /-- A permission key outside the catalogue was used. -/
  | unknownPermission (key : String)
  | roleNotFound
  /-- A role with this key already exists in the same scope. -/
  | roleKeyTaken
  | selfInheritance
  /-- Inheritance chains must stay acyclic. -/
  | inheritanceCycle
  /-- Inheritance chains may not grow beyond the documented depth. -/
  | inheritanceDepthExceeded (max : ℕ)
  /-- A role can only inherit from a role of its own organization or a platform role. -/
  | crossOrganizationInheritance
  /-- Platform roles are managed by the platform, not by customers. -/
  | systemRole
  /-- The role changed since the caller read it. -/
  | versionConflict (expected current : ℤ)
  /-- A permission set carries keys the catalogue does not know, duplicates, or both. -/
  | invalidEntries (unknown duplicates : List String)
  /-- No permission request carries this id. -/
  | requestNotFound
  /-- A decided request cannot be decided again. -/
  | requestAlreadyDecided
  | invalidRequest (message : String)
  deriving DecidableEq

/-- Whether a role entry grants or refuses a permission. -/
inductive Effect where
  | allow
  | deny
  deriving DecidableEq

/-- A role. `organizationId = none` marks a platform role. -/
structure Role where
  id : Uuid
  organizationId : Option Uuid
  /-- Stable key, unique within the scope. -/
  key : String
  name : String
  description : String
  /-- Position in the hierarchy: higher wins. -/
  priority : ℤ
  inheritsRoleId : Option Uuid
  /-- Whether inherited permissions apply. -/
  inheritPermissions : Bool
  /-- Platform-managed roles cannot be edited by customers. -/
  isSystem : Bool
  deriving DecidableEq

/-- One entry of a role's permission set. -/
structure RolePermission where
  key : String
  effect : Effect
  deriving DecidableEq

/-- A role together with its own permission entries. -/
structure RoleAssignment where
  role : Role
  /-- The role's own entries, not inherited ones. -/
  permissions : List RolePermission

/-- The role's own entry for `key`: the first one, when it has one. -/
def RoleAssignment.entry (a : RoleAssignment) (key : String) : Option Effect :=
  (a.permissions.find? fun entry => entry.key == key).map (·.effect)

/-- A role that has an entry for `key` carries it. -/
theorem RoleAssignment.mem_of_entry {a : RoleAssignment} {key : String} {e : Effect}
    (h : a.entry key = some e) : ⟨key, e⟩ ∈ a.permissions := by
  obtain ⟨p, hp, rfl⟩ := Option.map_eq_some_iff.mp h
  have hk : p.key = key := by simpa using List.find?_some hp
  rw [← hk]
  exact List.mem_of_find?_eq_some hp

/-- A role has no entry for `key` just when it carries none. -/
theorem RoleAssignment.entry_eq_none {a : RoleAssignment} {key : String} :
    a.entry key = none ↔ ∀ e, (⟨key, e⟩ : RolePermission) ∉ a.permissions := by
  simp only [entry, Option.map_eq_none_iff, List.find?_eq_none, beq_iff_eq]
  constructor
  · exact fun h e he => h _ he rfl
  · rintro h ⟨k, e⟩ hp rfl
    exact h e hp

/-- Who a role binding attaches to. -/
inductive Subject where
  | user (id : Uuid)
  | group (id : Uuid)
  | serviceAccount (id : Uuid)
  deriving DecidableEq

/-- Where a role applies. -/
inductive Scope where
  | global
  /-- An organization, and every site inside it. -/
  | organization (organizationId : Uuid)
  | site (organizationId : Option Uuid) (siteId : Uuid)
  /-- One department of an organization. -/
  | department (organizationId : Uuid) (department : String)
  /-- One module, on a site or across a whole organization. -/
  | module (organizationId siteId : Option Uuid) (module : String)
  /-- One resource of a site or organization, named by a glob. -/
  | resource (organizationId siteId : Option Uuid) (resourceType resourceId : String)
  deriving DecidableEq

/-- The organization a scope resolves in, when it is scoped to one. -/
def Scope.organizationId : Scope → Option Uuid
  | .global => none
  | .organization o | .department o _ => some o
  | .site o _ | .module o _ _ | .resource o _ _ _ => o

/-- The site a scope resolves in, when it is scoped to one. -/
def Scope.siteId : Scope → Option Uuid
  | .global | .organization _ | .department _ _ => none
  | .site _ s => some s
  | .module _ s _ | .resource _ s _ _ => s

/-- The value stored in `role_bindings.scope_type`. -/
def Scope.scopeType : Scope → String
  | .global => "global"
  | .organization _ => "organization"
  | .site _ _ => "site"
  | .department _ _ => "department"
  | .module _ _ _ => "module"
  | .resource _ _ _ _ => "resource"

/-- The value stored in `role_bindings.resource_id`, when the scope carries one. -/
def Scope.resourceId : Scope → Option String
  | .department _ d => some d
  | .module _ _ m => some m
  | .resource _ _ _ r => some r
  | .global | .organization _ | .site _ _ => none

/-- A role bound to a subject at a scope. -/
structure RoleBinding where
  id : Uuid
  roleId : Uuid
  subject : Subject
  scope : Scope
  grantedBy : Option Uuid
  /-- When the binding stops applying. -/
  expiresAt : Option Instant
  revokedAt : Option Instant

/-- The binding still applies at `now`. -/
def RoleBinding.isActiveAt (b : RoleBinding) (now : Instant) : Bool :=
  b.revokedAt.isNone && b.expiresAt.all fun expires => now < expires

/-- `validate_role_key`: the key trimmed and in lower case, when it is a slug. -/
def validateRoleKey (key : String) : Except PermissionsError String :=
  let key := Text.toLowercase (Text.trim key)
  let shaped := !key.toList.isEmpty
    && key.utf8ByteSize ≤ maxRoleKeyLength
    && key.toList.head?.any Text.isAsciiLowercase
    && key.toList.getLast?.any (fun c => Text.isAsciiLowercase c || Text.isAsciiDigit c)
    && key.toList.all (fun c => Text.isAsciiLowercase c || Text.isAsciiDigit c || c == '-')
  if shaped then .ok key else .error (.invalidRoleKey key)

/-- `validate_role_name`: non-empty and reasonably short. -/
def validateRoleName (name : String) : Except PermissionsError String :=
  let name := Text.trim name
  if name.toList.isEmpty || maxRoleNameLength < name.toList.length then
    .error (.invalidRoleName name)
  else .ok name

/-- `validate_priority`. -/
def validatePriority (priority : ℤ) : Except PermissionsError ℤ :=
  if minPriority ≤ priority ∧ priority ≤ maxPriority then .ok priority
  else .error (.invalidPriority minPriority maxPriority)

end Omnion.Permissions
