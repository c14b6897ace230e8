import Omnion.Library.Strongest
import Omnion.Library.Walk
import Omnion.Permissions.Model
import Mathlib.Data.Prod.Lex
import Mathlib.Data.String.Basic
import Std.Data.TreeMap.Lemmas

/-!
# Permission evaluation

`crates/permissions/src/evaluate.rs`: the pure resolver that turns the roles
bound to a principal into one decision for each permission key, and the trace
the simulator shows.

## The model

* `RoleGraph` — the roles of one scope by id, each filed under its own id.
* `RoleGraph.effective` — for every bound role, the walk up the inheritance
  chain, recording every entry of every role met.
* `RoleGraph.trace` — the walk of one bound role that stops at the first role
  with an entry for the key.

Both loops of the source are written as recursions on a fuel that exceeds the
number of roles; a role is never visited twice, so the fuel never runs out
(`mem_lineage` in `Omnion.Permissions.Verdict`). The `BTreeMap`s are `Std.TreeMap`s.
-/

namespace Omnion.Permissions

open Std

/-- How a permission reached the principal. -/
inductive Via where
  /-- The role bound to the principal allows the key itself. -/
  | explicitAllow
  /-- An ancestor of a bound role allows the key. -/
  | inheritedAllow
  /-- The role bound to the principal refuses the key itself. -/
  | explicitDeny
  /-- An ancestor of a bound role refuses the key. -/
  | inheritedDeny
  /-- An ABAC policy decided it, after the roles had their say. -/
  | policy
  deriving DecidableEq

/-- Strength used to pick the provenance when several roles speak about one key. -/
def Via.rank : Via → ℕ
  | .explicitDeny => 3
  | .inheritedDeny => 2
  | .explicitAllow | .policy => 1
  | .inheritedAllow => 0

/-- The ABAC policy behind a decision. -/
structure PolicyStamp where
  policyId : Uuid
  policyName : String
  priority : ℤ
  deriving DecidableEq

/-- Where a decision came from. -/
structure Grant where
  roleId : Uuid
  roleKey : String
  roleName : String
  /-- Priority of that role (the tie-breaker). -/
  rolePriority : ℤ
  /-- How the permission reached the principal. -/
  via : Via
  /-- The policy behind the decision, when a policy made it. -/
  policy : Option PolicyStamp
  deriving DecidableEq

/-- Why a permission is not held. -/
inductive DenyReason where
  /-- A role refuses it explicitly (or through inheritance). -/
  | explicitDeny
  | policyDeny
  | missingPermission
  deriving DecidableEq

/-- The outcome of an authorisation question. -/
inductive Decision where
  /-- The principal holds the permission. -/
  | allowed (grant : Grant)
  /-- The principal does not hold it. -/
  | denied (reason : DenyReason) (source : Option Grant)
  deriving DecidableEq

/-- `is_allowed`. -/
def Decision.isAllowed : Decision → Bool
  | .allowed _ => true
  | .denied _ _ => false

/-- The principal is refused by a role. -/
def Decision.isExplicitDeny : Decision → Bool
  | .denied .explicitDeny _ => true
  | _ => false

/-- The grant a decision reports. -/
def Decision.source : Decision → Option Grant
  | .allowed grant => some grant
  | .denied _ source => source

/-- The permission set a principal holds, with the provenance of every entry. -/
structure EffectivePermissions where
  grants : TreeMap String Grant := ∅
  denials : TreeMap String Grant := ∅

namespace EffectivePermissions

/-- `true` when the key is granted and not refused. -/
def allows (p : EffectivePermissions) (key : String) : Bool :=
  p.grants.contains key && !p.denials.contains key

/-- Decide one key. -/
def decision (p : EffectivePermissions) (key : String) : Decision :=
  match p.denials[key]? with
  | some grant => .denied .explicitDeny (some grant)
  | none =>
    match p.grants[key]? with
    | some grant => .allowed grant
    | none => .denied .missingPermission none

end EffectivePermissions

/-- Pick the provenance that should be reported: strongest route first, then the
higher role. -/
def isStronger (candidate existing : Grant) : Bool :=
  match compare candidate.via.rank existing.via.rank with
  | .gt => true
  | .lt => false
  | .eq =>
    existing.rolePriority < candidate.rolePriority ||
      (existing.rolePriority == candidate.rolePriority && existing.roleKey < candidate.roleKey)

/-- The provenance `record` files for an entry of `role`. -/
def Grant.of (via : Via) (role : Role) : Grant :=
  { roleId := role.id, roleKey := role.key, roleName := role.name,
    rolePriority := role.priority, via, policy := none }

/-- `record`'s insertion into one of the two maps: an existing entry stays unless
the new one is stronger. -/
def recordIn (target : TreeMap String Grant) (key : String) (grant : Grant) : TreeMap String Grant :=
  match target[key]? with
  | some existing => if !isStronger grant existing then target else target.insert key grant
  | none => target.insert key grant

/-- Record one entry of a role met on a walk. -/
def EffectivePermissions.record (p : EffectivePermissions) (key : String) (effect : Effect) (via : Via)
    (role : Role) : EffectivePermissions :=
  match effect with
  | .allow => { p with grants := recordIn p.grants key (.of via role) }
  | .deny => { p with denials := recordIn p.denials key (.of via role) }

/-- The roles of one scope, indexed for inheritance walks: each is filed under its
own id. -/
structure RoleGraph where
  roles : TreeMap Uuid RoleAssignment
  /-- A role is filed under its own id. -/
  keyed : ∀ {id : Uuid} {a : RoleAssignment}, roles[id]? = some a → a.role.id = id

namespace RoleGraph

/-- The graph without roles. -/
def empty : RoleGraph := ⟨∅, by simp⟩

/-- File one more role, in place of a role of the same id. -/
def insert (g : RoleGraph) (a : RoleAssignment) : RoleGraph where
  roles := g.roles.insert a.role.id a
  keyed {id b} h := by
    rw [TreeMap.getElem?_insert] at h
    split at h
    · next hc =>
      cases h
      exact LawfulEqCmp.eq_of_compare hc
    · exact g.keyed h

/-- Index a set of roles. -/
def new (roles : List RoleAssignment) : RoleGraph := roles.foldl insert empty

/-- Look a role up. -/
def role (g : RoleGraph) (id : Uuid) : Option RoleAssignment := g.roles[id]?

/-- The number of iterations the walks are given. -/
def fuel (g : RoleGraph) : ℕ := g.roles.size + 1

/-- The parent link of a role, when the link inherits. -/
def parentOf (a : RoleAssignment) : Option Uuid :=
  a.role.inheritsRoleId.filter fun _ => a.role.inheritPermissions

/-- How an entry reaches the principal from the bound role itself, or from an
ancestor. -/
def viaOf : Effect → Bool → Via
  | .allow, false => .explicitAllow
  | .allow, true => .inheritedAllow
  | .deny, false => .explicitDeny
  | .deny, true => .inheritedDeny

/-- How one bound role answers for one permission key. -/
structure Trace where
  /-- The role that carries the entry (an ancestor when the effect was inherited). -/
  roleId : Uuid
  roleKey : String
  roleName : String
  effect : Effect
  via : Via
  /-- The bound role the walk started at, when the effect was inherited. -/
  inheritedFrom : Option (Uuid × String)

/-- The `while let` loop of `trace`. -/
def traceLoop (g : RoleGraph) (key : String) :
    ℕ → List Uuid → Option RoleAssignment → Bool → Option (Uuid × String) → Option Trace
  | 0, _, _, _, _ => none
  | _ + 1, _, none, _, _ => none
  | n + 1, visited, some a, inherited, inheritedFrom =>
    if a.role.id ∈ visited then none
    else
      match a.entry key with
      | some effect =>
        some { roleId := a.role.id, roleKey := a.role.key, roleName := a.role.name, effect,
               via := viaOf effect inherited, inheritedFrom }
      | none =>
        g.traceLoop key n (a.role.id :: visited) ((parentOf a).bind g.role) true
          (if inheritedFrom.isNone then some (a.role.id, a.role.key) else inheritedFrom)

/-- Trace how a bound role speaks about one key. -/
def trace (g : RoleGraph) (roleId : Uuid) (key : String) : Option Trace :=
  (g.role roleId).bind fun bound => g.traceLoop key g.fuel [] (some bound) false none

/-- The entries of one role, recorded in order. -/
def recordAll (p : EffectivePermissions) (a : RoleAssignment) (inherited : Bool) :
    EffectivePermissions :=
  a.permissions.foldl
    (fun p entry => p.record entry.key entry.effect (viaOf entry.effect inherited) a.role) p

/-- The `while let` loop of `effective` for one bound role. -/
def effectiveLoop (g : RoleGraph) :
    ℕ → List Uuid → Option RoleAssignment → Bool → EffectivePermissions → EffectivePermissions
  | 0, _, _, _, p => p
  | _ + 1, _, none, _, p => p
  | n + 1, visited, some a, inherited, p =>
    if a.role.id ∈ visited then p
    else
      g.effectiveLoop n (a.role.id :: visited) ((parentOf a).bind g.role) true
        (recordAll p a inherited)

/-- Resolve the permissions of a principal bound to `boundRoleIds`. -/
def effective (g : RoleGraph) (boundRoleIds : List Uuid) : EffectivePermissions :=
  boundRoleIds.foldl
    (fun p roleId =>
      match g.role roleId with
      | none => p
      | some bound => g.effectiveLoop g.fuel [] (some bound) false p)
    {}

end RoleGraph

end Omnion.Permissions
