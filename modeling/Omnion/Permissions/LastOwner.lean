import Omnion.Library.Run
import Omnion.Permissions.Store

/-!
# The last owner

`delete_binding` of `apps/api/src/routes/iam.rs` with `check_binding_revocation` of
`crates/permissions/src/invariants.rs` and `bindings::revoke`: any number of
revocations, taken apart into their statements and interleaved in any order.

## The model

A request finds its binding, reads its row, counts the caller's own other
privileged bindings when the binding is the caller's, counts the survivors of the
scope, and revokes. The revocation locks the row and commits; a second one on the
row waits and then finds it revoked. Time passes between statements.

## What is proved

* `run_keeps_owner` — an organization keeps a live binding to a built-in owner or
  administrator role in the runs where each count that lets such a binding go has
  counted another one that no request past its own count is about to revoke, and
  none runs out.
* `owner_lost` — two administrators can remove each other.

## Honest scope

The session and permission checks before the handler, the audit entry and the body
of the answer are left out. Rows are listed newest first, in the order in which they
were inserted. Roles and group members do not change during a run.
-/

namespace Omnion.Permissions

/-- The role keys that carry platform-wide power. -/
def privilegedRoleKeys : List String := ["owner", "administrator"]

/-- A change the invariants refuse. -/
structure InvariantRefusal where
  code : String
  message : String

/-- The last privileged binding of the scope class. -/
def InvariantRefusal.lastOwner (roleKey : String) : InvariantRefusal where
  code := "last_owner_binding"
  message := "an organization must keep at least one live owner or administrator binding — this is the last one (role \""
    ++ roleKey ++ "\"), so grant it to another account first"

/-- The caller's own last privileged binding. -/
def InvariantRefusal.selfLockout (roleKey : String) : InvariantRefusal where
  code := "self_lockout"
  message := "this would remove your own last owner or administrator binding (role \"" ++ roleKey
    ++ "\") and lock you out — keep a privileged binding of your own first, directly or through a group"

/-- What a request answers. -/
inductive Answer where
  | revoked
  | notFound
  /-- The binding belongs to another organization. -/
  | crossOrganization
  /-- An invariant refuses the change. -/
  | refused (refusal : InvariantRefusal)
  /-- The role assignment was already revoked. -/
  | alreadyRevoked

/-- The code of an error answer. -/
def Answer.code : Answer → Option String
  | .revoked => none
  | .notFound => some "binding_not_found"
  | .crossOrganization => some "cross_organization"
  | .refused refusal => some refusal.code
  | .alreadyRevoked => some "binding_already_revoked"

/-- A request to revoke a binding. -/
structure Revocation where
  bindingId : Uuid
  caller : Uuid
  /-- The caller's primary organization. -/
  callerOrganization : Option Uuid

/-- How far a request has come. -/
inductive Stage where
  | idle
  | found (r : Revocation)
  /-- Its row is live and privileged; `own` when it is bound to the caller. -/
  | defended (r : Revocation) (organizationId : Option Uuid) (roleKey : String) (own : Bool)
  /-- The caller keeps a privileged binding. -/
  | kept (r : Revocation) (organizationId : Option Uuid) (roleKey : String)
  /-- The check let the request through. -/
  | cleared (r : Revocation)
  /-- The row is locked by the revocation. -/
  | writing (r : Revocation)
  | answered (answer : Answer)

/-- The binding a request is about to revoke, once its check let it through. -/
def Stage.target : Stage → Option Uuid
  | .cleared r | .writing r => some r.bindingId
  | _ => none

/-- The tables, the clock and the requests. -/
structure Revocations where
  /-- `roles`. -/
  roles : Table Role Role.id
  /-- `group_members`: group and person. -/
  members : List (Uuid × Uuid)
  /-- `role_bindings`. -/
  bindings : Table RoleBinding RoleBinding.id
  /-- The rows of `role_bindings` a revocation has locked. -/
  locked : List Uuid
  now : Instant
  requests : ℕ → Stage

namespace Revocations

/-- Request `c` goes on to a stage. -/
def move (s : Revocations) (c : ℕ) (p : Stage) : Revocations :=
  { s with requests := Function.update s.requests c p }

/-- `bindings::list` without a filter: live rows first, newest first, up to 500. -/
def listed (s : Revocations) : List RoleBinding :=
  let newest := s.bindings.rows.reverse
  (newest.filter (·.isActiveAt s.now) ++ newest.filter fun b => !b.isActiveAt s.now).take 500

/-- `ensure_same_organization` fails. -/
def foreign (callerOrganization organizationId : Option Uuid) : Bool :=
  match callerOrganization, organizationId with
  | some own, some target => own != target
  | _, _ => false

/-- The binding is looked up. -/
def find (s : Revocations) (r : Revocation) : Stage :=
  match s.listed.find? (·.id = r.bindingId) with
  | none => .answered .notFound
  | some binding =>
    if foreign r.callerOrganization binding.scope.organizationId then .answered .crossOrganization else .found r

def roleKey (s : Revocations) (b : RoleBinding) : Option String := (s.roles.find? b.roleId).map (·.key)

/-- The binding is live and its role has a privileged key. -/
def privileged (s : Revocations) (b : RoleBinding) : Bool :=
  b.isActiveAt s.now && (s.roleKey b).any (· ∈ privilegedRoleKeys)

/-- The row of the binding is read: it is defended when it is live and privileged. -/
def readRow (s : Revocations) (r : Revocation) : Stage :=
  match (s.bindings.find? r.bindingId).filter (·.revokedAt.isNone) with
  | none => .cleared r
  | some b =>
    match s.roleKey b with
    | none => .cleared r
    | some key =>
      if (b.expiresAt.any (· ≤ s.now)) || key ∉ privilegedRoleKeys then .cleared r
      else .defended r b.scope.organizationId key (b.subject = .user r.caller)

/-- The caller's other privileged bindings, direct or through a group. -/
def ownOthers (s : Revocations) (r : Revocation) : List RoleBinding :=
  s.bindings.rows.filter fun b => b.id ≠ r.bindingId && s.privileged b &&
    match b.subject with
    | .user id => id = r.caller
    | .group g => (g, r.caller) ∈ s.members
    | .serviceAccount _ => false

/-- The first count: the caller keeps a privileged binding. -/
def countOwn (s : Revocations) (r : Revocation) (organizationId : Option Uuid) (roleKey : String)
    (own : Bool) : Stage :=
  if own && (s.ownOthers r).length = 0 then .answered (.refused (.selfLockout roleKey))
  else .kept r organizationId roleKey

/-- The survivors of the scope class: of the organization, or of the platform. -/
def survivors (s : Revocations) (bindingId : Uuid) (organizationId : Option Uuid) : List RoleBinding :=
  s.bindings.rows.filter fun b => b.id ≠ bindingId && s.privileged b &&
    match organizationId with
    | some o => b.scope.organizationId = some o
    | none => b.scope = .global

/-- `bindings::revoke` marks the row. -/
def revoked (s : Revocations) (bindingId : Uuid) : Table RoleBinding RoleBinding.id :=
  s.bindings.update (fun b => b.id = bindingId && b.revokedAt.isNone) (fun b => { b with revokedAt := some s.now })
    fun _ => rfl

/-- The second count: the scope class keeps a privileged binding. -/
def countRemaining (s : Revocations) (r : Revocation) (organizationId : Option Uuid)
    (roleKey : String) : Stage :=
  if (s.survivors r.bindingId organizationId).length = 0 then .answered (.refused (.lastOwner roleKey))
  else .cleared r

end Revocations

/-- The statements of a request, and the clock. -/
inductive RevokeEvent where
  /-- The request arrives and lists the bindings. -/
  | receive (c : ℕ) (r : Revocation)
  | readRow (c : ℕ)
  /-- The caller's own bindings are counted. -/
  | countOwn (c : ℕ)
  | countRemaining (c : ℕ)
  /-- The revocation finds its row; nobody else holds it. -/
  | write (c : ℕ)
  | commit (c : ℕ)
  | tick (now : Instant)

/-- One statement of one request. A revocation whose row is locked waits. -/
def revokeStep (s : Revocations) : RevokeEvent → Option Revocations
  | .receive c r =>
    match s.requests c with
    | .idle => some (s.move c (s.find r))
    | _ => none
  | .readRow c =>
    match s.requests c with
    | .found r => some (s.move c (s.readRow r))
    | _ => none
  | .countOwn c =>
    match s.requests c with
    | .defended r organizationId roleKey own => some (s.move c (s.countOwn r organizationId roleKey own))
    | _ => none
  | .countRemaining c =>
    match s.requests c with
    | .kept r organizationId roleKey => some (s.move c (s.countRemaining r organizationId roleKey))
    | _ => none
  | .write c =>
    match s.requests c with
    | .cleared r =>
      if r.bindingId ∈ s.locked then none
      else
        match (s.bindings.find? r.bindingId).filter (·.revokedAt.isNone) with
        | none => some (s.move c (.answered .alreadyRevoked))
        | some _ => some { s.move c (.writing r) with locked := r.bindingId :: s.locked }
    | _ => none
  | .commit c =>
    match s.requests c with
    | .writing r =>
      some { s.move c (.answered .revoked) with
             bindings := s.revoked r.bindingId
             locked := s.locked.erase r.bindingId }
    | _ => none
  | .tick now => if s.now ≤ now then some { s with now } else none

namespace Revocations

variable {s t : Revocations} {c d : ℕ} {p : Stage} {o : Uuid}

@[simp] theorem move_self : (s.move c p).requests c = p := Function.update_self ..

theorem move_of_ne (h : d ≠ c) : (s.move c p).requests d = s.requests d := Function.update_of_ne h ..

/-! ### Owners -/

/-- A live binding of organization `o` to a built-in owner or administrator role. -/
structure Owner (s : Revocations) (o : Uuid) (b : RoleBinding) : Prop where
  mem : b ∈ s.bindings
  live : b.isActiveAt s.now = true
  organization : b.scope.organizationId = some o
  /-- Its role is the platform's, and privileged. -/
  builtIn : ∃ role, s.roles.find? b.roleId = some role ∧ role.organizationId = none ∧ role.key ∈ privilegedRoleKeys

/-- An owner that no request past its count is about to revoke. -/
def Safe (s : Revocations) (o : Uuid) (b : RoleBinding) : Prop :=
  s.Owner o b ∧ ∀ c, (s.requests c).target ≠ some b.id

theorem Owner.privileged {b : RoleBinding} (h : s.Owner o b) : s.privileged b = true := by
  obtain ⟨role, hrole, -, hkey⟩ := h.builtIn
  simp [Revocations.privileged, roleKey, h.live, hrole, hkey]

/-- The rows a stage of a request speaks about keep their organization. -/
def StageOk (s : Revocations) : Stage → Prop
  | .defended r organizationId _ _ | .kept r organizationId _ =>
    ∀ b ∈ s.bindings, b.id = r.bindingId → b.scope.organizationId = organizationId
  | _ => True

/-- **The invariant**: the requests know the organization of their binding, and the
organization has an owner nobody is about to revoke. -/
structure Inv (o : Uuid) (s : Revocations) : Prop where
  stages : ∀ c, s.StageOk (s.requests c)
  safe : ∃ b, s.Safe o b

/-- **The steps allowed**: a count that lets a binding to a built-in role go counts,
among the survivors, one to a built-in role that no other request past its count is
about to revoke; and no such binding runs out. -/
def Covered (s : Revocations) : RevokeEvent → Prop
  | .countRemaining c => ∀ r o key x, s.requests c = .kept r (some o) key → s.Owner o x → x.id = r.bindingId →
      s.survivors r.bindingId (some o) ≠ [] →
      ∃ b ∈ s.survivors r.bindingId (some o), s.Owner o b ∧ ∀ d, d ≠ c → (s.requests d).target ≠ some b.id
  | .tick now => ∀ o b, s.Owner o b → b.isActiveAt now = true
  | _ => True

theorem Owner.defended {r : Revocation} {b : RoleBinding} (h : s.Owner o b) (hb : b.id = r.bindingId) :
    (s.readRow r).target = none := by
  have hfind : s.bindings.find? r.bindingId = some b := Table.find?_eq_some.mpr ⟨h.mem, hb⟩
  have hlive := h.live
  simp only [RoleBinding.isActiveAt, Bool.and_eq_true, Option.all_eq_true, decide_eq_true_eq] at hlive
  obtain ⟨role, hrole, -, hkey⟩ := h.builtIn
  have hexpired : (b.expiresAt.any fun e => e ≤ s.now) = false := by
    cases he : b.expiresAt with
    | none => rfl
    | some e => simpa using hlive.2 e he
  have hrow : (some b).filter (·.revokedAt.isNone) = some b := by
    rw [Option.filter_some, if_pos hlive.1]
  have hrolekey : s.roleKey b = some role.key := by rw [roleKey, hrole, Option.map_some]
  have hif : ¬ ((b.expiresAt.any fun e => e ≤ s.now) || role.key ∉ privilegedRoleKeys) = true := by
    simp [hexpired, hkey]
  simp only [readRow, hfind, hrow, hrolekey]
  rw [if_neg hif]
  rfl

/-- A request goes on, and owner `b` is still free. -/
theorem Inv.moveTo {b : RoleBinding} (hstages : ∀ d, s.StageOk (s.requests d)) (hok : s.StageOk p)
    (howner : s.Owner o b)
    (hfree : ∀ d, d ≠ c → (s.requests d).target ≠ some b.id) (hp : p.target ≠ some b.id) :
    Inv o (s.move c p) := by
  refine ⟨fun d => ?_, b, ⟨howner.mem, howner.live, howner.organization, howner.builtIn⟩, fun d => ?_⟩
  · by_cases hdc : d = c
    · subst hdc
      rw [move_self]
      cases p <;> exact hok
    · rw [move_of_ne hdc]
      have hd := hstages d
      cases hst : s.requests d <;> rw [hst] at hd <;> exact hd
  · by_cases hdc : d = c
    · subst hdc
      rwa [move_self]
    · rw [move_of_ne hdc]
      exact hfree d hdc

theorem Inv.move (h : Inv o s) (hok : s.StageOk p)
    (htarget : ∀ b, s.Owner o b → p.target = some b.id → (s.requests c).target = some b.id) :
    Inv o (s.move c p) := by
  obtain ⟨b, howner, huntouched⟩ := h.safe
  exact .moveTo h.stages hok howner (fun d _ => huntouched d) fun hb => huntouched c (htarget b howner hb)

/-- What reading the row finds out: the request is let through, or its organization is
the row's. -/
theorem readRow_cases (s : Revocations) (r : Revocation) :
    s.readRow r = .cleared r ∨
      ∃ b key own, s.bindings.find? r.bindingId = some b ∧
        s.readRow r = .defended r b.scope.organizationId key own := by
  unfold readRow
  cases hb : (s.bindings.find? r.bindingId).filter (·.revokedAt.isNone) with
  | none => exact .inl rfl
  | some b =>
    cases hkey : s.roleKey b with
    | none => exact .inl (by simp only [hkey])
    | some key =>
      simp only [hkey]
      split_ifs
      · exact .inl rfl
      · exact .inr ⟨b, key, _, (Option.filter_eq_some_iff.mp hb).1, rfl⟩

theorem find_target (s : Revocations) (r : Revocation) :
    (s.find r).target = none ∧ s.StageOk (s.find r) := by
  unfold find
  cases s.listed.find? (·.id = r.bindingId) with
  | none => exact ⟨rfl, trivial⟩
  | some b =>
    simp only
    split_ifs
    · exact ⟨rfl, trivial⟩
    · exact ⟨rfl, trivial⟩

theorem Owner.of_bindings {b : RoleBinding} (h : s.Owner o b) (hroles : t.roles = s.roles)
    (hmem : b ∈ t.bindings) (hlive : b.isActiveAt t.now = true) : t.Owner o b :=
  ⟨hmem, hlive, h.organization, by rw [hroles]; exact h.builtIn⟩

theorem stageOk_of_organization
    (h : ∀ b ∈ t.bindings, ∃ a ∈ s.bindings, a.id = b.id ∧ a.scope = b.scope)
    (hp : s.StageOk p) : t.StageOk p := by
  have key : ∀ {r : Revocation} {organizationId : Option Uuid},
      (∀ b ∈ s.bindings, b.id = r.bindingId → b.scope.organizationId = organizationId) →
      ∀ b ∈ t.bindings, b.id = r.bindingId → b.scope.organizationId = organizationId := by
    intro r organizationId hs b hb hbr
    obtain ⟨a, ha, hid, hscope⟩ := h b hb
    rw [← hscope]
    exact hs a ha (hid.trans hbr)
  cases p with
  | defended r organizationId roleKey own => exact key hp
  | kept r organizationId roleKey => exact key hp
  | _ => trivial

theorem mem_revoked {bindingId : Uuid} {b : RoleBinding} :
    b ∈ s.revoked bindingId ↔ ∃ a ∈ s.bindings,
      (if a.id = bindingId ∧ a.revokedAt.isNone then { a with revokedAt := some s.now } else a) = b := by
  simp only [revoked, Table.mem_update, Bool.and_eq_true, decide_eq_true_eq]

theorem Inv.stageOk (h : Inv o s) (hc : s.requests c = p) : s.StageOk p := hc ▸ h.stages c

theorem stageOk_readRow (r : Revocation) : s.StageOk (s.readRow r) := by
  rcases s.readRow_cases r with hrow | ⟨b, key, own, hfind, hrow⟩ <;> rw [hrow]
  · trivial
  · intro b' hb' hid
    have := Table.find?_key hb'
    rw [hid, hfind] at this
    rw [Option.some.inj this]

theorem Owner.not_target_readRow {r : Revocation} {b : RoleBinding} (h : s.Owner o b) :
    (s.readRow r).target ≠ some b.id := by
  intro hb
  rcases s.readRow_cases r with hrow | ⟨b', key, own, hfind, hrow⟩
  · rw [hrow] at hb
    have hdefended := h.defended (Option.some.inj hb).symm
    rw [hrow] at hdefended
    exact absurd hdefended (by simp [Stage.target])
  · rw [hrow] at hb
    exact absurd hb (by simp [Stage.target])

theorem Inv.letGo {r : Revocation} {organizationId : Option Uuid} {key : String} (h : Inv o s)
    (hok : s.Covered (.countRemaining c)) (hc : s.requests c = .kept r organizationId key)
    (hsome : s.survivors r.bindingId organizationId ≠ []) : Inv o (s.move c (.cleared r)) := by
  have hstage := h.stageOk hc
  obtain ⟨b, howner, huntouched⟩ := h.safe
  by_cases hb : b.id = r.bindingId
  · -- the owner itself goes: one of the survivors takes its place
    obtain rfl : organizationId = some o := (hstage b howner.mem hb).symm.trans howner.organization
    obtain ⟨y, hy, hyowner, hyfree⟩ := hok r o key b hc howner hb hsome
    have hne : y.id ≠ r.bindingId := by
      have := (List.mem_filter.mp hy).2
      simp only [Bool.and_eq_true, decide_eq_true_eq] at this
      exact this.1.1
    exact .moveTo h.stages trivial hyowner hyfree fun he => hne (Option.some.inj he).symm
  · exact .moveTo h.stages trivial howner (fun d _ => huntouched d) fun he => hb (Option.some.inj he).symm

theorem Inv.commit {r : Revocation} (h : Inv o s) (hc : s.requests c = .writing r) :
    Inv o { s.move c (.answered .revoked) with
      bindings := s.revoked r.bindingId, locked := s.locked.erase r.bindingId } := by
  have hmoved : Inv o (s.move c (.answered .revoked)) :=
    h.move trivial fun b _ hb => absurd hb (by simp [Stage.target])
  obtain ⟨b, howner, huntouched⟩ := h.safe
  -- the row revoked is the target of this request, so not the owner
  have hb : b.id ≠ r.bindingId := fun hb => huntouched c (by rw [hc, hb]; rfl)
  refine ⟨fun d => stageOk_of_organization (fun b' hb' => ?_) (hmoved.stages d), b,
    howner.of_bindings rfl (mem_revoked.mpr ⟨b, howner.mem, by simp [hb]⟩) howner.live, fun d => ?_⟩
  · obtain ⟨a, ha, rfl⟩ := mem_revoked.mp hb'
    exact ⟨a, ha, by split_ifs <;> rfl, by split_ifs <;> rfl⟩
  · show ((s.move c (.answered .revoked)).requests d).target ≠ some b.id
    by_cases hdc : d = c
    · rw [hdc, move_self]
      simp [Stage.target]
    · rw [move_of_ne hdc]
      exact huntouched d

/-- **One statement keeps the invariant.** -/
theorem Inv.step {e : RevokeEvent} (h : Inv o s) (hok : s.Covered e)
    (hs : revokeStep s e = some t) : Inv o t := by
  cases e with
  | receive c r =>
    simp only [revokeStep] at hs
    split at hs <;> cases hs
    obtain ⟨htarget, hstage⟩ := s.find_target r
    exact h.move hstage fun b _ hb => absurd (htarget.symm.trans hb) (by simp)
  | readRow c =>
    simp only [revokeStep] at hs
    split at hs <;> cases hs
    rename_i r hc
    exact h.move (stageOk_readRow r) fun b howner hb => absurd hb howner.not_target_readRow
  | countOwn c =>
    simp only [revokeStep] at hs
    split at hs <;> cases hs
    rename_i r organizationId key own hc
    have hstage := h.stageOk hc
    unfold countOwn
    split_ifs
    · exact h.move trivial fun b _ hb => absurd hb (by simp [Stage.target])
    · exact h.move hstage fun b _ hb => absurd hb (by simp [Stage.target])
  | countRemaining c =>
    simp only [revokeStep] at hs
    split at hs <;> cases hs
    rename_i r organizationId key hc
    unfold countRemaining
    split_ifs with hcount
    · exact h.move trivial fun b _ hb => absurd hb (by simp [Stage.target])
    · exact h.letGo hok hc fun hnil => hcount (by rw [hnil]; rfl)
  | write c =>
    simp only [revokeStep] at hs
    split at hs
    · rename_i r hc
      split_ifs at hs
      split at hs <;> cases hs
      · exact h.move trivial fun b _ hb => absurd hb (by simp [Stage.target])
      · have hmoved : Inv o (s.move c (.writing r)) := h.move trivial fun b _ hb => by rwa [hc]
        obtain ⟨b, howner, hfree⟩ := hmoved.safe
        exact ⟨fun d => stageOk_of_organization (fun b hb => ⟨b, hb, rfl, rfl⟩) (hmoved.stages d), b,
          howner.of_bindings rfl howner.mem howner.live, hfree⟩
    · cases hs
  | commit c =>
    simp only [revokeStep] at hs
    split at hs <;> cases hs
    rename_i r hc
    exact h.commit hc
  | tick now =>
    simp only [revokeStep] at hs
    split_ifs at hs
    cases hs
    obtain ⟨b, howner, huntouched⟩ := h.safe
    exact ⟨fun d => stageOk_of_organization (fun b hb => ⟨b, hb, rfl, rfl⟩) (h.stages d), b,
      howner.of_bindings rfl howner.mem (hok o b howner), huntouched⟩

/-! ### Runs -/

/-- **The last owner stays**: an organization that had a live binding to a built-in
owner or administrator role keeps one, over any interleaving of revocations whose
counts are covered. -/
theorem run_keeps_owner {es : List RevokeEvent} (hidle : ∀ c, s.requests c = .idle)
    (h : Transition.Run revokeStep Covered s es t) (howner : ∃ b, s.Owner o b) : ∃ b, t.Owner o b := by
  obtain ⟨b, howner⟩ := howner
  have hstart : Inv o s :=
    ⟨fun c => by rw [hidle c]; trivial, b, howner, fun c => by rw [hidle c]; simp [Stage.target]⟩
  obtain ⟨b, hsafe⟩ := (h.invariant hstart fun _ _ _ hx hok hs => hx.step hok hs).safe
  exact ⟨b, hsafe.1⟩

/-- The platform's owner and administrator roles. -/
def builtInRoles : Table Role Role.id where
  rows := [⟨1, none, "owner", "Owner", "", 1000, none, true, true⟩,
    ⟨2, none, "administrator", "Administrator", "", 900, none, true, true⟩]
  nodup := by decide

/-- Organization 7 with one owner, person 5, and one administrator, person 6. -/
def twoAdmins : Revocations where
  roles := builtInRoles
  members := []
  bindings :=
    { rows := [⟨11, 1, .user 5, .organization 7, none, none, none⟩,
        ⟨12, 2, .user 6, .organization 7, none, none, none⟩]
      nodup := by decide }
  locked := []
  now := 0
  requests := fun _ => .idle

/-- Each removes the other, and both have counted before either revokes. -/
def crossed : List RevokeEvent :=
  [.receive 0 ⟨12, 5, some 7⟩, .readRow 0, .countOwn 0, .countRemaining 0,
    .receive 1 ⟨11, 6, some 7⟩, .readRow 1, .countOwn 1, .countRemaining 1,
    .write 0, .commit 0, .write 1, .commit 1]

/-- Nobody is left. -/
theorem owner_lost :
    ¬ ∀ (s t : Revocations) (es : List RevokeEvent) (o : Uuid), (∀ c, s.requests c = .idle) →
      Transition.Run revokeStep Transition.Any s es t → (∃ b, s.Owner o b) → ∃ b, t.Owner o b := by
  intro h
  have hexec : (Transition.exec revokeStep twoAdmins crossed).map (fun t => t.bindings.rows.all (·.revokedAt.isSome)) =
      some true := by decide
  obtain ⟨t, ht, hall⟩ := Transition.Run.of_exec_map hexec
  have howner : twoAdmins.Owner 7 ⟨11, 1, .user 5, .organization 7, none, none, none⟩ :=
    ⟨List.mem_cons_self .., rfl, rfl, _, rfl, rfl, by decide⟩
  obtain ⟨b, hb⟩ := h twoAdmins t crossed 7 (fun _ => rfl) ht ⟨_, howner⟩
  have hrevoked := List.all_eq_true.mp hall b hb.mem
  have hlive := hb.live
  simp only [RoleBinding.isActiveAt, Bool.and_eq_true] at hlive
  rw [Option.isNone_iff_eq_none.mp hlive.1] at hrevoked
  exact absurd hrevoked (by decide)

/-- The owner removes the administrator, and nobody else removes anybody. -/
theorem run_keeps_owner_alone :
    ∃ t, Transition.Run revokeStep Covered twoAdmins (crossed.take 4 ++ [.write 0, .commit 0]) t ∧
      ∃ b, t.Owner 7 b := by
  have howner : ∀ {s : Revocations}, s.roles = builtInRoles → s.bindings = twoAdmins.bindings → s.now = 0 →
      s.Owner 7 ⟨11, 1, .user 5, .organization 7, none, none, none⟩ := by
    intro s hroles hbindings hnow
    exact ⟨by rw [hbindings]; exact List.mem_cons_self .., by rw [hnow]; rfl, rfl,
      by rw [hroles]; exact ⟨_, rfl, rfl, by decide⟩⟩
  -- while the owner is alone at work, the count it passes has counted itself
  have hcovered : ∀ {s : Revocations}, s.roles = builtInRoles → s.bindings = twoAdmins.bindings → s.now = 0 →
      s.requests 0 = .kept ⟨12, 5, some 7⟩ (some 7) "administrator" → (∀ d, d ≠ 0 → s.requests d = .idle) →
      s.Covered (.countRemaining 0) := by
    intro s hroles hbindings hnow hstage hidle r o key x hkept _ _ _
    obtain ⟨rfl, ho, -⟩ := Stage.kept.inj (hstage.symm.trans hkept)
    cases ho
    have h := howner hroles hbindings hnow
    refine ⟨_, List.mem_filter.mpr ⟨h.mem, by simp [h.privileged, h.organization]⟩, h, fun d hd => ?_⟩
    rw [hidle d hd]
    simp [Stage.target]
  have hrun : ∃ t, Transition.Run revokeStep Covered twoAdmins (crossed.take 4 ++ [.write 0, .commit 0]) t := by
    refine ⟨_, .cons trivial rfl (.cons trivial rfl (.cons trivial rfl
      (.cons (hcovered rfl rfl rfl rfl fun d hd => ?_) rfl (.cons trivial rfl (.cons trivial rfl .nil)))))⟩
    rw [move_of_ne hd, move_of_ne hd, move_of_ne hd]
    rfl
  obtain ⟨t, hrun⟩ := hrun
  exact ⟨t, hrun, run_keeps_owner (fun _ => rfl) hrun ⟨_, howner rfl rfl rfl⟩⟩

end Revocations

end Omnion.Permissions
