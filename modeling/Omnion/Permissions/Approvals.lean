import Omnion.Permissions.RoleTree
import Omnion.Permissions.Verdict

/-!
# Permission requests and their approvals

`crates/permissions/src/approvals.rs`: an approval is a time-boxed binding of the
requester to a generated role, one for each organization and permission key, that
carries one allow entry.

## What is proved

* `decide_grants_iff` — an approval that succeeds grants exactly the permission
  asked for just when a role already found under the generated key grants exactly
  that. A role found there is bound as it is: an edited role, a half-created one or
  one created for something else grants what it happens to hold
  (`decide_grants_other`).

## Honest scope

The joined display columns of a request (e-mails, names, the binding's expiry) and
the users and organizations tables are not modelled. The application's clock and
the database's are one instant.
-/

namespace Omnion.Permissions

/-- Shortest window an approval may grant. -/
def minGrantMinutes : ℤ := 5

/-- Longest window an approval may grant (30 days). -/
def maxGrantMinutes : ℤ := 43200

/-- Priority of a generated grant role. -/
def grantRolePriority : ℤ := 100

/-- The approver's decision. -/
structure ApprovalDecision where
  /-- `true` grants a window, `false` refuses. -/
  approve : Bool
  /-- Window length in minutes; required for an approval. -/
  grantMinutes : Option ℤ
  note : String

/-- The characters of a grant role key: runs of other characters than lower-case
letters and digits become one dash. -/
def sanitized : List Char → Bool → List Char
  | [], _ => []
  | c :: cs, lastDash =>
    if Text.isAsciiLowercase c || Text.isAsciiDigit c then c :: sanitized cs false
    else if lastDash then sanitized cs true
    else '-' :: sanitized cs true

/-- Role key of a requested permission: `users.read` gives `grant-users-read`. -/
def grantRoleKey (permissionKey : String) : String :=
  String.ofList (("grant-".toList ++ sanitized permissionKey.toList true).rdropWhile (· = '-'))

/-- The generated role that carries one requested permission. -/
def ensureGrantRole (organizationId : Uuid) (permissionKey : String) (standIn roleId : Uuid) :
    Call Uuid := do
  let key := grantRoleKey permissionKey
  match ← findRoleByKey (some organizationId) key with
  | some role => pure role.id
  | none =>
    let created ← (createRole
      { organizationId, key, name := "Time-boxed: " ++ permissionKey,
        description := "Generated by an approved permission request; bound only for the approved window.",
        priority := grantRolePriority, inheritsRoleId := none } standIn roleId).attempt
    match created with
    | .ok role => do
      let _ ← setRolePermissions role.id [⟨permissionKey, .allow⟩]
      pure role.id
    | .error .roleKeyTaken => do
      -- another approver created it a moment ago
      let role ← Query.orFail .roleNotFound (← findRoleByKey (some organizationId) key)
      pure role.id
    | .error other => .fail other

def findRequest (id : Uuid) : Call (Option PermissionRequest) := .read fun db => db.requests.find? id

/-- The window an approval asks for. -/
def grantWindow (decision : ApprovalDecision) : Except PermissionsError (Option ℤ) :=
  if decision.approve then
    match decision.grantMinutes with
    | none => .error (.invalidRequest "an approval needs a window (grant_minutes)")
    | some minutes =>
      if minGrantMinutes ≤ minutes ∧ minutes ≤ maxGrantMinutes then .ok (some minutes)
      else .error (.invalidRequest "the window must be between 5 and 43200 minutes")
  else .ok none

/-- A span of minutes, in microseconds. -/
def minutesSpan (minutes : ℤ) : ℤ := minutes * 60000000

/-- The scope a request asks for. -/
def PermissionRequest.scope (r : PermissionRequest) : Scope :=
  match r.resourceType, r.resourceId with
  | some kind, some pattern => .resource (some r.organizationId) none kind pattern
  | _, _ => .organization r.organizationId

/-- Retire the expired bindings of a role to a person. -/
def retireExpired (roleId userId : Uuid) (now : Instant) : Call Unit := .statement fun db =>
  .ok ((), { db with
    bindings := db.bindings.update
      (fun b => b.roleId = roleId && b.subject = .user userId && b.revokedAt.isNone && b.expiresAt.any (· ≤ now))
      (fun b => { b with revokedAt := some now }) fun _ => rfl })

/-- The binding an approval makes. -/
def grantBinding (existing : PermissionRequest) (roleId deciderId : Uuid) (minutes : ℤ) (now : Instant)
    (bindingId : Uuid) : RoleBinding :=
  { id := bindingId, roleId, subject := .user existing.requesterId, scope := existing.scope,
    grantedBy := some deciderId, expiresAt := some (now + minutesSpan minutes), revokedAt := none }

/-- Bind the generated role, when the decision is an approval. -/
def bindGrant (existing : PermissionRequest) (approve : Bool) (roleId : Option Uuid)
    (minutes : Option ℤ)
    (deciderId : Uuid) (now : Instant) (bindingId : Uuid) : Call (Option Uuid) :=
  match approve, roleId, minutes with
  | true, some roleId, some minutes => do
    retireExpired roleId existing.requesterId now
    let binding ← insertBinding (grantBinding existing roleId deciderId minutes now bindingId)
    pure (some binding)
  | _, _, _ => pure none

def PermissionRequest.decided (r : PermissionRequest) (status : RequestStatus) (deciderId : Uuid)
    (now : Instant) (note : String) (minutes : Option ℤ) (bindingId : Option Uuid) :
    PermissionRequest :=
  { r with status, decidedBy := some deciderId, decidedAt := some now, decisionNote := some note,
           grantMinutes := minutes, bindingId }

/-- Decide a request: approval produces a time-boxed binding, refusal just closes the
row. `standIn`, `roleId` and `bindingId` are the ids drawn on the way. -/
def decide (id deciderId : Uuid) (decision : ApprovalDecision) (now : Instant)
    (standIn roleId bindingId : Uuid) : Call PermissionRequest := do
  let note := Text.trim decision.note
  let minutes ← .check (grantWindow decision)
  let existing ← Query.orFail .requestNotFound (← findRequest id)
  .require (existing.status = .pending) .requestAlreadyDecided
  -- the grant role is created outside the transaction
  let grantRoleId ←
    if decision.approve then
      some <$> ensureGrantRole existing.organizationId existing.permissionKey standIn roleId
    else pure none
  .transaction do
    let locked ← Query.orFail .requestNotFound (← findRequest id)
    .require (locked.status = .pending) .requestAlreadyDecided
    let binding ← bindGrant existing decision.approve grantRoleId minutes deciderId now bindingId
    .statement fun db => .ok ((), { db with
      requests := db.requests.update (·.id = id)
        (·.decided (if decision.approve then .approved else .rejected) deciderId now note minutes binding)
        fun _ => rfl })
  Query.orFail .requestNotFound (← findRequest id)

/-! ### What a role grants -/

/-- `load_role_graph`: the roles of one organization and the platform's, with their
entries. -/
def loadRoleGraph (db : Db) (organizationId : Option Uuid) : RoleGraph :=
  .new ((db.roles.rows.filter (·.visibleIn organizationId)).map fun r => ⟨r, db.entriesOf r.id⟩)

/-- A role grants one permission and nothing else: its entry set is one allow of the
key, and who is bound to it is allowed nothing but the key. -/
structure GrantsExactly (db : Db) (organizationId roleId : Uuid) (key : String) : Prop where
  entries : ∀ e, e ∈ db.entriesOf roleId ↔ e = ⟨key, .allow⟩
  /-- Nothing else is allowed, through inheritance either. -/
  nothingElse : ∀ k,
    (((loadRoleGraph db (some organizationId)).effective [roleId]).decision k).isAllowed = true → k = key

theorem RoleGraph.role_new {l : List RoleAssignment} {id : Uuid} {a : RoleAssignment}
    (h : (RoleGraph.new l).role id = some a) : a ∈ l := by
  have key : ∀ (l : List RoleAssignment) (g : RoleGraph), (l.foldl insert g).role id = some a →
      a ∈ l ∨ g.role id = some a := by
    intro l
    induction l with
    | nil => exact fun g h => .inr h
    | cons b l ih =>
      intro g h
      rcases ih _ h with h | h
      · exact .inl (List.mem_cons_of_mem _ h)
      · simp only [role, insert, Std.TreeMap.getElem?_insert] at h
        split at h
        · cases h
          exact .inl (List.mem_cons_self ..)
        · exact .inr h
  rcases key l .empty h with h | h
  · exact h
  · simp [role, RoleGraph.empty] at h

/-- A role that inherits from nobody grants what its own entries say. -/
theorem grantsExactly_of_detached {db : Db} {o : Uuid} {key : String} {r : Role}
    (hr : db.roles.find? r.id = some r)
    (hdetached : r.inheritsRoleId = none) (hentries : ∀ e, e ∈ db.entriesOf r.id ↔ e = ⟨key, .allow⟩) :
    GrantsExactly db o r.id key := by
  refine ⟨hentries, fun k hk => ?_⟩
  let g := loadRoleGraph db (some o)
  -- a role of the graph is the row of its id, with its entries
  have hgraph : ∀ {a : RoleAssignment}, g.role r.id = some a → a = ⟨r, db.entriesOf r.id⟩ := by
    intro a ha
    obtain ⟨c, hc, rfl⟩ := List.mem_map.mp (RoleGraph.role_new ha)
    have hid : c.id = r.id := g.role_id ha
    have hcr : db.roles.find? r.id = some c := Table.find?_eq_some.mpr ⟨(List.mem_filter.mp hc).1, hid⟩
    rw [hr] at hcr
    cases hcr
    rfl
  obtain ⟨-, c, ⟨b, hb, -, hreach⟩, a, ha, he⟩ := (g.decision_isVerdict [r.id] k).allow.mp hk
  obtain rfl := List.mem_singleton.mp hb
  rcases hreach.cases_head with rfl | ⟨_, ⟨a', ha', -, hparent, -⟩, -⟩
  · rw [hgraph ha] at he
    have := (hentries _).mp he
    simpa using this
  · rw [hgraph ha', hdetached] at hparent
    exact absurd hparent (by simp)

theorem GrantsExactly.congr {db db' : Db} {o roleId : Uuid} {key : String} (hr : db'.roles = db.roles)
    (he : db'.entries = db.entries) :
    GrantsExactly db' o roleId key ↔ GrantsExactly db o roleId key := by
  have hentries : db'.entriesOf = db.entriesOf := by
    funext id
    rw [Db.entriesOf, he, ← Db.entriesOf]
  have hgraph : loadRoleGraph db' = loadRoleGraph db := by
    funext o
    rw [loadRoleGraph, hr, hentries, ← loadRoleGraph]
  constructor
  · rintro ⟨h, h'⟩
    exact ⟨hentries ▸ h, hgraph ▸ h'⟩
  · rintro ⟨h, h'⟩
    exact ⟨hentries.symm ▸ h, hgraph.symm ▸ h'⟩

/-! ### What an approval grants -/

variable {db db' : Db}

/-- The role found under a key of an organization. -/
def Db.roleByKey (db : Db) (organizationId : Option Uuid) (key : String) : Option Role :=
  db.roles.rows.find? fun r => r.key = key && r.organizationId = organizationId

theorem findRoleByKey_returns {o : Option Uuid} {key : String} {r : Option Role} :
    (findRoleByKey o key).Returns db r db' ↔ db.roleByKey o key = r ∧ db = db' := Query.returns_read

theorem findRequest_returns {id : Uuid} {r : Option PermissionRequest} :
    (findRequest id).Returns db r db' ↔ db.requests.find? id = r ∧ db = db' := Query.returns_read

theorem createRole_detached {new : NewRole} {standIn id : Uuid} {r : Role}
    (hnew : new.inheritsRoleId = none) (h : (createRole new standIn id).Returns db r db') :
    r.inheritsRoleId = none ∧ db'.roles.find? r.id = some r ∧ db'.bindings = db.bindings ∧
      db'.requests = db.requests := by
  simp only [createRole, hnew, checkNewParent, Query.returns_bind, Query.returns_check, Query.returns_pure] at h
  obtain ⟨key, _, ⟨-, rfl⟩, name, _, ⟨-, rfl⟩, priority, _, ⟨-, rfl⟩, _, _, ⟨-, rfl⟩, hins⟩ := h
  obtain ⟨rfl, -, -, -, roles, hroles, rfl⟩ := insertRole_returns hins
  exact ⟨rfl, by rw [Table.find?_insert? hroles, if_pos rfl], rfl, rfl⟩

/-- **The generated role**: the one found under the key, as it is, or a new one that
grants exactly the permission. -/
theorem ensureGrantRole_returns {o standIn roleId id : Uuid} {key : String}
    (h : (ensureGrantRole o key standIn roleId).Returns db id db') :
    (∃ role, db.roleByKey (some o) (grantRoleKey key) = some role ∧ id = role.id ∧ db' = db) ∨
      (db.roleByKey (some o) (grantRoleKey key) = none ∧ db'.bindings = db.bindings ∧
        db'.requests = db.requests ∧ GrantsExactly db' o id key) := by
  simp only [ensureGrantRole, Query.returns_bind, findRoleByKey_returns] at h
  obtain ⟨found, _, ⟨rfl, rfl⟩, h⟩ := h
  cases hfound : db.roleByKey (some o) (grantRoleKey key) with
  | some role =>
    rw [hfound] at h
    obtain ⟨rfl, rfl⟩ := Query.returns_pure.mp h
    exact .inl ⟨role, rfl, rfl, rfl⟩
  | none =>
    rw [hfound] at h
    simp only [Query.returns_bind, Query.returns_attempt] at h
    obtain ⟨created, db₁, hcreate, h⟩ := h
    refine .inr ⟨rfl, ?_⟩
    cases created with
    | ok role =>
      simp only [Query.returns_bind, Query.returns_pure] at h
      obtain ⟨l, db₂, hset, rfl, rfl⟩ := h
      obtain ⟨hdetached, hrow, hb, hq⟩ := createRole_detached rfl hcreate
      obtain ⟨⟨hr', hb', hq'⟩, hentries⟩ := setRolePermissions_returns hset
      refine ⟨hb'.trans hb, hq'.trans hq, grantsExactly_of_detached (hr' ▸ hrow) hdetached fun e => ?_⟩
      rw [mem_entriesOf, hentries, dedupEntries_singleton]
      simp
    | error e =>
      -- a refused creation changed nothing, so nothing is found the second time
      obtain rfl := createRole_atomic _ _ _ hcreate
      cases e with
      | roleKeyTaken =>
        simp only [Query.returns_bind, findRoleByKey_returns, Query.returns_orFail] at h
        obtain ⟨_, _, ⟨rfl, rfl⟩, _, _, ⟨hnone, rfl⟩, -⟩ := h
        rw [hfound] at hnone
        exact absurd hnone (by simp)
      | _ => exact absurd h Query.returns_fail

/-- What binding the generated role leaves: a live binding of the requester to it. -/
theorem bindGrant_returns {existing : PermissionRequest} {roleId : Uuid} {minutes : ℤ}
    {deciderId bindingId : Uuid} {now : Instant} {b : Option Uuid} (hm : 0 < minutes)
    (h : (bindGrant existing true (some roleId) (some minutes) deciderId now bindingId).Returns db b db') :
    db'.roles = db.roles ∧ db'.entries = db.entries ∧ db'.requests = db.requests ∧
      ∃ binding ∈ db'.bindings, b = some binding.id ∧ binding.roleId = roleId ∧
        binding.subject = .user existing.requesterId ∧ binding.isActiveAt now = true := by
  simp only [bindGrant, retireExpired, Query.returns_bind, Query.returns_statement, Query.returns_pure] at h
  obtain ⟨_, db₁, hretire, bid, db₂, hins, rfl, rfl⟩ := h
  obtain rfl := (Prod.mk.inj (Except.ok.inj hretire)).2
  obtain ⟨rfl, bindings, hbindings, rfl⟩ := insertBinding_returns hins
  refine ⟨rfl, rfl, rfl, _, (Table.mem_insert? hbindings).mpr (.inr rfl), rfl, rfl, rfl, ?_⟩
  simp only [RoleBinding.isActiveAt, grantBinding, minutesSpan, Option.isNone_none, Option.all_some, Bool.true_and,
    decide_eq_true_eq]
  exact Int.lt_add_of_pos_right now (by omega)

/-- The requester holds what an approval promises: a live binding, the one of the
request, to a role that grants the permission asked for and nothing else. -/
def Granted (db : Db) (request : PermissionRequest) (now : Instant) : Prop :=
  ∃ binding ∈ db.bindings, request.bindingId = some binding.id ∧
    binding.subject = .user request.requesterId ∧ binding.isActiveAt now = true ∧
    GrantsExactly db request.organizationId binding.roleId request.permissionKey

theorem grantWindow_ok {decision : ApprovalDecision} {minutes : Option ℤ}
    (happrove : decision.approve = true)
    (h : grantWindow decision = .ok minutes) : ∃ m, minutes = some m ∧ 0 < m := by
  simp only [grantWindow, happrove, if_true] at h
  cases hm : decision.grantMinutes with
  | none => simp [hm] at h
  | some m =>
    simp only [hm] at h
    split_ifs at h with hrange
    refine ⟨m, (Except.ok.inj h).symm, ?_⟩
    have := hrange.1
    unfold minGrantMinutes at this
    omega

/-- **What a successful approval leaves**: the request names a live binding of the
requester, to the role the generated key led to. -/
theorem decide_returns {id deciderId standIn roleId bindingId : Uuid} {decision : ApprovalDecision}
    {now : Instant} {request : PermissionRequest} (happrove : decision.approve = true)
    (h : (decide id deciderId decision now standIn roleId bindingId).Returns db request db') :
    ∃ grantRoleId, ∃ binding ∈ db'.bindings, request.bindingId = some binding.id ∧ binding.roleId = grantRoleId ∧
      binding.subject = .user request.requesterId ∧ binding.isActiveAt now = true ∧
      ((∃ role, db.roleByKey (some request.organizationId) (grantRoleKey request.permissionKey) = some role ∧
          grantRoleId = role.id ∧ db'.roles = db.roles ∧ db'.entries = db.entries) ∨
        (db.roleByKey (some request.organizationId) (grantRoleKey request.permissionKey) = none ∧
          GrantsExactly db' request.organizationId grantRoleId request.permissionKey)) := by
  simp only [decide, happrove, if_true, Query.returns_bind, Query.returns_check, Query.returns_orFail,
    Query.returns_require, Query.returns_transaction, Query.returns_statement, Query.returns_map,
    findRequest_returns] at h
  obtain ⟨minutes, _, ⟨hwindow, rfl⟩, _, _, ⟨rfl, rfl⟩, existing, _, ⟨hexisting, rfl⟩, _, _, ⟨-, rfl⟩,
    _, db₁, ⟨grantRoleId, hensure, rfl⟩, _, db₂, ⟨_, _, ⟨rfl, rfl⟩, locked, _, ⟨hlocked, rfl⟩, _, _, ⟨-, rfl⟩,
    binding, db₃, hbind, hwrite⟩, _, _, ⟨rfl, rfl⟩, hfinal, rfl⟩ := h
  obtain ⟨m, rfl, hm⟩ := grantWindow_ok happrove hwindow
  obtain ⟨hroles, hentries, hrequests, b, hb, rfl, hbrole, hsubject, hactive⟩ :=
    bindGrant_returns hm hbind
  obtain rfl := (Prod.mk.inj (Except.ok.inj hwrite)).2
  -- the request read back is the one decided
  have hrow : db₁.requests.find? id = some existing := by
    rcases ensureGrantRole_returns hensure with ⟨-, -, -, rfl⟩ | ⟨-, -, hq, -⟩
    · exact hexisting
    · rw [hq]
      exact hexisting
  have hid : existing.id = id := (Table.find?_eq_some.mp hexisting).2
  rw [Table.find?_update, hrequests, hrow] at hfinal
  simp only [Option.map_some, hid, decide_true, if_true, Option.some.injEq] at hfinal
  obtain rfl := hfinal
  refine ⟨grantRoleId, b, hb, rfl, hbrole, hsubject, hactive, ?_⟩
  rcases ensureGrantRole_returns hensure with ⟨role, hrole, hid, rfl⟩ | ⟨hnone, -, -, hexact⟩
  · exact .inl ⟨role, hrole, hid, hroles, hentries⟩
  · refine .inr ⟨hnone, (GrantsExactly.congr ?_ ?_).mpr hexact⟩
    · exact hroles
    · exact hentries

/-- **When an approval grants what it promises**: an approval that succeeded left the
requester exactly the permission asked for just when the role found under the
generated key before it, if there was one, grants exactly that. -/
theorem decide_grants_iff {id deciderId standIn roleId bindingId : Uuid} {decision : ApprovalDecision}
    {now : Instant} {request : PermissionRequest} (happrove : decision.approve = true)
    (h : (decide id deciderId decision now standIn roleId bindingId).Returns db request db') :
    Granted db' request now ↔
      ∀ role, db.roleByKey (some request.organizationId) (grantRoleKey request.permissionKey) = some role →
        GrantsExactly db request.organizationId role.id request.permissionKey := by
  obtain ⟨grantRoleId, b, hb, hbid, hbrole, hsubject, hactive, hrole⟩ := decide_returns happrove h
  rcases hrole with ⟨role, hfound, rfl, hroles, hentries⟩ | ⟨hnone, hexact⟩
  · constructor
    · rintro ⟨b', hb', hbid', -, -, hgrants⟩ role' hfound'
      rw [hfound] at hfound'
      cases hfound'
      -- the binding of the request is the one just made
      obtain rfl : b' = b := Table.eq_of_key hb' hb (Option.some.inj (hbid'.symm.trans hbid))
      rw [hbrole] at hgrants
      exact (GrantsExactly.congr hroles hentries).mp hgrants
    · intro hall
      refine ⟨b, hb, hbid, hsubject, hactive, ?_⟩
      rw [hbrole]
      exact (GrantsExactly.congr hroles hentries).mpr (hall role hfound)
  · constructor
    · intro _ role hfound
      rw [hnone] at hfound
      exact absurd hfound (by simp)
    · intro _
      exact ⟨b, hb, hbid, hsubject, hactive, hbrole ▸ hexact⟩

/-- A pending request of person 5 in organization 7 for `users.read`. -/
def pendingRequest : PermissionRequest :=
  ⟨1, 7, 5, "users.read", none, none, "audit", .pending, none, none, none, none, none⟩

def oneHour : ApprovalDecision := ⟨true, some 60, ""⟩

/-- A generated role whose creation stopped half-way: it has no entries yet. -/
def halfCreated : Db where
  roles :=
    { rows := [⟨3, some 7, "grant-users-read", "Time-boxed: users.read", "", 100, none, true, false⟩]
      nodup := by decide }
  requests := { rows := [pendingRequest], nodup := by decide }

/-- The request as the approval leaves it. -/
def approvedRequest : PermissionRequest :=
  ⟨1, 7, 5, "users.read", none, none, "audit", .approved, some 9, some 0, some "", some 60, some 11⟩

/-- The approval binds the requester to the role without entries. -/
def boundToNothing : Db :=
  { halfCreated with
    bindings :=
      { rows := [⟨11, 3, .user 5, .organization 7, some 9, some 3600000000, none⟩]
        nodup := by decide }
    requests := { rows := [approvedRequest], nodup := by decide } }

theorem decide_grants_other :
    ¬ ∀ (db db' : Db) (id deciderId standIn roleId bindingId : Uuid) (decision : ApprovalDecision)
      (now : Instant) (request : PermissionRequest), decision.approve = true →
      (decide id deciderId decision now standIn roleId bindingId).Returns db request db' →
      Granted db' request now := by
  intro h
  obtain ⟨b, hb, -, -, -, hgrants⟩ :=
    h halfCreated boundToNothing 1 9 0 2 11 oneHour 0 approvedRequest rfl rfl
  obtain rfl := List.mem_singleton.mp hb
  have hentry := (hgrants.entries ⟨"users.read", .allow⟩).mpr rfl
  rw [mem_entriesOf] at hentry
  exact absurd hentry List.not_mem_nil

/-- No role under the generated key yet. -/
def fresh : Db where
  requests := { rows := [pendingRequest], nodup := by decide }

theorem decide_grants_fresh :
    ∃ request db', (decide 1 9 oneHour 0 0 2 11).Returns fresh request db' ∧ Granted db' request 0 := by
  obtain ⟨db', h⟩ : ∃ db', (decide 1 9 oneHour 0 0 2 11).Returns fresh approvedRequest db' := ⟨_, rfl⟩
  refine ⟨approvedRequest, db', h, (decide_grants_iff rfl h).mpr ?_⟩
  intro role hrole
  exact absurd hrole (by simp [Db.roleByKey, fresh, Table.empty])

end Omnion.Permissions
