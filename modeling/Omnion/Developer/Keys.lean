import Omnion.Library.Run
import Omnion.Permissions.Bindings

/-!
# Developer keys

`keys.rs` and `keys_store.rs` of `crates/developer`, with `create_key`, `rotate_key` and
`revoke_key` of `apps/api/src/routes/developer.rs`: a key is a delegation of permissions, which
the holder of its token has as long as the key is live.

## The model

The callers' permissions are those of `Omnion.Permissions.Bindings` and change at any time. A
create request checks the scopes against the caller's permissions and stores the key later; a
rotation is one transaction under the lock of its row. How the database puts a name in lower case is
a parameter. `issued` keeps what no table does: every
token that was handed out, to whom, and what the caller held at that moment.

## What is proved

* `run_backed_iff` — over any run every live token was backed by its receiver's permissions just
  when every rotation that succeeds on a key that has not expired is made by a caller who holds
  all its scopes.

## Honest scope

The guard of the routes (`developer.keys.manage`) and the caller's organization are decided before
the requests that are modelled. What is drawn at random (the id, the token and its hash) is an
argument. Events and audit rows are left out.
-/

namespace Omnion.Developer

open Permissions Transition

/-! ### Keys -/

/-- What can go wrong. -/
inductive DeveloperError where
  | invalid (message : String)
  | conflict (message : String)
  | notFound (message : String)
  | database

/-- Every environment. -/
def ENVIRONMENTS : List String := ["live", "sandbox"]

/-- Shortest name. -/
def MIN_NAME_LENGTH : ℕ := 3

/-- Longest name. -/
def MAX_NAME_LENGTH : ℕ := 64

/-- Most scopes of one key. -/
def MAX_SCOPES : ℕ := 64

/-- A row of `api_keys`. -/
structure ApiKey where
  id : Uuid
  organizationId : Uuid
  name : String
  environment : String
  keyPrefix : String
  keyHash : String
  scopes : List String
  createdBy : Option Uuid
  createdByName : String
  expiresAt : Option Instant
  revokedAt : Option Instant
  rotatedFrom : Option Uuid
  createdAt : Instant
  deriving DecidableEq

/-- What became of a key. -/
inductive KeyStatus where
  | active
  | expired
  | revoked
  deriving DecidableEq

/-- `status_at`. -/
def ApiKey.statusAt (key : ApiKey) (now : Instant) : KeyStatus :=
  if key.revokedAt.isSome then .revoked else if key.expiresAt.any (· ≤ now) then .expired else .active

/-- `is_active_at`. -/
def ApiKey.isActiveAt (key : ApiKey) (now : Instant) : Bool := key.statusAt now = .active

/-- What the guard of a route asks of a key. -/
def ApiKey.authorizes (key : ApiKey) (now : Instant) (permission : String) : Bool :=
  key.isActiveAt now && key.scopes.contains permission

/-- A new token: what is stored of it. -/
structure Secret where
  keyPrefix : String
  hash : String

/-- What a key is created from. -/
structure NewKey where
  organizationId : Uuid
  name : String
  environment : String
  scopes : List String
  expiresAt : Option Instant
  createdBy : Option Uuid
  createdByName : String

/-- Scopes trimmed, sorted, each once. -/
def dedupeScopes (scopes : List String) : List String :=
  (((scopes.map Text.trim).filter (· ≠ "")).mergeSort fun a b => decide (a ≤ b)).dedup

/-- `parse_environment`. -/
def parseEnvironment (environment : String) : Except DeveloperError String :=
  match ENVIRONMENTS.find? (· = environment) with
  | some environment => .ok environment
  | none => .error (.invalid ("environment must be one of " ++ ", ".intercalate ENVIRONMENTS ++ " (got \"" ++
    environment ++ "\")"))

/-- The checks on a new key. -/
def NewKey.validated (key : NewKey) (now : Instant) : Except DeveloperError Unit :=
  match parseEnvironment key.environment with
  | .error error => .error error
  | .ok _ =>
    let name := Text.trim key.name
    let scopes := dedupeScopes key.scopes
    if name = "" then .error (.invalid "name cannot be blank")
    else if name.utf8ByteSize < MIN_NAME_LENGTH ∨ MAX_NAME_LENGTH < name.utf8ByteSize then
      .error (.invalid ("name must be between " ++ toString MIN_NAME_LENGTH ++ " and " ++ toString MAX_NAME_LENGTH ++
        " characters (got " ++ toString name.length ++ ")"))
    else if scopes = [] then .error (.invalid "choose at least one scope — a key with no scope could not call anything")
    else if MAX_SCOPES < scopes.length then
      .error (.invalid ("at most " ++ toString MAX_SCOPES ++ " scopes (got " ++ toString scopes.length ++ ")"))
    else if key.expiresAt.any (· ≤ now) then .error (.invalid "expiry must be in the future")
    else .ok ()

/-- Every scope is one of the catalogue. -/
def scopeNamesValid (scopes catalogue : List String) : Except DeveloperError Unit :=
  match (dedupeScopes scopes).find? fun scope => !catalogue.contains scope with
  | some scope => .error (.invalid ("\"" ++ scope ++ "\" is not a permission this platform knows"))
  | none => .ok ()

/-- The delegation rule: what is asked for, when the caller holds it. -/
def mintableFrom (requested held : List String) : Except DeveloperError (List String) :=
  match (dedupeScopes requested).find? fun scope => !held.contains scope with
  | some scope => .error (.invalid ("you cannot grant \"" ++ scope ++ "\": you do not hold it yourself"))
  | none => .ok (dedupeScopes requested)

/-! ### The store -/

/-- The rows of `api_keys`. -/
abbrev Keys := Table ApiKey ApiKey.id

variable (lower : String → String)

/-- Two live keys clash on the unique index over the name. -/
def ApiKey.clashes (a b : ApiKey) : Bool :=
  a.revokedAt.isNone && b.revokedAt.isNone && a.organizationId == b.organizationId &&
    lower a.name == lower b.name && a.environment == b.environment

/-- `btrim`. -/
def btrim (s : String) : String := String.ofList ((s.toList.dropWhile (· = ' ')).rdropWhile (· = ' '))

/-- Insert a row, when the constraints of the table allow it. -/
def insertKey (keys : Keys) (row : ApiKey) : Option Keys :=
  if row.environment ∉ ENVIRONMENTS then none
  else if (btrim row.name).length < MIN_NAME_LENGTH ∨ MAX_NAME_LENGTH < (btrim row.name).length then none
  else if row.scopes = [] ∨ MAX_SCOPES < row.scopes.length then none
  else if keys.rows.any (fun k => k.keyHash = row.keyHash || row.clashes lower k) then none
  else keys.insert? row

/-- `find_live_by_name`. -/
def findLiveByName (keys : Keys) (organizationId : Uuid) (name environment : String) : Option Uuid :=
  (keys.rows.find? fun k => k.organizationId = organizationId && lower k.name = lower name &&
    k.environment = environment && k.revokedAt.isNone).map (·.id)

/-- The row a new key becomes. -/
def NewKey.row (key : NewKey) (now : Instant) (id : Uuid) (secret : Secret) : ApiKey where
  id := id
  organizationId := key.organizationId
  name := Text.trim key.name
  environment := key.environment
  keyPrefix := secret.keyPrefix
  keyHash := secret.hash
  scopes := dedupeScopes key.scopes
  createdBy := key.createdBy
  createdByName := key.createdByName
  expiresAt := key.expiresAt
  revokedAt := none
  rotatedFrom := none
  createdAt := now

def create (keys : Keys) (key : NewKey) (now : Instant) (id : Uuid) (secret : Secret) :
    Except DeveloperError (ApiKey × Keys) :=
  match key.validated now with
  | .error error => .error error
  | .ok () =>
    if (findLiveByName lower keys key.organizationId (Text.trim key.name) key.environment).isSome then
      .error (.conflict ("a " ++ key.environment ++ " key named \"" ++ Text.trim key.name ++
        "\" already exists — revoke it or choose another name"))
    else
      match insertKey lower keys (key.row now id secret) with
      | none => .error .database
      | some keys => .ok (key.row now id secret, keys)

/-- The row that takes the place of a key. -/
def ApiKey.successor (previous : ApiKey) (now : Instant) (id : Uuid) (secret : Secret) : ApiKey :=
  { previous with
    id, name := previous.name ++ " (rotated)", keyPrefix := secret.keyPrefix, keyHash := secret.hash
    revokedAt := none, rotatedFrom := some previous.id, createdAt := now }

def revokeRow (keys : Keys) (id : Uuid) (now : Instant) : Keys :=
  keys.update (·.id = id) (fun k => { k with revokedAt := some now }) fun _ => rfl

/-- Rotate a key: a new row, the old one dead at once. -/
def rotate (keys : Keys) (organizationId id : Uuid) (now : Instant) (newId : Uuid) (secret : Secret) :
    Except DeveloperError (ApiKey × Keys) :=
  match keys.rows.find? fun k => k.id = id && k.organizationId = organizationId with
  | none => .error (.notFound "no such API key")
  | some previous =>
    if previous.revokedAt.isSome then
      .error (.conflict "this key is already revoked — create a new key instead of rotating it")
    else
      match insertKey lower keys (previous.successor now newId secret) with
      | none => .error .database
      | some keys => .ok (previous.successor now newId secret, revokeRow keys previous.id now)

/-- Revoke a key; whether it was live. -/
def revoke (keys : Keys) (organizationId id : Uuid) (now : Instant) : Except DeveloperError (Bool × Keys) :=
  match keys.rows.find? fun k => k.id = id && k.organizationId = organizationId with
  | none => .error (.notFound "no such API key")
  | some previous => if previous.revokedAt.isSome then .ok (false, keys) else .ok (true, revokeRow keys id now)

/-! ### Requests -/

/-- Body of a create request. -/
structure CreateKeyBody where
  name : String
  scopes : List String
  environment : String := "live"
  expiresAt : Option Instant

/-- What a create request is checked for, before it stores anything. -/
def authorizeCreate (directory : Directory) (caller organizationId : Uuid) (callerName : String) (body : CreateKeyBody)
    (now : Instant) : Except DeveloperError NewKey :=
  match scopeNamesValid body.scopes Catalogue.catalogue with
  | .error error => .error error
  | .ok () =>
    match mintableFrom body.scopes
      (directory.effectivePermissions now caller (.organization organizationId)).grantedKeys with
    | .error error => .error error
    | .ok scopes => .ok {
        organizationId, name := body.name, environment := body.environment, scopes, expiresAt := body.expiresAt
        createdBy := some caller, createdByName := callerName }

/-- A create request that was let through. -/
structure Pending where
  caller : Uuid
  key : NewKey
  now : Instant
  held : List String

/-- A token that was handed out. -/
structure Issued where
  caller : Uuid
  key : ApiKey
  now : Instant
  held : List String

/-- The tables, the requests under way, and what was handed out. -/
structure Portal where
  directory : Directory
  keys : Keys := .empty
  pending : ℕ → Option Pending := fun _ => none
  issued : List Issued := []

/-- What can happen. -/
inductive PortalEvent where
  /-- Roles, bindings or groups change. -/
  | change (directory : Directory)
  | check (request : ℕ) (caller organizationId : Uuid) (callerName : String) (body : CreateKeyBody) (now : Instant)
  | store (request : ℕ) (id : Uuid) (secret : Secret)
  | rotate (caller organizationId id : Uuid) (now : Instant) (newId : Uuid) (secret : Secret)
  | revoke (organizationId id : Uuid) (now : Instant)

namespace Portal

/-- What a caller holds in an organization. -/
def held (s : Portal) (now : Instant) (caller organizationId : Uuid) : List String :=
  (s.directory.effectivePermissions now caller (.organization organizationId)).grantedKeys

/-- One event. -/
def step (s : Portal) : PortalEvent → Option Portal
  | .change directory => some { s with directory }
  | .check request caller organizationId callerName body now =>
    match authorizeCreate s.directory caller organizationId callerName body now with
    | .error _ => some s
    | .ok key => some { s with
        pending := Function.update s.pending request
          (some { caller, key, now, held := s.held now caller organizationId }) }
  | .store request id secret =>
    match s.pending request with
    | none => none
    | some p =>
      let pending := Function.update s.pending request none
      match create lower s.keys p.key p.now id secret with
      | .error _ => some { s with pending }
      | .ok (row, keys) => some { s with keys, pending, issued := ⟨p.caller, row, p.now, p.held⟩ :: s.issued }
  | .rotate caller organizationId id now newId secret =>
    match Developer.rotate lower s.keys organizationId id now newId secret with
    | .error _ => some s
    | .ok (row, keys) => some { s with keys, issued := ⟨caller, row, now, s.held now caller organizationId⟩ :: s.issued }
  | .revoke organizationId id now =>
    match Developer.revoke s.keys organizationId id now with
    | .error _ => some s
    | .ok (_, keys) => some { s with keys }

end Portal

/-! ### Scopes -/

section Scopes

variable {scopes requested held : List String} {scope : String}

theorem mem_dedupeScopes : scope ∈ dedupeScopes scopes ↔ scope ≠ "" ∧ ∃ raw ∈ scopes, Text.trim raw = scope := by
  simp only [dedupeScopes, List.mem_dedup, List.mem_mergeSort, List.mem_filter, List.mem_map, decide_eq_true_eq]
  exact and_comm

theorem mem_dedupeScopes_dedupeScopes : scope ∈ dedupeScopes (dedupeScopes scopes) ↔ scope ∈ dedupeScopes scopes := by
  rw [mem_dedupeScopes]
  constructor
  · rintro ⟨-, raw, hraw, rfl⟩
    obtain ⟨-, other, -, rfl⟩ := mem_dedupeScopes.mp hraw
    rwa [Text.trim_trim]
  · intro h
    obtain ⟨hne, raw, -, rfl⟩ := mem_dedupeScopes.mp h
    exact ⟨hne, _, h, Text.trim_trim raw⟩

/-- **What may be delegated** is held. -/
theorem mintableFrom_eq_ok : mintableFrom requested held = .ok scopes ↔
    scopes = dedupeScopes requested ∧ ∀ scope ∈ dedupeScopes requested, scope ∈ held := by
  rw [mintableFrom]
  split
  · rename_i scope hfind
    refine iff_of_false (fun heq => by cases heq) fun h => ?_
    obtain ⟨-, hheld⟩ := h
    have hmissing := List.find?_some hfind
    simp [hheld scope (List.mem_of_find?_eq_some hfind)] at hmissing
  · rename_i hfind
    rw [List.find?_eq_none] at hfind
    rw [Except.ok.injEq, eq_comm]
    exact (and_iff_left fun scope hscope => by simpa using hfind scope hscope).symm

end Scopes

/-! ### What the operations leave -/

section Operations

variable {lower} {keys keys' : Keys} {new : NewKey} {row : ApiKey}
  {now : Instant} {id newId o caller : Uuid} {secret : Secret}

theorem create_scopes (h : create lower keys new now id secret = .ok (row, keys')) :
    row.scopes = dedupeScopes new.scopes := by
  rw [create] at h
  split at h
  · cases h
  · split_ifs at h
    split at h
    · cases h
    · rw [← (Prod.mk.inj (Except.ok.inj h)).1]
      rfl

/-- **A rotation** hands out the scopes of the key it replaces. -/
theorem rotate_eq_ok : rotate lower keys o id now newId secret = .ok (row, keys') ↔
    ∃ previous inserted, (keys.rows.find? fun k => k.id = id && k.organizationId = o) = some previous ∧
      previous.revokedAt = none ∧
      insertKey lower keys (previous.successor now newId secret) = some inserted ∧
      row = previous.successor now newId secret ∧ keys' = revokeRow inserted previous.id now := by
  rw [rotate]
  split
  · rename_i hfind
    refine iff_of_false nofun ?_
    rintro ⟨previous, -, hprevious, -⟩
    rw [hfind] at hprevious
    cases hprevious
  · rename_i previous hfind
    rw [hfind]
    simp only [Option.some.injEq, exists_eq_left', exists_and_left]
    split_ifs with hrevoked
    · refine iff_of_false nofun ?_
      rintro ⟨hlive, -⟩
      simp [hlive] at hrevoked
    · rw [Option.not_isSome_iff_eq_none] at hrevoked
      cases insertKey lower keys (previous.successor now newId secret) with
      | none => simp
      | some inserted => simp [hrevoked, eq_comm]

end Operations

/-! ### Runs -/

/-- Whatever the token authorizes at that moment, its receiver held. -/
def Issued.Backed (i : Issued) : Prop := ∀ permission, i.key.authorizes i.now permission = true → permission ∈ i.held

theorem authorizes_iff {key : ApiKey} {now : Instant} {permission : String} :
    key.authorizes now permission = true ↔ key.isActiveAt now = true ∧ permission ∈ key.scopes := by
  simp [ApiKey.authorizes]

namespace Portal

variable {lower} {s t : Portal} {event : PortalEvent}

/-- Every token that was handed out was backed. -/
def Backed (s : Portal) : Prop := ∀ i ∈ s.issued, i.Backed

/-- A rotation that succeeds on a key that has not expired is made by who holds all its scopes. -/
def Fit (lower : String → String) (s : Portal) : PortalEvent → Prop
  | .rotate caller organizationId id now newId secret =>
    ∀ previous, (s.keys.rows.find? fun k => k.id = id && k.organizationId = organizationId) = some previous →
      previous.revokedAt = none → previous.expiresAt.any (· ≤ now) = false →
      (insertKey lower s.keys (previous.successor now newId secret)).isSome = true →
      ∀ scope ∈ previous.scopes, scope ∈ s.held now caller organizationId
  | _ => True

/-- Requests that were let through ask for what their callers held. -/
def Ready (s : Portal) : Prop :=
  ∀ request p, s.pending request = some p → ∀ scope ∈ dedupeScopes p.key.scopes, scope ∈ p.held

theorem Ready.update {p : Option Pending} {request : ℕ} (h : s.Ready)
    (hpending : t.pending = Function.update s.pending request p)
    (hp : ∀ q, p = some q → ∀ scope ∈ dedupeScopes q.key.scopes, scope ∈ q.held) : t.Ready := by
  intro other q hq
  rw [hpending, Function.update_apply] at hq
  split_ifs at hq
  · exact hp q hq
  · exact h other q hq

theorem step_ready (h : s.Ready) (hstep : s.step lower event = some t) : t.Ready := by
  cases event with
  | change directory =>
    cases hstep
    exact h
  | check request caller organizationId callerName body now =>
    simp only [step] at hstep
    split at hstep
    · cases hstep
      exact h
    · rename_i key hkey
      cases hstep
      refine h.update rfl fun q hq scope hscope => ?_
      cases hq
      rw [authorizeCreate] at hkey
      split at hkey
      · cases hkey
      · split at hkey
        · cases hkey
        · rename_i scopes hscopes
          obtain ⟨rfl, hheld⟩ := mintableFrom_eq_ok.mp hscopes
          cases hkey
          exact hheld scope (mem_dedupeScopes_dedupeScopes.mp hscope)
  | store request id secret =>
    simp only [step] at hstep
    split at hstep
    · cases hstep
    · split at hstep <;>
      · cases hstep
        exact h.update rfl nofun
  | rotate caller organizationId id now newId secret =>
    simp only [step] at hstep
    split at hstep <;>
    · cases hstep
      exact h
  | revoke organizationId id now =>
    simp only [step] at hstep
    split at hstep <;>
    · cases hstep
      exact h

theorem backed_cons {i : Issued} (ht : t.issued = i :: s.issued) : t.Backed ↔ s.Backed ∧ i.Backed := by
  rw [Backed, ht, List.forall_mem_cons, and_comm]
  rfl

theorem successor_isActiveAt {previous : ApiKey} {now : Instant} {newId : Uuid} {secret : Secret} :
    (previous.successor now newId secret).isActiveAt now = true ↔ previous.expiresAt.any (· ≤ now) = false := by
  simp only [ApiKey.isActiveAt, ApiKey.statusAt, ApiKey.successor, Option.isSome_none, Bool.false_eq_true, if_false]
  split_ifs with h <;> simp_all

/-- **A step keeps every token backed** just when it is fit. -/
theorem step_backed_iff (hready : s.Ready) (hstep : s.step lower event = some t) :
    t.Backed ↔ s.Backed ∧ s.Fit lower event := by
  have hsame : t.issued = s.issued → (t.Backed ↔ s.Backed) := fun h => by rw [Backed, Backed, h]
  cases event with
  | change directory =>
    cases hstep
    exact (hsame rfl).trans (and_iff_left trivial).symm
  | check request caller organizationId callerName body now =>
    simp only [step] at hstep
    split at hstep <;>
    · cases hstep
      exact (hsame rfl).trans (and_iff_left trivial).symm
  | revoke organizationId id now =>
    simp only [step] at hstep
    split at hstep <;>
    · cases hstep
      exact (hsame rfl).trans (and_iff_left trivial).symm
  | store request id secret =>
    simp only [step] at hstep
    split at hstep
    · cases hstep
    · rename_i p hp
      split at hstep
      · cases hstep
        exact (hsame rfl).trans (and_iff_left trivial).symm
      · rename_i row keys hcreate
        cases hstep
        rw [backed_cons rfl]
        -- a new key carries what its caller held when it was asked for
        refine and_congr_right fun _ => iff_of_true (fun permission hauthorizes => ?_) trivial
        have hscope := (authorizes_iff.mp hauthorizes).2
        rw [create_scopes hcreate] at hscope
        exact hready request p hp permission hscope
  | rotate caller organizationId id now newId secret =>
    simp only [step] at hstep
    split at hstep
    · rename_i error hrefused
      cases hstep
      refine (hsame rfl).trans (and_iff_left ?_).symm
      intro previous hfind hlive _ hinsert
      obtain ⟨inserted, hinserted⟩ := Option.isSome_iff_exists.mp hinsert
      rw [rotate_eq_ok.mpr ⟨previous, inserted, hfind, hlive, hinserted, rfl, rfl⟩] at hrefused
      cases hrefused
    · rename_i row keys hrotated
      cases hstep
      obtain ⟨previous, inserted, hfind, hlive, hinserted, rfl, rfl⟩ := rotate_eq_ok.mp hrotated
      rw [backed_cons rfl]
      refine and_congr_right fun _ => ?_
      simp only [Issued.Backed, authorizes_iff, successor_isActiveAt, Fit]
      constructor
      · intro hbacked other hother _ hfresh _ scope hscope
        obtain rfl := Option.some.inj (hfind.symm.trans hother)
        exact hbacked scope ⟨hfresh, hscope⟩
      · rintro hfit permission ⟨hfresh, hscope⟩
        exact hfit previous hfind hlive hfresh (by simp [hinserted]) permission hscope

/-- **Over any run**, every live token was backed just when every rotation was fit. -/
theorem run_backed_iff (lower : String → String) (directory : Directory) (keys : Keys) (events : List PortalEvent)
    (t : Portal) (h : Run (step lower) Any { directory, keys } events t) :
    t.Backed ↔ Run (step lower) (Fit lower) { directory, keys } events t := by
  refine h.iff_allowed (I := Backed) (J := Ready) (by simp [Backed]) (fun hrun => ?_) fun x e y hready hstep =>
    step_backed_iff hready hstep
  exact hrun.invariant (by simp [Ready]) fun x e y hx _ hstep => step_ready hx hstep

/-! ### Two callers -/

/-- A role of the platform. -/
def officeRole (id : Uuid) (key : String) : Role where
  id := id
  organizationId := none
  key := key
  name := key
  description := ""
  priority := 100
  inheritsRoleId := none
  inheritPermissions := false
  isSystem := false

/-- A binding of a person to a role everywhere. -/
def officeBinding (id roleId userId : Uuid) : RoleBinding where
  id := id
  roleId := roleId
  subject := .user userId
  scope := .global
  grantedBy := none
  expiresAt := none
  revokedAt := none

/-- An author, and an operator who may only manage keys. -/
def office : Directory where
  db := {
    roles := ⟨[officeRole 1 "author", officeRole 2 "operator"], by decide⟩
    entries := ⟨[⟨1, "content.pages.read", .allow⟩, ⟨2, "developer.keys.manage", .allow⟩], by decide⟩
    bindings := ⟨[officeBinding 1 1 10, officeBinding 2 2 20], by decide⟩ }
  members := []

/-- The author asks for a key. -/
def pagesKey : CreateKeyBody where
  name := "pages"
  scopes := [" content.pages.read "]
  expiresAt := none

/-- The author creates a key, and `caller` rotates it. -/
def rotatedBy (caller : Uuid) : List PortalEvent :=
  [.check 0 10 1 "Author" pagesKey 0, .store 0 100 ⟨"omndev_live_a", "a"⟩, .rotate caller 1 100 5 101
    ⟨"omndev_live_b", "b"⟩]

/-- Whoever rotates a key holds all its scopes. -/
def fitCheck (s : Portal) : PortalEvent → Bool
  | .rotate caller organizationId id now _ _ =>
    (s.keys.rows.find? fun k => k.id = id && k.organizationId = organizationId).all fun previous =>
      previous.scopes.all fun scope => (s.held now caller organizationId).contains scope
  | _ => true

theorem fit_of_fitCheck (s : Portal) (e : PortalEvent) (h : fitCheck s e = true) : s.Fit Text.toLowercase e := by
  cases e with
  | rotate caller organizationId id now newId secret =>
    intro previous hfind _ _ _ scope hscope
    rw [fitCheck, hfind, Option.all_some, List.all_eq_true] at h
    exact List.contains_iff_mem.mp (h scope hscope)
  | _ => trivial

theorem run_backed_iff_author : ∃ t, Run (step Text.toLowercase) Any { directory := office } (rotatedBy 10) t ∧
    t.issued.length = 2 ∧ t.Backed := by
  have hexec : (exec (fun s e => if fitCheck s e then step Text.toLowercase s e else none)
      { directory := office } (rotatedBy 10)).map
      (fun t => t.issued.length) = some 2 := by decide +kernel
  obtain ⟨t, hrun, htokens⟩ := Run.of_exec_of_map fit_of_fitCheck hexec
  have hany : Run (step Text.toLowercase) Any { directory := office } (rotatedBy 10) t := hrun.mono fun _ _ _ => trivial
  exact ⟨t, hany, htokens, (run_backed_iff _ office .empty (rotatedBy 10) t hany).mpr hrun⟩

/-- **The operator gets a token** for pages the operator may not read. -/
theorem operator_reads : ∃ t, Run (step Text.toLowercase) Any { directory := office } (rotatedBy 20) t ∧ ¬ t.Backed := by
  have hexec : (exec (step Text.toLowercase) { directory := office } (rotatedBy 20)).map (fun t => t.issued.any fun i =>
      i.key.authorizes i.now "content.pages.read" && !i.held.contains "content.pages.read") = some
        true := by decide +kernel
  obtain ⟨t, hrun, hissued⟩ := Run.of_exec_map hexec
  refine ⟨t, hrun, fun hbacked => ?_⟩
  obtain ⟨i, hi, htoken⟩ := List.any_eq_true.mp hissued
  rw [Bool.and_eq_true, Bool.not_eq_true', ← Bool.not_eq_true, List.contains_iff_mem] at htoken
  exact htoken.2 (hbacked i hi _ htoken.1)

end Portal

end Omnion.Developer
