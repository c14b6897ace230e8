import Mathlib.Data.List.Perm.Subperm
import Mathlib.Data.Prod.Lex
import Omnion.Core.Text
import Omnion.Library.Run
import Omnion.Library.Sorting
import Omnion.Library.Versions

/-!
# The domains of a site

`add_domain`, `remove_domain` and `set_primary_domain` of `crates/identity/src/sites.rs`,
taken apart into their statements: any number of calls, on any sites, in any order.

## The model

A call is a transaction under `READ COMMITTED`: a statement reads what is committed when it
begins and what its own transaction has written, and writes rows that nobody else has locked,
looking at each again as it is by then. `make_primary` has two statements: the first takes a
snapshot of the flagged rows and clears them one after the other, the second flags the domain
under the unique index on the flag. A call may fail before any statement and is rolled back.

## What is proved

* `run_one_primary` — at any time of a run a site with domains has one primary domain, if in
  this run a removal of the primary domain that promotes nobody leaves no domain behind and
  does not overlap with an addition that leaves the flag to the old primary domain.
* `primary_lost` — a domain added while the site's only domain is being removed is left
  without the flag, and so is a site whose chosen successor is removed in the meantime.

## Honest scope

A host is one that `validate_host` has returned, and sites are not deleted during a run. The
time of a transaction is given with each of its statements. `gen_random_uuid` gives an
identifier no row has had.
-/

namespace Omnion.Identity

open Transition Versions

/-- A row of `site_domains`. -/
structure SiteDomain where
  id : Uuid
  siteId : Uuid
  host : String
  /-- Whether the site prefers this domain for absolute links. -/
  isPrimary : Bool
  createdAt : Instant
  updatedAt : Instant

/-- `site_domains_host_key`. -/
def SiteDomain.hostKey (d : SiteDomain) : Option String := some d.host

/-- `site_domains_primary_key`: the site, where the row is flagged. -/
def SiteDomain.primaryKey (d : SiteDomain) : Option Uuid := if d.isPrimary then some d.siteId else none

/-- What a call asks. -/
inductive DomainRequest where
  /-- `add_domain`. -/
  | add (siteId : Uuid) (host : String) (isPrimary : Bool)
  /-- `remove_domain`. -/
  | remove (siteId domainId : Uuid)
  /-- `set_primary_domain`. -/
  | setPrimary (siteId domainId : Uuid)

/-- Why a call fails. -/
inductive DomainError where
  | siteNotFound
  | domainTaken
  | domainNotFound
  | database

/-- Who calls `make_primary`. -/
inductive DomainCaller where
  | add
  /-- With the primary domain it has removed. -/
  | remove (removed : SiteDomain)
  | setPrimary

/-- How far a call has come: the statement it is about to execute. -/
inductive DomainStage where
  | idle
  | inserting (siteId : Uuid) (host : String) (isPrimary : Bool)
  /-- Does the site have a primary domain? -/
  | looking (siteId domainId : Uuid) (isPrimary : Bool)
  | deleting (siteId domainId : Uuid)
  /-- The removed domain was not primary, or not there: the commit. -/
  | dropped (siteId : Uuid) (removed : Option SiteDomain)
  /-- It was primary: the oldest domain that remains. -/
  | succeeding (siteId : Uuid) (removed : SiteDomain)
  /-- Does the domain belong to the site? -/
  | checking (siteId domainId : Uuid)
  /-- The first update of `make_primary`. -/
  | promoting (caller : DomainCaller) (siteId domainId : Uuid)
  /-- The rows of its snapshot that are left. -/
  | clearing (caller : DomainCaller) (siteId domainId : Uuid) (rest : List Uuid)
  | marking (caller : DomainCaller) (siteId domainId : Uuid)
  /-- The row is read again; `marked` when the second update was made and found it. -/
  | reselecting (caller : DomainCaller) (siteId domainId : Uuid) (marked : Bool)
  | committing (caller : DomainCaller) (siteId : Uuid) (marked : Bool) (answer : Option SiteDomain)
  | done (answer : Except DomainError (Option SiteDomain))

/-- The tables and the calls. -/
structure Domains where
  /-- `sites`. -/
  sites : List Uuid
  /-- The identifiers the rows of `site_domains` have had. -/
  ids : List Uuid
  /-- `site_domains`. -/
  rows : Rows Uuid ℕ SiteDomain
  calls : ℕ → DomainStage

namespace Domains

/-- Call `c` goes on to a stage. -/
def move (s : Domains) (c : ℕ) (p : DomainStage) : Domains := { s with calls := Function.update s.calls c p }

/-- Call `c` writes a row and goes on. -/
def write (s : Domains) (c : ℕ) (id : Uuid) (v : Option SiteDomain) (p : DomainStage) : Domains :=
  { s.move c p with rows := s.rows.write c id v }

/-- Call `c` inserts a row and goes on. -/
def insert (s : Domains) (c : ℕ) (d : SiteDomain) (p : DomainStage) : Domains :=
  { s.write c d.id (some d) p with ids := d.id :: s.ids }

/-- Call `c` commits. -/
def commit (s : Domains) (c : ℕ) (answer : Option SiteDomain) : Domains :=
  { s.move c (.done (.ok answer)) with rows := s.rows.commit c }

/-- Call `c` is rolled back. -/
def abort (s : Domains) (c : ℕ) (error : DomainError) : Domains :=
  { s.move c (.done (.error error)) with rows := s.rows.rollback c }

/-- The domains of a site that call `c` sees. -/
def visible (s : Domains) (c : ℕ) (siteId : Uuid) : List SiteDomain :=
  s.ids.filterMap fun id => ((s.rows id).seen c).filter (·.siteId = siteId)

/-- Call `c` sees a primary domain. -/
def hasPrimary (s : Domains) (c : ℕ) (siteId : Uuid) : Bool := (s.visible c siteId).any (·.isPrimary)

/-- The oldest domain call `c` sees. -/
def oldest (s : Domains) (c : ℕ) (siteId : Uuid) : Option Uuid :=
  (Sorting.sortBy (fun d => toLex (d.createdAt, d.id)) (s.visible c siteId)).head?.map (·.id)

/-- The flagged domains call `c` sees, but for one. -/
def flagged (s : Domains) (c : ℕ) (siteId domainId : Uuid) : List Uuid :=
  ((s.visible c siteId).filter fun d => d.isPrimary && d.id ≠ domainId).map (·.id)

/-- No other row may come to have the key. -/
def vacant {β : Type} [DecidableEq β] (s : Domains) (key : SiteDomain → Option β) (c : ℕ) (b : β) (id : Uuid) : Bool :=
  s.ids.all fun other => other = id || (s.rows other).vacant key c b

/-- Another row that nobody else has locked has the key. -/
def clashes {β : Type} [DecidableEq β] (s : Domains) (key : SiteDomain → Option β) (c : ℕ) (b : β) (id : Uuid) : Bool :=
  s.ids.any fun other => other ≠ id && (s.rows other).free c && (s.rows other).clashes key c b

/-- A call arrives. -/
def receive (s : Domains) (c : ℕ) : DomainRequest → Domains
  | .add siteId host isPrimary =>
    if siteId ∈ s.sites then s.move c (.inserting siteId host isPrimary)
    else s.move c (.done (.error .siteNotFound))
  | .remove siteId domainId => s.move c (.deleting siteId domainId)
  | .setPrimary siteId domainId => s.move c (.checking siteId domainId)

/-- The insert. Where a row with the host is locked it waits. -/
def insertDomain (s : Domains) (c : ℕ) (siteId : Uuid) (host : String) (isPrimary : Bool) (id : Uuid)
    (now : Instant) : Option Domains :=
  if id ∈ s.ids then none
  else if s.vacant SiteDomain.hostKey c host id then
    some (s.insert c { id, siteId, host, isPrimary := false, createdAt := now, updatedAt := now }
      (.looking siteId id isPrimary))
  else if s.clashes SiteDomain.hostKey c host id then some (s.abort c .domainTaken)
  else none

/-- The delete. A locked row makes it wait. -/
def deleteDomain (s : Domains) (c : ℕ) (siteId domainId : Uuid) : Option Domains :=
  match ((s.rows domainId).seen c).filter (·.siteId = siteId) with
  | none => some (s.move c (.dropped siteId none))
  | some removed =>
    if (s.rows domainId).free c then
      some (s.write c domainId none (if removed.isPrimary then .succeeding siteId removed else .dropped siteId removed))
    else none

/-- The first update of `make_primary` comes to a row of its snapshot. A locked row makes it wait, and is
looked at again. -/
def clear (s : Domains) (c : ℕ) (siteId domainId id : Uuid) (now : Instant) (p : DomainStage) : Option Domains :=
  if (s.rows id).free c then
    match ((s.rows id).seen c).filter fun d => d.siteId = siteId && d.isPrimary && id ≠ domainId with
    | none => some (s.move c p)
    | some d => some (s.write c id (some { d with isPrimary := false, updatedAt := now }) p)
  else none

/-- What comes after `make_primary`. -/
def promoted (caller : DomainCaller) (siteId domainId : Uuid) (marked : Bool) : DomainStage :=
  match caller with
  | .remove removed => .committing caller siteId marked removed
  | _ => .reselecting caller siteId domainId marked

/-- The second update of `make_primary`. A locked row, its own or one with the flag, makes it wait. -/
def mark (s : Domains) (c : ℕ) (caller : DomainCaller) (siteId domainId : Uuid) (now : Instant) : Option Domains :=
  match ((s.rows domainId).seen c).filter (·.siteId = siteId) with
  | none => some (s.move c (promoted caller siteId domainId false))
  | some d =>
    if (s.rows domainId).free c then
      if s.vacant SiteDomain.primaryKey c siteId domainId then
        some (s.write c domainId (some { d with isPrimary := true, updatedAt := now })
          (promoted caller siteId domainId true))
      else if s.clashes SiteDomain.primaryKey c siteId domainId then some (s.abort c .database)
      else none
    else none

/-- The next statement of a call. -/
def statement (s : Domains) (c : ℕ) (id : Uuid) (now : Instant) : Option Domains :=
  match s.calls c with
  | .idle | .done _ => none
  | .inserting siteId host isPrimary => s.insertDomain c siteId host isPrimary id now
  | .looking siteId domainId isPrimary =>
    some (s.move c (if isPrimary || !s.hasPrimary c siteId then .promoting .add siteId domainId
      else .reselecting .add siteId domainId false))
  | .deleting siteId domainId => s.deleteDomain c siteId domainId
  | .dropped _ removed => some (s.commit c removed)
  | .succeeding siteId removed =>
    match s.oldest c siteId with
    | none => some (s.move c (.committing (.remove removed) siteId false removed))
    | some next => some (s.move c (.promoting (.remove removed) siteId next))
  | .checking siteId domainId =>
    match (s.rows domainId).committed.filter (·.siteId = siteId) with
    | none => some (s.move c (.done (.error .domainNotFound)))
    | some _ => some (s.move c (.promoting .setPrimary siteId domainId))
  | .promoting caller siteId domainId => some (s.move c (.clearing caller siteId domainId
    (s.flagged c siteId domainId)))
  | .clearing caller siteId domainId [] => some (s.move c (.marking caller siteId domainId))
  | .clearing caller siteId domainId (id :: rest) => s.clear c siteId domainId id now
    (.clearing caller siteId domainId rest)
  | .marking caller siteId domainId => s.mark c caller siteId domainId now
  | .reselecting caller siteId domainId marked =>
    match (s.rows domainId).seen c with
    | none => some (s.abort c .database)
    | some d => some (s.move c (.committing caller siteId marked d))
  | .committing _ _ _ answer => some (s.commit c answer)

end Domains

/-- What happens. -/
inductive DomainEvent where
  | call (c : ℕ) (request : DomainRequest)
  /-- A call executes its next statement; an insert gets the identifier. -/
  | next (c : ℕ) (id : Uuid) (now : Instant)
  /-- A call loses its connection, or is the victim of a deadlock. -/
  | fail (c : ℕ)

/-- The call an event is of. -/
def DomainEvent.of : DomainEvent → ℕ
  | .call c _ | .next c .. | .fail c => c

/-- The call has arrived and has not ended. -/
def DomainStage.active : DomainStage → Bool
  | .idle | .done _ => false
  | _ => true

def domainStep (s : Domains) : DomainEvent → Option Domains
  | .call c request =>
    match s.calls c with
    | .idle => some (s.receive c request)
    | _ => none
  | .next c id now => s.statement c id now
  | .fail c => if (s.calls c).active then some (s.abort c .database) else none

/-! ### What a call relies on -/

namespace DomainStage

/-- The site whose rows the transaction of the call may hold. -/
def site : DomainStage → Option Uuid
  | .idle | .checking .. | .done _ => none
  | .inserting siteId .. | .looking siteId .. | .deleting siteId _ | .dropped siteId _ | .succeeding siteId _
  | .promoting _ siteId _ | .clearing _ siteId .. | .marking _ siteId _ | .reselecting _ siteId ..
  | .committing _ siteId .. => some siteId

/-- An addition that leaves the flag where it is. -/
def Stays (siteId : Uuid) : DomainStage → Prop
  | .reselecting .add site _ false | .committing .add site false _ => site = siteId
  | _ => False

/-- A removal of the primary domain that promotes nobody. -/
def Empties (siteId : Uuid) : DomainStage → Prop
  | .committing (.remove _) site false _ => site = siteId
  | _ => False

end DomainStage

namespace Domains

variable {s t : Domains} {c d : ℕ} {p : DomainStage} {siteId domainId id : Uuid} {caller : DomainCaller}

/-- The domains of a site that everybody reads. -/
def domains (s : Domains) (siteId : Uuid) : List Uuid :=
  s.ids.filter fun id => (s.rows id).committed.any (·.siteId = siteId)

/-- The primary ones. -/
def primaries (s : Domains) (siteId : Uuid) : List Uuid :=
  s.ids.filter fun id => (s.rows id).committed.any fun d => d.siteId = siteId && d.isPrimary

/-- **The promise**: a site with domains has exactly one primary domain. -/
def OnePrimary (s : Domains) (siteId : Uuid) : Prop :=
  s.domains siteId ≠ [] → (s.primaries siteId).length = 1

/-- The site has a domain. -/
def Populated (s : Domains) (siteId : Uuid) : Prop := ∃ id d, (s.rows id).committed = some d ∧ d.siteId = siteId

def HasPrimary (s : Domains) (siteId : Uuid) : Prop :=
  ∃ id d, (s.rows id).committed = some d ∧ d.primaryKey = some siteId

/-- Call `c` has written nothing. -/
def HoldsNothing (s : Domains) (c : ℕ) : Prop := ∀ id, (s.rows id).mine c = false

/-- All call `c` has written is new and not primary. -/
def Fresh (s : Domains) (c : ℕ) : Prop :=
  ∀ id own, (s.rows id).held = some (c, own) →
    (s.rows id).committed = none ∧ ∀ d, own = some d → d.primaryKey = none

/-- All call `c` has written is the deletion of a domain that was not primary. -/
def Drops (s : Domains) (c : ℕ) : Prop :=
  ∀ id own, (s.rows id).held = some (c, own) →
    own = none ∧ ∀ d, (s.rows id).committed = some d → d.primaryKey = none

/-- Call `c` has written the domain, which is of the site. -/
def Mine (s : Domains) (c : ℕ) (siteId domainId : Uuid) : Prop :=
  ∃ d, (s.rows domainId).held = some (c, some d) ∧ d.siteId = siteId

/-- Call `c` has written the row of the site's primary domain. -/
def Removing (s : Domains) (c : ℕ) (siteId : Uuid) : Prop :=
  ∃ id own d, (s.rows id).held = some (c, own) ∧ (s.rows id).committed = some d ∧ d.primaryKey = some siteId

/-- Call `c` has flagged a domain of the site. -/
def Promoted (s : Domains) (c : ℕ) (siteId : Uuid) : Prop :=
  ∃ id d, (s.rows id).held = some (c, some d) ∧ d.primaryKey = some siteId

/-- Call `c` sees no domain of the site. -/
def NoneLeft (s : Domains) (c : ℕ) (siteId : Uuid) : Prop :=
  ∀ id d, (s.rows id).seen c = some d → d.siteId ≠ siteId

/-- The row is deleted for good. -/
def Gone (s : Domains) (id : Uuid) : Prop := id ∈ s.ids ∧ s.rows id = {}

/-- The domain was of the site when it was looked up, and call `c` has not written it. -/
structure Asked (s : Domains) (c : ℕ) (siteId domainId : Uuid) : Prop where
  listed : domainId ∈ s.ids
  deleted : (s.rows domainId).committed = none → (s.rows domainId).held = none
  ofSite : ∀ d, (s.rows domainId).committed = some d → d.siteId = siteId
  notMine : (s.rows domainId).mine c = false

/-- What a caller of `make_primary` relies on. -/
def CallerOk (s : Domains) (c : ℕ) (siteId domainId : Uuid) : DomainCaller → Prop
  | .add => s.Mine c siteId domainId
  | .remove _ => s.Removing c siteId
  | .setPrimary => s.Asked c siteId domainId

/-- What a call relies on that has not flagged its domain. -/
def Unmarked (s : Domains) (c : ℕ) (siteId : Uuid) : DomainCaller → Prop
  | .add => s.Fresh c ∧ s.HasPrimary siteId
  | .remove _ => s.Removing c siteId ∧ s.NoneLeft c siteId
  | .setPrimary => False

/-- What call `c` relies on at a stage. -/
def StageOk (s : Domains) (c : ℕ) : DomainStage → Prop
  | .idle | .checking .. | .done _ => True
  | .inserting .. | .deleting .. => s.HoldsNothing c
  | .looking siteId domainId _ => s.Fresh c ∧ s.Mine c siteId domainId
  | .dropped .. => s.Drops c
  | .succeeding siteId _ => s.Removing c siteId
  | .promoting caller siteId domainId | .clearing caller siteId domainId _ | .marking caller siteId domainId =>
    s.CallerOk c siteId domainId caller
  | .reselecting _ siteId _ true | .committing _ siteId true _ => s.Promoted c siteId
  | .reselecting .add siteId _ false => s.Unmarked c siteId .add
  | .reselecting (.remove _) _ _ false => False
  | .reselecting .setPrimary _ domainId false => s.Gone domainId
  | .committing caller siteId false _ => s.Unmarked c siteId caller

/-- The versions of a row are of the site. -/
def OfSite (siteId : Uuid) (x : Row ℕ SiteDomain) (own : Option SiteDomain) : Prop :=
  (∀ d, x.committed = some d → d.siteId = siteId) ∧ ∀ d, own = some d → d.siteId = siteId

/-- **The invariant**. -/
structure Inv (s : Domains) : Prop where
  nodup : s.ids.Nodup
  listed : ∀ id, id ∉ s.ids → s.rows id = {}
  unique : Unique SiteDomain.primaryKey s.rows
  distinct : Distinct SiteDomain.primaryKey s.rows
  sound : ∀ siteId, s.Populated siteId → s.HasPrimary siteId
  held : ∀ id c own, (s.rows id).held = some (c, own) →
    ∃ siteId, (s.calls c).site = some siteId ∧ OfSite siteId (s.rows id) own
  stages : ∀ c, s.StageOk c (s.calls c)
  apart : ∀ c d siteId, (s.calls c).Stays siteId → ¬ (s.calls d).Empties siteId

/-- A removal of the primary domain may promote nobody: it leaves no domain behind, and no addition leaves the
flag to the domain removed. -/
def Alone (s : Domains) (c : ℕ) (siteId : Uuid) : Prop :=
  s.NoneLeft c siteId ∧ ∀ d, ¬ (s.calls d).Stays siteId

/-- **The steps allowed**: a removal of the primary domain that finds no successor, or finds that it is gone,
is alone, and an addition leaves the flag to the primary domain only while no removal that promotes nobody has
removed it. -/
def Careful (s : Domains) : DomainEvent → Prop
  | .next c _ _ =>
    match s.calls c with
    | .looking siteId _ false => s.hasPrimary c siteId = true → ∀ d, ¬ (s.calls d).Empties siteId
    | .succeeding siteId _ => s.oldest c siteId = none → s.Alone c siteId
    | .marking (.remove _) siteId domainId =>
      ((s.rows domainId).seen c).filter (·.siteId = siteId) = none → s.Alone c siteId
    | _ => True
  | _ => True

/-! ### Steps of other calls -/

@[simp] theorem move_self : (s.move c p).calls c = p := Function.update_self ..

theorem move_of_ne (h : d ≠ c) : (s.move c p).calls d = s.calls d := Function.update_of_ne h ..

theorem primaryKey_eq_some {x : SiteDomain} : x.primaryKey = some siteId ↔ x.isPrimary = true ∧ x.siteId = siteId := by
  simp only [SiteDomain.primaryKey]
  split_ifs with h <;> simp [h]

theorem mem_visible {x : SiteDomain} :
    x ∈ s.visible c siteId ↔ ∃ id ∈ s.ids, (s.rows id).seen c = some x ∧ x.siteId = siteId := by
  simp [visible, Option.filter_eq_some_iff]

/-- What a step of call `c` does to the rows, as the other calls see it. -/
structure Shift (c : ℕ) (s t : Domains) : Prop where
  untouched : Untouched c s.rows t.rows
  ids : ∀ id ∈ s.ids, id ∈ t.ids
  gone : ∀ id ∈ s.ids, s.rows id = {} → t.rows id = {}
  deleted : ∀ id ∈ s.ids, ((s.rows id).committed = none → (s.rows id).held = none) →
    (t.rows id).committed = none → (t.rows id).held = none
  ofSite : ∀ id ∈ s.ids, ((s.rows id).committed = none → (s.rows id).held = none) →
    ∀ x, (t.rows id).committed = some x → ∃ y, (s.rows id).committed = some y ∧ y.siteId = x.siteId

section Other

variable (h : Shift c s t) (hd : d ≠ c)
include h hd

theorem HoldsNothing.of_shift (hs : s.HoldsNothing d) : t.HoldsNothing d := by
  intro id
  by_contra hmine
  obtain ⟨own, hheld⟩ := Row.mine_iff.mp (by simpa using hmine)
  rw [h.untouched d hd id own (.inr hheld)] at hmine
  exact hmine (hs id)

theorem Fresh.of_shift (hs : s.Fresh d) : t.Fresh d := by
  intro id own hheld
  have hrow := h.untouched d hd id own (.inr hheld)
  rw [hrow] at hheld ⊢
  exact hs id own hheld

theorem Drops.of_shift (hs : s.Drops d) : t.Drops d := by
  intro id own hheld
  have hrow := h.untouched d hd id own (.inr hheld)
  rw [hrow] at hheld ⊢
  exact hs id own hheld

theorem Mine.of_shift (hs : s.Mine d siteId domainId) : t.Mine d siteId domainId := by
  obtain ⟨x, hheld, hsite⟩ := hs
  exact ⟨x, by rw [h.untouched d hd _ _ (.inl hheld), hheld], hsite⟩

theorem Removing.of_shift (hs : s.Removing d siteId) : t.Removing d siteId := by
  obtain ⟨id, own, x, hheld, hcommitted, hkey⟩ := hs
  have hrow := h.untouched d hd id own (.inl hheld)
  exact ⟨id, own, x, by rw [hrow, hheld], by rw [hrow, hcommitted], hkey⟩

theorem Promoted.of_shift (hs : s.Promoted d siteId) : t.Promoted d siteId := by
  obtain ⟨id, x, hheld, hkey⟩ := hs
  exact ⟨id, x, by rw [h.untouched d hd _ _ (.inl hheld), hheld], hkey⟩

theorem Asked.of_shift (hs : s.Asked d siteId domainId) : t.Asked d siteId domainId := by
  refine ⟨h.ids _ hs.listed, h.deleted _ hs.listed hs.deleted, fun x hx => ?_, ?_⟩
  · obtain ⟨y, hy, hsite⟩ := h.ofSite _ hs.listed hs.deleted x hx
    exact hsite ▸ hs.ofSite y hy
  · by_contra hmine
    obtain ⟨own, hheld⟩ := Row.mine_iff.mp (by simpa using hmine)
    rw [h.untouched d hd _ own (.inr hheld)] at hmine
    exact hmine hs.notMine

theorem CallerOk.of_shift (hs : s.CallerOk d siteId domainId caller) : t.CallerOk d siteId domainId caller := by
  cases caller with
  | add => exact Mine.of_shift h hd hs
  | remove => exact Removing.of_shift h hd hs
  | setPrimary => exact Asked.of_shift h hd hs

/-- **The others**: what a call relies on survives a step of another call that takes neither the primary domain
from an addition nor brings a domain to a removal. -/
theorem StageOk.of_shift (hprimary : ∀ siteId, p.Stays siteId → s.HasPrimary siteId → t.HasPrimary siteId)
    (hleft : ∀ siteId, p.Empties siteId → s.Removing d siteId → s.NoneLeft d siteId → t.NoneLeft d siteId)
    (hs : s.StageOk d p) : t.StageOk d p := by
  cases p with
  | idle | checking | done => trivial
  | inserting | deleting => exact HoldsNothing.of_shift h hd hs
  | looking => exact ⟨Fresh.of_shift h hd hs.1, Mine.of_shift h hd hs.2⟩
  | dropped => exact Drops.of_shift h hd hs
  | succeeding => exact Removing.of_shift h hd hs
  | promoting | clearing | marking => exact CallerOk.of_shift h hd hs
  | reselecting caller site domain marked =>
    cases marked with
    | true => exact Promoted.of_shift h hd hs
    | false =>
      cases caller with
      | add => exact ⟨Fresh.of_shift h hd hs.1, hprimary site rfl hs.2⟩
      | remove => exact hs
      | setPrimary => exact ⟨h.ids _ hs.1, h.gone _ hs.1 hs.2⟩
  | committing caller site marked answer =>
    cases marked with
    | true => exact Promoted.of_shift h hd hs
    | false =>
      cases caller with
      | add => exact ⟨Fresh.of_shift h hd hs.1, hprimary site rfl hs.2⟩
      | remove => exact ⟨Removing.of_shift h hd hs.1, hleft site rfl hs.1 hs.2⟩
      | setPrimary => exact hs

end Other

theorem shift_same (hrows : t.rows = s.rows) (hids : t.ids = s.ids) : Shift c s t where
  untouched := hrows ▸ .refl
  ids := fun _ hid => hids ▸ hid
  gone := fun _ _ hgone => by rwa [hrows]
  deleted := fun _ _ hdeleted => by rwa [hrows]
  ofSite := fun _ _ _ x hx => ⟨x, by rwa [hrows] at hx, rfl⟩

theorem shift_write {v : Option SiteDomain} (hrows : t.rows = s.rows.write c id v) (hids : ∀ k ∈ s.ids, k ∈ t.ids)
    (hfree : (s.rows id).free c = true) (hlive : id ∉ s.ids ∨ (s.rows id).seen c ≠ none) : Shift c s t := by
  have hseen : id ∈ s.ids → (s.rows id).seen c ≠ none := fun hid => hlive.resolve_left (absurd hid)
  refine ⟨hrows ▸ untouched_write hfree, hids, fun k hk hgone => ?_, fun k hk hdeleted hnone => ?_,
    fun k hk _ x hx => ?_⟩
  · rw [hrows, Rows.write_of_ne, hgone]
    rintro rfl
    exact hseen hk (by rw [hgone]; rfl)
  · rw [hrows, Rows.committed_write] at hnone
    rw [hrows, Rows.write_of_ne, hdeleted hnone]
    rintro rfl
    exact hseen hk (by simp [Row.seen, hdeleted hnone, hnone])
  · rw [hrows, Rows.committed_write] at hx
    exact ⟨x, hx, rfl⟩

theorem shift_abort {error : DomainError} : Shift c s (s.abort c error) where
  untouched := untouched_rollback
  ids := fun _ hid => hid
  gone := fun k _ hgone => Rows.rollback_of_empty hgone
  deleted := fun k _ hdeleted hnone => by
    have hheld := hdeleted (by simpa [abort] using hnone)
    simp [abort, Rows.rollback, Row.mine, hheld]
  ofSite := fun k _ _ x hx => ⟨x, by simpa [abort] using hx, rfl⟩

theorem shift_commit {answer : Option SiteDomain}
    (hheld : ∀ id own, (s.rows id).held = some (c, own) → ∃ siteId, OfSite siteId (s.rows id) own) :
    Shift c s (s.commit c answer) := by
  refine ⟨untouched_commit, fun _ hid => hid, fun k _ hgone => ?_, fun k _ hdeleted hnone => ?_,
    fun k _ hdeleted x hx => ?_⟩
  · exact Rows.commit_of_empty hgone
  · rw [Option.eq_none_iff_forall_ne_some]
    rintro ⟨j, own⟩ hj
    obtain ⟨hj, hne⟩ := Rows.held_commit.mp hj
    have hseen : (s.rows k).seen c = none := by simpa [commit] using hnone
    rw [Row.seen_of_not_mine (Row.not_mine_of_held hj hne)] at hseen
    simp [hdeleted hseen] at hj
  · have hseen : (s.rows k).seen c = some x := by simpa [commit] using hx
    rcases (s.rows k).seen_cases c with hmine | ⟨-, hcommitted⟩
    · obtain ⟨siteId, hof, hown⟩ := hheld k _ hmine
      cases hold : (s.rows k).committed with
      | none => simp [hdeleted hold] at hmine
      | some y => exact ⟨y, rfl, (hof y hold).trans (hown x hseen).symm⟩
    · exact ⟨x, hcommitted ▸ hseen, rfl⟩

theorem stays_not_empties (h : p.Stays siteId) : ¬ p.Empties siteId := by
  intro hempties
  cases p with
  | committing caller site marked answer => cases caller <;> cases marked <;> first | exact h | exact hempties
  | _ => exact hempties

/-- **One step**: a call goes on, and the others rely on what they relied on. -/
theorem Inv.of_shift (h : s.Inv) (hshift : Shift c s t) (hcalls : ∀ d, d ≠ c → t.calls d = s.calls d)
    (hnodup : t.ids.Nodup) (hlisted : ∀ id, id ∉ t.ids → t.rows id = {}) (hunique : Unique SiteDomain.primaryKey t.rows)
    (hdistinct : Distinct SiteDomain.primaryKey t.rows) (hsound : ∀ siteId, t.Populated siteId → t.HasPrimary siteId)
    (hheld : ∀ id own, (t.rows id).held = some (c, own) →
      ∃ siteId, (t.calls c).site = some siteId ∧ OfSite siteId (t.rows id) own)
    (hstage : t.StageOk c (t.calls c))
    (hprimary : ∀ siteId, ¬ (s.calls c).Empties siteId → s.HasPrimary siteId → t.HasPrimary siteId)
    (hleft : ∀ d siteId, d ≠ c → ¬ (s.calls c).Stays siteId → s.Removing d siteId → s.NoneLeft d siteId →
      t.NoneLeft d siteId)
    (hstays : ∀ siteId, (t.calls c).Stays siteId → (s.calls c).Stays siteId ∨ ∀ d, ¬ (s.calls d).Empties siteId)
    (hempties : ∀ siteId, (t.calls c).Empties siteId → ∀ d, ¬ (s.calls d).Stays siteId) : t.Inv := by
  refine ⟨hnodup, hlisted, hunique, hdistinct, hsound, fun id d own hid => ?_, fun d => ?_, fun a b siteId ha hb => ?_⟩
  · by_cases hd : d = c
    · subst hd
      exact hheld id own hid
    · have hrow := hshift.untouched d hd id own (.inr hid)
      rw [hrow] at hid ⊢
      rw [hcalls d hd]
      exact h.held id d own hid
  · by_cases hd : d = c
    · subst hd
      exact hstage
    · rw [hcalls d hd]
      exact StageOk.of_shift hshift hd (fun siteId hd' => hprimary siteId (h.apart d c siteId hd'))
        (fun siteId hd' => hleft d siteId hd fun hc => h.apart c d siteId hc hd') (h.stages d)
  · by_cases hac : a = c <;> by_cases hbc : b = c
    · subst hac hbc
      exact stays_not_empties ha hb
    · subst hac
      rw [hcalls b hbc] at hb
      exact (hstays siteId ha).elim (fun hold => h.apart a b siteId hold hb) fun hnone => hnone b hb
    · subst hbc
      rw [hcalls a hac] at ha
      exact hempties siteId hb a ha
    · rw [hcalls a hac] at ha
      rw [hcalls b hbc] at hb
      exact h.apart a b siteId ha hb

/-- A call that does not commit changes nothing that everybody reads. -/
theorem Inv.of_committed (h : s.Inv) (hshift : Shift c s t) (hcalls : ∀ d, d ≠ c → t.calls d = s.calls d)
    (hcommitted : ∀ k, (t.rows k).committed = (s.rows k).committed) (hnodup : t.ids.Nodup)
    (hlisted : ∀ id, id ∉ t.ids → t.rows id = {}) (hunique : Unique SiteDomain.primaryKey t.rows)
    (hheld : ∀ id own, (t.rows id).held = some (c, own) →
      ∃ siteId, (t.calls c).site = some siteId ∧ OfSite siteId (t.rows id) own)
    (hstage : t.StageOk c (t.calls c))
    (hstays : ∀ siteId, (t.calls c).Stays siteId → (s.calls c).Stays siteId ∨ ∀ d, ¬ (s.calls d).Empties siteId)
    (hempties : ∀ siteId, (t.calls c).Empties siteId → ∀ d, ¬ (s.calls d).Stays siteId) : t.Inv := by
  have hprimary : ∀ site, s.HasPrimary site → t.HasPrimary site := by
    rintro site ⟨l, z, hz, hkey⟩
    exact ⟨l, z, by rw [hcommitted, hz], hkey⟩
  refine h.of_shift hshift hcalls hnodup hlisted hunique ?_ (fun site hpop => ?_) hheld hstage
    (fun site _ => hprimary site)
    (fun d site hd _ _ hs k y hy => ?_) hstays hempties
  · intro k l a b key hk hl
    rw [hcommitted] at hk hl
    exact h.distinct k l a b key hk hl
  · obtain ⟨k, y, hy, hysite⟩ := hpop
    rw [hcommitted] at hy
    exact hprimary site (h.sound site ⟨k, y, hy, hysite⟩)
  · rw [hshift.untouched.seen hd (hcommitted k)] at hy
    exact hs k y hy

theorem stageOk_move {q : DomainStage} (hs : s.StageOk c p) : (s.move d q).StageOk c p := by
  cases p with
  | promoting caller | clearing caller | marking caller =>
    cases caller with
    | setPrimary => exact ⟨hs.listed, hs.deleted, hs.ofSite, hs.notMine⟩
    | _ => exact hs
  | reselecting caller _ _ marked => cases marked <;> cases caller <;> exact hs
  | committing caller _ marked => cases marked <;> cases caller <;> exact hs
  | _ => exact hs

theorem Inv.move (h : s.Inv) (hsite : ∀ siteId, (s.calls c).site = some siteId → p.site = some siteId)
    (hstage : s.StageOk c p)
    (hstays : ∀ siteId, p.Stays siteId → (s.calls c).Stays siteId ∨ ∀ d, ¬ (s.calls d).Empties siteId)
    (hempties : ∀ siteId, p.Empties siteId → ∀ d, ¬ (s.calls d).Stays siteId) : (s.move c p).Inv := by
  refine h.of_committed (shift_same rfl rfl) (fun d hd => move_of_ne hd) (fun _ => rfl) h.nodup h.listed h.unique
    (fun id own hid => ?_) ?_ ?_ ?_
  · obtain ⟨siteId, hc, hof⟩ := h.held id c own hid
    exact ⟨siteId, by rw [move_self]; exact hsite siteId hc, hof⟩
  · rw [move_self]
    exact stageOk_move hstage
  · rw [move_self]
    exact hstays
  · rw [move_self]
    exact hempties

/-- A call writes a row that is new or that it sees. -/
theorem Inv.of_write {v : Option SiteDomain} (h : s.Inv) (hrows : t.rows = s.rows.write c id v)
    (hcalls : ∀ d, d ≠ c → t.calls d = s.calls d) (hids : ∀ k ∈ s.ids, k ∈ t.ids) (hid : id ∈ t.ids)
    (hnodup : t.ids.Nodup) (hfree : (s.rows id).free c = true) (hlive : id ∉ s.ids ∨ (s.rows id).seen c ≠ none)
    (hvacant : ∀ w b, v = some w → w.primaryKey = some b →
      ∀ l, l ≠ id → (s.rows l).vacant SiteDomain.primaryKey c b = true)
    (hsite : (s.calls c).site = some siteId) (htsite : (t.calls c).site = some siteId)
    (hof : OfSite siteId (s.rows id) v) (hstage : t.StageOk c (t.calls c))
    (hstays : ∀ site, ¬ (t.calls c).Stays site) (hempties : ∀ site, ¬ (t.calls c).Empties site) : t.Inv := by
  have hshift : Shift c s t := shift_write hrows hids hfree hlive
  have hcommitted : ∀ k, (t.rows k).committed = (s.rows k).committed := fun k => by rw [hrows, Rows.committed_write]
  have hother : ∀ k, k ≠ id → t.rows k = s.rows k := fun k hk => by rw [hrows, Rows.write_of_ne hk]
  refine h.of_committed hshift hcalls hcommitted hnodup (fun k hk => ?_) (hrows ▸ h.unique.write hfree hvacant)
    (fun k own hk => ?_) hstage (fun site hs => absurd hs (hstays site)) (fun site hs => absurd hs (hempties site))
  · rw [hother k fun hkid => hk (hkid ▸ hid)]
    exact h.listed k fun hks => hk (hids k hks)
  · refine ⟨siteId, htsite, ?_⟩
    by_cases hkid : k = id
    · subst hkid
      rw [hrows, Rows.write_self] at hk
      obtain rfl : v = own := congrArg Prod.snd (Option.some.inj hk)
      exact ⟨fun y hy => hof.1 y (hcommitted k ▸ hy), hof.2⟩
    · rw [hother k hkid] at hk ⊢
      obtain ⟨site, hsite', hof'⟩ := h.held k c own hk
      obtain rfl := Option.some.inj (hsite'.symm.trans hsite)
      exact hof'

/-- What a call sees of a row of its site is of the site, and so is what is committed. -/
theorem Inv.ofSite {x : SiteDomain} (h : s.Inv) (hsite : (s.calls c).site = some siteId)
    (hx : (s.rows id).seen c = some x) (hxsite : x.siteId = siteId) :
    ∀ y, (s.rows id).committed = some y → y.siteId = siteId := by
  intro y hy
  rcases (s.rows id).seen_cases c with hmine | ⟨-, hseen⟩
  · obtain ⟨site, hsite', hof⟩ := h.held id c _ hmine
    obtain rfl := Option.some.inj (hsite'.symm.trans hsite)
    exact hof.1 y hy
  · rw [hseen, hy] at hx
    exact Option.some.inj hx ▸ hxsite

theorem Inv.mem_ids {x : SiteDomain} (h : s.Inv) (hx : (s.rows id).seen c = some x) : id ∈ s.ids :=
  Rows.mem_of_seen h.listed hx

theorem Inv.write {v : Option SiteDomain} {x : SiteDomain} (h : s.Inv) (hfree : (s.rows id).free c = true)
    (hx : (s.rows id).seen c = some x) (hxsite : x.siteId = siteId)
    (hvacant : ∀ w b, v = some w → w.primaryKey = some b →
      ∀ l, l ≠ id → (s.rows l).vacant SiteDomain.primaryKey c b = true)
    (hsite : (s.calls c).site = some siteId) (hp : p.site = some siteId) (hv : ∀ w, v = some w → w.siteId = siteId)
    (hstage : (s.write c id v p).StageOk c p) (hstays : ∀ site, ¬ p.Stays site) (hempties : ∀ site, ¬ p.Empties site) :
    (s.write c id v p).Inv := by
  have hcalls : (s.write c id v p).calls c = p := move_self
  refine h.of_write rfl (fun d hd => move_of_ne hd) (fun _ hk => hk) (h.mem_ids hx) h.nodup hfree
    (.inr (by simp [hx])) hvacant
    hsite ?_ ⟨h.ofSite hsite hx hxsite, hv⟩ ?_ ?_ ?_ <;> rw [hcalls]
  exacts [hp, hstage, hstays, hempties]

theorem Inv.holdsNothing (h : s.Inv) (hsite : (s.calls c).site = none) : s.HoldsNothing c := by
  intro id
  by_contra hmine
  obtain ⟨own, hheld⟩ := Row.mine_iff.mp (by simpa using hmine)
  obtain ⟨siteId, hc, -⟩ := h.held id c own hheld
  rw [hsite] at hc
  cases hc

/-- A call inserts a row. -/
theorem Inv.insert {x : SiteDomain} {isPrimary : Bool} (h : s.Inv) (hnothing : s.HoldsNothing c)
    (hsite : (s.calls c).site = some siteId) (hid : x.id ∉ s.ids) (hxsite : x.siteId = siteId)
    (hx : x.isPrimary = false) : (s.insert c x (.looking siteId x.id isPrimary)).Inv := by
  have hrow := h.listed x.id hid
  have hcalls : (s.insert c x (.looking siteId x.id isPrimary)).calls c = .looking siteId x.id isPrimary := move_self
  have hkey : x.primaryKey = none := by simp [SiteDomain.primaryKey, hx]
  have hself : (s.insert c x (.looking siteId x.id isPrimary)).rows x.id = { held := some (c, some x) } := by
    rw [show (s.insert c x _).rows x.id = { s.rows x.id with held := some (c, some x) } from Rows.write_self, hrow]
  have hrows : (s.insert c x (.looking siteId x.id isPrimary)).rows = s.rows.write c x.id (some x) := rfl
  refine h.of_write hrows (fun d hd => move_of_ne hd) (fun k hk => List.mem_cons_of_mem _ hk) List.mem_cons_self
    (List.nodup_cons.mpr ⟨hid, h.nodup⟩) (by rw [hrow]; rfl) (.inl hid) (fun w b hw hb => ?_)
    hsite (by rw [hcalls]; rfl) ⟨fun y hy => ?_, fun y hy => ?_⟩ ?_ ?_ ?_
  · cases hw
    rw [hkey] at hb
    cases hb
  · rw [hrow] at hy
    cases hy
  · exact Option.some.inj hy ▸ hxsite
  · rw [hcalls]
    refine ⟨fun k own hk => ?_, x, by rw [hself], hxsite⟩
    by_cases hkid : k = x.id
    · subst hkid
      rw [hself] at hk ⊢
      exact ⟨rfl, fun y hy => by rw [← Option.some.inj ((congrArg Prod.snd (Option.some.inj hk)).trans hy), hkey]⟩
    · rw [show (s.insert c x _).rows k = s.rows k from Rows.write_of_ne hkid] at hk
      have hmine := hnothing k
      rw [Row.mine_of_held hk] at hmine
      cases hmine
  · rw [hcalls]
    exact fun _ hs => hs
  · rw [hcalls]
    exact fun _ hs => hs

theorem Inv.abort (h : s.Inv) (error : DomainError) : (s.abort c error).Inv := by
  have hcommitted : ∀ k, ((s.abort c error).rows k).committed = (s.rows k).committed := fun k => Rows.committed_rollback
  have hcalls : (s.abort c error).calls c = .done (.error error) := move_self
  refine h.of_committed shift_abort (fun d hd => move_of_ne hd) hcommitted h.nodup (fun k hk => ?_) h.unique.rollback
    (fun k own hk => ?_) ?_ ?_ ?_
  · exact Rows.rollback_of_empty (h.listed k hk)
  · exact absurd rfl (Rows.held_rollback.mp hk).2
  · rw [hcalls]
    trivial
  · rw [hcalls]
    exact fun _ hs => hs.elim
  · rw [hcalls]
    exact fun _ hs => hs.elim

/-! ### The commit -/

/-- What a call that commits has done. -/
inductive Ends (s : Domains) (c : ℕ) (siteId : Uuid) : Prop where
  | drops (h : s.Drops c)
  | promotes (h : s.Promoted c siteId)
  | stays (h : (s.calls c).Stays siteId) (hfresh : s.Fresh c) (hprimary : s.HasPrimary siteId)
  | empties (h : (s.calls c).Empties siteId) (hleft : s.NoneLeft c siteId)

theorem Inv.noneLeft (h : s.Inv) (hempties : (s.calls c).Empties siteId) : s.NoneLeft c siteId := by
  have hstage := h.stages c
  generalize s.calls c = p at hempties hstage
  cases p with
  | committing caller site marked answer =>
    cases marked with
    | true => cases caller <;> exact hempties.elim
    | false =>
      cases caller with
      | remove => exact (show site = siteId from hempties) ▸ hstage.2
      | _ => exact hempties.elim
  | _ => exact hempties.elim

/-- A row call `c` has written is of its site. -/
theorem Inv.ofSite_held {own : Option SiteDomain} (h : s.Inv) (hsite : (s.calls c).site = some siteId)
    (hheld : (s.rows id).held = some (c, own)) : OfSite siteId (s.rows id) own := by
  obtain ⟨site, hsite', hof⟩ := h.held id c own hheld
  obtain rfl := Option.some.inj (hsite'.symm.trans hsite)
  exact hof

section Commit

variable {answer : Option SiteDomain} (h : s.Inv) (hsite : (s.calls c).site = some siteId) (hends : s.Ends c siteId)
include h hsite hends

theorem Inv.hasPrimary_commit {site : Uuid} (hempties : ¬ (s.calls c).Empties site) (hprimary : s.HasPrimary site) :
    (s.commit c answer).HasPrimary site := by
  obtain ⟨l, z, hz, hkey⟩ := hprimary
  rcases (s.rows l).seen_cases c with hheld | ⟨-, hseen⟩
  · obtain rfl : siteId = site :=
      ((h.ofSite_held hsite hheld).1 z hz).symm.trans (primaryKey_eq_some.mp hkey).2
    cases hends with
    | drops hdrops =>
      rw [(hdrops l _ hheld).2 z hz] at hkey
      cases hkey
    | promotes hpromoted =>
      obtain ⟨k, x, hx, hxkey⟩ := hpromoted
      exact ⟨k, x, by simpa [Domains.commit] using Row.seen_of_held hx, hxkey⟩
    | stays _ hfresh _ =>
      rw [(hfresh l _ hheld).1] at hz
      cases hz
    | empties hempties' _ => exact absurd hempties' hempties
  · exact ⟨l, z, by simpa [Domains.commit, hseen] using hz, hkey⟩

theorem Inv.sound_commit {site : Uuid} (hpop : (s.commit c answer).Populated site) :
    (s.commit c answer).HasPrimary site := by
  obtain ⟨k, y, hy, hysite⟩ := hpop
  have hseen : (s.rows k).seen c = some y := by simpa [Domains.commit] using hy
  have hempties : ¬ (s.calls c).Empties site := fun hempties => h.noneLeft hempties k y hseen hysite
  rcases (s.rows k).seen_cases c with hheld | ⟨-, hcommitted⟩
  · have hof := h.ofSite_held hsite hheld
    obtain rfl : siteId = site := (hof.2 y hseen).symm.trans hysite
    cases hends with
    | drops hdrops =>
      rw [(hdrops k _ hheld).1] at hseen
      cases hseen
    | promotes hpromoted =>
      obtain ⟨l, x, hx, hxkey⟩ := hpromoted
      exact ⟨l, x, by simpa [Domains.commit] using Row.seen_of_held hx, hxkey⟩
    | stays hstays hfresh hprimary =>
      exact h.hasPrimary_commit hsite (.stays hstays hfresh hprimary) hempties hprimary
    | empties hempties' _ => exact absurd hempties' hempties
  · exact h.hasPrimary_commit hsite hends hempties (h.sound site ⟨k, y, hcommitted ▸ hseen, hysite⟩)

/-- A commit brings no domain to a site whose primary domain another call is removing: the index keeps the flag
from anybody else. -/
theorem Inv.noneLeft_commit {site : Uuid} (hd : d ≠ c) (hstays : ¬ (s.calls c).Stays site)
    (hremoving : s.Removing d site) (hleft : s.NoneLeft d site) : (s.commit c answer).NoneLeft d site := by
  intro k y hy hysite
  have hseen : (s.rows k).seen d = some y ∨ ∃ own, (s.rows k).held = some (c, own) ∧ own = some y := by
    rcases ((s.commit c answer).rows k).seen_cases d with hheld | ⟨hmine, hcommitted⟩
    · rw [hy] at hheld
      exact .inl (Row.seen_of_held (Rows.held_commit.mp hheld).1)
    · rw [hcommitted] at hy
      have hy : (s.rows k).seen c = some y := by simpa [Domains.commit] using hy
      rcases (s.rows k).seen_cases c with hheld | ⟨-, hcommitted'⟩
      · exact .inr ⟨_, hheld, hy⟩
      · rcases (s.rows k).seen_cases d with hheld | ⟨-, hseen⟩
        · have hheld' := Rows.held_commit.mpr ⟨hheld, hd⟩
          rw [show ((s.commit c answer).rows k).mine d = true from Row.mine_of_held hheld'] at hmine
          cases hmine
        · exact .inl (by rw [hseen, ← hcommitted', hy])
  rcases hseen with hseen | ⟨_, hheld, rfl⟩
  · exact hleft k y hseen hysite
  · obtain rfl : siteId = site := ((h.ofSite_held hsite hheld).2 y rfl).symm.trans hysite
    cases hends with
    | drops hdrops => exact absurd (hdrops k _ hheld).1 (by simp)
    | promotes hpromoted =>
      obtain ⟨l, x, hx, hxkey⟩ := hpromoted
      obtain ⟨m, own, z, hz, hzcommitted, hzkey⟩ := hremoving
      have hml : m ≠ l := by
        rintro rfl
        rw [hx] at hz
        exact hd (congrArg Prod.fst (Option.some.inj hz)).symm
      have hvacant := (Row.vacant_iff.mp (h.unique c l x siteId hx hxkey m hml)).1 z
      rw [Row.seen_of_not_mine (Row.not_mine_of_held hz hd)] at hvacant
      exact hvacant hzcommitted hzkey
    | stays hstays' _ _ => exact hstays hstays'
    | empties _ hleft' => exact hleft' k y (Row.seen_of_held hheld) hysite

theorem Inv.commit : (s.commit c answer).Inv := by
  have hcalls : (s.commit c answer).calls c = .done (.ok answer) := move_self
  have hshift : Shift c s (s.commit c answer) :=
    shift_commit fun id own hheld => ⟨siteId, h.ofSite_held hsite hheld⟩
  refine h.of_shift hshift (fun d hd => move_of_ne hd) h.nodup (fun k hk => ?_) h.unique.commit
    (h.unique.distinct_commit h.distinct)
    (fun _ => h.sound_commit hsite hends) (fun k own hk => ?_) ?_ (fun _ => h.hasPrimary_commit hsite hends)
    (fun _ _ => h.noneLeft_commit hsite hends) ?_ ?_
  · exact Rows.commit_of_empty (h.listed k hk)
  · exact absurd rfl (Rows.held_commit.mp hk).2
  · rw [hcalls]
    trivial
  · rw [hcalls]
    exact fun _ hs => hs.elim
  · rw [hcalls]
    exact fun _ hs => hs.elim

end Commit

/-! ### The statements -/

theorem Inv.stageOk (h : s.Inv) (hc : s.calls c = p) : s.StageOk c p := hc ▸ h.stages c

theorem Inv.vacant {key : SiteDomain → Option Uuid} {b : Uuid} (h : s.Inv) (hvacant : s.vacant key c b id = true) :
    ∀ l, l ≠ id → (s.rows l).vacant key c b = true := by
  intro l hl
  by_cases hid : l ∈ s.ids
  · simpa [hl] using List.all_eq_true.mp hvacant l hid
  · rw [h.listed l hid]
    rfl

theorem Inv.receive (h : s.Inv) (hc : s.calls c = .idle) (request : DomainRequest) : (s.receive c request).Inv := by
  have hnothing := h.holdsNothing (c := c) (by rw [hc]; rfl)
  have hsite : ∀ {q : DomainStage} (site : Uuid), (s.calls c).site = some site → q.site = some site := by
    intro q site hs
    rw [hc] at hs
    cases hs
  cases request with
  | add siteId host isPrimary =>
    simp only [Domains.receive]
    split_ifs
    · exact h.move hsite hnothing (fun _ hs => hs.elim) fun _ hs => hs.elim
    · exact h.move hsite trivial (fun _ hs => hs.elim) fun _ hs => hs.elim
  | remove siteId domainId => exact h.move hsite hnothing (fun _ hs => hs.elim) fun _ hs => hs.elim
  | setPrimary siteId domainId => exact h.move hsite trivial (fun _ hs => hs.elim) fun _ hs => hs.elim

theorem Inv.insertDomain {host : String} {isPrimary : Bool} {now : Instant} (h : s.Inv)
    (hc : s.calls c = .inserting siteId host isPrimary) (ht : s.insertDomain c siteId host isPrimary id now = some t) :
    t.Inv := by
  unfold Domains.insertDomain at ht
  split_ifs at ht with hid
  · cases ht
    exact h.insert (h.stageOk hc) (by rw [hc]; rfl) hid rfl rfl
  · cases ht
    exact h.abort _

theorem Inv.look {isPrimary : Bool} (h : s.Inv) (hc : s.calls c = .looking siteId domainId isPrimary)
    (hok : isPrimary = false → s.hasPrimary c siteId = true → ∀ d, ¬ (s.calls d).Empties siteId) :
    (s.move c (if isPrimary || !s.hasPrimary c siteId then .promoting .add siteId domainId
      else .reselecting .add siteId domainId false)).Inv := by
  obtain ⟨hfresh, hmine⟩ := h.stageOk hc
  split_ifs with hif
  · exact h.move (by rw [hc]; exact fun _ hs => hs) hmine (fun _ hs => hs.elim) fun _ hs => hs.elim
  · obtain ⟨hasked, hsees⟩ : isPrimary = false ∧ s.hasPrimary c siteId = true := by simpa using hif
    obtain ⟨x, hx, hxprimary⟩ := List.any_eq_true.mp hsees
    obtain ⟨id, -, hseen, hxsite⟩ := mem_visible.mp hx
    have hkey := primaryKey_eq_some.mpr ⟨hxprimary, hxsite⟩
    have hprimary : s.HasPrimary siteId := by
      rcases (s.rows id).seen_cases c with hheld | ⟨-, hcommitted⟩
      · rw [(hfresh id _ hheld).2 x hseen] at hkey
        cases hkey
      · exact ⟨id, x, hcommitted ▸ hseen, hkey⟩
    exact h.move (by rw [hc]; exact fun _ hs => hs) ⟨hfresh, hprimary⟩
      (fun site hs => .inr ((show siteId = site from hs) ▸ hok hasked hsees)) fun _ hs => hs.elim

theorem Inv.deleteDomain (h : s.Inv) (hc : s.calls c = .deleting siteId domainId)
    (ht : s.deleteDomain c siteId domainId = some t) : t.Inv := by
  have hnothing : s.HoldsNothing c := h.stageOk hc
  unfold Domains.deleteDomain at ht
  cases hx : ((s.rows domainId).seen c).filter (·.siteId = siteId) with
  | none =>
    simp only [hx] at ht
    cases ht
    refine h.move (by rw [hc]; exact fun _ hs => hs) (fun id own hheld => ?_) (fun _ hs => hs.elim) fun _ hs => hs.elim
    have hmine := hnothing id
    rw [Row.mine_of_held hheld] at hmine
    cases hmine
  | some removed =>
    simp only [hx] at ht
    split_ifs at ht with hfree
    all_goals
      cases ht
      obtain ⟨hseen, hxsite⟩ := Option.filter_eq_some_iff.mp hx
      have hxsite : removed.siteId = siteId := by simpa using hxsite
      have hcommitted : (s.rows domainId).committed = some removed := by
        rw [← hseen, Row.seen_of_not_mine (hnothing domainId)]
    · refine h.write hfree hseen hxsite (fun _ _ hw => by cases hw) (by rw [hc]; rfl) rfl
        (fun _ hw => by cases hw) ?_ (fun _ hs => hs)
        fun _ hs => hs
      exact ⟨domainId, none, removed, by simp [Domains.write], by simpa [Domains.write] using hcommitted,
        primaryKey_eq_some.mpr ⟨‹_›, hxsite⟩⟩
    · refine h.write hfree hseen hxsite (fun _ _ hw => by cases hw) (by rw [hc]; rfl) rfl (fun _ hw => by cases hw)
        (fun id own hheld => ?_) (fun _ hs => hs) fun _ hs => hs
      by_cases hid : id = domainId
      · subst hid
        simp only [Domains.write, Rows.write_self, Option.some.injEq, Prod.mk.injEq, true_and, hcommitted] at hheld ⊢
        refine ⟨hheld.symm, fun y hy => ?_⟩
        obtain rfl := hy
        simp [SiteDomain.primaryKey, *]
      · rw [show (s.write c domainId none _).rows id = s.rows id from Rows.write_of_ne hid] at hheld
        have hmine := hnothing id
        rw [Row.mine_of_held hheld] at hmine
        cases hmine

theorem Inv.check (h : s.Inv) (hc : s.calls c = .checking siteId domainId)
    (hx : (s.rows domainId).committed.filter (·.siteId = siteId) ≠ none) :
    (s.move c (.promoting .setPrimary siteId domainId)).Inv := by
  have hnothing := h.holdsNothing (c := c) (by rw [hc]; rfl)
  obtain ⟨x, hx⟩ := Option.ne_none_iff_exists'.mp hx
  obtain ⟨hcommitted, hxsite⟩ := Option.filter_eq_some_iff.mp hx
  have hseen : (s.rows domainId).seen c = some x := by rw [Row.seen_of_not_mine (hnothing domainId), hcommitted]
  refine h.move (by rw [hc]; nofun) ⟨h.mem_ids hseen, fun hnone => ?_, fun y hy => ?_, hnothing domainId⟩
    (fun _ hs => hs.elim) fun _ hs => hs.elim
  · rw [hcommitted] at hnone
    cases hnone
  · rw [hcommitted] at hy
    cases hy
    simpa using hxsite

theorem CallerOk.clear {v : Option SiteDomain} (hs : s.CallerOk c siteId domainId caller) (hid : domainId ≠ id) :
    (s.write c id v p).CallerOk c siteId domainId caller := by
  have hrow : (s.write c id v p).rows domainId = s.rows domainId := Rows.write_of_ne hid
  cases caller with
  | add =>
    obtain ⟨x, hheld, hxsite⟩ := hs
    exact ⟨x, by rw [hrow, hheld], hxsite⟩
  | remove removed =>
    obtain ⟨k, own, x, hheld, hcommitted, hkey⟩ := hs
    by_cases hk : k = id
    · subst hk
      exact ⟨k, v, x, by simp [Domains.write], by simpa [Domains.write] using hcommitted, hkey⟩
    · have hrow : (s.write c id v p).rows k = s.rows k := Rows.write_of_ne hk
      exact ⟨k, own, x, by rw [hrow, hheld], by rw [hrow, hcommitted], hkey⟩
  | setPrimary =>
    exact ⟨hs.listed, by rw [hrow]; exact hs.deleted, by rw [hrow]; exact hs.ofSite, by rw [hrow]; exact hs.notMine⟩

theorem Inv.clear {rest : List Uuid} {now : Instant} (h : s.Inv)
    (hc : s.calls c = .clearing caller siteId domainId (id :: rest))
    (ht : s.clear c siteId domainId id now (.clearing caller siteId domainId rest) = some t) : t.Inv := by
  have hcaller : s.CallerOk c siteId domainId caller := h.stageOk hc
  unfold Domains.clear at ht
  split_ifs at ht with hfree
  cases hx : ((s.rows id).seen c).filter fun d => d.siteId = siteId && d.isPrimary && id ≠ domainId with
  | none =>
    simp only [hx] at ht
    cases ht
    exact h.move (by rw [hc]; exact fun _ hs => hs) hcaller (fun _ hs => hs.elim) fun _ hs => hs.elim
  | some x =>
    simp only [hx] at ht
    cases ht
    obtain ⟨hseen, hmatch⟩ := Option.filter_eq_some_iff.mp hx
    obtain ⟨⟨hxsite, -⟩, hid⟩ : (x.siteId = siteId ∧ x.isPrimary = true) ∧ id ≠ domainId := by simpa using hmatch
    refine h.write hfree hseen hxsite (fun w b hw hb => ?_) (by rw [hc]; rfl) rfl (fun w hw => ?_)
      (CallerOk.clear hcaller (Ne.symm hid)) (fun _ hs => hs) fun _ hs => hs
    · cases hw
      simp [SiteDomain.primaryKey] at hb
    · exact Option.some.inj hw ▸ hxsite

/-- The second update has not found its row. -/
theorem Inv.unmarked (h : s.Inv) (hc : s.calls c = .marking caller siteId domainId)
    (hx : ((s.rows domainId).seen c).filter (·.siteId = siteId) = none)
    (hok : ∀ removed, caller = .remove removed → s.Alone c siteId) :
    (s.move c (promoted caller siteId domainId false)).Inv := by
  have hcaller : s.CallerOk c siteId domainId caller := h.stageOk hc
  cases caller with
  | add =>
    obtain ⟨x, hheld, hxsite⟩ := hcaller
    rw [Row.seen_of_held hheld] at hx
    simp [hxsite] at hx
  | remove removed =>
    obtain ⟨hleft, hnone⟩ := hok removed rfl
    exact h.move (by rw [hc]; exact fun _ hs => hs) ⟨hcaller, hleft⟩ (fun _ hs => hs.elim)
      fun site hs => (show siteId = site from hs) ▸ hnone
  | setPrimary =>
    have hasked : s.Asked c siteId domainId := hcaller
    have hcommitted : (s.rows domainId).committed = none := by
      cases hy : (s.rows domainId).committed with
      | none => rfl
      | some y => simp [Row.seen_of_not_mine hasked.notMine, hy, hasked.ofSite y hy] at hx
    have hgone : s.rows domainId = {} := by
      rw [show s.rows domainId = ⟨(s.rows domainId).committed, (s.rows domainId).held⟩ from rfl, hcommitted,
        hasked.deleted hcommitted]
    exact h.move (by rw [hc]; exact fun _ hs => hs) ⟨hasked.listed, hgone⟩ (fun _ hs => hs.elim) fun _ hs => hs.elim

theorem Inv.marked {x : SiteDomain} {now : Instant} (h : s.Inv) (hc : s.calls c = .marking caller siteId domainId)
    (hx : (s.rows domainId).seen c = some x) (hxsite : x.siteId = siteId) (hfree : (s.rows domainId).free c = true)
    (hvacant : s.vacant SiteDomain.primaryKey c siteId domainId = true) :
    (s.write c domainId (some { x with isPrimary := true, updatedAt := now })
      (promoted caller siteId domainId true)).Inv := by
  have hkey : ({ x with isPrimary := true, updatedAt := now } : SiteDomain).primaryKey = some siteId :=
    primaryKey_eq_some.mpr ⟨rfl, hxsite⟩
  have hpromoted : (s.write c domainId (some { x with isPrimary := true, updatedAt := now })
      (promoted caller siteId domainId true)).Promoted c siteId := ⟨domainId, _, by simp [Domains.write], hkey⟩
  refine h.write hfree hx hxsite (fun w b hw hb => ?_) (by rw [hc]; rfl) ?_ (fun w hw => ?_) ?_ ?_ ?_
  · rw [← Option.some.inj hw, hkey] at hb
    exact Option.some.inj hb ▸ h.vacant hvacant
  · cases caller <;> rfl
  · exact Option.some.inj hw ▸ hxsite
  · cases caller <;> exact hpromoted
  · cases caller <;> exact fun _ hs => hs
  · cases caller <;> exact fun _ hs => hs

theorem Inv.mark {now : Instant} (h : s.Inv) (hc : s.calls c = .marking caller siteId domainId)
    (hok : ∀ removed, caller = .remove removed →
      ((s.rows domainId).seen c).filter (·.siteId = siteId) = none → s.Alone c siteId)
    (ht : s.mark c caller siteId domainId now = some t) : t.Inv := by
  unfold Domains.mark at ht
  cases hx : ((s.rows domainId).seen c).filter (·.siteId = siteId) with
  | none =>
    simp only [hx] at ht
    cases ht
    exact h.unmarked hc hx fun removed hremoved => hok removed hremoved hx
  | some x =>
    simp only [hx] at ht
    obtain ⟨hseen, hxsite⟩ := Option.filter_eq_some_iff.mp hx
    split_ifs at ht with hfree hvacant
    · cases ht
      exact h.marked hc hseen (by simpa using hxsite) hfree hvacant
    · cases ht
      exact h.abort _

theorem Inv.reselect {marked : Bool} {x : SiteDomain} (h : s.Inv)
    (hc : s.calls c = .reselecting caller siteId domainId marked) (hx : (s.rows domainId).seen c = some x) :
    (s.move c (.committing caller siteId marked x)).Inv := by
  have hstage := h.stageOk hc
  have hsite : ∀ site, (s.calls c).site = some site → some siteId = some site := by
    rw [hc]
    exact fun _ hs => hs
  cases marked with
  | true =>
    refine h.move hsite hstage (fun _ hs => ?_) fun _ hs => ?_
    · cases caller <;> exact hs.elim
    · cases caller <;> exact hs.elim
  | false =>
    cases caller with
    | add => exact h.move hsite hstage (fun _ hs => .inl (hc ▸ hs)) fun _ hs => hs.elim
    | remove removed => exact hstage.elim
    | setPrimary =>
      rw [hstage.2] at hx
      cases hx

/-- What a call has done that commits after `make_primary`. -/
theorem Inv.ends {marked : Bool} {answer : Option SiteDomain} (h : s.Inv)
    (hc : s.calls c = .committing caller siteId marked answer) : s.Ends c siteId := by
  have hstage := h.stageOk hc
  cases marked with
  | true => exact .promotes hstage
  | false =>
    cases caller with
    | add => exact .stays (by rw [hc]; rfl) hstage.1 hstage.2
    | remove removed => exact .empties (by rw [hc]; rfl) hstage.2
    | setPrimary => exact hstage.elim

theorem Inv.statement {now : Instant} (h : s.Inv) (hok : s.Careful (.next c id now))
    (ht : s.statement c id now = some t) : t.Inv := by
  unfold Domains.statement at ht
  simp only [Careful] at hok
  cases hc : s.calls c with
  | idle | done => simp [hc] at ht
  | inserting siteId host isPrimary =>
    simp only [hc] at ht
    exact h.insertDomain hc ht
  | looking siteId domainId isPrimary =>
    simp only [hc] at ht hok
    cases ht
    refine h.look hc fun hasked => ?_
    subst hasked
    exact hok
  | deleting siteId domainId =>
    simp only [hc] at ht
    exact h.deleteDomain hc ht
  | dropped siteId removed =>
    simp only [hc] at ht
    cases ht
    exact h.commit (by rw [hc]; rfl) (.drops (h.stageOk hc))
  | succeeding siteId removed =>
    simp only [hc] at ht hok
    have hremoving : s.Removing c siteId := h.stageOk hc
    cases hnext : s.oldest c siteId with
    | none =>
      simp only [hnext] at ht
      cases ht
      obtain ⟨hleft, hnone⟩ := hok hnext
      exact h.move (by rw [hc]; exact fun _ hs => hs) ⟨hremoving, hleft⟩ (fun _ hs => hs.elim)
        fun site hs => (show siteId = site from hs) ▸ hnone
    | some next =>
      simp only [hnext] at ht
      cases ht
      exact h.move (by rw [hc]; exact fun _ hs => hs) hremoving (fun _ hs => hs.elim) fun _ hs => hs.elim
  | checking siteId domainId =>
    simp only [hc] at ht
    cases hx : (s.rows domainId).committed.filter (·.siteId = siteId) with
    | none =>
      simp only [hx] at ht
      cases ht
      exact h.move (fun _ hs => by rw [hc] at hs; cases hs) trivial (fun _ hs => hs.elim) fun _ hs => hs.elim
    | some x =>
      simp only [hx] at ht
      cases ht
      exact h.check hc (by simp [hx])
  | promoting caller siteId domainId =>
    simp only [hc] at ht
    cases ht
    have hcaller : s.CallerOk c siteId domainId caller := h.stageOk hc
    exact h.move (by rw [hc]; exact fun _ hs => hs) hcaller (fun _ hs => hs.elim) fun _ hs => hs.elim
  | clearing caller siteId domainId rest =>
    cases rest with
    | nil =>
      simp only [hc] at ht
      cases ht
      have hcaller : s.CallerOk c siteId domainId caller := h.stageOk hc
      exact h.move (by rw [hc]; exact fun _ hs => hs) hcaller (fun _ hs => hs.elim) fun _ hs => hs.elim
    | cons id rest =>
      simp only [hc] at ht
      exact h.clear hc ht
  | marking caller siteId domainId =>
    simp only [hc] at ht hok
    refine h.mark hc (fun removed hremoved => ?_) ht
    subst hremoved
    exact hok
  | reselecting caller siteId domainId marked =>
    simp only [hc] at ht
    cases hx : (s.rows domainId).seen c with
    | none =>
      simp only [hx] at ht
      cases ht
      exact h.abort _
    | some x =>
      simp only [hx] at ht
      cases ht
      exact h.reselect hc hx
  | committing caller siteId marked answer =>
    simp only [hc] at ht
    cases ht
    exact h.commit (by rw [hc]; rfl) (h.ends hc)

theorem Inv.step {e : DomainEvent} (h : s.Inv) (hok : s.Careful e) (ht : domainStep s e = some t) : t.Inv := by
  cases e with
  | call c request =>
    simp only [domainStep] at ht
    split at ht
    · cases ht
      exact h.receive ‹_› request
    · cases ht
  | next c id now => exact h.statement hok ht
  | fail c =>
    simp only [domainStep] at ht
    split_ifs at ht
    cases ht
    exact h.abort _

theorem mem_domains : id ∈ s.domains siteId ↔
    id ∈ s.ids ∧ ∃ x, (s.rows id).committed = some x ∧ x.siteId = siteId := by
  simp [domains, Option.any_eq_true]

theorem mem_primaries : id ∈ s.primaries siteId ↔
    id ∈ s.ids ∧ ∃ x, (s.rows id).committed = some x ∧ x.primaryKey = some siteId := by
  simp [primaries, Option.any_eq_true, primaryKey_eq_some, and_comm]

theorem length_primaries (hnodup : s.ids.Nodup) (hid : id ∈ s.primaries siteId)
    (honly : ∀ k ∈ s.primaries siteId, k = id) :
    (s.primaries siteId).length = 1 := by
  have hsub : s.primaries siteId ⊆ [id] := fun k hk => List.mem_singleton.mpr (honly k hk)
  have hle := (List.Nodup.subperm (hnodup.filter _) hsub).length_le
  exact le_antisymm hle (List.length_pos_of_mem hid)

theorem Inv.onePrimary (h : s.Inv) (siteId : Uuid) : s.OnePrimary siteId := by
  intro hne
  obtain ⟨k, hk⟩ := List.exists_mem_of_ne_nil _ hne
  obtain ⟨id, x, hx, hkey⟩ := h.sound siteId ⟨k, (mem_domains.mp hk).2⟩
  have hlisted : id ∈ s.ids := by
    by_contra hnot
    rw [h.listed id hnot] at hx
    cases hx
  refine length_primaries h.nodup (mem_primaries.mpr ⟨hlisted, x, hx, hkey⟩) fun l hl => ?_
  obtain ⟨-, y, hy, hykey⟩ := mem_primaries.mp hl
  exact h.distinct l id y x siteId hy hx hykey hkey

/-! ### Runs -/

/-- Before the first call: every site with domains has one primary domain. -/
structure Start (s : Domains) : Prop where
  idle : ∀ c, s.calls c = .idle
  free : ∀ id, (s.rows id).held = none
  nodup : s.ids.Nodup
  listed : ∀ id, (s.rows id).committed ≠ none → id ∈ s.ids
  onePrimary : ∀ siteId, s.OnePrimary siteId

theorem Start.inv (h : s.Start) : s.Inv := by
  have hlisted : ∀ {id x}, (s.rows id).committed = some x → id ∈ s.ids := fun hx => h.listed _ (by simp [hx])
  have hone : ∀ {id x siteId}, (s.rows id).committed = some x → x.siteId = siteId →
      ∃ k, s.primaries siteId = [k] := fun hx hsite =>
    List.length_eq_one_iff.mp (h.onePrimary _ (List.ne_nil_of_mem (mem_domains.mpr ⟨hlisted hx, _, hx, hsite⟩)))
  refine ⟨h.nodup, fun id hid => ?_, fun i id x b hheld => ?_, fun k l x y b hk hl hx hy => ?_, fun siteId hpop => ?_,
    fun id c own hheld => ?_, fun c => ?_, fun c d siteId hs => ?_⟩
  · rw [show s.rows id = ⟨(s.rows id).committed, (s.rows id).held⟩ from rfl, h.free id,
      not_not.mp fun hnot => hid (h.listed id hnot)]
  · rw [h.free id] at hheld
    cases hheld
  · obtain ⟨a, ha⟩ := hone hk (primaryKey_eq_some.mp hx).2
    have hmem : ∀ {id z}, (s.rows id).committed = some z → z.primaryKey = some b → id = a := fun hz hkey =>
      List.mem_singleton.mp (ha ▸ mem_primaries.mpr ⟨hlisted hz, _, hz, hkey⟩)
    exact (hmem hk hx).trans (hmem hl hy).symm
  · obtain ⟨id, x, hx, hxsite⟩ := hpop
    obtain ⟨a, ha⟩ := hone hx hxsite
    obtain ⟨-, y, hy, hkey⟩ := mem_primaries.mp (ha ▸ List.mem_singleton_self a)
    exact ⟨a, y, hy, hkey⟩
  · rw [h.free id] at hheld
    cases hheld
  · rw [h.idle c]
    trivial
  · rw [h.idle c] at hs
    exact hs.elim

/-- **One primary domain**: over any interleaving of the statements of the three calls, as long as a removal
that promotes nobody is alone, a site with domains has exactly one primary domain. -/
theorem run_one_primary {es : List DomainEvent} (hs : s.Start) (h : Run domainStep Careful s es t) (siteId : Uuid) :
    t.OnePrimary siteId :=
  (h.invariant hs.inv fun _ _ _ hinv hok hstep => hinv.step hok hstep).onePrimary siteId

/-! ### Three runs -/

/-- An event changes the stage of its own call only. -/
theorem calls_of_step {e : DomainEvent} (ht : domainStep s e = some t) (hne : e.of ≠ c) : t.calls c = s.calls c := by
  have hmoved : ∃ p, t.calls = Function.update s.calls e.of p := by
    cases e with
    | call d request =>
      simp only [domainStep] at ht
      split at ht
      · cases ht
        cases request with
        | add siteId host isPrimary =>
          simp only [receive]
          split_ifs <;> exact ⟨_, rfl⟩
        | _ => exact ⟨_, rfl⟩
      · cases ht
    | next d id now =>
      simp only [domainStep, statement, insertDomain, deleteDomain, clear, mark] at ht
      repeat' split at ht
      all_goals cases ht
      all_goals exact ⟨_, rfl⟩
    | fail d =>
      simp only [domainStep] at ht
      split_ifs at ht
      cases ht
      exact ⟨_, rfl⟩
  obtain ⟨p, hp⟩ := hmoved
  rw [hp, Function.update_of_ne (Ne.symm hne)]

/-- Sites whose domains are the given ones, before the first call. -/
def ofDomains (sites : List Uuid) (domains : List SiteDomain) : Domains where
  sites
  ids := domains.map (·.id)
  rows := fun id => { committed := domains.find? (·.id = id) }
  calls := fun _ => .idle

theorem start_ofDomains {sites : List Uuid} {x : SiteDomain} {rest : List SiteDomain}
    (hids : ((x :: rest).map (·.id)).Nodup) (hx : x.isPrimary = true)
    (hrest : ∀ y ∈ rest, y.isPrimary = false ∧ y.siteId = x.siteId) : (ofDomains sites (x :: rest)).Start := by
  have hrow : ∀ {id : Uuid} {y : SiteDomain},
      ((ofDomains sites (x :: rest)).rows id).committed = some y → y ∈ x :: rest ∧ y.id = id := by
    intro id y hy
    have hfind : (x :: rest).find? (fun d => decide (d.id = id)) = some y := hy
    exact ⟨List.mem_of_find?_eq_some hfind, by simpa using List.find?_some hfind⟩
  have hself : ((ofDomains sites (x :: rest)).rows x.id).committed = some x := by simp [ofDomains]
  refine ⟨fun _ => rfl, fun _ => rfl, hids, fun id hid => ?_, fun siteId hne => ?_⟩
  · obtain ⟨y, hy⟩ := Option.ne_none_iff_exists'.mp hid
    obtain ⟨hmem, rfl⟩ := hrow hy
    exact List.mem_map_of_mem hmem
  · obtain ⟨id, hid⟩ := List.exists_mem_of_ne_nil _ hne
    obtain ⟨-, y, hy, rfl⟩ := mem_domains.mp hid
    have hsite : x.siteId = y.siteId := by
      rcases List.mem_cons.mp (hrow hy).1 with rfl | hmem
      · rfl
      · exact (hrest y hmem).2.symm
    refine length_primaries hids
      (mem_primaries.mpr ⟨List.mem_cons_self, x, hself, primaryKey_eq_some.mpr ⟨hx, hsite⟩⟩) fun k hk => ?_
    obtain ⟨-, z, hz, hkey⟩ := mem_primaries.mp hk
    obtain ⟨hzmem, rfl⟩ := hrow hz
    rcases List.mem_cons.mp hzmem with rfl | hzmem
    · rfl
    · have hzprimary := (primaryKey_eq_some.mp hkey).1
      rw [(hrest z hzmem).1] at hzprimary
      cases hzprimary

/-- Domain 1 of site 7, which is primary. -/
def apex : SiteDomain := ⟨1, 7, "omnion.example", true, 0, 0⟩

/-- Domain 2, the oldest of the others. -/
def www : SiteDomain := ⟨2, 7, "www.omnion.example", false, 10, 10⟩

/-- Domain 3. -/
def docs : SiteDomain := ⟨3, 7, "docs.omnion.example", false, 20, 20⟩

/-- While the only domain is being removed another is added, which finds the old one primary. -/
def added : List DomainEvent :=
  [.call 0 (.remove 7 1), .next 0 0 30, .next 0 0 30,
    .call 1 (.add 7 "new.example" false), .next 1 4 40, .next 1 0 40, .next 1 0 40, .next 1 0 40, .next 0 0 30]

/-- The successor of the primary domain is removed before it is flagged. -/
def stranded : List DomainEvent :=
  [.call 0 (.remove 7 1), .next 0 0 30, .next 0 0 30, .call 1 (.remove 7 2), .next 1 0 40, .next 1 0 40,
    .next 0 0 30, .next 0 0 30, .next 0 0 30, .next 0 0 30]

theorem settled_of_exec {p : Domains → DomainEvent → Bool} {ok : Domains → DomainEvent → Prop}
    (hp : ∀ s e, p s e = true → ok s e) (hs : s.Start) (es : List DomainEvent) (domains primaries : List Uuid)
    (hes : ∀ e ∈ es, e.of < 3)
    (hexec : (exec (fun s e => if p s e then domainStep s e else none) s es).map (fun t =>
      ((List.range 3).any fun c => (t.calls c).active, t.domains 7, t.primaries 7)) = some
        (false, domains, primaries)) :
    ∃ t, Run domainStep ok s es t ∧ (∀ c, (t.calls c).active = false) ∧
      t.domains 7 = domains ∧ t.primaries 7 = primaries := by
  obtain ⟨t, hrun, hfinal⟩ := Run.of_exec_of_map hp hexec
  simp only [Prod.mk.injEq] at hfinal
  obtain ⟨hover, hdomains, hprimaries⟩ := hfinal
  refine ⟨t, hrun, fun c => ?_, hdomains, hprimaries⟩
  by_cases hc : c < 3
  · simpa using List.any_eq_false.mp hover c (List.mem_range.mpr hc)
  · have hkept : t.calls c = s.calls c :=
      hrun.keeps (f := fun s => s.calls c) fun e he x y hxy => calls_of_step hxy fun hof =>
        hc (by rw [← hof]; exact hes e he)
    rw [hkept, hs.idle c]
    rfl

theorem any_of_true (s : Domains) (e : DomainEvent) (_ : true = true) : Any s e := trivial

/-- A site is left without a primary domain. -/
theorem primary_lost :
    (∃ t, (ofDomains [7] [apex]).Start ∧ Run domainStep Any (ofDomains [7] [apex]) added t ∧
      (∀ c, (t.calls c).active = false) ∧ ¬ t.OnePrimary 7) ∧
    ∃ t, (ofDomains [7] [apex, www, docs]).Start ∧ Run domainStep Any (ofDomains [7] [apex, www, docs]) stranded t ∧
      (∀ c, (t.calls c).active = false) ∧ ¬ t.OnePrimary 7 := by
  constructor
  · have hstart : (ofDomains [7] [apex]).Start := start_ofDomains (by decide) rfl (by decide)
    obtain ⟨t, hrun, hover, hdomains, hprimaries⟩ :=
      settled_of_exec any_of_true hstart added [4] [] (by decide) (by decide +kernel)
    refine ⟨t, hstart, hrun, hover, fun hone => ?_⟩
    have hlength := hone (by simp [hdomains])
    simp [hprimaries] at hlength
  · have hstart : (ofDomains [7] [apex, www, docs]).Start := start_ofDomains (by decide) rfl (by decide)
    obtain ⟨t, hrun, hover, hdomains, hprimaries⟩ :=
      settled_of_exec any_of_true hstart stranded [3] [] (by decide) (by decide +kernel)
    refine ⟨t, hstart, hrun, hover, fun hone => ?_⟩
    have hlength := hone (by simp [hdomains])
    simp [hprimaries] at hlength

/-- The primary domain of a site is removed while another call promotes domain 3, which fails, and then a fourth
domain is added as the primary one. -/
def promotions : List DomainEvent :=
  [.call 0 (.remove 7 1), .next 0 0 30, .next 0 0 30, .call 1 (.setPrimary 7 3), .next 1 0 40, .next 1 0 40,
    .next 0 0 30, .next 0 0 30, .next 0 0 30, .next 0 0 30, .next 1 0 40, .next 1 0 40, .next 1 0 40,
    .call 2 (.add 7 "new.example" true), .next 2 4 50, .next 2 0 50, .next 2 0 50, .next 2 0 50, .next 2 0 50,
    .next 2 0 50, .next 2 0 50, .next 2 0 50]

/-- Every addition flags its domain, and every removal of the primary domain promotes another one. -/
def promotes (s : Domains) : DomainEvent → Bool
  | .next c _ _ =>
    match s.calls c with
    | .looking siteId _ isPrimary => isPrimary || !s.hasPrimary c siteId
    | .succeeding siteId _ => (s.oldest c siteId).isSome
    | .marking _ siteId domainId => (((s.rows domainId).seen c).filter (·.siteId = siteId)).isSome
    | _ => true
  | _ => true

theorem careful_of_promotes (s : Domains) (e : DomainEvent) (h : s.promotes e = true) : s.Careful e := by
  cases e with
  | next c id now =>
    simp only [promotes] at h
    simp only [Careful]
    cases hc : s.calls c with
    | looking siteId domainId isPrimary =>
      simp only [hc] at h
      cases isPrimary with
      | true => trivial
      | false =>
        intro hsees
        simp [hsees] at h
    | succeeding siteId removed =>
      simp only [hc] at h
      intro hnone
      simp [hnone] at h
    | marking caller siteId domainId =>
      simp only [hc] at h
      cases caller with
      | remove removed =>
        intro hnone
        simp [hnone] at h
      | _ => trivial
    | _ => trivial
  | _ => trivial

/-- At the end of `promotions` domain 4 is the primary one. -/
theorem run_one_primary_promotions :
    ∃ t, Run domainStep Careful (ofDomains [7] [apex, www, docs]) promotions t ∧
      t.domains 7 = [4, 2, 3] ∧ t.primaries 7 = [4] ∧ t.OnePrimary 7 := by
  have hstart : (ofDomains [7] [apex, www, docs]).Start := start_ofDomains (by decide) rfl (by decide)
  obtain ⟨t, hrun, -, hdomains, hprimaries⟩ :=
    settled_of_exec careful_of_promotes hstart promotions [4, 2, 3] [4] (by decide) (by decide +kernel)
  exact ⟨t, hrun, hdomains, hprimaries, run_one_primary hstart hrun 7⟩

end Domains

end Omnion.Identity
