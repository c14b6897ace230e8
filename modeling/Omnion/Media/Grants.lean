import Mathlib.Data.Prod.Lex
import Omnion.Core.Text
import Omnion.Library.Forest
import Omnion.Library.Sorting
import Omnion.Library.Table

/-!
# Grants on folders and files

`crates/media/src/grants.rs` on the tables `media_folders` and `media_grants`: `load_chain`
reads the grants on a file and on the folders above it, and `resolve` decides what they leave
of a subject's capabilities. The routes ask it for the user and the groups he is in.

## The model

A library holds folders and grants. `loadChain` and `resolve` are the code's functions with all
they answer. Beside them stands what the grants say of a user: those that name him, one of his
groups or one of his roles, on the file or on any folder above it.

## What is proved

* `resolve_governs_iff` — the decision is what the grants say of the user just when the ones
  that are not read make no difference: those that name a role, and those that are on a folder
  more than 64 levels up.
* `role_skipped` — a role that is denied reading.

## Honest scope

The parts of a folder's row other than its parent are for the panel. `subject_kind` and `effect`
hold the words that the checks of the table allow.
-/

namespace Omnion.Media

/-- The kinds of subject a grant may name (`SUBJECT_KINDS`). -/
inductive SubjectKind where
  | user
  | group
  | role
  deriving DecidableEq

/-- `allow` or `deny`. -/
inductive Effect where
  | allow
  | deny
  deriving DecidableEq

/-- What a grant's capability bits mean. -/
structure Capabilities where
  /-- May open the file, list its folder, download it. -/
  read : Bool
  /-- May rename it, move it, edit its metadata, upload a new version. -/
  write : Bool
  delete : Bool
  /-- May create a public share link over it. -/
  share : Bool
  deriving DecidableEq

namespace Capabilities

/-- Every capability. -/
def all : Capabilities := ⟨true, true, true, true⟩

/-- Nothing at all. -/
def none : Capabilities := ⟨false, false, false, false⟩

/-- The bits this set has and `other` does not. -/
def minus (self other : Capabilities) : Capabilities where
  read := self.read && !other.read
  write := self.write && !other.write
  delete := self.delete && !other.delete
  share := self.share && !other.share

/-- The bits of both, as `|=` on each of the four. -/
def join (self other : Capabilities) : Capabilities where
  read := self.read || other.read
  write := self.write || other.write
  delete := self.delete || other.delete
  share := self.share || other.share

/-- Whether there is no bit. -/
def isEmpty (self : Capabilities) : Bool := self = none

/-- One of the four capabilities. -/
inductive Bit where
  | read
  | write
  | delete
  | share

/-- Whether the set has a capability. -/
def has (self : Capabilities) : Bit → Bool
  | .read => self.read
  | .write => self.write
  | .delete => self.delete
  | .share => self.share

variable {a b : Capabilities} {bit : Bit}

@[simp] theorem has_none : none.has bit = false := by cases bit <;> rfl

@[simp] theorem has_minus : (a.minus b).has bit = (a.has bit && !b.has bit) := by cases bit <;> rfl

@[simp] theorem has_join : (a.join b).has bit = (a.has bit || b.has bit) := by cases bit <;> rfl

theorem ext_has (h : ∀ bit, a.has bit = b.has bit) : a = b := by
  cases a
  cases b
  rw [mk.injEq]
  exact ⟨h .read, h .write, h .delete, h .share⟩

end Capabilities

/-- Which node a grant attaches to. -/
inductive GrantTarget where
  /-- A folder, and every file beneath it. -/
  | folder (id : Uuid)
  /-- One file, whatever folder it sits in. -/
  | file (id : Uuid)

/-- The columns `folder_id` and `media_id`. -/
def GrantTarget.columns : GrantTarget → Option Uuid × Option Uuid
  | .folder id => (some id, none)
  | .file id => (none, some id)

/-- A row of `media_grants`. -/
structure Grant where
  id : Uuid
  folderId : Option Uuid
  /-- The file it attaches to, when it is a file grant. -/
  mediaId : Option Uuid
  subjectKind : SubjectKind
  subjectId : Uuid
  canRead : Bool
  canWrite : Bool
  canDelete : Bool
  canShare : Bool
  effect : Effect
  createdBy : Option Uuid
  createdAt : Instant

/-- The capability bits. -/
def Grant.capabilities (grant : Grant) : Capabilities :=
  ⟨grant.canRead, grant.canWrite, grant.canDelete, grant.canShare⟩

/-- Whether this row removes capabilities. -/
def Grant.isDeny (grant : Grant) : Bool := grant.effect = .deny

/-- A row of `media_folders`. -/
structure Folder where
  id : Uuid
  /-- Parent folder, `None` for the library root. -/
  parentId : Option Uuid

/-- The folders and the grants. -/
structure Library where
  folders : Table Folder Folder.id
  grants : Table Grant Grant.id

/-- One folder on a file's chain, with the grants recorded against it. -/
structure ChainNode where
  folder : Folder
  grants : List Grant

/-- Everything resolution reads. -/
structure Chain where
  /-- Grants recorded against the file itself. -/
  file : List Grant
  /-- The file's folder, then its parent, to the root. -/
  nodes : List ChainNode

/-- The deepest a chain is walked (`MAX_CHAIN_DEPTH`). -/
def maxChainDepth : ℕ := 64

namespace Library

/-- Every grant on one node, oldest first. -/
def listGrants (s : Library) (target : GrantTarget) : List Grant :=
  let (folderId, mediaId) := target.columns
  Sorting.sortBy (fun grant => toLex (grant.createdAt, grant.id))
    (s.grants.rows.filter fun grant => grant.folderId = folderId && grant.mediaId = mediaId)

/-- The loop of `load_chain`, with the hops that are left. -/
def walk (s : Library) : ℕ → Option Uuid → List ChainNode
  | 0, _ => []
  | _ + 1, none => []
  | hops + 1, some id =>
    match s.folders.find? id with
    | none => []
    | some folder => ⟨folder, s.listGrants (.folder folder.id)⟩ :: s.walk hops folder.parentId

/-- Read a file's whole grant chain. -/
def loadChain (s : Library) (mediaId : Uuid) (folderId : Option Uuid) : Chain where
  file := s.listGrants (.file mediaId)
  nodes := s.walk maxChainDepth folderId

end Library

/-! ### Resolution -/

/-- What resolution concluded for one subject. -/
structure Decision where
  /-- The capabilities the subject has after every grant on the chain. -/
  effective : Capabilities
  /-- The grants that were read, in the order they were read. -/
  applied : List Uuid
  /-- A sentence saying where the answer came from. -/
  reason : String
  /-- Whether any grant named this subject at all. -/
  touched : Bool

/-- A decision that touched nothing. -/
def Decision.untouched : Decision where
  effective := .none
  applied := []
  reason := "no grant names this subject on this file's chain"
  touched := false

/-- Where on a chain a grant was found. -/
inductive Depth where
  | file
  | ownFolder
  | ancestor

def Depth.label : Depth → String
  | .file => "the file"
  | .ownFolder => "its folder"
  | .ancestor => "an ancestor folder"

/-- Join the places a deny was found into one readable phrase. -/
def phrase : List String → String
  | [] => "this file's chain"
  | [one] => one
  | one :: rest => one ++ " and " ++ phrase rest

/-- Whether a grant is for the subject, or for one of the groups. -/
def Grant.named (subjectKind : SubjectKind) (subjectId : Uuid) (groupIds : List Uuid) (grant : Grant) : Bool :=
  (grant.subjectKind = subjectKind && grant.subjectId = subjectId) ||
    (grant.subjectKind = .group && groupIds.contains grant.subjectId)

/-- The grants of a chain that are for the subject, with their places. -/
def collected (chain : Chain) (subjectKind : SubjectKind) (subjectId : Uuid) (groupIds : List Uuid) :
    List (Grant × Depth) :=
  (chain.file.filter (Grant.named subjectKind subjectId groupIds)).map (·, .file) ++
    chain.nodes.zipIdx.flatMap fun (node, index) =>
      (node.grants.filter (Grant.named subjectKind subjectId groupIds)).map
        (·, if index = 0 then .ownFolder else .ancestor)

/-- What the loop over the collected grants keeps. -/
structure Tally where
  denied : Capabilities := .none
  granted : Capabilities := .none
  applied : List Uuid := []
  deniedAt : List String := []
  allowCount : ℕ := 0

/-- The body of the loop. -/
def Tally.add (tally : Tally) : Grant × Depth → Tally
  | (grant, depth) =>
    let bits := grant.capabilities
    let tally := { tally with applied := tally.applied ++ [grant.id] }
    if grant.isDeny then
      { tally with
        denied := tally.denied.join bits
        deniedAt :=
          if !bits.isEmpty && !tally.deniedAt.contains depth.label then tally.deniedAt ++ [depth.label]
          else tally.deniedAt }
    else { tally with allowCount := tally.allowCount + 1, granted := tally.granted.join bits }

/-- Resolve one subject against a file's chain. -/
def resolve (chain : Chain) (subjectKind : SubjectKind) (subjectId : Uuid) (groupIds : List Uuid) : Decision :=
  let collected := collected chain subjectKind subjectId groupIds
  if collected.isEmpty then .untouched
  else
    let tally := collected.foldl Tally.add {}
    if tally.allowCount = 0 then
      { effective := .none
        applied := tally.applied
        reason := "a deny on " ++ phrase tally.deniedAt ++ " removes every capability this subject had here"
        touched := true }
    else
      { effective := tally.granted.minus tally.denied
        applied := tally.applied
        reason :=
          if tally.deniedAt.isEmpty then
            toString tally.allowCount ++ " allow" ++ (if tally.allowCount = 1 then "" else "s") ++
              " naming this subject on the chain"
          else
            "a deny on " ++ phrase tally.deniedAt ++ " overrides the allow" ++
              (if tally.allowCount = 1 then "" else "s") ++ " on this chain"
        touched := true }

/-- What the routes ask: the decision about a file, for a user and the groups he is in. -/
def Library.decide (s : Library) (mediaId : Uuid) (folderId : Option Uuid) (userId : Uuid) (groupIds : List Uuid) :
    Decision :=
  resolve (s.loadChain mediaId folderId) .user userId groupIds

/-! ### What resolution leaves -/

section Resolve

variable {chain chain' : Chain} {subjectKind : SubjectKind} {subjectId : Uuid} {groupIds : List Uuid}
  {grant : Grant} {bit : Capabilities.Bit}

/-- Every grant of a chain. -/
def Chain.grants (chain : Chain) : List Grant := chain.file ++ chain.nodes.flatMap (·.grants)

def Chain.naming (chain : Chain) (subjectKind : SubjectKind) (subjectId : Uuid) (groupIds : List Uuid) : List Grant :=
  chain.grants.filter (Grant.named subjectKind subjectId groupIds)

theorem map_collected :
    (collected chain subjectKind subjectId groupIds).map (·.1) = chain.naming subjectKind subjectId groupIds := by
  have hnodes : ∀ (nodes : List ChainNode) (start : ℕ),
      ((nodes.zipIdx start).flatMap fun (node, index) =>
        (node.grants.filter (Grant.named subjectKind subjectId groupIds)).map
          (·, if index = 0 then Depth.ownFolder else .ancestor)).map (·.1) =
        (nodes.flatMap (·.grants)).filter (Grant.named subjectKind subjectId groupIds) := by
    intro nodes
    induction nodes with
    | nil => intro start; rfl
    | cons node nodes ih =>
      intro start
      simp [ih, Function.comp_def]
  simp [collected, Chain.naming, Chain.grants, hnodes, Function.comp_def]

theorem foldl_add (bit : Capabilities.Bit) (l : List (Grant × Depth)) (tally : Tally) :
    ((l.foldl Tally.add tally).denied.has bit =
        (tally.denied.has bit || (l.map (·.1)).any fun grant => grant.isDeny && grant.capabilities.has bit)) ∧
      ((l.foldl Tally.add tally).granted.has bit =
        (tally.granted.has bit || (l.map (·.1)).any fun grant => !grant.isDeny && grant.capabilities.has bit)) ∧
      (l.foldl Tally.add tally).allowCount = tally.allowCount + (l.map (·.1)).countP fun grant => !grant.isDeny := by
  induction l generalizing tally with
  | nil => simp
  | cons x l ih =>
    obtain ⟨grant, depth⟩ := x
    obtain ⟨hdenied, hgranted, hcount⟩ := ih (tally.add (grant, depth))
    rw [List.foldl_cons, hdenied, hgranted, hcount]
    by_cases hdeny : grant.isDeny = true
    · simp [Tally.add, hdeny, Bool.or_assoc]
    · simp [Tally.add, hdeny, Bool.or_assoc, Nat.add_assoc, Nat.add_comm 1]

theorem isDeny_iff : grant.isDeny = true ↔ grant.effect = .deny := decide_eq_true_iff

theorem isDeny_eq_false : grant.isDeny = false ↔ grant.effect = .allow := by
  cases h : grant.effect <;> simp [Grant.isDeny, h]

theorem effective_resolve : (resolve chain subjectKind subjectId groupIds).effective =
    ((collected chain subjectKind subjectId groupIds).foldl Tally.add {}).granted.minus
      ((collected chain subjectKind subjectId groupIds).foldl Tally.add {}).denied := by
  apply Capabilities.ext_has
  intro bit
  obtain ⟨-, hgranted, hcount⟩ := foldl_add bit (collected chain subjectKind subjectId groupIds) {}
  simp only [resolve]
  split
  · -- nothing is for the subject
    rename_i hempty
    simp [List.isEmpty_iff.mp hempty, Decision.untouched]
  · split
    · -- only denials are
      rename_i hzero
      rw [hcount, Nat.zero_add, List.countP_eq_zero] at hzero
      have hnone : ((collected chain subjectKind subjectId groupIds).map (·.1)).any (fun grant =>
          !grant.isDeny && grant.capabilities.has bit) = false := by
        rw [List.any_eq_false]
        intro grant hgrant
        simp [show grant.isDeny = true by simpa using hzero grant hgrant]
      rw [Capabilities.has_minus, hgranted, hnone]
      simp
    · rfl

/-- **What is left is what some grant allows and none denies.** -/
theorem has_resolve : (resolve chain subjectKind subjectId groupIds).effective.has bit = true ↔
    (∃ grant ∈ chain.naming subjectKind subjectId groupIds, grant.effect = .allow ∧ grant.capabilities.has bit = true) ∧
      ∀ grant ∈ chain.naming subjectKind subjectId groupIds, grant.effect = .deny →
        grant.capabilities.has bit = false := by
  obtain ⟨hdenied, hgranted, -⟩ := foldl_add bit (collected chain subjectKind subjectId groupIds) {}
  rw [map_collected] at hdenied hgranted
  rw [effective_resolve, Capabilities.has_minus, hdenied, hgranted]
  simp [isDeny_eq_false, isDeny_iff]

theorem touched_resolve : (resolve chain subjectKind subjectId groupIds).touched = false ↔
    chain.naming subjectKind subjectId groupIds = [] := by
  rw [← map_collected, List.map_eq_nil_iff, ← List.isEmpty_iff]
  simp only [resolve]
  split
  · rename_i hempty
    simp [Decision.untouched, hempty]
  · rename_i hempty
    split <;> simp [hempty]

/-- **The order does not matter**, nor at which node a grant is. -/
theorem resolve_perm (h : chain'.grants.Perm chain.grants) :
    (resolve chain' subjectKind subjectId groupIds).effective
      = (resolve chain subjectKind subjectId groupIds).effective ∧
      (resolve chain' subjectKind subjectId groupIds).touched
        = (resolve chain subjectKind subjectId groupIds).touched := by
  have hnaming : (chain'.naming subjectKind subjectId groupIds).Perm (chain.naming subjectKind subjectId groupIds) :=
    h.filter _
  constructor
  · apply Capabilities.ext_has
    intro bit
    rw [Bool.eq_iff_iff, has_resolve, has_resolve]
    simp only [hnaming.mem_iff]
  · rw [← Bool.not_inj_iff, Bool.eq_iff_iff]
    simp only [Bool.not_eq_true', touched_resolve]
    exact ⟨fun h' => (h' ▸ hnaming).nil_eq.symm, fun h' => (h' ▸ hnaming).eq_nil⟩

theorem resolve_deny (hdeny : grant.effect = .deny) (h : chain'.grants.Perm (grant :: chain.grants))
    (hbit : (resolve chain' subjectKind subjectId groupIds).effective.has bit = true) :
    (resolve chain subjectKind subjectId groupIds).effective.has bit = true := by
  have hmem : ∀ x, x ∈ chain'.naming subjectKind subjectId groupIds ↔
      (x = grant ∨ x ∈ chain.grants) ∧ x.named subjectKind subjectId groupIds = true := by
    intro x
    rw [Chain.naming, List.mem_filter, h.mem_iff, List.mem_cons]
  rw [has_resolve] at hbit ⊢
  obtain ⟨⟨x, hx, hallow, hhas⟩, hnone⟩ := hbit
  have hne : x ≠ grant := by
    rintro rfl
    rw [hallow] at hdeny
    cases hdeny
  obtain ⟨hx, hnamed⟩ := (hmem x).mp hx
  refine ⟨⟨x, List.mem_filter.mpr ⟨hx.resolve_left hne, hnamed⟩, hallow, hhas⟩, fun y hy => hnone y ?_⟩
  obtain ⟨hy, hnamed⟩ := List.mem_filter.mp hy
  exact (hmem y).mpr ⟨.inr hy, hnamed⟩

end Resolve

/-! ### The chain of a file -/

namespace Library

variable {s : Library} {mediaId id : Uuid} {folderId : Option Uuid} {grant : Grant}

/-- The folder a folder is in. -/
def parent (s : Library) (id : Uuid) : Option Uuid := (s.folders.find? id).bind (·.parentId)

/-- The folder is so many levels above the file, whose own folder is at level 0. -/
def At (s : Library) (folderId : Option Uuid) (level : ℕ) (folder : Folder) : Prop :=
  folder ∈ s.folders ∧ folderId.bind (Forest.climb s.parent level) = some folder.id

theorem mem_listGrants {target : GrantTarget} :
    grant ∈ s.listGrants target ↔ grant ∈ s.grants ∧ (grant.folderId, grant.mediaId) = target.columns := by
  rw [listGrants, Sorting.mem_sortBy, List.mem_filter, Bool.and_eq_true, decide_eq_true_eq, decide_eq_true_eq,
    Prod.ext_iff, Table.mem_def]

/-- The walk visits the folders of the first levels. -/
theorem mem_walk {hops : ℕ} {node : ChainNode} : node ∈ s.walk hops folderId ↔
    ∃ level < hops, ∃ folder, s.At folderId level folder ∧ node = ⟨folder, s.listGrants (.folder folder.id)⟩ := by
  induction hops generalizing folderId with
  | zero => simp [walk]
  | succ hops ih =>
    cases folderId with
    | none => simp [walk, At]
    | some id =>
      cases hfind : s.folders.find? id with
      | none =>
        -- nothing is above a folder that does not exist
        have hnone : ∀ level folder, ¬ s.At (some id) level folder := by
          rintro level folder ⟨hfolder, hclimb⟩
          cases level with
          | zero =>
            obtain rfl : id = folder.id := by simpa [Forest.climb] using hclimb
            exact Table.find?_eq_none.mp hfind folder hfolder rfl
          | succ level => simp [Forest.climb, parent, hfind] at hclimb
        simp [walk, hfind, hnone]
      | some own =>
        obtain ⟨hown, rfl⟩ := Table.find?_eq_some.mp hfind
        have hzero : ∀ folder, s.At (some own.id) 0 folder ↔ folder = own := by
          intro folder
          constructor
          · rintro ⟨hfolder, hid⟩
            exact Table.eq_of_key hfolder hown (by simpa [Forest.climb] using hid.symm)
          · rintro rfl
            exact ⟨hown, rfl⟩
        have hsucc : ∀ level folder, s.At (some own.id) (level + 1) folder ↔ s.At own.parentId level folder := by
          intro level folder
          simp [At, Forest.climb, parent, hfind]
        rw [walk, hfind, List.mem_cons, ih]
        constructor
        · rintro (rfl | ⟨level, hlevel, folder, hat, rfl⟩)
          · exact ⟨0, Nat.succ_pos hops, own, (hzero own).mpr rfl, rfl⟩
          · exact ⟨level + 1, Nat.succ_lt_succ hlevel, folder, (hsucc level folder).mpr hat, rfl⟩
        · rintro ⟨level, hlevel, folder, hat, rfl⟩
          cases level with
          | zero =>
            obtain rfl := (hzero folder).mp hat
            exact .inl rfl
          | succ level =>
            exact .inr ⟨level, Nat.lt_of_succ_lt_succ hlevel, folder, (hsucc level folder).mp hat, rfl⟩

/-- The grant is on the file, or on a folder above it at a level that is looked at. -/
def OnChain (s : Library) (mediaId : Uuid) (folderId : Option Uuid) (looked : ℕ → Prop) (grant : Grant) : Prop :=
  grant ∈ s.grants ∧ ((grant.folderId, grant.mediaId) = (GrantTarget.file mediaId).columns ∨
    ∃ level, looked level ∧ ∃ folder, s.At folderId level folder ∧
      (grant.folderId, grant.mediaId) = (GrantTarget.folder folder.id).columns)

theorem mem_grants_loadChain :
    grant ∈ (s.loadChain mediaId folderId).grants ↔ s.OnChain mediaId folderId (· < maxChainDepth) grant := by
  simp only [Chain.grants, loadChain, List.mem_append, List.mem_flatMap, mem_walk, mem_listGrants, OnChain]
  constructor
  · rintro (⟨hgrant, hfile⟩ | ⟨node, ⟨level, hlevel, folder, hat, rfl⟩, hnode⟩)
    · exact ⟨hgrant, .inl hfile⟩
    · have hnode : grant ∈ s.listGrants (.folder folder.id) := hnode
      obtain ⟨hgrant, hfolder⟩ := mem_listGrants.mp hnode
      exact ⟨hgrant, .inr ⟨level, hlevel, folder, hat, hfolder⟩⟩
  · rintro ⟨hgrant, hfile | ⟨level, hlevel, folder, hat, hfolder⟩⟩
    · exact .inl ⟨hgrant, hfile⟩
    · exact .inr ⟨_, ⟨level, hlevel, folder, hat, rfl⟩, mem_listGrants.mpr ⟨hgrant, hfolder⟩⟩

end Library

/-! ### What the grants say of a user -/

/-- The grant names the user, one of his groups or one of his roles. -/
def Grant.Covers (userId : Uuid) (groupIds roleIds : List Uuid) (grant : Grant) : Prop :=
  match grant.subjectKind with
  | .user => grant.subjectId = userId
  | .group => grant.subjectId ∈ groupIds
  | .role => grant.subjectId ∈ roleIds

theorem named_iff {userId : Uuid} {groupIds : List Uuid} {grant : Grant} :
    grant.named .user userId groupIds = true ↔ grant.Covers userId groupIds [] := by
  cases h : grant.subjectKind <;> simp [Grant.named, Grant.Covers, h]

section Rule

variable (s : Library) (mediaId : Uuid) (folderId : Option Uuid) (userId : Uuid) (groupIds roleIds : List Uuid)

/-- The grants for the user on the file's whole chain. -/
def Matching (grant : Grant) : Prop :=
  s.OnChain mediaId folderId (fun _ => True) grant ∧ grant.Covers userId groupIds roleIds

/-- Those that are read: for the user or a group, on a folder of the first 64 levels. -/
def Read (grant : Grant) : Prop :=
  s.OnChain mediaId folderId (· < maxChainDepth) grant ∧ grant.Covers userId groupIds []

/-- Those that are not. -/
def Skipped (grant : Grant) : Prop :=
  Matching s mediaId folderId userId groupIds roleIds grant ∧ ¬ Read s mediaId folderId userId groupIds grant

def Says (kind : Grant → Prop) (effect : Effect) (bit : Capabilities.Bit) : Prop :=
  ∃ grant, kind grant ∧ grant.effect = effect ∧ grant.capabilities.has bit = true

/-- **The rule**: what is left to the user is what the grants for him on the file's whole chain allow and
none of them denies. -/
structure Governs (decision : Decision) : Prop where
  /-- The union of the allows without the union of the denies. -/
  effective : ∀ bit, decision.effective.has bit = true ↔
    Says (Matching s mediaId folderId userId groupIds roleIds) .allow bit ∧
      ¬ Says (Matching s mediaId folderId userId groupIds roleIds) .deny bit
  /-- Nothing, when all of them deny. -/
  denied : (∀ grant, Matching s mediaId folderId userId groupIds roleIds grant → grant.effect = .deny) →
    decision.effective = .none
  /-- Untouched, when there are none. -/
  untouched : decision.touched = false ↔ ∀ grant, ¬ Matching s mediaId folderId userId groupIds roleIds grant
  /-- The order of the grants does not matter. -/
  order : ∀ chain : Chain, chain.grants.Perm (s.loadChain mediaId folderId).grants →
    (resolve chain .user userId groupIds).effective = decision.effective ∧
      (resolve chain .user userId groupIds).touched = decision.touched
  /-- One more grant that denies adds no bit. -/
  deny : ∀ (chain : Chain) (grant : Grant), grant.effect = .deny →
    chain.grants.Perm (grant :: (s.loadChain mediaId folderId).grants) →
    ∀ bit, (resolve chain .user userId groupIds).effective.has bit = true → decision.effective.has bit = true

/-- The grants that are not read make no difference. -/
structure Unaffected : Prop where
  /-- Where there is one, there is one that is read. -/
  touched : (∃ grant, Skipped s mediaId folderId userId groupIds roleIds grant) →
    ∃ grant, Read s mediaId folderId userId groupIds grant
  /-- They deny nothing that is left to the user. -/
  kept : ∀ bit, ¬ Says (Read s mediaId folderId userId groupIds) .deny bit →
    Says (Read s mediaId folderId userId groupIds) .allow bit →
      ¬ Says (Skipped s mediaId folderId userId groupIds roleIds) .deny bit
  /-- They allow nothing that is not, unless they deny it too. -/
  added : ∀ bit, ¬ Says (Read s mediaId folderId userId groupIds) .deny bit →
    ¬ Says (Read s mediaId folderId userId groupIds) .allow bit →
      Says (Skipped s mediaId folderId userId groupIds roleIds) .allow bit →
        Says (Skipped s mediaId folderId userId groupIds roleIds) .deny bit

variable {s mediaId folderId userId groupIds roleIds} {grant : Grant} {bit : Capabilities.Bit} {effect : Effect}

theorem mem_naming : grant ∈ (s.loadChain mediaId folderId).naming .user userId groupIds ↔
    Read s mediaId folderId userId groupIds grant := by
  rw [Chain.naming, List.mem_filter, Library.mem_grants_loadChain, named_iff, Read]

theorem Read.matching (h : Read s mediaId folderId userId groupIds grant) :
    Matching s mediaId folderId userId groupIds roleIds grant := by
  obtain ⟨⟨hgrant, hplace⟩, hcovers⟩ := h
  refine ⟨⟨hgrant, hplace.imp_right fun ⟨level, _, hat⟩ => ⟨level, trivial, hat⟩⟩, ?_⟩
  cases h : grant.subjectKind <;> simp_all [Grant.Covers]

theorem matching_iff : Matching s mediaId folderId userId groupIds roleIds grant ↔
    Read s mediaId folderId userId groupIds grant ∨ Skipped s mediaId folderId userId groupIds roleIds grant := by
  constructor
  · intro h
    by_cases hread : Read s mediaId folderId userId groupIds grant
    · exact .inl hread
    · exact .inr ⟨h, hread⟩
  · rintro (h | h)
    · exact h.matching
    · exact h.1

theorem says_matching : Says (Matching s mediaId folderId userId groupIds roleIds) effect bit ↔
    Says (Read s mediaId folderId userId groupIds) effect bit ∨
      Says (Skipped s mediaId folderId userId groupIds roleIds) effect bit := by
  simp only [Says, matching_iff, or_and_right, exists_or]

theorem has_decide : (s.decide mediaId folderId userId groupIds).effective.has bit = true ↔
    Says (Read s mediaId folderId userId groupIds) .allow bit ∧
      ¬ Says (Read s mediaId folderId userId groupIds) .deny bit := by
  simp only [Library.decide, has_resolve, mem_naming, Says, not_exists, not_and, Bool.not_eq_true]

theorem touched_decide : (s.decide mediaId folderId userId groupIds).touched = false ↔
    ∀ grant, ¬ Read s mediaId folderId userId groupIds grant := by
  simp only [Library.decide, touched_resolve, List.eq_nil_iff_forall_not_mem, mem_naming]

/-- Where the grants that are not read make no difference, what is left is what the grants say. -/
theorem Unaffected.effective (h : Unaffected s mediaId folderId userId groupIds roleIds) (bit : Capabilities.Bit) :
    (s.decide mediaId folderId userId groupIds).effective.has bit = true ↔
      Says (Matching s mediaId folderId userId groupIds roleIds) .allow bit ∧
        ¬ Says (Matching s mediaId folderId userId groupIds roleIds) .deny bit := by
  rw [has_decide, says_matching, says_matching]
  constructor
  · rintro ⟨hallow, hdeny⟩
    exact ⟨.inl hallow, not_or.mpr ⟨hdeny, h.kept bit hdeny hallow⟩⟩
  · rintro ⟨hallow, hdeny⟩
    obtain ⟨hdeny, hskipped⟩ := not_or.mp hdeny
    refine ⟨?_, hdeny⟩
    by_contra hread
    exact hskipped (h.added bit hdeny hread (hallow.resolve_left hread))

theorem Unaffected.governs (h : Unaffected s mediaId folderId userId groupIds roleIds) :
    Governs s mediaId folderId userId groupIds roleIds (s.decide mediaId folderId userId groupIds) := by
  refine ⟨h.effective, fun hall => ?_, ?_, fun chain hperm => resolve_perm hperm, fun chain grant hdeny hperm bit =>
    resolve_deny hdeny hperm⟩
  · apply Capabilities.ext_has
    intro bit
    rw [Capabilities.has_none, Bool.eq_false_iff, Ne, h.effective]
    rintro ⟨⟨grant, hgrant, hallow, -⟩, -⟩
    rw [hall grant hgrant] at hallow
    cases hallow
  · rw [touched_decide]
    constructor
    · intro hread grant hgrant
      rcases matching_iff.mp hgrant with hgrant | hgrant
      · exact hread grant hgrant
      · obtain ⟨other, hother⟩ := h.touched ⟨grant, hgrant⟩
        exact hread other hother
    · exact fun hnone grant hread => hnone grant hread.matching

theorem Governs.unaffected
    (h : Governs s mediaId folderId userId groupIds roleIds (s.decide mediaId folderId userId groupIds)) :
    Unaffected s mediaId folderId userId groupIds roleIds := by
  have hbit := fun bit => (has_decide.symm.trans (h.effective bit)).trans (and_congr says_matching
    (not_congr says_matching))
  refine ⟨fun ⟨grant, hskipped⟩ => ?_, fun bit hdeny hallow => ?_, fun bit hdeny hallow hskipped => ?_⟩
  · by_contra hread
    have htouched := touched_decide.mpr (not_exists.mp hread)
    exact h.untouched.mp htouched grant hskipped.1
  · exact fun hskipped => ((hbit bit).mp ⟨hallow, hdeny⟩).2 (.inr hskipped)
  · by_contra hnone
    exact hallow ((hbit bit).mpr ⟨.inr hskipped, not_or.mpr ⟨hdeny, hnone⟩⟩).1

variable (s mediaId folderId userId groupIds roleIds)

/-- **The decision about a user is what the grants say of him**, just when the grants that are not read make
no difference. -/
theorem resolve_governs_iff :
    Governs s mediaId folderId userId groupIds roleIds (s.decide mediaId folderId userId groupIds) ↔
      Unaffected s mediaId folderId userId groupIds roleIds :=
  ⟨Governs.unaffected, Unaffected.governs⟩

end Rule

/-! ### Two grants that are not read -/

/-- A grant of reading and sharing, or a denial of them. -/
def readingGrant (id : Uuid) (target : GrantTarget) (subjectKind : SubjectKind) (subjectId : Uuid) (effect : Effect) :
    Grant where
  id := id
  folderId := target.columns.1
  mediaId := target.columns.2
  subjectKind := subjectKind
  subjectId := subjectId
  canRead := true
  canWrite := false
  canDelete := false
  canShare := true
  effect := effect
  createdBy := none
  createdAt := 0

/-- Group 5 may read folder 1, and role 3 may not. -/
def roleLibrary : Library where
  folders := ⟨[⟨1, none⟩], by decide⟩
  grants := ⟨[readingGrant 1 (.folder 1) .group 5 .allow, readingGrant 2 (.folder 1) .role 3 .deny], by decide⟩

/-- A member of the group who has the role may read file 9 in folder 1. -/
theorem role_skipped : ¬ Governs roleLibrary 9 (some 1) 7 [5] [3] (roleLibrary.decide 9 (some 1) 7 [5]) := by
  intro h
  have hread : (roleLibrary.decide 9 (some 1) 7 [5]).effective.has .read = true := by decide +kernel
  obtain ⟨-, hdeny⟩ := (h.effective .read).mp hread
  have hat : roleLibrary.At (some 1) 0 ⟨1, none⟩ := ⟨List.mem_singleton.mpr rfl, rfl⟩
  have hcovers : (readingGrant 2 (.folder 1) .role 3 .deny).Covers 7 [5] [3] := List.mem_singleton.mpr rfl
  exact hdeny ⟨_, ⟨⟨List.mem_cons_of_mem _ (List.mem_singleton.mpr rfl), .inr ⟨0, trivial, _, hat, rfl⟩⟩, hcovers⟩, rfl,
    rfl⟩

end Omnion.Media
