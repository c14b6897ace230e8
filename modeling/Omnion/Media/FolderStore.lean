import Omnion.Library.Run
import Omnion.Library.Versions
import Omnion.Media.Folders

/-!
# The folders of a site

`crates/media/src/folder_store.rs` and the routes of `apps/api/src/routes/media_files.rs` that call it: folders are
created, moved with everything below them, and deleted. A folder's path is a second copy of the links above it.

## The model

Any number of calls run next to each other, one statement a step. To create a folder is to read its parent, and then
to insert it with the path this read made. To move one is to read it and its new parent, and then, in a transaction,
to lock it, to select the rows below it, to rewrite them, to write the folder itself, and to commit. What a transaction
writes nobody else sees before that. The rows below are rewritten at once, when nobody else holds one of those that
were selected; a row that was waited for is tested again. To delete a folder is to look for it, for folders and for
files in it, and then to delete it.

Beside that, a folder locked for an update is waited for by whoever would hang another one below it, and the other way
round; and two folders that would have one place in an index wait for each other. A deadlock ends a transaction, as a
lost connection does (`drop`).

## What is proved

* `run_materialised` — in a run whose steps keep the paths (`fits`), every path is what the links say, and the links
  are acyclic, in any interleaving. The invariant is `Sound`; what a move that commits does to the tree is `Moved` of
  the library, and that it leaves the other moves alone is `Moved.apart`.
* `underscore_matches` — a move rewrites the paths in another folder.

## Honest scope

A site begins without folders. The columns of a folder that no statement here tests are left out, and so are the files
in it, whose number is an argument.
-/

namespace Omnion.Media.Folders

open Paths Versions

/-! ### Calls -/

/-- A move that holds its folder. -/
structure Moving where
  id : Uuid
  target : FolderMove
  current : Folder
  newPath : String
  deriving DecidableEq

/-- How far a call has come. -/
inductive FolderCall where
  | idle
  /-- `create_folder` has read the parent. -/
  | creating (new : NewFolder)
  /-- The route of `move_folder` has read the folder, -/
  | found (id : Uuid) (existing : Folder)
  /-- and the new parent. -/
  | targeted (id : Uuid) (target : FolderMove)
  /-- `move_folder` has locked the folder, -/
  | locked (m : Moving)
  /-- selected the rows below it, -/
  | matching (m : Moving) (matched : List Uuid)
  /-- rewritten them, -/
  | rewritten (m : Moving)
  /-- and written the folder. -/
  | placed (m : Moving) (moved : Folder)
  /-- `delete_empty_folder` has found the folder, -/
  | deleting (id : Uuid)
  /-- no folder in it, -/
  | childless (id : Uuid)
  /-- and no file. -/
  | vacated (id : Uuid)
  | answered (answer : Except MediaError (Option Folder))
  deriving DecidableEq

def FolderCall.locks : FolderCall → Option Uuid
  | .locked m | .matching m _ | .rewritten m | .placed m _ => some m.id
  | _ => none

/-- The move a call has rewritten the paths for. -/
def FolderCall.rewrites : FolderCall → Option Moving
  | .rewritten m | .placed m _ => some m
  | _ => none

/-- The table `media_folders` of a site, and the calls. -/
structure FolderStore where
  ids : List Uuid := []
  rows : Rows Uuid ℕ Folder := fun _ => {}
  calls : ℕ → FolderCall := fun _ => .idle

/-- What happens. -/
inductive FolderStep where
  /-- `root_folder` finds no root, and inserts it. -/
  | root (id : Uuid)
  /-- `create_folder`: the parent is read, -/
  | create (i : ℕ) (parentId : Option Uuid) (name : String)
  /-- and the folder inserted. -/
  | insert (i : ℕ) (id : Uuid)
  /-- `move_folder`: the folder is read, -/
  | find (i : ℕ) (id : Uuid)
  /-- then the parent; -/
  | target (i : ℕ) (parentId : Option Uuid) (name : Option String)
  /-- the folder is locked, -/
  | lock (i : ℕ)
  /-- the rows below it are selected, -/
  | select (i : ℕ)
  /-- and rewritten; -/
  | rewrite (i : ℕ)
  /-- the folder is written, -/
  | place (i : ℕ)
  /-- and the transaction commits. -/
  | commit (i : ℕ)
  /-- The transaction of a move ends otherwise. -/
  | drop (i : ℕ)
  /-- `delete_empty_folder`: the folder is read, -/
  | delete (i : ℕ) (id : Uuid)
  /-- the folders in it are counted, -/
  | countFolders (i : ℕ)
  /-- and the files; -/
  | countFiles (i : ℕ) (files : ℕ)
  /-- then it is deleted. -/
  | remove (i : ℕ)

/-! ### Steps -/

/-- `create_folder`, up to the insert. -/
def createFolder (parentId : Uuid) (parent : Folder) (raw : String) : Except MediaError NewFolder := do
  let name := sanitizeFolderName raw
  validateFolderName name
  let path ← childPath parent.path name
  return { parentId, name, parentPath := path }

/-- `move_folder`, once the folder is locked: nothing where it stays in its place. -/
def planMove (id : Uuid) (target : FolderMove) (current : Folder) : Except MediaError (Option Moving) := do
  let newPath ← childPath target.parentPath target.name
  if newPath = current.path then return none
  if isBelow current.path newPath || isBelow newPath current.path then throw (.folderCycle newPath)
  return some { id, target, current, newPath }

namespace FolderStore

variable (s : FolderStore) (i : ℕ)

/-- Call `i` goes on. -/
def become (call : FolderCall) : FolderStore := { s with calls := Function.update s.calls i call }

/-- Call `i` fails. -/
def refuse (error : MediaError) : FolderStore := s.become i (.answered (.error error))

/-- Call `i` writes a row, -/
def write (call : FolderCall) (k : Uuid) (f : Folder) : FolderStore :=
    { s.become i call with rows := s.rows.write i k (some f) }

/-- or the paths of those it has selected; a row that was waited for is tested again. -/
def rewritePaths (m : Moving) (matched : List Uuid) : FolderStore :=
  { s.become i (.rewritten m) with
    rows := s.rows.change i (fun k f => k ∈ matched && inSubtree m.current.path f.path)
      fun f => some (f.rewritten m.current.path m.newPath) }

/-- Call `i` commits. -/
def commit (call : FolderCall) : FolderStore := { s.become i call with rows := s.rows.commit i }

/-- Call `i` ends, and nothing it has written stays. -/
def rollback (call : FolderCall) : FolderStore := { s.become i call with rows := s.rows.rollback i }

/-- `where site_id = $1 and parent_id is null`. -/
def findRoot : Option (Uuid × Folder) :=
  s.ids.findSome? fun k => ((s.rows.read k).filter Folder.isRoot).map (k, ·)

/-- `folder_in_scope`, or the root of the library. -/
def parent : Option Uuid → Option (Uuid × Folder)
  | some id => (s.rows.read id).map (id, ·)
  | none => s.findRoot

/-- Some row meets a test. -/
def anyRow (p : Uuid → Row ℕ Folder → Bool) : Bool := s.ids.any fun k => p k (s.rows k)

/-- Another row than `k` has the place of a version in an index, and keeps it. -/
def taken (k : Uuid) (f : Folder) : Bool := s.anyRow fun l x => l ≠ k && x.clashes Folder.indexed i f.entry && x.free i

/-- No other row than `k` may come to have it. -/
def vacant (k : Uuid) (f : Folder) : Bool := !s.anyRow fun l x => l ≠ k && !x.vacant Folder.indexed i f.entry

/-- The row is locked for an update. -/
def keyLocked (k : Uuid) : Bool := (s.rows k).held.any fun w => (s.calls w.1).locks = some k

/-- A folder was moved below `k`, and not committed. -/
def shared (k : Uuid) : Bool :=
  s.anyRow fun _ x => x.held.any fun w => w.2.any (·.parentId = some k) && !x.committed.any (·.parentId = some k)

/-- A folder that is moved is below `k`, or was. -/
def pending (k : Uuid) : Bool :=
  s.anyRow fun _ x => x.held.any fun w => w.2.any (·.parentId = some k) || x.committed.any (·.parentId = some k)

/-- How many folders there are in a folder. -/
def children (k : Uuid) : ℕ := (s.ids.filter fun l => (s.rows.read l).any (·.parentId = some k)).length

/-- The folders at a path, as call `i` sees them. -/
def atPath (path : String) : List Uuid := s.ids.filter fun k => (s.rows.view i k).any (·.path = path)

/-- `where site_id = $4 and (path = $1 or path like $2) and id <> $5`. -/
def selected (m : Moving) : List Uuid :=
  s.ids.filter fun k => k ≠ m.id ∧ (s.rows.view i k).any fun f => inSubtree m.current.path f.path

end FolderStore

def folderStep (s : FolderStore) : FolderStep → Option FolderStore
  | .root id =>
    if id ∈ s.ids ∨ s.findRoot.isSome then none
    else some { s with ids := id :: s.ids, rows := s.rows.put id (some ⟨none, ROOT_FOLDER_NAME, ROOT_FOLDER_NAME⟩) }
  | .create i parentId raw =>
    match s.calls i, s.parent parentId with
    | .idle, some (id, parent) =>
      match createFolder id parent raw with
      | .ok new => some (s.become i (.creating new))
      | .error e => some (s.refuse i e)
    | .idle, none => if parentId.isSome then some (s.refuse i .folderNotFound) else none
    | _, _ => none
  | .insert i id =>
    match s.calls i with
    | .creating new =>
      let folder : Folder := { parentId := some new.parentId, name := new.name, path := new.parentPath }
      if id ∈ s.ids then none
      else if !nameNotBlank new.name then some (s.refuse i .database)
      else if s.taken i id folder then some (s.refuse i .folderNameTaken)
      else if (s.rows.read new.parentId).isNone then some (s.refuse i .database)
      else if s.keyLocked new.parentId || !s.vacant i id folder then none
      else some { s.become i (.answered (.ok (some folder))) with
        ids := id :: s.ids, rows := s.rows.put id (some folder) }
    | _ => none
  | .find i id =>
    match s.calls i, s.rows.read id with
    | .idle, some existing => some (s.become i (.found id existing))
    | .idle, none => some (s.refuse i .folderNotFound)
    | _, _ => none
  | .target i parentId raw =>
    match s.calls i with
    | .found id existing =>
      match s.parent (parentId <|> existing.parentId) with
      | some (_, parent) =>
        match raw with
        | some raw =>
          match validateFolderName (sanitizeFolderName raw) with
          | .ok _ => some (s.become i (.targeted id { name := sanitizeFolderName raw, parentPath := parent.path }))
          | .error e => some (s.refuse i e)
        | none => some (s.become i (.targeted id { name := existing.name, parentPath := parent.path }))
      | none => if (parentId <|> existing.parentId).isSome then some (s.refuse i .folderNotFound) else none
    | _ => none
  | .lock i =>
    match s.calls i with
    | .targeted id target =>
      if (s.rows id).held.isSome || s.shared id then none
      else
        match s.rows.read id with
        | some current =>
          match planMove id target current with
          | .ok (some m) => some (s.write i (.locked m) id current)
          | .ok none => some (s.become i (.answered (.ok (some current))))
          | .error e => some (s.refuse i e)
        | none => some (s.refuse i .folderNotFound)
    | _ => none
  | .select i =>
    match s.calls i with
    | .locked m => some (s.become i (.matching m (s.selected i m)))
    | _ => none
  | .rewrite i =>
    match s.calls i with
    | .matching m matched =>
      if matched.all fun k => (s.rows k).free i then some (s.rewritePaths i m matched) else none
    | _ => none
  | .place i =>
    match s.calls i with
    | .rewritten m =>
      let parents := s.atPath i m.target.parentPath
      let moved : Folder := { parentId := parents.head?, name := m.target.name, path := m.newPath }
      if 1 < parents.length ∨ moved.parentId = some m.id ∨ nameNotBlank moved.name = false ∨
        s.taken i m.id moved = true then
        some (s.rollback i (.answered (.error .database)))
      else if !s.vacant i m.id moved || (moved.parentId ≠ m.current.parentId && moved.parentId.any
        s.keyLocked) then none
      else some (s.write i (.placed m moved) m.id moved)
    | _ => none
  | .commit i =>
    match s.calls i with
    | .placed _ moved => some (s.commit i (.answered (.ok (some moved))))
    | _ => none
  | .drop i => if (s.calls i).locks.isSome then some (s.rollback i (.answered (.error .database))) else none
  | .delete i id =>
    match s.calls i, s.rows.read id with
    | .idle, some folder =>
      if folder.isRoot then some (s.refuse i .rootFolderProtected) else some (s.become i (.deleting id))
    | .idle, none => some (s.refuse i .folderNotFound)
    | _, _ => none
  | .countFolders i =>
    match s.calls i with
    | .deleting id =>
      if 0 < s.children id then some (s.refuse i (.folderNotEmpty "folders" (s.children id)))
      else some (s.become i (.childless id))
    | _ => none
  | .countFiles i files =>
    match s.calls i with
    | .childless id =>
      if 0 < files then some (s.refuse i (.folderNotEmpty "files" files)) else some (s.become i (.vacated id))
    | _ => none
  | .remove i =>
    match s.calls i with
    | .vacated id =>
      if (s.rows id).held.isSome || s.pending id then none
      else if (s.rows.read id).isNone then some (s.refuse i .folderNotFound)
      else if 0 < s.children id then some (s.refuse i .database)
      else some { s.become i (.answered (.ok none)) with rows := s.rows.put id none }
    | _ => none

/-! ### What is to hold -/

/-- The folder above. -/
def parentOf (read : Uuid → Option Folder) (k : Uuid) : Option Uuid := (read k).bind (·.parentId)

/-- A folder's path is its name where it is the root, and else follows from the path of its parent. -/
def Folder.Follows (read : Uuid → Option Folder) (f : Folder) : Prop :=
  match f.parentId with
  | none => f.path = f.name
  | some p => ∃ parent, read p = some parent ∧ f.path = parent.childPath f.name

namespace FolderStore

variable (s : FolderStore)

/-- A move has rewritten the row, and not committed. -/
def touched (k : Uuid) : Bool := (s.rows k).held.any fun w => (s.calls w.1).rewrites.isSome

/-- A folder is inserted with the path that its parent has, and no move has rewritten the parent. -/
def insertFits (new : NewFolder) : Bool :=
  (s.rows.read new.parentId).all fun parent => new.parentPath = parent.childPath new.name && !s.touched new.parentId

/-- The rows that are rewritten are those below the folder, and no other move has placed its folder among them. -/
def rewriteFits (m : Moving) (matched : List Uuid) : Bool :=
  let goes (k : Uuid) : Bool := k = m.id || (s.rows.read k).any fun f => isBelow m.current.path f.path
  s.ids.all fun k =>
    (k = m.id || (s.rows.read k).all fun f =>
      (decide (k ∈ matched) && inSubtree m.current.path f.path) = isBelow m.current.path f.path) &&
    (s.rows k).held.all fun w =>
      match s.calls w.1 with
      | .placed _ moved => !moved.parentId.any goes
      | _ => true

/-- No move has rewritten the folder that is to be the parent. -/
def placeFits (i : ℕ) (m : Moving) : Bool := (s.atPath i m.target.parentPath).all fun g => !s.touched g

/-- The step keeps the paths, as far as it is for it to do. -/
def fits : FolderStep → Bool
  | .insert i _ =>
    match s.calls i with
    | .creating new => s.insertFits new
    | _ => true
  | .rewrite i =>
    match s.calls i with
    | .matching m matched => s.rewriteFits m matched
    | _ => true
  | .place i =>
    match s.calls i with
    | .rewritten m => s.placeFits i m
    | _ => true
  | _ => true

end FolderStore

/-! ### The tree -/

def nodes (read : Uuid → Option Folder) (k : Uuid) : Option (Node Uuid Char) := (read k).map Folder.node

/-- The path begins at the root of the library. -/
def Rooted (path : String) : Prop := path = ROOT_FOLDER_NAME ∨ isBelow ROOT_FOLDER_NAME path = true

/-- **A tree of folders**: every path is what the links say. -/
structure Tree (read : Uuid → Option Folder) : Prop where
  consistent : Consistent '/' (nodes read)
  names : ∀ k f, read k = some f → Segment f.name
  root : ∀ k f, read k = some f → f.parentId = none → f.name = ROOT_FOLDER_NAME

section Tree

variable {read : Uuid → Option Folder} {k l p : Uuid} {f g parent : Folder} {a : Node Uuid Char}

theorem nodes_eq_some : nodes read k = some a ↔ ∃ f, read k = some f ∧ f.node = a := Option.map_eq_some_iff

theorem nodes_of_read (h : read k = some f) : nodes read k = some f.node := by rw [nodes, h, Option.map_some]

theorem Tree.of_root (h : Tree read) (hk : read k = some f) (hp : f.parentId = none) : f.path = f.name :=
  String.toList_inj.mp (h.consistent.of_root (nodes_of_read hk) hp)

theorem Tree.of_parent (h : Tree read) (hk : read k = some f) (hp : f.parentId = some p) :
    ∃ parent, read p = some parent ∧ f.path = parent.childPath f.name := by
  obtain ⟨b, hb, hpath⟩ := h.consistent.of_parent (nodes_of_read hk) hp
  obtain ⟨parent, hparent, rfl⟩ := nodes_eq_some.mp hb
  exact ⟨parent, hparent, String.toList_inj.mp (hpath.trans toList_join.symm)⟩

theorem Tree.clean (h : Tree read) (hk : read k = some f) : Clean f.path := by
  suffices hall : ∀ k a, nodes read k = some a → Clean (String.ofList a.path) by
    have hclean := hall k f.node (nodes_of_read hk)
    rwa [Folder.node, String.ofList_toList] at hclean
  refine h.consistent.induction (fun k a hk _ hpath => ?_) fun k a p b hk _ _ hpath ih => ?_
  · obtain ⟨f, hf, rfl⟩ := nodes_eq_some.mp hk
    rw [hpath, Folder.node, String.ofList_toList]
    exact (h.names k f hf).clean
  · obtain ⟨f, hf, rfl⟩ := nodes_eq_some.mp hk
    have hjoin : String.ofList f.node.path = String.ofList b.path ++ "/" ++ f.name := by
      rw [hpath, ← String.toList_inj, toList_join, String.toList_ofList, String.toList_ofList]
      rfl
    rw [hjoin]
    exact ih.join (h.names k f hf)

theorem Tree.exists_root (h : Tree read) (hk : read k = some f) :
    ∃ r root, read r = some root ∧ root.parentId = none ∧ (f.path = root.path ∨ isBelow root.path f.path = true) := by
  obtain ⟨r, b, hr, hroot, hpath⟩ := h.consistent.exists_root k f.node (nodes_of_read hk)
  obtain ⟨root, hread, rfl⟩ := nodes_eq_some.mp hr
  exact ⟨r, root, hread, hroot, hpath.imp String.toList_inj.mp isBelow_iff.mpr⟩

theorem Tree.rooted (h : Tree read) (hk : read k = some f) : Rooted f.path := by
  obtain ⟨r, root, hr, hroot, hpath⟩ := h.exists_root hk
  rwa [h.of_root hr hroot, h.root r root hr hroot] at hpath

theorem isBelow_of_segment {old path : String} (h : Segment path) : isBelow old path = false := by
  rw [← Bool.not_eq_true, isBelow_iff]
  exact not_below_of_not_mem h.2

/-- The first folder is the root. -/
theorem Tree.single (h : ∀ k, read k = none) : Tree (Function.update read k
    (some ⟨none, ROOT_FOLDER_NAME, ROOT_FOLDER_NAME⟩)) := by
  have honly : ∀ l f, Function.update read k (some ⟨none, ROOT_FOLDER_NAME, ROOT_FOLDER_NAME⟩) l = some f →
      f = ⟨none, ROOT_FOLDER_NAME, ROOT_FOLDER_NAME⟩ := by
    intro l f hl
    by_cases hlk : l = k
    · subst hlk
      rw [Function.update_self] at hl
      exact (Option.some.inj hl).symm
    · rw [Function.update_of_ne hlk, h l] at hl
      cases hl
  refine ⟨⟨fun l a hl => ?_, fun l a hl => ?_⟩, fun l f hl => ?_, fun l f hl _ => ?_⟩
  · obtain ⟨f, hf, rfl⟩ := nodes_eq_some.mp hl
    rw [honly l f hf]
    rfl
  · obtain ⟨f, hf, rfl⟩ := nodes_eq_some.mp hl
    rw [honly l f hf]
    decide
  · rw [honly l f hl]
    exact ⟨by decide, by decide⟩
  · rw [honly l f hl]

/-- A folder is inserted with the path that follows from its parent's. -/
theorem Tree.insert (h : Tree read) (hnew : read k = none) (hname : Segment f.name) (hp : f.parentId = some p)
    (hparent : read p = some parent) (hpath : f.path = parent.childPath f.name) : Tree
      (Function.update read k (some f)) := by
  have hself : nodes (Function.update read k (some f)) k = some f.node := nodes_of_read (Function.update_self ..)
  have hkeep : ∀ l, l ≠ k → nodes (Function.update read k (some f)) l = nodes read l := fun l hl => by
    rw [nodes, nodes, Function.update_of_ne hl]
  have hold : ∀ l g, Function.update read k (some f) l = some g → g = f ∨ read l = some g := by
    intro l g hl
    by_cases hlk : l = k
    · subst hlk
      rw [Function.update_self] at hl
      exact .inl (Option.some.inj hl).symm
    · rw [Function.update_of_ne hlk] at hl
      exact .inr hl
  refine ⟨?_, fun l g hl => ?_, fun l g hl hroot => ?_⟩
  · refine h.consistent.insert (by rw [nodes, hnew, Option.map_none]) hname.2 hkeep hself hp (nodes_of_read hparent) ?_
    rw [Folder.node, hpath]
    exact toList_join
  · rcases hold l g hl with rfl | hl
    · exact hname
    · exact h.names l g hl
  · rcases hold l g hl with rfl | hl
    · rw [hp] at hroot
      cases hroot
    · exact h.root l g hl hroot

theorem Tree.erase (h : Tree read) (hleaf : ∀ l f, read l = some f → f.parentId ≠ some k) :
    Tree (Function.update read k none) := by
  have hold : ∀ l g, Function.update read k none l = some g → read l = some g := by
    intro l g hl
    by_cases hlk : l = k
    · subst hlk
      rw [Function.update_self] at hl
      cases hl
    · rwa [Function.update_of_ne hlk] at hl
  refine ⟨h.consistent.erase (k := k) (fun l a hl => ?_) (fun l hl => ?_) ?_, fun l g hl => h.names l g (hold l g hl),
    fun l g hl => h.root l g (hold l g hl)⟩
  · obtain ⟨f, hf, rfl⟩ := nodes_eq_some.mp hl
    exact hleaf l f hf
  · rw [nodes, nodes, Function.update_of_ne hl]
  · rw [nodes, Function.update_self, Option.map_none]

theorem siblings_of_distinct {rows : Rows Uuid ℕ Folder} (h : Distinct Folder.indexed rows) :
    Siblings (nodes rows.read) := by
  intro k l a b hk hl hparent hname
  obtain ⟨f, hf, rfl⟩ := nodes_eq_some.mp hk
  obtain ⟨g, hg, rfl⟩ := nodes_eq_some.mp hl
  have hparent : f.parentId = g.parentId := hparent
  refine h k l f g f.entry hf hg rfl (congrArg some ?_)
  unfold Folder.entry Folder.isRoot
  rw [← hparent]
  rcases hname with hroot | hname
  · have hroot : f.parentId = none := hroot
    simp [hroot]
  · rw [String.toList_inj.mp (show f.name.toList = g.name.toList from hname)]

end Tree

/-! ### What a call knows -/

namespace FolderStore

/-- Call `i` holds no row. -/
def Free (s : FolderStore) (i : ℕ) : Prop := ∀ k own, (s.rows k).held ≠ some (i, own)

/-- The folder of a move is as it was locked, and its new place not below it. -/
structure Holding (s : FolderStore) (m : Moving) : Prop where
  row : s.rows.read m.id = some m.current
  path : m.newPath = m.target.parentPath ++ "/" ++ m.target.name
  name : Segment m.target.name
  child : m.current.parentId ≠ none
  outside : isBelow m.current.path m.newPath = false

/-- Call `i` has locked the folder, and holds nothing else. -/
def Locks (s : FolderStore) (i : ℕ) (m : Moving) : Prop :=
  ∀ k own, (s.rows k).held = some (i, own) ↔ k = m.id ∧ own = some m.current

/-- Call `i` has rewritten what is below the folder, whose own version is `last`, and holds nothing else. -/
def Rewrote (s : FolderStore) (i : ℕ) (m : Moving) (last : Folder) : Prop :=
  ∀ k own, (s.rows k).held = some (i, own) ↔ k = m.id ∧ own = some last ∨ k ≠ m.id ∧
    ∃ f, s.rows.read k = some f ∧ isBelow m.current.path f.path = true ∧ own = some
      (f.rewritten m.current.path m.newPath)

/-- The folder was placed below one that no move has rewritten. -/
def Hangs (s : FolderStore) (m : Moving) (moved : Folder) : Prop :=
  ∃ g parent, moved = ⟨some g, m.target.name, m.newPath⟩ ∧ s.rows.read g = some parent ∧
    parent.path = m.target.parentPath ∧ s.touched g = false

def Knows (s : FolderStore) (i : ℕ) : FolderCall → Prop
  | .creating new => s.Free i ∧ Segment new.name
  | .found _ existing => s.Free i ∧ Segment existing.name
  | .targeted _ target => s.Free i ∧ Segment target.name ∧ Clean target.parentPath ∧ Rooted target.parentPath
  | .locked m => s.Holding m ∧ s.Locks i m
  | .matching m matched => s.Holding m ∧ s.Locks i m ∧ m.id ∉ matched
  | .rewritten m => s.Holding m ∧ s.Rewrote i m m.current
  | .placed m moved => s.Holding m ∧ s.Rewrote i m moved ∧ s.Hangs m moved
  | _ => s.Free i

/-- **The invariant.** -/
structure Sound (s : FolderStore) : Prop where
  ids : ∀ k, k ∉ s.ids → s.rows k = {}
  tree : Tree s.rows.read
  unique : Unique Folder.indexed s.rows
  distinct : Distinct Folder.indexed s.rows
  knows : ∀ i, s.Knows i (s.calls i)

/-- A step of others, as call `j` sees it. -/
structure Frame (s t : FolderStore) (j : ℕ) : Prop where
  call : t.calls j = s.calls j
  rows : ∀ k own, (s.rows k).held = some (j, own) ∨ (t.rows k).held = some (j, own) → t.rows k = s.rows k
  /-- Nothing comes to be below a folder it moves, -/
  aside : ∀ m, (s.calls j).rewrites = some m → ∀ k f, t.rows.read k = some f → s.rows.read k ≠ some f →
    isBelow m.current.path f.path = false
  /-- and the new parent stays. -/
  parents : ∀ m moved g, s.calls j = .placed m moved → moved.parentId = some g →
    t.rows.read g = s.rows.read g ∧ (t.touched g = true → s.touched g = true)

end FolderStore

section Calls

open FolderStore

variable {s t : FolderStore} {i j : ℕ} {m : Moving} {c : FolderCall} {k g : Uuid} {f parent last moved : Folder}

theorem FolderCall.rewrites_cases (h : c.rewrites = some m) : c = .rewritten m ∨ ∃ moved, c = .placed m moved := by
  cases c <;> simp [rewrites] at h
  · exact .inl (by rw [h])
  · exact .inr ⟨_, by rw [h]⟩

theorem FolderStore.touched_iff :
    s.touched k = true ↔ ∃ j own m, (s.rows k).held = some (j, own) ∧ (s.calls j).rewrites = some m := by
  simp [touched, Option.any_eq_true, Option.isSome_iff_exists, Prod.exists]

theorem FolderStore.Sound.rewrote (h : s.Sound) (hj : (s.calls j).rewrites = some m) :
    s.Holding m ∧ ∃ last, s.Rewrote j m last := by
  have hknows := h.knows j
  rcases FolderCall.rewrites_cases hj with hcall | ⟨moved, hcall⟩
  · rw [hcall] at hknows
    exact ⟨hknows.1, _, hknows.2⟩
  · rw [hcall] at hknows
    exact ⟨hknows.1, _, hknows.2.1⟩

/-- A row that no move has rewritten is neither a folder that is moved nor below one. -/
theorem FolderStore.Sound.outside_of_untouched (h : s.Sound) (hj : (s.calls j).rewrites = some m)
    (hread : s.rows.read g = some parent)
    (hg : s.touched g = false) : parent.path ≠ m.current.path ∧ isBelow m.current.path parent.path = false := by
  obtain ⟨hholding, last, hrewrote⟩ := h.rewrote hj
  have hnot : ∀ own, (s.rows g).held ≠ some (j, own) := fun own hheld =>
    Bool.false_ne_true (hg.symm.trans (touched_iff.mpr ⟨j, own, m, hheld, hj⟩))
  have hne : g ≠ m.id := by
    rintro rfl
    exact hnot _ ((hrewrote m.id _).mpr (.inl ⟨rfl, rfl⟩))
  refine ⟨fun hpath => hne ?_, ?_⟩
  · exact h.tree.consistent.path_inj (siblings_of_distinct h.distinct) g m.id _ _ (nodes_of_read hread)
      (nodes_of_read hholding.row)
      (congrArg String.toList hpath)
  · rw [← Bool.not_eq_true]
    exact fun hbelow => hnot _ ((hrewrote g _).mpr (.inr ⟨hne, parent, hread, hbelow, rfl⟩))

/-! ### What a step leaves -/

@[simp] theorem FolderStore.calls_become : (s.become i c).calls i = c := Function.update_self ..

@[simp] theorem FolderStore.calls_write : (s.write i c k f).calls i = c := Function.update_self ..

@[simp] theorem FolderStore.calls_rewritePaths {matched : List Uuid} :
    (s.rewritePaths i m matched).calls i = .rewritten m :=
  Function.update_self ..

@[simp] theorem FolderStore.calls_commit : (s.commit i c).calls i = c := Function.update_self ..

@[simp] theorem FolderStore.calls_rollback : (s.rollback i c).calls i = c := Function.update_self ..

theorem FolderStore.rows_rewritePaths {matched : List Uuid} : (s.rewritePaths i m matched).rows =
    s.rows.change i (fun k f => k ∈ matched && inSubtree m.current.path f.path) fun f =>
      some (f.rewritten m.current.path m.newPath) := rfl

@[simp] theorem FolderStore.read_write : (s.write i c k f).rows.read = s.rows.read := Rows.read_write

@[simp] theorem FolderStore.read_rewritePaths {matched : List Uuid} :
    (s.rewritePaths i m matched).rows.read = s.rows.read :=
  Rows.read_change

@[simp] theorem FolderStore.read_commit : (s.commit i c).rows.read = s.rows.view i := Rows.read_commit

@[simp] theorem FolderStore.read_rollback : (s.rollback i c).rows.read = s.rows.read := Rows.read_rollback

/-! ### What the others see of a step -/

theorem FolderStore.Frame.held_iff (h : s.Frame t j) {own : Option Folder} :
    (t.rows k).held = some (j, own) ↔ (s.rows k).held = some (j, own) :=
  ⟨fun hheld => by rwa [h.rows k own (.inr hheld)] at hheld, fun hheld => by rwa [h.rows k own (.inl hheld)]⟩

theorem FolderStore.Frame.free (h : s.Frame t j) (hfree : s.Free j) : t.Free j :=
    fun k own hheld => hfree k own (h.held_iff.mp hheld)

theorem FolderStore.Frame.holding (h : s.Frame t j) (hholding : s.Holding m) {own : Option Folder}
    (hheld : (s.rows m.id).held = some (j, own)) :
    t.Holding m := by
  refine ⟨?_, hholding.path, hholding.name, hholding.child, hholding.outside⟩
  rw [Rows.read, h.rows m.id own (.inl hheld)]
  exact hholding.row

theorem FolderStore.Frame.locks (h : s.Frame t j) (hlocks : s.Locks j m) : t.Locks j m :=
    fun k own => h.held_iff.trans (hlocks k own)

theorem FolderStore.Frame.rewrote (h : s.Frame t j) (hj : (s.calls j).rewrites = some m)
    (hrewrote : s.Rewrote j m last) :
    t.Rewrote j m last := by
  intro k own
  rw [h.held_iff]
  constructor
  · intro hheld
    rcases (hrewrote k own).mp hheld with hself | ⟨hne, f, hread, hbelow, rfl⟩
    · exact .inl hself
    · refine .inr ⟨hne, f, ?_, hbelow, rfl⟩
      rw [Rows.read, h.rows k _ (.inl hheld)]
      exact hread
  · rintro (hself | ⟨hne, f, hread, hbelow, rfl⟩)
    · exact (hrewrote k own).mpr (.inl hself)
    · refine (hrewrote k _).mpr (.inr ⟨hne, f, ?_, hbelow, rfl⟩)
      by_contra hnew
      rw [h.aside m hj k f hread hnew] at hbelow
      cases hbelow

/-- What a call knows stays when others step. -/
theorem FolderStore.Frame.knows (h : s.Frame t j) (hknows : s.Knows j (s.calls j)) : t.Knows j (t.calls j) := by
  rw [h.call]
  cases hcall : s.calls j with
  | idle | deleting _ | childless _ | vacated _ | answered _ =>
    rw [hcall] at hknows
    exact h.free hknows
  | creating new =>
    rw [hcall] at hknows
    exact ⟨h.free hknows.1, hknows.2⟩
  | found id existing =>
    rw [hcall] at hknows
    exact ⟨h.free hknows.1, hknows.2⟩
  | targeted id target =>
    rw [hcall] at hknows
    exact ⟨h.free hknows.1, hknows.2⟩
  | locked m =>
    rw [hcall] at hknows
    obtain ⟨hholding, hlocks⟩ := hknows
    exact ⟨h.holding hholding ((hlocks m.id _).mpr ⟨rfl, rfl⟩), h.locks hlocks⟩
  | matching m matched =>
    rw [hcall] at hknows
    obtain ⟨hholding, hlocks, hmatched⟩ := hknows
    exact ⟨h.holding hholding ((hlocks m.id _).mpr ⟨rfl, rfl⟩), h.locks hlocks, hmatched⟩
  | rewritten m =>
    rw [hcall] at hknows
    obtain ⟨hholding, hrewrote⟩ := hknows
    exact ⟨h.holding hholding ((hrewrote m.id _).mpr (.inl ⟨rfl, rfl⟩)), h.rewrote (by rw [hcall]; rfl) hrewrote⟩
  | placed m moved =>
    rw [hcall] at hknows
    obtain ⟨hholding, hrewrote, g, parent, rfl, hread, hpath, hg⟩ := hknows
    refine ⟨h.holding hholding ((hrewrote m.id _).mpr (.inl ⟨rfl, rfl⟩)), h.rewrote (by rw [hcall]; rfl) hrewrote,
      g, parent, rfl, ?_, hpath, ?_⟩
    · rw [(h.parents m _ g hcall rfl).1, hread]
    · rw [← Bool.not_eq_true] at hg ⊢
      exact fun htouched => hg ((h.parents m _ g hcall rfl).2 htouched)

/-- **A step of one call** keeps the invariant, when it does for what that call knows. -/
theorem FolderStore.Sound.advance (h : s.Sound) (hothers : ∀ j, j ≠ i → s.Frame t j)
    (hids : ∀ k, k ∉ t.ids → t.rows k = {})
    (htree : Tree t.rows.read) (hunique : Unique Folder.indexed t.rows) (hdistinct : Distinct Folder.indexed t.rows)
    (hself : t.Knows i (t.calls i)) : t.Sound := by
  refine ⟨hids, htree, hunique, hdistinct, fun j => ?_⟩
  by_cases hj : j = i
  · subst hj
    exact hself
  · exact (hothers j hj).knows (h.knows j)

/-- What the others see of a call that has not rewritten anything after its step. -/
theorem FolderStore.Frame.quiet (hcalls : t.calls = Function.update s.calls i c) (hc : c.rewrites = none)
    (hrows : Untouched i s.rows t.rows)
    (hj : j ≠ i) (haside : ∀ m, (s.calls j).rewrites = some m → ∀ k f, t.rows.read k = some f → s.rows.read k ≠ some f →
      isBelow m.current.path f.path = false)
    (hread : ∀ m moved g, s.calls j = .placed m moved → moved.parentId = some g →
      t.rows.read g = s.rows.read g) : s.Frame t j := by
  refine ⟨by rw [hcalls, Function.update_of_ne hj], hrows j hj, haside,
    fun m moved g hcall hg => ⟨hread m moved g hcall hg, fun htouched => ?_⟩⟩
  obtain ⟨l, own, m', hheld, hl⟩ := touched_iff.mp htouched
  by_cases hli : l = i
  · subst hli
    rw [hcalls, Function.update_self, hc] at hl
    cases hl
  · rw [hcalls, Function.update_of_ne hli] at hl
    rw [hrows l hli g own (.inr hheld)] at hheld
    exact touched_iff.mpr ⟨l, own, m', hheld, hl⟩

theorem FolderStore.Frame.quiet_of_read (hcalls : t.calls = Function.update s.calls i c) (hc : c.rewrites = none)
    (hrows : Untouched i s.rows t.rows) (hread : t.rows.read = s.rows.read) (hj : j ≠ i) : s.Frame t j :=
  .quiet hcalls hc hrows hj (fun _ _ k _ hnew hold => absurd (congrFun hread k ▸ hnew) hold)
    fun _ _ g _ _ => congrFun hread g

/-! ### What the statements read -/

theorem createFolder_eq {id : Uuid} {raw : String} {new : NewFolder} (hclean : Clean parent.path)
    (h : createFolder id parent raw = .ok new) : new.parentId = id ∧ new.parentPath = parent.childPath new.name ∧
      Segment new.name := by
  unfold createFolder at h
  cases hname : validateFolderName (sanitizeFolderName raw) with
  | error e => simp [hname, bind, Except.bind] at h
  | ok _ =>
    cases hpath : childPath parent.path (sanitizeFolderName raw) with
    | error e => simp [hname, hpath, bind, Except.bind] at h
    | ok path =>
      simp only [hname, hpath, bind, Except.bind, pure, Except.pure] at h
      cases h
      exact ⟨rfl, (childPath_eq hclean hpath).1, segment_sanitizeFolderName hname⟩

theorem planMove_eq {id : Uuid} {target : FolderMove} {current : Folder} (hclean : Clean target.parentPath)
    (h : planMove id target current = .ok (some m)) :
    m = ⟨id, target, current, target.parentPath ++ "/" ++ target.name⟩ ∧ isBelow current.path m.newPath = false := by
  unfold planMove at h
  cases hpath : childPath target.parentPath target.name with
  | error e => simp [hpath, bind, Except.bind] at h
  | ok newPath =>
    simp only [hpath, bind, Except.bind, pure, Except.pure] at h
    split_ifs at h with hsame hcycle
    · cases Except.ok.inj h
    · obtain rfl := Option.some.inj (Except.ok.inj h)
      rw [Bool.or_eq_true, not_or] at hcycle
      exact ⟨by rw [(childPath_eq hclean hpath).1], by simpa using hcycle.1⟩

theorem FolderStore.read_of_parent {parentId : Option Uuid} (h : s.parent parentId = some (k, f)) :
    s.rows.read k = some f := by
  cases parentId with
  | some id =>
    obtain ⟨g, hg, heq⟩ := Option.map_eq_some_iff.mp h
    cases heq
    exact hg
  | none =>
    obtain ⟨l, -, hl⟩ := List.exists_of_findSome?_eq_some h
    obtain ⟨g, hg, heq⟩ := Option.map_eq_some_iff.mp hl
    cases heq
    exact (Option.filter_eq_some_iff.mp hg).1

theorem FolderStore.Sound.mem_ids (h : s.Sound) (hread : s.rows.read k = some f) : k ∈ s.ids := by
  by_contra hk
  rw [Rows.read, h.ids k hk] at hread
  cases hread

theorem FolderStore.Sound.mem_ids_of_held (h : s.Sound) {own : Option Folder}
    (hheld : (s.rows k).held = some (j, own)) : k ∈ s.ids := by
  by_contra hk
  rw [h.ids k hk] at hheld
  cases hheld

theorem FolderStore.Sound.empty_of_findRoot (h : s.Sound) (hroot : s.findRoot = none) (k : Uuid) :
    s.rows.read k = none := by
  by_contra hne
  obtain ⟨f, hf⟩ := Option.ne_none_iff_exists'.mp hne
  obtain ⟨r, root, hr, hp, -⟩ := h.tree.exists_root hf
  have hnone := List.findSome?_eq_none_iff.mp hroot r (h.mem_ids hr)
  simp [hr, Folder.isRoot, hp] at hnone

theorem FolderStore.Sound.vacant_iff (h : s.Sound) :
    s.vacant i k f = true ↔ ∀ l, l ≠ k → (s.rows l).vacant Folder.indexed i f.entry = true := by
  simp only [vacant, anyRow, Bool.not_eq_true', List.any_eq_false, Bool.and_eq_true, decide_eq_true_eq,
    not_and, Bool.not_eq_false]
  refine ⟨fun hall l hl => ?_, fun hall l _ hl => hall l hl⟩
  by_cases hmem : l ∈ s.ids
  · exact hall l hmem hl
  · rw [h.ids l hmem]
    exact Row.vacant_iff.mpr ⟨nofun, nofun⟩

theorem FolderStore.Sound.of_children (h : s.Sound) (hnone : s.children k = 0) :
    ∀ l f, s.rows.read l = some f → f.parentId ≠ some k := by
  intro l f hl hp
  have hmem : l ∈ s.ids.filter fun l => (s.rows.read l).any (·.parentId = some k) :=
    List.mem_filter.mpr ⟨h.mem_ids hl, by simp [hl, hp]⟩
  rw [List.eq_nil_of_length_eq_zero hnone] at hmem
  exact List.not_mem_nil hmem

/-! ### Steps -/

theorem FolderStore.Sound.become (h : s.Sound) (hc : c.rewrites = none) (hknows : (s.become i c).Knows i c) :
    (s.become i c).Sound := by
  refine h.advance (i := i) (fun j hj => .quiet_of_read rfl hc .refl rfl hj) h.ids h.tree h.unique h.distinct ?_
  rwa [calls_become]

theorem FolderStore.Sound.refuse (h : s.Sound) (hfree : s.Free i) (error : MediaError) :
    (s.refuse i error).Sound := h.become rfl hfree

/-- Whoever holds a row holds a folder that is there and is not the root. -/
theorem FolderStore.Sound.read_of_held (h : s.Sound) {own : Option Folder} (hheld : (s.rows k).held = some (j, own)) :
    (s.calls j).locks.isSome = true ∧ ∃ f, s.rows.read k = some f ∧ f.parentId ≠ none := by
  have hbelow : ∀ f old, s.rows.read k = some f → isBelow old f.path = true → f.parentId ≠ none := by
    intro f old hread hbelow hp
    rw [h.tree.of_root hread hp, isBelow_of_segment (h.tree.names k f hread)] at hbelow
    cases hbelow
  have hrows : ∀ m last, s.Holding m → s.Rewrote j m last → ∃ f, s.rows.read k = some f ∧ f.parentId ≠ none := by
    intro m last hholding hrewrote
    rcases (hrewrote k own).mp hheld with ⟨rfl, -⟩ | ⟨-, f, hread, hpath, -⟩
    · exact ⟨_, hholding.row, hholding.child⟩
    · exact ⟨f, hread, hbelow f _ hread hpath⟩
  have hknows := h.knows j
  cases hcall : s.calls j with
  | idle | deleting _ | childless _ | vacated _ | answered _ =>
    rw [hcall] at hknows
    exact absurd hheld (hknows k own)
  | creating _ | found _ _ | targeted _ _ =>
    rw [hcall] at hknows
    exact absurd hheld (hknows.1 k own)
  | locked m =>
    rw [hcall] at hknows
    obtain ⟨rfl, -⟩ := (hknows.2 k own).mp hheld
    exact ⟨rfl, _, hknows.1.row, hknows.1.child⟩
  | matching m matched =>
    rw [hcall] at hknows
    obtain ⟨rfl, -⟩ := (hknows.2.1 k own).mp hheld
    exact ⟨rfl, _, hknows.1.row, hknows.1.child⟩
  | rewritten m =>
    rw [hcall] at hknows
    exact ⟨rfl, hrows m _ hknows.1 hknows.2⟩
  | placed m moved =>
    rw [hcall] at hknows
    exact ⟨rfl, hrows m _ hknows.1 hknows.2.1⟩

/-- The root is inserted. -/
theorem FolderStore.Sound.root (h : s.Sound) {id : Uuid} (hid : id ∉ s.ids) (hroot : s.findRoot = none) :
    FolderStore.Sound { s with
      ids := id :: s.ids, rows := s.rows.put id (some ⟨none, ROOT_FOLDER_NAME, ROOT_FOLDER_NAME⟩) } := by
  have hnone := h.empty_of_findRoot hroot
  have hfree : ∀ i, s.Free i := by
    intro i l own hheld
    obtain ⟨-, f, hread, -⟩ := h.read_of_held hheld
    rw [hnone l] at hread
    cases hread
  have hvacant : ∀ b l, l ≠ id → (s.rows l).vacant Folder.indexed 0 b = true := by
    intro b l _
    refine Row.vacant_iff.mpr ⟨fun v hv => ?_, fun j v hheld => absurd hheld (hfree j l _)⟩
    rw [show (s.rows l).seen 0 = s.rows.read l from Rows.view_of_not_held (hfree 0 l), hnone l] at hv
    cases hv
  have hunheld : (s.rows id).held = none := by rw [h.ids id hid]
  have hquiet : ∀ j m, (s.calls j).rewrites ≠ some m := by
    intro j m hj
    have hrow := (h.rewrote hj).1.row
    rw [hnone] at hrow
    cases hrow
  refine h.advance (i := 0) (fun j hj => ⟨rfl, untouched_put hunheld j hj, fun m hm => absurd hm (hquiet j m),
    fun m moved g hcall _ => ?_⟩)
    (fun k hk => ?_) ?_ (h.unique.put fun _ b _ _ => hvacant b) (h.distinct.put (hfree 0) fun _ b _ _ => hvacant b) ?_
  · exact absurd (by rw [hcall]; rfl) (hquiet j m)
  · rw [List.mem_cons, not_or] at hk
    exact (Rows.put_of_ne hk.1).trans (h.ids k hk.2)
  · rw [Rows.read_put]
    exact Tree.single hnone
  · refine FolderStore.Frame.knows (s := s) (j := 0) ⟨rfl, fun l own hheld => ?_, fun m hm => absurd hm (hquiet 0 m),
      fun m moved g hcall _ => ?_⟩ (h.knows 0)
    · rcases hheld with hheld | hheld
      · exact absurd hheld (hfree 0 l own)
      · exact untouched_put hunheld 0 (Nat.zero_ne_one) l own (.inr hheld)
    · exact absurd (by rw [hcall]; rfl) (hquiet 0 m)

theorem FolderStore.Sound.insert (h : s.Sound) {id : Uuid} {new : NewFolder}
    (hcall : s.calls i = .creating new) (hid : id ∉ s.ids)
    (hparent : (s.rows.read new.parentId).isSome = true) (hvacant : s.vacant i id
      ⟨some new.parentId, new.name, new.parentPath⟩ = true)
    (hfits : s.insertFits new = true) (hf : f = ⟨some new.parentId, new.name, new.parentPath⟩) :
    FolderStore.Sound { s.become i (.answered (.ok (some f))) with
      ids := id :: s.ids, rows := s.rows.put id (some f) } := by
  subst hf
  have hknows := h.knows i
  rw [hcall] at hknows
  obtain ⟨hfree, hname⟩ := hknows
  obtain ⟨parent, hread⟩ := Option.isSome_iff_exists.mp hparent
  rw [insertFits, hread, Option.all_some, Bool.and_eq_true, decide_eq_true_iff, Bool.not_eq_true'] at hfits
  obtain ⟨hpath, huntouched⟩ := hfits
  have hunheld : (s.rows id).held = none := by rw [h.ids id hid]
  have hfresh : s.rows.read id = none := by rw [Rows.read, h.ids id hid]
  have hvacant : ∀ w b, some (⟨some new.parentId, new.name, new.parentPath⟩ : Folder) = some w →
    Folder.indexed w = some b →
      ∀ l, l ≠ id → (s.rows l).vacant Folder.indexed i b = true := by
    intro w b hw hb
    cases hw
    cases hb
    exact h.vacant_iff.mp hvacant
  have hne : ∀ g parent, s.rows.read g = some parent → g ≠ id := by
    rintro g parent hg rfl
    rw [hfresh] at hg
    cases hg
  refine h.advance (i := i) (fun j hj => .quiet rfl rfl (untouched_put hunheld) hj (fun m hm k f hnew hold => ?_)
    fun m moved g hplaced hg => ?_)
    (fun k hk => ?_) ?_ (h.unique.put hvacant) (h.distinct.put hfree hvacant) ?_
  · rw [Rows.read_put] at hnew
    by_cases hk : k = id
    · subst hk
      rw [Function.update_self] at hnew
      cases hnew
      obtain ⟨hne, hnot⟩ := h.outside_of_untouched hm hread huntouched
      rw [← Bool.not_eq_true, isBelow_iff, hpath, Folder.childPath, toList_join, below_join_iff hname.2, not_or]
      rw [← Bool.not_eq_true, isBelow_iff] at hnot
      exact ⟨fun heq => hne (String.toList_inj.mp heq), hnot⟩
    · rw [Function.update_of_ne hk] at hnew
      exact absurd hnew hold
  · have hplaced' := h.knows j
    rw [hplaced] at hplaced'
    obtain ⟨-, -, g', parent', rfl, hread', -, -⟩ := hplaced'
    cases hg
    rw [Rows.read_put, Function.update_of_ne (hne _ _ hread')]
  · rw [List.mem_cons, not_or] at hk
    exact (Rows.put_of_ne hk.1).trans (h.ids k hk.2)
  · rw [Rows.read_put]
    exact h.tree.insert hfresh hname rfl hread hpath
  · rw [show FolderStore.calls { s.become i _ with ids := _, rows := _ } i = _ from Function.update_self ..]
    exact fun l own hheld => hfree l own (Rows.held_put hheld).2

theorem Rooted.below {path name : String} (h : Rooted path) :
    isBelow ROOT_FOLDER_NAME (path ++ "/" ++ name) = true := by
  rw [isBelow_iff, toList_join]
  rcases h with rfl | h
  · exact below_join
  · exact (isBelow_iff.mp h).trans below_join

theorem FolderStore.Sound.lock (h : s.Sound) {id : Uuid} {target : FolderMove} {current : Folder}
    (hcall : s.calls i = .targeted id target)
    (hunheld : (s.rows id).held = none) (hread : s.rows.read id = some current)
      (hplan : planMove id target current = .ok (some m)) :
    (s.write i (.locked m) id current).Sound := by
  have hknows := h.knows i
  rw [hcall] at hknows
  obtain ⟨hfree, hname, hclean, hrooted⟩ := hknows
  obtain ⟨rfl, houtside⟩ := planMove_eq hclean hplan
  have hrow : (s.rows id).free i = true := by simp [Row.free, hunheld]
  have hseen : (s.rows id).seen i = some current := (Rows.view_of_not_held (hfree id)).trans hread
  refine h.advance (i := i) (fun j hj => .quiet_of_read rfl rfl (untouched_write hrow) Rows.read_write
    hj) (fun k hk => ?_) ?_
    (h.unique.write hrow fun w b hw hb => ?_) (h.distinct.of_read read_write) ?_
  · have hne : k ≠ id := by
      rintro rfl
      exact hk (h.mem_ids hread)
    exact (Rows.write_of_ne hne).trans (h.ids k hk)
  · rw [read_write]
    exact h.tree
  · cases hw
    exact h.unique.vacant_of_seen h.distinct hrow hseen hb
  · rw [calls_write]
    refine ⟨⟨?_, rfl, hname, fun hp => ?_, houtside⟩, fun k own => ⟨fun hheld => ?_, ?_⟩⟩
    · rw [read_write]
      exact hread
    · -- whatever has a new place would be below the root
      rw [h.tree.of_root hread hp, h.tree.root id current hread hp, hrooted.below] at houtside
      cases houtside
    · rcases Rows.held_write hheld with ⟨rfl, -, rfl⟩ | ⟨-, hold⟩
      · exact ⟨rfl, rfl⟩
      · exact absurd hold (hfree k own)
    · rintro ⟨rfl, rfl⟩
      exact Rows.held_write_self

theorem FolderStore.Sound.rewrite_fits (h : s.Sound) {matched : List Uuid} (hfits : s.rewriteFits m matched = true) :
    (∀ k f, k ≠ m.id → s.rows.read k = some f →
      (decide (k ∈ matched) && inSubtree m.current.path f.path) = isBelow m.current.path f.path) ∧
    ∀ k j own m' moved g, (s.rows k).held = some (j, own) → s.calls j = .placed m' moved → moved.parentId = some g →
      g ≠ m.id ∧ ∀ f, s.rows.read g = some f → isBelow m.current.path f.path = false := by
  simp only [rewriteFits, List.all_eq_true, Bool.and_eq_true, Bool.or_eq_true, decide_eq_true_eq] at hfits
  refine ⟨fun k f hne hread => ?_, fun k j own m' moved g hheld hcall hg => ?_⟩
  · have hrow := (hfits k (h.mem_ids hread)).1.resolve_left hne
    rw [hread, Option.all_some, decide_eq_true_iff] at hrow
    exact hrow
  · have hrow := (hfits k (h.mem_ids_of_held hheld)).2
    rw [hheld, Option.all_some, hcall] at hrow
    simp only [hg, Option.any_some, Bool.not_eq_true', Bool.or_eq_false_iff, decide_eq_false_iff_not,
      Option.any_eq_false] at hrow
    exact hrow

/-- What is below a folder is rewritten. -/
theorem FolderStore.Sound.rewrite (h : s.Sound) {matched : List Uuid} (hcall : s.calls i = .matching m matched)
    (hall : ∀ k ∈ matched, (s.rows k).free i = true) (hfits : s.rewriteFits m matched = true) :
    (s.rewritePaths i m matched).Sound := by
  have hknows := h.knows i
  rw [hcall] at hknows
  obtain ⟨hholding, hlocks, hmatched⟩ := hknows
  obtain ⟨hbelow, hplaced⟩ := h.rewrite_fits hfits
  have hview : ∀ k, k ≠ m.id → s.rows.view i k = s.rows.read k := fun k hk =>
    Rows.view_of_not_held fun own hheld => hk ((hlocks k own).mp hheld).1
  have hfree : ∀ k f, s.rows.view i k = some f → (decide (k ∈ matched) && inSubtree m.current.path f.path) = true →
      (s.rows k).free i = true := by
    intro k f _ hp
    exact hall k (of_decide_eq_true (Bool.and_eq_true .. ▸ hp).1)
  -- the rows the call holds after it
  have hrewrote : (s.rewritePaths i m matched).Rewrote i m m.current := by
    intro k own
    rw [read_rewritePaths]
    constructor
    · intro hheld
      rcases Rows.held_change hheld with hold | ⟨-, f, hseen, hp, rfl⟩
      · exact .inl ((hlocks k own).mp hold)
      · have hne : k ≠ m.id := by
          rintro rfl
          exact hmatched (of_decide_eq_true (Bool.and_eq_true .. ▸ hp).1)
        rw [hview k hne] at hseen
        exact .inr ⟨hne, f, hseen, (hbelow k f hne hseen).symm.trans hp, rfl⟩
    · rintro (⟨rfl, rfl⟩ | ⟨hne, f, hread, hpath, rfl⟩)
      · rw [rows_rewritePaths, Rows.change_of_not fun f _ => by simp [hmatched]]
        exact (hlocks m.id _).mpr ⟨rfl, rfl⟩
      · exact Rows.held_change_of ((hview k hne).trans hread) ((hbelow k f hne hread).trans hpath)
  refine h.advance (i := i) (fun j hj => ⟨Function.update_of_ne hj .., untouched_change hfree j hj,
    fun m' _ k f hnew hold => ?_,
    fun m' moved g hcall' hg => ⟨congrFun read_rewritePaths g, fun htouched => ?_⟩⟩)
    (fun k hk => ?_) ?_ (h.unique.change h.distinct hfree fun f g hg => ?_) (h.distinct.of_read read_rewritePaths) ?_
  · exact absurd (congrFun read_rewritePaths k ▸ hnew) hold
  · -- the new parent of a folder that was placed is not one of the rows
    have hknows' := h.knows j
    rw [hcall'] at hknows'
    obtain ⟨-, hrewrote', g', parent, rfl, hread', -, -⟩ := hknows'
    obtain rfl := Option.some.inj hg
    obtain ⟨hne, hnot⟩ := hplaced m'.id j _ m' _ g' ((hrewrote' m'.id _).mpr (.inl ⟨rfl, rfl⟩)) hcall' rfl
    obtain ⟨l, own, m'', hheld, hl⟩ := touched_iff.mp htouched
    by_cases hli : l = i
    · subst hli
      rcases (hrewrote g' own).mp hheld with ⟨heq, -⟩ | ⟨-, f, hf, hpath, -⟩
      · exact absurd heq hne
      · rw [hnot f (congrFun read_rewritePaths g' ▸ hf)] at hpath
        cases hpath
    · rcases Rows.held_change hheld with hold | ⟨heq, -⟩
      · exact touched_iff.mpr ⟨l, own, m'', hold, (congrArg FolderCall.rewrites
          (Function.update_of_ne hli ..)).symm.trans hl⟩
      · exact absurd heq hli
  · rw [rows_rewritePaths]
    exact Rows.change_of_empty (h.ids k hk)
  · rw [read_rewritePaths]
    exact h.tree
  · cases hg
    rfl
  · rw [calls_rewritePaths]
    refine ⟨⟨?_, hholding.path, hholding.name, hholding.child, hholding.outside⟩, hrewrote⟩
    rw [read_rewritePaths]
    exact hholding.row

theorem FolderStore.Sound.mem_atPath (h : s.Sound) {path : String} :
    k ∈ s.atPath i path ↔ ∃ f, s.rows.view i k = some f ∧ f.path = path := by
  simp only [atPath, List.mem_filter, Option.any_eq_true, decide_eq_true_eq, and_iff_right_iff_imp,
    forall_exists_index, and_imp]
  exact fun f hf _ => Rows.mem_of_seen h.ids hf

/-- The folder is written, below one that no move has rewritten. -/
theorem FolderStore.Sound.place (h : s.Sound) (hcall : s.calls i = .rewritten m)
    (hmoved : moved = ⟨(s.atPath i m.target.parentPath).head?, m.target.name, m.newPath⟩)
      (hvacant : s.vacant i m.id moved = true)
    (hfits : s.placeFits i m = true) : (s.write i (.placed m moved) m.id moved).Sound := by
  have hknows := h.knows i
  rw [hcall] at hknows
  obtain ⟨hholding, hrewrote⟩ := hknows
  have hheld : (s.rows m.id).held = some (i, some m.current) := (hrewrote m.id _).mpr (.inl ⟨rfl, rfl⟩)
  have hrow : (s.rows m.id).free i = true := by simp [Row.free, hheld]
  have hrewrites : (s.calls i).rewrites = some m := by
    rw [hcall]
    rfl
  -- a parent was found: else the folder would have the place of the root
  have hparent : ∃ g parent, moved = ⟨some g, m.target.name, m.newPath⟩ ∧ s.rows.read g = some parent ∧
      parent.path = m.target.parentPath ∧ s.touched g = false := by
    cases hhead : (s.atPath i m.target.parentPath).head? with
    | none =>
      obtain ⟨r, root, hr, hp, -⟩ := h.tree.exists_root hholding.row
      have hne : r ≠ m.id := by
        rintro rfl
        rw [hholding.row] at hr
        cases hr
        exact hholding.child hp
      have hseen : (s.rows r).seen i = some root := by
        refine (Rows.view_of_not_held fun own hown => ?_).trans hr
        obtain ⟨-, f, hf, hchild⟩ := h.read_of_held hown
        obtain rfl := Option.some.inj (hf.symm.trans hr)
        exact hchild hp
      refine absurd ?_ ((Row.vacant_iff.mp (h.vacant_iff.mp hvacant r hne)).1 root hseen)
      simp [Folder.indexed, Folder.entry, Folder.isRoot, hp, hmoved, hhead]
    | some g =>
      have hmem : g ∈ s.atPath i m.target.parentPath := List.mem_of_mem_head? hhead
      obtain ⟨parent, hview, hpath⟩ := h.mem_atPath.mp hmem
      have huntouched : s.touched g = false := by simpa using List.all_eq_true.mp hfits g hmem
      refine ⟨g, parent, by rw [hmoved, hhead], ?_, hpath, huntouched⟩
      rw [← hview]
      refine (Rows.view_of_not_held fun own hown => ?_).symm
      exact Bool.false_ne_true (huntouched.symm.trans (touched_iff.mpr ⟨i, own, m, hown, hrewrites⟩))
  have htouched : ∀ g, (s.write i (.placed m moved) m.id moved).touched g = true → s.touched g = true := by
    intro g hg
    obtain ⟨l, own, m', hown, hl⟩ := touched_iff.mp hg
    rcases Rows.held_write hown with ⟨rfl, -, -⟩ | ⟨-, hold⟩
    · exact touched_iff.mpr ⟨i, _, m, hheld, hrewrites⟩
    · by_cases hli : l = i
      · subst hli
        exact touched_iff.mpr ⟨l, own, m, hold, hrewrites⟩
      · exact touched_iff.mpr ⟨l, own, m', hold, (congrArg FolderCall.rewrites
          (Function.update_of_ne hli ..)).symm.trans hl⟩
  refine h.advance (i := i) (fun j hj => ⟨Function.update_of_ne hj .., untouched_write hrow j hj,
    fun m' _ k f hnew hold => ?_,
    fun m' moved' g _ _ => ⟨congrFun read_write g, htouched g⟩⟩) (fun k hk => ?_) ?_
      (h.unique.write hrow fun w b hw hb => ?_)
    (h.distinct.of_read read_write) ?_
  · exact absurd (congrFun read_write k ▸ hnew) hold
  · have hne : k ≠ m.id := by
      rintro rfl
      exact hk (h.mem_ids hholding.row)
    exact (Rows.write_of_ne hne).trans (h.ids k hk)
  · rw [read_write]
    exact h.tree
  · cases hw
    cases hb
    exact h.vacant_iff.mp hvacant
  · rw [calls_write]
    obtain ⟨g, parent, heq, hread, hpath, huntouched⟩ := hparent
    refine ⟨⟨?_, hholding.path, hholding.name, hholding.child, hholding.outside⟩, fun k own => ?_, g,
      parent, heq, ?_, hpath, ?_⟩
    · rw [read_write]
      exact hholding.row
    · rw [read_write]
      constructor
      · intro hown
        rcases Rows.held_write hown with ⟨rfl, -, rfl⟩ | ⟨hne, hold⟩
        · exact .inl ⟨rfl, rfl⟩
        · exact .inr (((hrewrote k own).mp hold).resolve_left fun hself => hne hself.1)
      · rintro (⟨rfl, rfl⟩ | hbelow)
        · exact Rows.held_write_self
        · exact (congrArg Row.held (Rows.write_of_ne hbelow.1)).trans ((hrewrote k own).mpr (.inr hbelow))
    · rw [read_write]
      exact hread
    · rw [← Bool.not_eq_true] at huntouched ⊢
      exact fun hg => huntouched (htouched g hg)

/-- What a move that is about to commit does to the tree. -/
theorem FolderStore.Rewrote.moves (hrewrote : s.Rewrote i m moved) (hholding : s.Holding m)
    (hparent : moved.parentId = some g)
    (hname : moved.name = m.target.name) (hpath : moved.path = m.newPath) (hread : s.rows.read g = some parent)
    (hat : parent.path = m.target.parentPath) :
    Moved '/' (nodes s.rows.read) (nodes (s.rows.view i)) m.id g m.current.path.toList m.newPath.toList := by
  have hself : s.rows.view i m.id = some moved := Rows.view_of_held ((hrewrote m.id _).mpr (.inl ⟨rfl, rfl⟩))
  refine ⟨⟨_, nodes_of_read hholding.row, rfl⟩, ⟨moved.node, parent.node, nodes_of_read hself, nodes_of_read hread,
    hparent, ?_, ?_, ?_⟩,
    fun k a hne hk hbelow => ?_, fun k hne hnot => ?_, ?_⟩
  · rw [Folder.node, hname]
    exact hholding.name.2
  · rw [Folder.node, hpath]
  · rw [hholding.path, toList_join, Folder.node, Folder.node, hname, hat]
  · obtain ⟨f, hf, rfl⟩ := nodes_eq_some.mp hk
    have hview : s.rows.view i k = some (f.rewritten m.current.path m.newPath) :=
      Rows.view_of_held ((hrewrote k _).mpr (.inr ⟨hne, f, hf, isBelow_iff.mpr hbelow, rfl⟩))
    rw [nodes_of_read hview, node_rewritten]
  · rw [nodes, nodes, Rows.view_of_not_held fun own hown => ?_]
    rcases (hrewrote k own).mp hown with ⟨heq, -⟩ | ⟨-, f, hf, hbelow, -⟩
    · exact hne heq
    · exact hnot f.node (nodes_of_read hf) (isBelow_iff.mp hbelow)
  · rw [← isBelow_iff, hholding.outside]
    exact Bool.false_ne_true

theorem FolderStore.Sound.commit (h : s.Sound) (hcall : s.calls i = .placed m moved) :
    (s.commit i (.answered (.ok (some moved)))).Sound := by
  have hknows := h.knows i
  rw [hcall] at hknows
  obtain ⟨hholding, hrewrote, g, parent, rfl, hread, hat, huntouched⟩ := hknows
  have hmoves := hrewrote.moves hholding rfl rfl rfl hread hat
  have hsiblings := siblings_of_distinct h.distinct
  have hdistinct : Distinct Folder.indexed (s.rows.commit i) := h.unique.distinct_commit h.distinct
  have hsiblings' : Siblings (nodes (s.rows.view i)) := by
    have hcommitted := siblings_of_distinct hdistinct
    rwa [Rows.read_commit] at hcommitted
  have hrewrites : (s.calls i).rewrites = some m := by
    rw [hcall]
    rfl
  -- a version of the call has the name of the folder, or the one it had
  have hview : ∀ k f, s.rows.view i k = some f → k = m.id ∧ f = ⟨some g, m.target.name, m.newPath⟩ ∨
      ∃ f', s.rows.read k = some f' ∧ f.name = f'.name ∧ f.parentId = f'.parentId := by
    intro k f hf
    rcases (s.rows k).seen_cases i with hheld | ⟨-, hseen⟩
    · rw [show (s.rows k).seen i = some f from hf] at hheld
      rcases (hrewrote k _).mp hheld with ⟨rfl, heq⟩ | ⟨-, f', hf', -, heq⟩
      · exact .inl ⟨rfl, Option.some.inj heq⟩
      · cases heq
        exact .inr ⟨f', hf', rfl, rfl⟩
    · exact .inr ⟨f, hseen.symm.trans hf, rfl, rfl⟩
  refine h.advance (i := i) (fun j hj => .quiet rfl rfl untouched_commit hj (fun m' hm' k f hnew hold => ?_)
    fun m' moved' g' hcall' hg' => ?_)
    (fun k hk => Rows.commit_of_empty (h.ids k hk)) ⟨?_, fun k f hf => ?_, fun k f hf hp => ?_⟩
      h.unique.commit hdistinct ?_
  · -- the folder of another call is not among the rows, and the new parent is not below it
    obtain ⟨hholding', last', hrewrote'⟩ := h.rewrote hm'
    have hheld' : (s.rows m'.id).held = some (j, some last') := (hrewrote' m'.id _).mpr (.inl ⟨rfl, rfl⟩)
    have hother : ∀ own, (s.rows m'.id).held ≠ some (i, own) := fun own hown =>
      hj (congrArg Prod.fst (Option.some.inj (hheld'.symm.trans hown)))
    have hne : m'.id ≠ m.id := fun heq => hother _ ((hrewrote m'.id _).mpr (.inl ⟨heq, rfl⟩))
    obtain ⟨hpath, hbelow⟩ := h.outside_of_untouched hm' hread huntouched
    rw [read_commit] at hnew
    rw [← Bool.not_eq_true, isBelow_iff]
    refine hmoves.apart h.tree.consistent hsiblings hsiblings' (nodes_of_read hholding'.row) hne (fun hlies => ?_)
      (fun b hb => ?_) k f.node
      (nodes_of_read hnew) fun hsame => ?_
    · exact hother _ ((hrewrote m'.id _).mpr (.inr ⟨hne, _, hholding'.row, isBelow_iff.mpr hlies, rfl⟩))
    · obtain ⟨parent', hparent', rfl⟩ := nodes_eq_some.mp hb
      obtain rfl := Option.some.inj (hparent'.symm.trans hread)
      refine ⟨fun heq => hpath (String.toList_inj.mp heq), fun hlies => ?_⟩
      exact Bool.false_ne_true (hbelow.symm.trans (isBelow_iff.mpr hlies))
    · -- the folder would be the one there was
      obtain ⟨f', hf', heq⟩ := nodes_eq_some.mp hsame
      exact hold (hf'.trans (congrArg some (node_inj heq)))
  · have hknows' := h.knows j
    rw [hcall'] at hknows'
    obtain ⟨-, -, g'', parent'', rfl, -, -, huntouched'⟩ := hknows'
    cases hg'
    rw [read_commit]
    exact Rows.view_of_not_held fun own hown => Bool.false_ne_true
      (huntouched'.symm.trans (touched_iff.mpr ⟨i, own, m, hown, hrewrites⟩))
  · rw [read_commit]
    exact h.tree.consistent.move hsiblings hmoves
  · rw [read_commit] at hf
    rcases hview k f hf with ⟨-, rfl⟩ | ⟨f', hf', hname, -⟩
    · exact hholding.name
    · rw [hname]
      exact h.tree.names k f' hf'
  · rw [read_commit] at hf
    rcases hview k f hf with ⟨-, rfl⟩ | ⟨f', hf', hname, hparent⟩
    · cases hp
    · rw [hname]
      exact h.tree.root k f' hf' (hparent.symm.trans hp)
  · rw [calls_commit]
    exact fun k own hown => (Rows.held_commit.mp hown).2 rfl

theorem FolderStore.Sound.rollback (h : s.Sound) (answer : Except MediaError (Option Folder)) :
    (s.rollback i (.answered answer)).Sound := by
  refine h.advance (i := i) (fun j hj => .quiet_of_read rfl rfl untouched_rollback read_rollback hj)
    (fun k hk => Rows.rollback_of_empty (h.ids k hk)) ?_ h.unique.rollback (h.distinct.of_read read_rollback) ?_
  · rw [read_rollback]
    exact h.tree
  · rw [calls_rollback]
    exact fun k own hown => (Rows.held_rollback.mp hown).2 rfl

/-- A folder with nothing in it is deleted. -/
theorem FolderStore.Sound.remove (h : s.Sound) {id : Uuid} (hcall : s.calls i = .vacated id)
    (hunheld : (s.rows id).held = none)
    (hpending : s.pending id = false) (hnone : s.children id = 0) :
    FolderStore.Sound { s.become i (.answered (.ok none)) with rows := s.rows.put id none } := by
  have hfree : s.Free i := by
    have hknows := h.knows i
    rwa [hcall] at hknows
  refine h.advance (i := i) (fun j hj => .quiet rfl rfl (untouched_put hunheld) hj (fun m hm k f hnew hold => ?_)
    fun m moved g hplaced hg => ?_)
    (fun k hk => ?_) ?_ (h.unique.put (i := i) nofun) (h.distinct.put hfree nofun) ?_
  · rw [Rows.read_put] at hnew
    by_cases hk : k = id
    · subst hk
      rw [Function.update_self] at hnew
      cases hnew
    · rw [Function.update_of_ne hk] at hnew
      exact absurd hnew hold
  · -- the folder is not the new parent of one that was placed
    have hknows := h.knows j
    rw [hplaced] at hknows
    have hheld := (hknows.2.1 m.id _).mpr (.inl ⟨rfl, rfl⟩)
    have hne : g ≠ id := by
      rintro rfl
      have hrow := List.any_eq_false.mp hpending m.id (h.mem_ids_of_held hheld)
      simp [hheld, hg] at hrow
    rw [Rows.read_put, Function.update_of_ne hne]
  · by_cases hkid : k = id
    · subst hkid
      exact Rows.put_self
    · exact (Rows.put_of_ne hkid).trans (h.ids k hk)
  · rw [Rows.read_put]
    exact h.tree.erase (h.of_children hnone)
  · rw [show FolderStore.calls { s.become i _ with rows := _ } i = _ from Function.update_self ..]
    exact fun l own hheld => hfree l own (Rows.held_put hheld).2

theorem FolderStore.Sound.step_create (h : s.Sound) {parentId : Option Uuid} {raw : String}
    (hs : folderStep s (.create i parentId raw) = some t) : t.Sound := by
  have hknows := h.knows i
  simp only [folderStep] at hs
  split at hs
  · rename_i id parent hcall hparent
    rw [hcall] at hknows
    split at hs
    · rename_i new hnew
      cases hs
      exact h.become rfl ⟨hknows, (createFolder_eq (h.tree.clean (read_of_parent hparent)) hnew).2.2⟩
    · cases hs
      exact h.refuse hknows _
  · rename_i hcall _
    rw [hcall] at hknows
    split_ifs at hs
    cases hs
    exact h.refuse hknows _
  · cases hs

theorem FolderStore.Sound.step_insert (h : s.Sound) {id : Uuid} (hs : folderStep s (.insert i id) = some t)
    (hfits : s.fits (.insert i id) = true) : t.Sound := by
  have hknows := h.knows i
  simp only [folderStep] at hs
  split at hs
  · rename_i new hcall
    rw [hcall] at hknows
    simp only [fits, hcall] at hfits
    split_ifs at hs with hid hblank htaken hparent hwaits
    · cases hs
      exact h.refuse hknows.1 _
    · cases hs
      exact h.refuse hknows.1 _
    · cases hs
      exact h.refuse hknows.1 _
    · cases hs
      rw [Bool.or_eq_true, not_or, Bool.not_eq_true', Bool.not_eq_false] at hwaits
      exact h.insert hcall hid (by simpa [Option.isSome_iff_ne_none] using hparent) hwaits.2 hfits rfl
  · cases hs

theorem FolderStore.Sound.step_target (h : s.Sound) {parentId : Option Uuid} {raw : Option String}
    (hs : folderStep s (.target i parentId raw) = some t) : t.Sound := by
  have hknows := h.knows i
  simp only [folderStep] at hs
  split at hs
  · rename_i id existing hcall
    rw [hcall] at hknows
    obtain ⟨hfree, hname⟩ := hknows
    split at hs
    · rename_i p parent hparent
      have hread := read_of_parent hparent
      have hplace := And.intro (h.tree.clean hread) (h.tree.rooted hread)
      split at hs
      · split at hs
        · rename_i raw _ hvalid
          cases hs
          exact h.become rfl ⟨hfree, segment_sanitizeFolderName hvalid, hplace⟩
        · cases hs
          exact h.refuse hfree _
      · cases hs
        exact h.become rfl ⟨hfree, hname, hplace⟩
    · split_ifs at hs
      cases hs
      exact h.refuse hfree _
  · cases hs

theorem FolderStore.Sound.step_lock (h : s.Sound) (hs : folderStep s (.lock i) = some t) : t.Sound := by
  have hknows := h.knows i
  simp only [folderStep] at hs
  split at hs
  · rename_i id target hcall
    rw [hcall] at hknows
    split_ifs at hs with hwaits
    rw [Bool.or_eq_true, not_or, Bool.not_eq_true, Option.isSome_eq_false_iff, Option.isNone_iff_eq_none] at hwaits
    split at hs
    · rename_i current hread
      split at hs
      · rename_i m hplan
        cases hs
        exact h.lock hcall hwaits.1 hread hplan
      · cases hs
        exact h.become rfl hknows.1
      · cases hs
        exact h.refuse hknows.1 _
    · cases hs
      exact h.refuse hknows.1 _
  · cases hs

theorem FolderStore.Sound.step_place (h : s.Sound) (hs : folderStep s (.place i) = some t)
    (hfits : s.fits (.place i) = true) : t.Sound := by
  simp only [folderStep] at hs
  split at hs
  · rename_i m hcall
    simp only [fits, hcall] at hfits
    split_ifs at hs with hfails hwaits
    · cases hs
      exact h.rollback _
    · cases hs
      rw [Bool.or_eq_true, not_or, Bool.not_eq_true', Bool.not_eq_false] at hwaits
      exact h.place hcall rfl hwaits.1 hfits
  · cases hs

theorem FolderStore.Sound.step_delete (h : s.Sound) {id : Uuid} (hs : folderStep s (.delete i id) = some t) :
    t.Sound := by
  have hknows := h.knows i
  simp only [folderStep] at hs
  split at hs
  · rename_i folder hcall hread
    rw [hcall] at hknows
    split_ifs at hs
    · cases hs
      exact h.refuse hknows _
    · cases hs
      exact h.become rfl hknows
  · rename_i hcall _
    rw [hcall] at hknows
    cases hs
    exact h.refuse hknows _
  · cases hs

theorem FolderStore.Sound.step_remove (h : s.Sound) (hs : folderStep s (.remove i) = some t) : t.Sound := by
  have hknows := h.knows i
  simp only [folderStep] at hs
  split at hs
  · rename_i id hcall
    rw [hcall] at hknows
    split_ifs at hs with hwaits hgone hchildren
    · cases hs
      exact h.refuse hknows _
    · cases hs
      exact h.refuse hknows _
    · cases hs
      rw [Bool.or_eq_true, not_or, Bool.not_eq_true, Option.isSome_eq_false_iff, Option.isNone_iff_eq_none,
        Bool.not_eq_true] at hwaits
      exact h.remove hcall hwaits.1 hwaits.2 (Nat.eq_zero_of_not_pos hchildren)
  · cases hs

/-- **One step** that keeps the paths keeps the invariant. -/
theorem FolderStore.Sound.step {e : FolderStep} (h : s.Sound) (hs : folderStep s e = some t)
    (hfits : s.fits e = true) : t.Sound := by
  cases e with
  | root id =>
    simp only [folderStep, Option.ite_none_left_eq_some, not_or, Bool.not_eq_true, Option.isSome_eq_false_iff,
      Option.isNone_iff_eq_none] at hs
    obtain ⟨⟨hid, hroot⟩, heq⟩ := hs
    cases heq
    exact h.root hid hroot
  | create i parentId raw => exact h.step_create hs
  | insert i id => exact h.step_insert hs hfits
  | find i id =>
    have hknows := h.knows i
    simp only [folderStep] at hs
    split at hs
    · rename_i existing hcall hread
      rw [hcall] at hknows
      cases hs
      exact h.become rfl ⟨hknows, h.tree.names id existing hread⟩
    · rename_i hcall _
      rw [hcall] at hknows
      cases hs
      exact h.refuse hknows _
    · cases hs
  | target i parentId raw => exact h.step_target hs
  | lock i => exact h.step_lock hs
  | select i =>
    have hknows := h.knows i
    simp only [folderStep] at hs
    split at hs
    · rename_i m hcall
      rw [hcall] at hknows
      cases hs
      exact h.become rfl ⟨⟨hknows.1.row, hknows.1.path, hknows.1.name, hknows.1.child, hknows.1.outside⟩,
        hknows.2, by simp [selected]⟩
    · cases hs
  | rewrite i =>
    simp only [folderStep] at hs
    split at hs
    · rename_i m matched hcall
      simp only [fits, hcall] at hfits
      split_ifs at hs with hall
      cases hs
      exact h.rewrite hcall (List.all_eq_true.mp hall) hfits
    · cases hs
  | place i => exact h.step_place hs hfits
  | commit i =>
    simp only [folderStep] at hs
    split at hs
    · rename_i m moved hcall
      cases hs
      exact h.commit hcall
    · cases hs
  | drop i =>
    simp only [folderStep] at hs
    split_ifs at hs
    cases hs
    exact h.rollback _
  | delete i id => exact h.step_delete hs
  | countFolders i =>
    have hknows := h.knows i
    simp only [folderStep] at hs
    split at hs
    · rename_i id hcall
      rw [hcall] at hknows
      split_ifs at hs
      · cases hs
        exact h.refuse hknows _
      · cases hs
        exact h.become rfl hknows
    · cases hs
  | countFiles i files =>
    have hknows := h.knows i
    simp only [folderStep] at hs
    split at hs
    · rename_i id hcall
      rw [hcall] at hknows
      split_ifs at hs
      · cases hs
        exact h.refuse hknows _
      · cases hs
        exact h.become rfl hknows
    · cases hs
  | remove i => exact h.step_remove hs

end Calls

/-! ### Runs -/

/-- A folder with a folder in it is moved into another one. Then what was in it is deleted. -/
def archived : List FolderStep :=
  [.root 0, .create 1 none "Drafts", .create 2 none "Archive", .insert 1 1, .insert 2 2,
    .create 3 (some 1) "2026", .insert 3 3,
    .find 4 1, .target 4 (some 2) none, .lock 4, .select 4, .rewrite 4, .place 4, .commit 4,
      .delete 5 3, .countFolders 5,
    .countFiles 5 0, .remove 5]

end Omnion.Media.Folders
