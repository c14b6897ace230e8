import Omnion.Core.Text
import Omnion.Library.Fallible
import Omnion.Library.Paths

/-!
# Folders

`crates/media/src/folders.rs`: a folder of a library, its name and its materialised path, and the pattern that
matches the paths of what is under it. A name has no separator, and a path no separator at its ends. The pattern
is one of `like`, in which `_` and `%` of a folder's name stand for any character and any text.
-/

namespace Omnion.Media.Folders

open Paths

/-! ### Rows and names -/

/-- Longest single folder name. -/
def MAX_FOLDER_NAME_LENGTH : ℕ := 120

/-- Longest materialised path. -/
def MAX_FOLDER_PATH_LENGTH : ℕ := 1024

/-- The name the materialised root carries. -/
def ROOT_FOLDER_NAME : String := "Media"

/-- One folder of one site. -/
structure Folder where
  /-- Parent folder, `none` for the library root. -/
  parentId : Option Uuid
  /-- The name as the operator typed it. -/
  name : String
  /-- Materialised path from the library root, without leading or trailing slashes. -/
  path : String
  deriving DecidableEq

/-- `true` when this folder is the library root of its site. -/
def Folder.isRoot (f : Folder) : Bool := f.parentId.isNone

/-- The path of the folder that would contain a child. -/
def Folder.childPath (f : Folder) (name : String) : String := f.path ++ "/" ++ name

/-- A folder that is about to be created. -/
structure NewFolder where
  parentId : Uuid
  name : String
  /-- Materialised path of the folder. -/
  parentPath : String
  deriving DecidableEq

/-- A folder that is about to be renamed or moved. -/
structure FolderMove where
  name : String
  /-- Materialised path of the new parent. -/
  parentPath : String
  deriving DecidableEq

/-- What the calls answer when they fail. -/
inductive MediaError where
  | folderNotFound
  | invalidFolderName (message : String)
  | folderNameTaken
  | folderCycle (path : String)
  | folderNotEmpty (what : String) (count : ℕ)
  | rootFolderProtected
  | database
  deriving DecidableEq

/-- `char::is_control`. -/
def isControl (c : Char) : Bool := c.toNat < 0x20 || 0x7f ≤ c.toNat && c.toNat < 0xa0

/-- `str::trim_matches` with a character. -/
def trimMatches (s : String) (c : Char) : String := String.ofList ((s.toList.dropWhile (· = c)).rdropWhile (· = c))

/-- Reduce a typed folder name to the form a path segment may take. -/
def sanitizeFolderName (raw : String) : String :=
  let name := ((Text.trim raw).toList.filter fun c => !isControl c).map fun c => if c = '/' ∨ c = '\\' ∨
    c = '\x00' then '-' else c
  trimMatches (Text.trim (String.ofList name)) '.'

/-- Check a folder name, reporting which rule it broke. -/
def validateFolderName (name : String) : Except MediaError Unit :=
  if name = "" then .error (.invalidFolderName "a folder needs a name")
  else if MAX_FOLDER_NAME_LENGTH < name.utf8ByteSize then
    .error (.invalidFolderName ("a folder name is at most " ++ toString MAX_FOLDER_NAME_LENGTH ++ " characters"))
  else if name = "." ∨ name = ".." then .error (.invalidFolderName "\x60.\x60 and \x60..\x60 are not folder names")
  else .ok ()

/-- Build the materialised path of a child of `parentPath`. -/
def childPath (parentPath name : String) : Except MediaError String := do
  validateFolderName name
  let trimmed := trimMatches parentPath '/'
  let path := if trimmed = "" then name else trimmed ++ "/" ++ name
  if MAX_FOLDER_PATH_LENGTH < path.utf8ByteSize then
    throw (.invalidFolderName ("the folder path would be longer than " ++
      toString MAX_FOLDER_PATH_LENGTH ++ " characters"))
  return path

/-- The `like` pattern that matches the descendants of a path. -/
def subtreePattern (path : String) : String := trimMatches path '/' ++ "/%"

/-- `like`. -/
def like : List Char → List Char → Bool
  | [], text => text.isEmpty
  | '%' :: pattern, text => text.tails.any (like pattern)
  | '_' :: pattern, text => text.tail?.any (like pattern)
  | '\\' :: c :: pattern, text => text.head? = some c && like pattern text.tail
  | c :: pattern, text => text.head? = some c && like pattern text.tail

/-- `path = $1 or path like $2`. -/
def inSubtree (oldPath path : String) : Bool := path = oldPath || like (subtreePattern oldPath).toList path.toList

/-- `$3 || substring(path from length($1) + 1)`. -/
def Folder.rewritten (oldPath newPath : String) (f : Folder) : Folder :=
  { f with path := newPath ++ String.ofList (f.path.toList.drop oldPath.length) }

/-- `starts_with` the path and a separator. -/
def isBelow (oldPath path : String) : Bool := (oldPath ++ "/").toList.isPrefixOf path.toList

/-- `media_folders_name_not_blank`. -/
def nameNotBlank (name : String) : Bool := name.toList.any (· ≠ ' ')

/-- What the two unique indexes enter a folder under: a site has one root, and siblings have distinct names. -/
def Folder.entry (f : Folder) : Option Uuid × String := (f.parentId, if f.isRoot then "" else f.name)

/-- Both indexes as one. -/
def Folder.indexed (f : Folder) : Option (Option Uuid × String) := some f.entry

/-- A folder as a node of the tree of paths. -/
def Folder.node (f : Folder) : Node Uuid Char := ⟨f.parentId, f.name.toList, f.path.toList⟩

/-! ### Names without a separator -/

/-- A name that a path segment may be. -/
def Segment (name : String) : Prop := name ≠ "" ∧ '/' ∉ name.toList

/-- A path with no separator at its ends. -/
def Clean (path : String) : Prop := (∃ c ∈ path.toList.head?, c ≠ '/') ∧ ∃ c ∈ path.toList.getLast?, c ≠ '/'

variable {name path oldPath newPath parentPath raw : String} {f g : Folder}

theorem mem_of_trimmed {p q : Char → Bool} {l : List Char} {c : Char} (h : c ∈ (l.dropWhile p).rdropWhile q) : c ∈ l :=
  (List.dropWhile_sublist _).mem ((List.rdropWhile_prefix _ _).mem h)

theorem not_mem_sanitizeFolderName (raw : String) : '/' ∉ (sanitizeFolderName raw).toList := by
  intro h
  simp only [sanitizeFolderName, trimMatches, Text.trim, String.toList_ofList] at h
  obtain ⟨c, -, hc⟩ := List.mem_map.mp (mem_of_trimmed (mem_of_trimmed h))
  split_ifs at hc with hsep
  · exact absurd hc (by decide)
  · exact hsep (.inl hc)

theorem ne_empty_of_validate (h : validateFolderName name = .ok ()) : name ≠ "" := by
  rintro rfl
  cases h

theorem segment_sanitizeFolderName (h : validateFolderName (sanitizeFolderName raw) = .ok ()) :
    Segment (sanitizeFolderName raw) :=
  ⟨ne_empty_of_validate h, not_mem_sanitizeFolderName raw⟩

theorem toList_ne_nil (h : name ≠ "") : name.toList ≠ [] := by
  intro hnil
  exact h (String.toList_inj.mp hnil)

theorem Segment.clean (h : Segment name) : Clean name := by
  have hne := toList_ne_nil h.1
  exact ⟨⟨_, List.head_mem_head? hne, fun heq => h.2 (heq ▸ List.head_mem hne)⟩,
    ⟨_, List.getLast_mem_getLast? hne, fun heq => h.2 (heq ▸ List.getLast_mem hne)⟩⟩

theorem Clean.join (h : Clean parentPath) (hname : Segment name) : Clean (parentPath ++ "/" ++ name) := by
  obtain ⟨c, hc, hsep⟩ := h.1
  obtain ⟨d, hd, hsep'⟩ := hname.clean.2
  simp only [Clean, String.toList_append]
  have hlast : ('/' :: name.toList).getLast? = some d := by
    rw [List.getLast?_cons, hd]
    rfl
  exact ⟨⟨c, by simp_all, hsep⟩, ⟨d, by simp [hlast], hsep'⟩⟩

theorem Clean.ne_empty (h : Clean path) : path ≠ "" := by
  rintro rfl
  obtain ⟨c, hc, -⟩ := h.1
  cases hc

theorem Clean.trimMatches_eq (h : Clean path) : trimMatches path '/' = path := by
  obtain ⟨⟨c, hc, hsep⟩, ⟨d, hd, hsep'⟩⟩ := h
  have hleft : path.toList.dropWhile (· = '/') = path.toList := by
    obtain ⟨rest, hrest⟩ := List.head?_eq_some_iff.mp hc
    rw [hrest, List.dropWhile_cons_of_neg (by simpa using hsep)]
  have hright : path.toList.rdropWhile (· = '/') = path.toList := by
    obtain ⟨rest, hrest⟩ := List.getLast?_eq_some_iff.mp hd
    rw [hrest, List.rdropWhile_concat_neg _ _ _ (by simpa using hsep')]
  rw [trimMatches, hleft, hright, String.ofList_toList]

/-- **The path of a child**: a separator and the name follow the path of the parent. -/
theorem childPath_eq (hclean : Clean parentPath) (h : childPath parentPath name = .ok path) :
    path = parentPath ++ "/" ++ name ∧ name ≠ "" := by
  unfold childPath at h
  obtain ⟨_, hname, h⟩ := Fallible.bind_eq_ok.mp h
  rw [hclean.trimMatches_eq] at h
  simp only [bind, Except.bind, if_neg hclean.ne_empty] at h
  split_ifs at h with hlong
  cases h
  exact ⟨rfl, ne_empty_of_validate hname⟩

/-! ### What is below a folder -/

theorem toList_join : (parentPath ++ "/" ++ name).toList = join '/' parentPath.toList name.toList := by simp [join]

theorem isBelow_iff : isBelow oldPath path = true ↔ Below '/' oldPath.toList path.toList := by
  rw [isBelow, List.isPrefixOf_iff_prefix, Below]
  constructor
  · rintro ⟨rest, hrest⟩
    exact ⟨rest, by simp [← hrest, join]⟩
  · rintro ⟨rest, hrest⟩
    exact ⟨rest, by simp [hrest, join]⟩

theorem node_rewritten :
    (f.rewritten oldPath newPath).node = { f.node with path := rebase oldPath.toList newPath.toList f.node.path } := by
  simp [Folder.rewritten, Folder.node, rebase, String.length_toList]

theorem node_inj (h : f.node = g.node) : f = g := by
  obtain ⟨hparent, hname, hpath⟩ := Node.mk.inj h
  obtain ⟨parentId, name, path⟩ := f
  obtain ⟨parentId', name', path'⟩ := g
  obtain rfl := hparent
  obtain rfl := String.toList_inj.mp hname
  obtain rfl := String.toList_inj.mp hpath
  rfl

end Omnion.Media.Folders
