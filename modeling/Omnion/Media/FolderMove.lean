import Omnion.Media.FolderStore

/-!
# What a move of a folder changes

`move_folder` of `crates/media/src/folder_store.rs` with nobody else at work: the rows of
`media_folders`, of every site,
before the transaction and after it. The folder is found by its id and refused or left where it is by its paths
(`planMove`). Then one statement rewrites the paths that its path or the pattern of its path matches, and another one
writes the folder itself.

A move is to change the folder and what is below it, and nothing else (`Exact`). It changes what
the pattern matches. What
is below the folder is always among that, since no accepted name has a backslash
(`inSubtree_of_below`); but `_` and `%` of
a name stand for other characters, and then rows of another folder are matched too.
`moveFolder_exact_iff` says that this
is all that can go wrong, and `underscore_rewrites` that it does.

The limits PostgreSQL puts on the length of an index entry are left out: a move that meets one fails.
-/

namespace Omnion.Media.Folders

open Paths

/-! ### Rows -/

/-- A row of `media_folders`. -/
structure FolderRow extends Folder where
  id : Uuid
  siteId : Uuid
  /-- Account that created the folder. -/
  createdBy : Option Uuid
  createdAt : ℤ
  updatedAt : ℤ
  deriving DecidableEq

/-- `where site_id = $4 and (path = $1 or path like $2) and id <> $5`. -/
def FolderRow.selected (current : FolderRow) (f : FolderRow) : Bool :=
  f.siteId = current.siteId && inSubtree current.path f.path && f.id ≠ current.id

/-- `set path = $3 || substring(path from length($1) + 1), updated_at = now()`. -/
def FolderRow.rewritePath (f current : FolderRow) (newPath : String) (now : ℤ) : FolderRow :=
  { f with toFolder := f.toFolder.rewritten current.path newPath, updatedAt := now }

/-- The first statement, on one row. -/
def FolderRow.rewrite (current : FolderRow) (newPath : String) (now : ℤ) (f : FolderRow) : FolderRow :=
  if current.selected f then f.rewritePath current newPath now else f

/-- The two unique indexes: another row of the site has the same entry. -/
def FolderRow.clashes (f g : FolderRow) : Bool := g.id ≠ f.id && g.siteId = f.siteId && g.entry = f.entry

/-- The second statement: the folder gets its parent, its name and its path, unless a constraint is
broken or two folders
are at the path of the parent. -/
def placeFolder (rows : List FolderRow) (current : FolderRow) (target : FolderMove) (newPath : String) (now : ℤ) :
    Except MediaError (List FolderRow × FolderRow) :=
  let parents := rows.filter fun f => f.siteId = current.siteId && f.path = target.parentPath
  let moved : FolderRow := { current with
    parentId := parents.head?.map (·.id), name := target.name, path := newPath, updatedAt := now }
  if 1 < parents.length ∨ moved.parentId = some current.id ∨ nameNotBlank moved.name = false ∨
    nameNotBlank moved.path = false ∨ rows.any moved.clashes then .error .database
  else .ok (rows.map fun f => if f.id = current.id then moved else f, moved)

/-- `move_folder`. -/
def moveFolder (rows : List FolderRow) (id : Uuid) (target : FolderMove) (now : ℤ) :
    Except MediaError (List FolderRow × FolderRow) :=
  match rows.find? (·.id = id) with
  | none => .error .folderNotFound
  | some current =>
    match planMove id target current.toFolder with
    | .error e => .error e
    | .ok none => .ok (rows, current)
    | .ok (some m) => placeFolder (rows.map (current.rewrite m.newPath now)) current target m.newPath now

/-! ### What is to hold -/

/-- A name that a route has accepted. -/
def Accepted (name : String) : Prop := validateFolderName name = .ok () ∧ ∃ raw, sanitizeFolderName raw = name

/-- A path of accepted names. -/
inductive Named : String → Prop where
  | root {name : String} (hname : Accepted name) : Named name
  | child {path name : String} (hpath : Named path) (hname : Accepted name) : Named (path ++ "/" ++ name)

/-- What a move is to make of a row: the folder has the new path, what is below it has the new path in front in place of
the old one, and everything else is as it was. -/
def FolderRow.Moves (current : FolderRow) (newPath : String) (f f' : FolderRow) : Prop :=
  if f.id = current.id then f'.path = newPath
  else if f.siteId = current.siteId ∧ isBelow current.path f.path then
    f' = f.rewritePath current newPath f'.updatedAt
  else f' = f

/-- **A move changes the folder and what is below it**, and leaves every other row as it was. -/
def Exact (rows rows' : List FolderRow) (id : Uuid) (target : FolderMove) : Prop :=
  ∃ current newPath, rows.find? (·.id = id) = some current ∧ childPath target.parentPath target.name = .ok newPath ∧
    List.Forall₂ (current.Moves newPath) rows rows'

/-- When it does: the folder stays where it is, or each row that is matched is below it, or is what the statement would
make of it. -/
def Undisturbed (rows : List FolderRow) (id : Uuid) (target : FolderMove) (now : ℤ) : Prop :=
  ∀ current newPath, rows.find? (·.id = id) = some current → childPath target.parentPath target.name = .ok newPath →
    newPath = current.path ∨ ∀ f ∈ rows, current.selected f = true →
      isBelow current.path f.path = true ∨ f.rewritePath current newPath now = f

/-! ### What the pattern matches -/

variable {name path oldPath newPath raw : String} {rows rows' : List FolderRow} {id : Uuid} {target : FolderMove}
  {now : ℤ} {current moved f g : FolderRow}

theorem escape_not_mem_sanitizeFolderName (raw : String) : '\\' ∉ (sanitizeFolderName raw).toList := by
  intro h
  simp only [sanitizeFolderName, trimMatches, Text.trim, String.toList_ofList] at h
  obtain ⟨c, -, hc⟩ := List.mem_map.mp (mem_of_trimmed (mem_of_trimmed h))
  split_ifs at hc with hsep
  · exact absurd hc (by decide)
  · exact hsep (.inr (.inl hc))

theorem Accepted.segment (h : Accepted name) : Segment name := by
  obtain ⟨hvalid, raw, rfl⟩ := h
  exact segment_sanitizeFolderName hvalid

theorem Named.clean (h : Named path) : Clean path := by
  induction h with
  | root hname => exact hname.segment.clean
  | child _ hname ih => exact ih.join hname.segment

theorem Named.escape_not_mem (h : Named path) : '\\' ∉ path.toList := by
  have hname : ∀ {name}, Accepted name → '\\' ∉ name.toList := by
    rintro name ⟨-, raw, rfl⟩
    exact escape_not_mem_sanitizeFolderName raw
  induction h with
  | root h => exact hname h
  | child _ h ih =>
    rw [String.toList_append, String.toList_append, List.mem_append, List.mem_append, not_or, not_or]
    exact ⟨⟨ih, by decide⟩, hname h⟩

theorem like_self_append {p pattern text : List Char} (hp : '\\' ∉ p) (h : like pattern text = true) :
    like (p ++ pattern) (p ++ text) = true := by
  induction p with
  | nil => exact h
  | cons c p ih =>
    rw [List.mem_cons, not_or] at hp
    have hrest := ih hp.2
    by_cases hpercent : c = '%'
    · subst hpercent
      rw [List.cons_append, like, List.any_eq_true]
      exact ⟨p ++ text, by simp, hrest⟩
    by_cases hunderscore : c = '_'
    · subst hunderscore
      simpa [like] using hrest
    have hescape : c ≠ '\\' := Ne.symm hp.1
    rw [List.cons_append, like] <;> simp_all

/-- **What is below a folder is matched.** -/
theorem inSubtree_of_below (hnamed : Named oldPath) (h : isBelow oldPath path = true) :
    inSubtree oldPath path = true := by
  obtain ⟨rest, hrest⟩ := isBelow_iff.mp h
  have hpattern : (subtreePattern oldPath).toList = oldPath.toList ++ ['/', '%'] := by
    simp [subtreePattern, hnamed.clean.trimMatches_eq]
  rw [inSubtree, Bool.or_eq_true, hpattern, hrest, join]
  exact .inr (like_self_append hnamed.escape_not_mem (by simp [like]))

theorem FolderRow.selected_of_below (hnamed : Named current.path) (hne : f.id ≠ current.id)
    (hsite : f.siteId = current.siteId) (hbelow : isBelow current.path f.path = true) : current.selected f = true := by
  simp [selected, hne, hsite, inSubtree_of_below hnamed hbelow]

theorem FolderRow.selected_iff : current.selected f = true ↔
    f.siteId = current.siteId ∧ inSubtree current.path f.path = true ∧ f.id ≠ current.id := by
  simp [selected, and_assoc]

/-- What the first statement makes of a row is what a move is to make of it, unless the row is matched without being
below the folder. -/
theorem FolderRow.moves_rewrite_iff (hnamed : Named current.path) (hne : f.id ≠ current.id) :
    current.Moves newPath f (current.rewrite newPath now f) ↔
      (current.selected f = true → isBelow current.path f.path = true ∨ f.rewritePath current newPath now = f) := by
  rw [Moves, if_neg hne]
  by_cases hbelow : f.siteId = current.siteId ∧ isBelow current.path f.path = true
  · have hsel := selected_of_below hnamed hne hbelow.1 hbelow.2
    simp [hbelow, rewrite, hsel, rewritePath]
  · rw [if_neg hbelow, rewrite]
    constructor
    · intro h hsel
      rw [if_pos hsel] at h
      exact .inr h
    · intro h
      split_ifs with hsel
      · exact (h hsel).resolve_left fun habove => hbelow ⟨(selected_iff.mp hsel).1, habove⟩
      · rfl

theorem FolderRow.moves_self (hsame : newPath = current.path) (hself : f.id = current.id → f = current) :
    current.Moves newPath f f := by
  subst hsame
  rw [Moves]
  split_ifs with hid hbelow
  · rw [hself hid]
  · obtain ⟨rest, hrest⟩ := isBelow_iff.mp hbelow.2
    have hpath : current.path ++ String.ofList (f.path.toList.drop current.path.length) = f.path := by
      rw [← String.toList_inj, String.toList_append, String.toList_ofList, ← String.length_toList, hrest]
      simp [join]
    simp [rewritePath, Folder.rewritten, hpath]
  · rfl

/-- What both statements make of the rows is what a move is to make of them just when the first one does. -/
theorem placeFolder_moves_iff (hnamed : Named current.path)
    (h : placeFolder (rows.map (current.rewrite newPath now)) current target newPath now = .ok (rows', moved)) :
    List.Forall₂ (current.Moves newPath) rows rows' ↔ ∀ f ∈ rows, current.selected f = true →
      isBelow current.path f.path = true ∨ f.rewritePath current newPath now = f := by
  unfold placeFolder at h
  dsimp only at h
  split_ifs at h
  simp only [Except.ok.injEq, Prod.mk.injEq] at h
  obtain ⟨rfl, rfl⟩ := h
  rw [List.map_map, List.forall₂_map_right_iff, List.forall₂_same]
  refine forall₂_congr fun f _ => ?_
  have hid : (current.rewrite newPath now f).id = f.id := by
    unfold FolderRow.rewrite
    split_ifs <;> rfl
  rw [Function.comp_apply, hid]
  by_cases hne : f.id = current.id
  · have hunselected : ¬ current.selected f = true := fun hsel => (FolderRow.selected_iff.mp hsel).2.2 hne
    simp [hne, FolderRow.Moves, hunselected]
  · rw [if_neg hne]
    exact FolderRow.moves_rewrite_iff hnamed hne

/-- **A move changes the folder and what is below it** just when the pattern matches nothing else. -/
theorem moveFolder_exact_iff (rows rows' : List FolderRow) (id : Uuid) (target : FolderMove) (now : ℤ)
    (moved : FolderRow) (hids : (rows.map (·.id)).Nodup) (hnamed : ∀ f ∈ rows, Named f.path)
    (h : moveFolder rows id target now = .ok (rows', moved)) :
    Exact rows rows' id target ↔ Undisturbed rows id target now := by
  unfold moveFolder at h
  cases hfind : rows.find? (·.id = id) with
  | none => simp [hfind] at h
  | some current =>
    have hid : current.id = id := by simpa using List.find?_some hfind
    have hmem := List.mem_of_find?_eq_some hfind
    simp only [hfind] at h
    cases hpath : childPath target.parentPath target.name with
    | error e => simp [planMove, hpath, bind, Except.bind] at h
    | ok newPath =>
      have hexact : Exact rows rows' id target ↔ List.Forall₂ (current.Moves newPath) rows rows' := by
        simp [Exact, hfind, hpath]
      have hcond : Undisturbed rows id target now ↔ (newPath = current.path ∨ ∀ f ∈ rows, current.selected f = true →
          isBelow current.path f.path = true ∨ f.rewritePath current newPath now = f) := by
        simp [Undisturbed, hfind, hpath]
      rw [hexact, hcond]
      simp only [planMove, hpath, bind, Except.bind] at h
      by_cases hsame : newPath = current.path
      · simp only [hsame, if_true, pure, Except.pure, Except.ok.injEq, Prod.mk.injEq] at h
        obtain ⟨rfl, rfl⟩ := h
        refine iff_of_true (List.forall₂_same.mpr fun f hf => FolderRow.moves_self hsame fun hfid => ?_) (.inl hsame)
        exact List.inj_on_of_nodup_map hids hf hmem hfid
      · rw [or_iff_right hsame]
        rw [if_neg hsame] at h
        split_ifs at h with hcycle
        exact placeFolder_moves_iff (hnamed current hmem) h

/-! ### Folders whose paths agree but for a character -/

/-- The folders `a_b` and `axb` of a site, and one in the second. -/
def similar : List FolderRow :=
  let row (id : Uuid) (parentId : Option Uuid) (name path : String) : FolderRow :=
    { id, parentId, name, path, siteId := 9, createdBy := none, createdAt := 0, updatedAt := 0 }
  [row 0 none "Media" "Media", row 1 (some 0) "a_b" "Media/a_b", row 2 (some 0) "axb" "Media/axb",
    row 3 (some 2) "c" "Media/axb/c"]

theorem accepted_of_fixed {name : String} (hvalid : validateFolderName name = .ok ())
    (hfixed : sanitizeFolderName name = name) : Accepted name := ⟨hvalid, name, hfixed⟩

theorem similar_named : ∀ f ∈ similar, Named f.path := by
  have hmedia : Accepted "Media" := accepted_of_fixed (by decide) (by decide)
  have hab : Accepted "a_b" := accepted_of_fixed (by decide) (by decide)
  have haxb : Accepted "axb" := accepted_of_fixed (by decide) (by decide)
  have hc : Accepted "c" := accepted_of_fixed (by decide) (by decide)
  simp only [similar, List.forall_mem_cons, List.not_mem_nil, IsEmpty.forall_iff, implies_true, and_true]
  exact ⟨.root hmedia, .child (.root hmedia) hab, .child (.root hmedia) haxb, .child (.child (.root hmedia) haxb) hc⟩

/-- Renaming `a_b` to `n` gives the folder in `axb` the path `Media/n/c`. -/
theorem underscore_rewrites :
    ¬ ∀ (rows rows' : List FolderRow) (id : Uuid) (target : FolderMove) (now : ℤ) (moved : FolderRow),
      (rows.map (·.id)).Nodup → (∀ f ∈ rows, Named f.path) → moveFolder rows id target now = .ok (rows', moved) →
        Exact rows rows' id target := by
  intro h
  have hmove : moveFolder similar 1 ⟨"n", "Media"⟩ 5 = .ok
      ([⟨⟨none, "Media", "Media"⟩, 0, 9, none, 0, 0⟩, ⟨⟨some 0, "n", "Media/n"⟩, 1, 9, none, 0, 5⟩,
        ⟨⟨some 0, "axb", "Media/axb"⟩, 2, 9, none, 0, 0⟩, ⟨⟨some 2, "c", "Media/n/c"⟩, 3, 9, none, 0, 5⟩],
        ⟨⟨some 0, "n", "Media/n"⟩, 1, 9, none, 0, 5⟩) := by decide +kernel
  obtain ⟨current, newPath, hfind, -, hmoves⟩ := h similar _ 1 ⟨"n", "Media"⟩ 5 _ (by decide) similar_named hmove
  have hcurrent : current = ⟨⟨some 0, "a_b", "Media/a_b"⟩, 1, 9, none, 0, 0⟩ :=
    Option.some.inj (hfind.symm.trans (by decide))
  subst hcurrent
  simp only [similar, List.forall₂_cons] at hmoves
  obtain ⟨-, -, -, hmoves, -⟩ := hmoves
  have hstays : ¬ isBelow "Media/a_b" "Media/axb/c" = true := by decide +kernel
  simp [FolderRow.Moves, hstays] at hmoves

/-- Renaming `axb` to `n` changes it and what is in it. -/
theorem moveFolder_exact_axb :
    Exact similar
      [⟨⟨none, "Media", "Media"⟩, 0, 9, none, 0, 0⟩, ⟨⟨some 0, "a_b", "Media/a_b"⟩, 1, 9, none, 0, 0⟩,
        ⟨⟨some 0, "n", "Media/n"⟩, 2, 9, none, 0, 5⟩, ⟨⟨some 2, "c", "Media/n/c"⟩, 3, 9, none, 0, 5⟩]
      2 ⟨"n", "Media"⟩ := by
  refine (moveFolder_exact_iff similar _ 2 ⟨"n", "Media"⟩ 5 ⟨⟨some 0, "n", "Media/n"⟩, 2, 9, none, 0, 5⟩ (by decide)
    similar_named (by decide +kernel)).mpr fun current newPath hfind _ => .inr ?_
  have hcurrent : current = ⟨⟨some 0, "axb", "Media/axb"⟩, 2, 9, none, 0, 0⟩ :=
    Option.some.inj (hfind.symm.trans (by decide))
  subst hcurrent
  have hchild : isBelow "Media/axb" "Media/axb/c" = true := by decide +kernel
  have hother : inSubtree "Media/axb" "Media/a_b" = false := by decide +kernel
  have hroot : inSubtree "Media/axb" "Media" = false := by decide +kernel
  simp [similar, FolderRow.selected, hchild, hother, hroot]

end Omnion.Media.Folders
