import Mathlib.Data.List.Forall2
import Omnion.Core.Text
import Omnion.Library.Delimited

/-!
# The findings export

`crates/security/src/csv.rs`: findings as a document of comma-separated cells, of which none
is a formula to a spreadsheet.

## The model

A finding has the fields the export writes. How an instant and an identifier are written is
decided by the crates `time` and `uuid`, and an argument.

## What is proved

* `render_safe` — the document is read back as the header and a row of twelve cells for each
  finding; the texts can be told from the cells, and no cell begins like a formula.

## Honest scope

The document is read by `Delimited.read`, for which a cell without quotes may hold any
character but a comma, a quote, CR and LF.
-/

namespace Omnion.Security

/-- The fields of a finding that are exported. -/
structure Finding where
  id : Uuid
  source : String
  severity : String
  title : String
  /-- The dependency it is about, when there is one. -/
  component : Option String
  componentVersion : Option String
  fixedIn : Option String
  status : String
  ignoreReason : Option String
  note : Option String
  firstSeenAt : Instant
  lastSeenAt : Instant

/-- How the crates `time` and `uuid` write their values. -/
structure Display where
  instant : Instant → String
  uuid : Uuid → String

namespace Csv

/-- The header row, in the table's own column order. -/
def columns : List String :=
  ["severity", "status", "title", "source", "component", "component_version", "fixed_in", "first_seen",
    "last_seen", "ignore_reason", "note", "id"]

/-- How many findings one export may carry. -/
def maxExportRows : ℕ := 50000

/-- The characters a formula begins with. -/
def isFormula (c : Char) : Bool := c = '=' || c = '+' || c = '-' || c = '@'

/-- A spreadsheet would read this cell as a formula. -/
def startsLikeAFormula (value : String) : Bool :=
  (value.toList.dropWhile fun c => c = ' ' || c = '\t').head?.any isFormula

/-- The value, behind a tab where it looks like a formula. -/
def guarded (value : String) : String := if startsLikeAFormula value then "\t" ++ value else value

/-- The cell has to stand in quotes. -/
def needsQuotes (guarded : String) : Bool :=
  guarded.toList.any Delimited.special || guarded.toList.head?.any (fun c => c = ' ' || c = '\t') ||
    Text.trim guarded = ""

/-- Quote and escape one cell, and neutralise a leading formula character. -/
def cellToCsv (value : String) : String :=
  if needsQuotes (guarded value) then "\"" ++ String.ofList (Delimited.double (guarded value).toList) ++ "\""
  else guarded value

/-- The texts of one row, in `columns`' order. -/
def texts (display : Display) (row : Finding) : List String :=
  [row.severity, row.status, row.title, row.source, row.component.getD "", row.componentVersion.getD "",
    row.fixedIn.getD "", display.instant row.firstSeenAt, display.instant row.lastSeenAt,
    row.ignoreReason.getD "", row.note.getD "", display.uuid row.id]

def renderRow (display : Display) (row : Finding) : String :=
  ",".intercalate ((texts display row).map cellToCsv)

/-- Render findings as a document, header first, with a trailing line break. -/
def render (display : Display) (rows : List Finding) : Except String String :=
  if rows.length > maxExportRows then
    .error s!"{rows.length} findings match this filter; an export carries at most {maxExportRows} — narrow the filter"
  else .ok (rows.foldl (fun out row => out ++ renderRow display row ++ "\r\n") (",".intercalate columns ++ "\r\n"))

/-! ### The guard -/

variable {value : String}

/-- The text a cell was made from: the guard tab is taken off. -/
def recover (cell : String) : String :=
  match cell.toList with
  | '\t' :: rest => if startsLikeAFormula (String.ofList rest) then String.ofList rest else cell
  | _ => cell

theorem toList_guarded (h : startsLikeAFormula value = true) : (guarded value).toList = '\t' :: value.toList := by
  rw [guarded, if_pos h, String.toList_append]
  rfl

/-- **The guard can be undone.** -/
theorem recover_guarded (value : String) : recover (guarded value) = value := by
  by_cases h : startsLikeAFormula value = true
  · simp [recover, toList_guarded h, h]
  · rw [guarded, if_neg h, recover]
    split
    · next rest hvalue =>
      -- A tab before a formula is a formula itself.
      have hrest : startsLikeAFormula (String.ofList rest) = startsLikeAFormula value := by
        simp [startsLikeAFormula, hvalue]
      rw [hrest, if_neg h]
    · rfl

theorem guarded_injective : Function.Injective guarded :=
  Function.LeftInverse.injective recover_guarded

theorem isFormula_guarded (value : String) :
    ((guarded value).toList.dropWhile (· = ' ')).head?.any isFormula = false := by
  by_cases h : startsLikeAFormula value = true
  · rw [toList_guarded h]
    rfl
  · rw [guarded, if_neg h]
    -- What is behind the spaces is behind the spaces and tabs, unless it is a tab.
    have hspaces : ∀ l : List Char, (l.dropWhile fun c => c = ' ' || c = '\t').head?.any isFormula = false →
        (l.dropWhile (· = ' ')).head?.any isFormula = false := by
      intro l
      induction l with
      | nil => simp
      | cons c l ih =>
        by_cases hspace : c = ' '
        · simpa [hspace] using ih
        · by_cases htab : c = '\t'
          · simp [htab, isFormula]
          · simp [hspace, htab]
    exact hspaces _ (by simpa [startsLikeAFormula] using h)

/-! ### The document -/

def quoted (cell : List Char) : Bool := needsQuotes (String.ofList cell)

theorem quoted_of_special {cell : List Char} {c : Char} (hc : c ∈ cell) (h : Delimited.special c = true) :
    quoted cell = true := by
  have hany : cell.any Delimited.special = true := List.any_eq_true.mpr ⟨c, hc, h⟩
  simp [quoted, needsQuotes, hany]

theorem toList_cellToCsv (value : String) :
    (cellToCsv value).toList = Delimited.writeCell quoted (guarded value).toList := by
  simp only [cellToCsv, Delimited.writeCell, quoted, String.ofList_toList]
  split_ifs
  · simp
  · rfl

def cells (display : Display) (row : Finding) : List (List Char) :=
  (texts display row).map fun value => (guarded value).toList

theorem comma : ",".toList = [','] := rfl

theorem lineBreak : "\r\n".toList = ['\r', '\n'] := rfl

theorem toList_renderRow (display : Display) (row : Finding) :
    (renderRow display row ++ "\r\n").toList = Delimited.writeRecord quoted (cells display row) := by
  have hcells : ((texts display row).map cellToCsv).map String.toList =
      (cells display row).map (Delimited.writeCell quoted) := by
    simp only [cells, List.map_map, Function.comp_def, toList_cellToCsv]
  rw [String.toList_append, renderRow, String.toList_intercalate, hcells, comma, lineBreak, Delimited.writeRecord]

/-- The header's cells. -/
def header : List (List Char) := columns.map String.toList

theorem toList_header : (",".intercalate columns ++ "\r\n").toList = Delimited.writeRecord quoted header := by
  have hplain : ∀ cell ∈ header, quoted cell = false := by decide
  have hcells : header.map (Delimited.writeCell quoted) = header := by
    conv_rhs => rw [← List.map_id header]
    exact List.map_congr_left fun cell hcell => by simp [Delimited.writeCell, hplain cell hcell]
  rw [String.toList_append, String.toList_intercalate, comma, lineBreak, Delimited.writeRecord, hcells, header]

theorem toList_render {display : Display} {rows : List Finding} {document : String}
    (h : render display rows = .ok document) :
    document.toList = Delimited.write quoted (header :: rows.map (cells display)) := by
  have hfold : ∀ (rows : List Finding) (out : String),
      (rows.foldl (fun out row => out ++ renderRow display row ++ "\r\n") out).toList =
        out.toList ++ Delimited.write quoted (rows.map (cells display)) := by
    intro rows
    induction rows with
    | nil => simp [Delimited.write]
    | cons row rows ih =>
      intro out
      rw [List.foldl_cons, ih, String.append_assoc, String.toList_append, toList_renderRow]
      simp [Delimited.write]
  rw [render] at h
  split_ifs at h
  rw [← Except.ok.inj h, hfold, toList_header]
  rfl

/-- What is to be read under each column of the table. -/
def shown (display : Display) (row : Finding) : List (String × String) :=
  [("severity", row.severity), ("status", row.status), ("title", row.title), ("source", row.source),
    ("component", row.component.getD ""), ("component_version", row.componentVersion.getD ""),
    ("fixed_in", row.fixedIn.getD ""), ("first_seen", display.instant row.firstSeenAt),
    ("last_seen", display.instant row.lastSeenAt), ("ignore_reason", row.ignoreReason.getD ""),
    ("note", row.note.getD ""), ("id", display.uuid row.id)]

/-- The cells of one row are twelve, tell what the finding says, and are no formulas. -/
structure Faithful (display : Display) (row : Finding) (cells : List (List Char)) : Prop where
  length : cells.length = 12
  /-- Under each column, the text it shows is recovered from the cell. -/
  texts : columns.zip (cells.map fun cell => recover (String.ofList cell)) = shown display row
  /-- After its spaces, none begins with a formula character, unless behind the guard tab. -/
  safe : ∀ cell ∈ cells, ∀ c ∈ ['=', '+', '-', '@'], (cell.dropWhile (· = ' ')).head? = some c →
    cell.head? = some '\t'

theorem recover_cells (display : Display) (row : Finding) :
    (cells display row).map (fun cell => recover (String.ofList cell)) = texts display row := by
  simp only [cells, List.map_map]
  refine List.map_id'' (fun value => ?_) _
  simpa using recover_guarded value

theorem faithful_cells (display : Display) (row : Finding) : Faithful display row (cells display row) where
  length := rfl
  texts := by
    rw [recover_cells]
    rfl
  safe := by
    intro cell hcell c hc hhead
    obtain ⟨value, -, rfl⟩ := List.mem_map.mp hcell
    have hformula : isFormula c = true := by
      simp only [List.mem_cons, List.not_mem_nil, or_false] at hc
      simpa [isFormula, or_assoc] using hc
    have hnone := isFormula_guarded value
    rw [hhead, Option.any_some, hformula] at hnone
    cases hnone

/-- **The document is read back** as the header and one row for each finding, in order; it is
refused only when there are too many. -/
theorem render_safe (display : Display) (rows : List Finding) :
    Function.Injective guarded ∧
      match render display rows with
      | .ok document => ∃ table, Delimited.read document.toList = some (header :: table) ∧
          List.Forall₂ (Faithful display) rows table
      | .error _ => maxExportRows < rows.length := by
  refine ⟨guarded_injective, ?_⟩
  cases h : render display rows with
  | error message =>
    rw [render] at h
    split_ifs at h with hmany
    exact hmany
  | ok document =>
    refine ⟨rows.map (cells display), ?_, ?_⟩
    · rw [toList_render h]
      refine Delimited.read_write (fun _ _ _ _ _ hc hspecial => quoted_of_special hc hspecial) ?_
      intro record hrecord
      rcases List.mem_cons.mp hrecord with rfl | hrow
      · decide
      · obtain ⟨row, -, rfl⟩ := List.mem_map.mp hrow
        exact List.cons_ne_nil _ _
    · rw [List.forall₂_map_right_iff, List.forall₂_same]
      exact fun row _ => faithful_cells display row

end Csv

end Omnion.Security
