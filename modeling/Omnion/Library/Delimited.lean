import Mathlib.Data.List.Basic

/-!
# Records of cells

Texts of records, each of cells, as RFC 4180 has them: cells are separated by commas
and records end with a line break, CR LF; a cell with a comma, a quote or part of a
line break in it stands in quotes, and each quote of it is doubled. A cell without
these may hold any other character.

## The model

The reader takes one character after another. What is written may be quoted more often
than it has to be: `quoted` says which cells are.

## What is proved

* `read_write` — what was written is read back, whatever the cells hold.
-/

namespace Delimited

/-- Where the reader is. -/
inductive Place where
  | opening
  | bare
  | quoted
  /-- Behind a quote that ends the cell, or is the first of two. -/
  | closed
  | ending

/-- What was read so far. -/
structure State where
  place : Place := .opening
  /-- The cell, as far as it was read. -/
  cell : List Char := []
  /-- The cells of the record before it. -/
  cells : List (List Char) := []
  records : List (List (List Char)) := []

namespace State

/-- One more character of the cell. -/
def add (s : State) (c : Char) : State := { s with cell := s.cell ++ [c] }

/-- The cell is over, and another follows. -/
def next (s : State) : State := { s with place := .opening, cell := [], cells := s.cells ++ [s.cell] }

/-- The record is over. -/
def close (s : State) : State :=
  { place := .opening, cell := [], cells := [], records := s.records ++ [s.cells ++ [s.cell]] }

/-- One character is read; `none` where it may not stand. -/
def step (s : State) (c : Char) : Option State :=
  match s.place with
  | .opening =>
    if c = '"' then some { s with place := .quoted }
    else if c = ',' then some s.next
    else if c = '\r' then some { s with place := .ending }
    else if c = '\n' then none
    else some { s.add c with place := .bare }
  | .bare =>
    if c = '"' then none
    else if c = ',' then some s.next
    else if c = '\r' then some { s with place := .ending }
    else if c = '\n' then none
    else some (s.add c)
  | .quoted => if c = '"' then some { s with place := .closed } else some (s.add c)
  | .closed =>
    if c = '"' then some { s.add c with place := .quoted }
    else if c = ',' then some s.next
    else if c = '\r' then some { s with place := .ending }
    else none
  | .ending => if c = '\n' then some s.close else none

/-- The records, at the end of the text. The line break of the last one may be missing. -/
def finish (s : State) : Option (List (List (List Char))) :=
  match s.place with
  | .opening => some (if s.cells = [] then s.records else s.close.records)
  | .bare | .closed => some s.close.records
  | .quoted | .ending => none

end State

/-- The records of a text. -/
def read (text : List Char) : Option (List (List (List Char))) := (text.foldlM State.step {}).bind State.finish

/-! ### Writing -/

/-- Characters a cell holds only in quotes. -/
def special (c : Char) : Bool := c = '"' || c = ',' || c = '\r' || c = '\n'

/-- The cell with its quotes doubled. -/
def double (cell : List Char) : List Char := cell.flatMap fun c => if c = '"' then ['"', '"'] else [c]

/-- The text of a cell. -/
def writeCell (quoted : List Char → Bool) (cell : List Char) : List Char :=
  if quoted cell then '"' :: (double cell ++ ['"']) else cell

/-- The text of a record. -/
def writeRecord (quoted : List Char → Bool) (cells : List (List Char)) : List Char :=
  [','].intercalate (cells.map (writeCell quoted)) ++ ['\r', '\n']

/-- The text of records. -/
def write (quoted : List Char → Bool) (records : List (List (List Char))) : List Char :=
  records.flatMap (writeRecord quoted)

/-! ### What was written is read back -/

variable {quoted : List Char → Bool} {s : State} {cell : List Char} {cells : List (List Char)}

/-- The reader has the cell, and may go on to the next or end the record. -/
structure State.Has (s t : State) (cell : List Char) : Prop where
  place : t.place = .opening ∨ t.place = .bare ∨ t.place = .closed
  cell : t.cell = cell
  cells : t.cells = s.cells
  records : t.records = s.records

theorem special_eq_false {c : Char} : special c = false ↔ c ≠ '"' ∧ c ≠ ',' ∧ c ≠ '\r' ∧ c ≠ '\n' := by
  simp [special, and_assoc]

theorem foldlM_bare (hplace : s.place = .bare) (h : ∀ c ∈ cell, special c = false) :
    cell.foldlM State.step s = some { s with cell := s.cell ++ cell } := by
  induction cell generalizing s with
  | nil => simp
  | cons c cell ih =>
    obtain ⟨hquote, hcomma, hcr, hlf⟩ := special_eq_false.mp (h c List.mem_cons_self)
    have hstep : s.step c = some (s.add c) := by simp [State.step, hplace, hquote, hcomma, hcr, hlf]
    rw [List.foldlM_cons, hstep]
    refine (ih (s := s.add c) hplace fun d hd => h d (List.mem_cons_of_mem _ hd)).trans ?_
    simp [State.add]

theorem foldlM_double (hplace : s.place = .quoted) :
    (double cell).foldlM State.step s = some { s with cell := s.cell ++ cell } := by
  induction cell generalizing s with
  | nil => simp [double]
  | cons c cell ih =>
    -- A character of the cell is read as itself, a quote from two.
    have hchar : (if c = '"' then ['"', '"'] else [c]).foldlM State.step s = some (s.add c) := by
      split_ifs with hquote
      · simp [State.step, State.add, hplace, hquote]
      · simp [State.step, hplace, hquote]
    have hdouble : double (c :: cell) = (if c = '"' then ['"', '"'] else [c]) ++ double cell := rfl
    rw [hdouble, List.foldlM_append, hchar]
    refine (ih (s := s.add c) hplace).trans ?_
    simp [State.add]

/-- A cell is read from its text. -/
theorem exists_has (hquoted : ∀ c ∈ cell, special c = true → quoted cell = true)
    (hplace : s.place = .opening) (hcell : s.cell = []) :
    ∃ t, (writeCell quoted cell).foldlM State.step s = some t ∧ s.Has t cell := by
  unfold writeCell
  split_ifs with hq
  · have hopen : s.step '"' = some { s with place := .quoted } := by simp [State.step, hplace]
    have hclose : ['"'].foldlM State.step { s with place := .quoted, cell := s.cell ++ cell } =
        some { s with place := .closed, cell := s.cell ++ cell } := by simp [State.step]
    have hdouble : (double cell).foldlM State.step { s with place := .quoted } =
        some { s with place := .quoted, cell := s.cell ++ cell } := foldlM_double rfl
    refine ⟨{ s with place := .closed, cell := s.cell ++ cell }, ?_, ⟨by simp, by simp [hcell], rfl, rfl⟩⟩
    rw [List.foldlM_cons, hopen]
    change (double cell ++ ['"']).foldlM State.step { s with place := .quoted } = _
    rw [List.foldlM_append, hdouble]
    exact hclose
  · have hplain : ∀ c ∈ cell, special c = false := fun c hc => by
      by_contra h
      exact hq (hquoted c hc (by simpa using h))
    cases cell with
    | nil => exact ⟨s, rfl, ⟨.inl hplace, hcell, rfl, rfl⟩⟩
    | cons c cell =>
      obtain ⟨hquote, hcomma, hcr, hlf⟩ := special_eq_false.mp (hplain c List.mem_cons_self)
      have hstep : s.step c = some { s.add c with place := .bare } := by
        simp [State.step, hplace, hquote, hcomma, hcr, hlf]
      have hbare := foldlM_bare (s := { s.add c with place := .bare }) rfl
        fun d hd => hplain d (List.mem_cons_of_mem _ hd)
      rw [List.foldlM_cons, hstep]
      exact ⟨_, hbare, ⟨.inr (.inl rfl), by simp [State.add, hcell], rfl, rfl⟩⟩

theorem State.Has.comma {t : State} (h : s.Has t cell) :
    t.step ',' = some { s with place := .opening, cell := [], cells := s.cells ++ [cell] } := by
  rcases h.place with hplace | hplace | hplace <;>
    simp [step, hplace, next, h.cell, h.cells, h.records]

theorem State.Has.lineBreak {t : State} (h : s.Has t cell) :
    ['\r', '\n'].foldlM State.step t = some { records := s.records ++ [s.cells ++ [cell]] } := by
  rcases h.place with hplace | hplace | hplace <;>
    simp [step, hplace, close, h.cell, h.cells, h.records]

/-- A record is read from its text. -/
theorem foldlM_writeRecord (hquoted : ∀ cell ∈ cells, ∀ c ∈ cell, special c = true → quoted cell = true)
    (hcells : cells ≠ []) (hplace : s.place = .opening) (hcell : s.cell = []) :
    (writeRecord quoted cells).foldlM State.step s = some { records := s.records ++ [s.cells ++ cells] } := by
  induction cells generalizing s with
  | nil => exact absurd rfl hcells
  | cons cell cells ih =>
    obtain ⟨t, ht, hhas⟩ := exists_has (hquoted cell List.mem_cons_self) hplace hcell
    cases cells with
    | nil =>
      have hwrite : writeRecord quoted [cell] = writeCell quoted cell ++ ['\r', '\n'] := by
        simp [writeRecord]
      rw [hwrite, List.foldlM_append, ht]
      exact hhas.lineBreak
    | cons next cells =>
      have hwrite : writeRecord quoted (cell :: next :: cells) =
          writeCell quoted cell ++ ',' :: writeRecord quoted (next :: cells) := by
        simp [writeRecord, List.intercalate]
      have hrest := ih (s := { s with place := .opening, cell := [], cells := s.cells ++ [cell] })
        (fun cell' h => hquoted cell' (List.mem_cons_of_mem _ h)) (by simp) rfl rfl
      rw [hwrite, List.foldlM_append, ht]
      change (',' :: writeRecord quoted (next :: cells)).foldlM State.step t = _
      rw [List.foldlM_cons, hhas.comma]
      refine hrest.trans ?_
      simp

/-- **What was written is read back.** -/
theorem read_write {records : List (List (List Char))}
    (hquoted : ∀ cells ∈ records, ∀ cell ∈ cells, ∀ c ∈ cell, special c = true → quoted cell = true)
    (hrecords : ∀ cells ∈ records, cells ≠ []) : read (write quoted records) = some records := by
  have hfold : ∀ (records before : List (List (List Char))),
      (∀ cells ∈ records, ∀ cell ∈ cells, ∀ c ∈ cell, special c = true → quoted cell = true) →
      (∀ cells ∈ records, cells ≠ []) →
      (write quoted records).foldlM State.step { records := before } = some { records := before ++ records } := by
    intro records
    induction records with
    | nil => simp [write]
    | cons cells records ih =>
      intro before hquoted hrecords
      have hwrite : write quoted (cells :: records) = writeRecord quoted cells ++ write quoted records := rfl
      have hrecord := foldlM_writeRecord (s := { records := before }) (hquoted cells List.mem_cons_self)
        (hrecords cells List.mem_cons_self) rfl rfl
      rw [hwrite, List.foldlM_append, hrecord]
      refine (ih _ (fun c h => hquoted c (List.mem_cons_of_mem _ h))
        fun c h => hrecords c (List.mem_cons_of_mem _ h)).trans ?_
      simp
  rw [read, hfold records [] hquoted hrecords]
  simp [State.finish]

end Delimited
