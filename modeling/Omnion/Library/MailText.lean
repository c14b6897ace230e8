import Mathlib.Data.List.Basic

/-!
# Lines of mail

The lines of a text, and how a mail text travels behind the DATA command: each line ends
with CR LF, one that begins with a dot gets another dot before it, and a line that is one
dot ends the text. The receiver takes lines until that one and the first dot off each line
that begins with one.

## What is proved

* `receive_data` — the receiver has the lines that were sent, and goes on behind the dot.
* `lines_data` — the lines on the way are the lines with their dots doubled, so that none of
  them is one dot (`stuff_ne_dot`).
-/

namespace MailText

/-- The lines of a text. A line ends with CR LF, LF or CR, which may be missing behind the
last one; the empty text is one empty line. -/
def lines : List Char → List (List Char)
  | [] => [[]]
  | '\r' :: '\n' :: rest => if rest = [] then [[]] else [] :: lines rest
  | c :: rest =>
    if c = '\r' ∨ c = '\n' then if rest = [] then [[]] else [] :: lines rest
    else (lines rest).modifyHead (c :: ·)

/-- A dot before a line that begins with one. -/
def stuff (line : List Char) : List Char := if line.head? = some '.' then '.' :: line else line

/-- The first dot off a line. -/
def unstuff (line : List Char) : List Char := if line.head? = some '.' then line.tail else line

/-- Lines on the way. -/
def data (ls : List (List Char)) : List Char := ls.flatMap fun line => stuff line ++ ['\r', '\n']

/-- What a receiver that has read the beginning of a line makes of the stream: the lines up
to the one that is a dot, and the rest of the stream. `none` if there is no such line. -/
def receive (line : List Char) : List Char → Option (List (List Char) × List Char)
  | [] => none
  | '\r' :: '\n' :: rest =>
    if line = ['.'] then some ([], rest)
    else (receive [] rest).map fun (ls, after) => (unstuff line :: ls, after)
  | c :: rest => receive (line ++ [c]) rest

/-- Without a line break. -/
def Unbroken (line : List Char) : Prop := ∀ c ∈ line, c ≠ '\r' ∧ c ≠ '\n'

variable {line line' text after : List Char} {ls : List (List Char)} {c : Char}

@[simp] theorem unbroken_cons : Unbroken (c :: line) ↔ (c ≠ '\r' ∧ c ≠ '\n') ∧ Unbroken line := List.forall_mem_cons

theorem unbroken_nil : Unbroken [] := by simp [Unbroken]

/-! ### Dots -/

@[simp] theorem unstuff_stuff (line : List Char) : unstuff (stuff line) = line := by
  rw [stuff]
  split_ifs with h
  · simp [unstuff]
  · simp [unstuff, h]

theorem stuff_ne_dot (line : List Char) : stuff line ≠ ['.'] := by
  rw [stuff]
  split_ifs with h
  · rintro heq
    obtain rfl : line = [] := (List.cons.inj heq).2
    cases h
  · rintro rfl
    exact h rfl

theorem Unbroken.stuff (h : Unbroken line) : Unbroken (stuff line) := by
  rw [MailText.stuff]
  split_ifs
  · exact unbroken_cons.mpr ⟨by decide, h⟩
  · exact h

/-! ### Reading a line -/

theorem receive_append (h : Unbroken line') : receive line (line' ++ text) = receive (line ++ line') text := by
  induction line' generalizing line with
  | nil => simp
  | cons c line' ih =>
    obtain ⟨⟨hcr, -⟩, hline'⟩ := unbroken_cons.mp h
    have hstep : receive line (c :: (line' ++ text)) = receive (line ++ [c]) (line' ++ text) := by
      rw [receive.eq_def]
      split
      next heq => cases heq
      next heq => exact absurd (List.cons.inj heq).1 hcr
      next heq =>
        obtain ⟨rfl, rfl⟩ := List.cons.inj heq
        rfl
    rw [List.cons_append, hstep, ih hline', List.append_assoc, List.singleton_append]

/-- **What is sent is received**: all lines, and nothing behind the dot. -/
theorem receive_data (hls : ∀ line ∈ ls, Unbroken line) (after : List Char) :
    receive [] (data ls ++ '.' :: '\r' :: '\n' :: after) = some (ls, after) := by
  induction ls with
  | nil => rfl
  | cons line ls ih =>
    obtain ⟨hline, hrest⟩ := List.forall_mem_cons.mp hls
    have hdata : data (line :: ls) ++ '.' :: '\r' :: '\n' :: after
        = stuff line ++ '\r' :: '\n' :: (data ls ++ '.' :: '\r' :: '\n' :: after) := by
      simp [data]
    rw [hdata, receive_append hline.stuff, List.nil_append, receive, if_neg (stuff_ne_dot line), ih hrest]
    simp

theorem lines_cons (hc : c ≠ '\r' ∧ c ≠ '\n') (text : List Char) :
    lines (c :: text) = (lines text).modifyHead (c :: ·) := by
  rw [lines.eq_def]
  split
  next heq => cases heq
  next heq => exact absurd (List.cons.inj heq).1 hc.1
  next heq =>
    obtain ⟨rfl, rfl⟩ := List.cons.inj heq
    rw [if_neg (not_or.mpr hc)]

theorem lines_ne_nil (text : List Char) : lines text ≠ [] := by
  fun_induction lines text with
  | case1 => simp
  | case2 => simp
  | case3 => simp
  | case4 => simp
  | case5 => simp
  | case6 _ _ _ _ ih => simpa using ih

theorem lines_append (h : Unbroken line) (text : List Char) :
    lines (line ++ '\r' :: '\n' :: text) = if text = [] then [line] else line :: lines text := by
  induction line with
  | nil => rw [List.nil_append, lines]
  | cons c line ih =>
    obtain ⟨hc, hline⟩ := unbroken_cons.mp h
    rw [List.cons_append, lines_cons hc, ih hline]
    split_ifs <;> rfl

theorem lines_data (hls : ∀ line ∈ ls, Unbroken line) (hne : ls ≠ []) : lines (data ls) = ls.map stuff := by
  induction ls with
  | nil => exact absurd rfl hne
  | cons line ls ih =>
    obtain ⟨hline, hrest⟩ := List.forall_mem_cons.mp hls
    have hdata : data (line :: ls) = stuff line ++ '\r' :: '\n' :: data ls := by simp [data]
    rw [hdata, lines_append hline.stuff]
    rcases ls with _ | ⟨next, ls⟩
    · rfl
    · have hdata : data (next :: ls) ≠ [] := by simp [data]
      rw [if_neg hdata, ih hrest (List.cons_ne_nil _ _)]
      rfl

theorem unbroken_of_mem_lines (h : line ∈ lines text) : Unbroken line := by
  fun_induction lines text generalizing line with
  | case1 => exact List.mem_singleton.mp h ▸ unbroken_nil
  | case2 => exact List.mem_singleton.mp h ▸ unbroken_nil
  | case3 rest _ ih =>
    rcases List.mem_cons.mp h with rfl | h
    · exact unbroken_nil
    · exact ih h
  | case4 => exact List.mem_singleton.mp h ▸ unbroken_nil
  | case5 c rest _ _ _ ih =>
    rcases List.mem_cons.mp h with rfl | h
    · exact unbroken_nil
    · exact ih h
  | case6 c rest _ hc ih =>
    obtain ⟨head, tail, hlines⟩ := List.exists_cons_of_ne_nil (lines_ne_nil rest)
    rw [hlines] at h ih
    rcases List.mem_cons.mp h with rfl | h
    · exact unbroken_cons.mpr ⟨not_or.mp hc, ih List.mem_cons_self⟩
    · exact ih (List.mem_cons_of_mem _ h)

end MailText
