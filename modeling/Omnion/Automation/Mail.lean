import Mathlib.Data.String.Basic
import Omnion.Library.MailText

/-!
# The body of a mail

`dot_stuff` of `crates/automation/src/mail.rs` makes a body ready for the DATA command:
line breaks become CR LF, and a line that begins with a dot gets another one. The client
sends a dot on a line of its own behind it.

## What is proved

* `dotStuff_transparent` — no line of what is sent is one dot, and a receiver that takes the
  doubled dots off has the lines of the body and goes on behind the last dot.
-/

namespace Omnion.Automation

open MailText

/-- `str::replace` of CR LF by LF. -/
def replaceCrlf : List Char → List Char
  | [] => []
  | '\r' :: '\n' :: rest => '\n' :: replaceCrlf rest
  | c :: rest => c :: replaceCrlf rest

/-- `str::replace` of CR by LF. -/
def replaceCr (text : List Char) : List Char := text.map fun c => if c = '\r' then '\n' else c

/-- `str::strip_suffix` of a line break, or the text. -/
def stripNewline (text : List Char) : List Char := if text.getLast? = some '\n' then text.dropLast else text

/-- Normalize a body for the DATA command. -/
def dotStuff (body : String) : String :=
  let normalized := replaceCr (replaceCrlf body.toList)
  String.ofList (((stripNewline normalized).splitOn '\n').flatMap fun line =>
    (if line.head? = some '.' then ['.'] else []) ++ line ++ ['\r', '\n'])

variable {c : Char} {text : List Char}

theorem normalized_ne_nil (h : text ≠ []) : replaceCr (replaceCrlf text) ≠ [] := by
  fun_cases replaceCrlf text <;> simp [replaceCr] at h ⊢

theorem stripNewline_cons (h : text ≠ []) : stripNewline (c :: text) = c :: stripNewline text := by
  obtain ⟨a, rest, rfl⟩ := List.exists_cons_of_ne_nil h
  rw [stripNewline, stripNewline, List.getLast?_cons_cons, List.dropLast_cons_of_ne_nil h]
  split_ifs <;> rfl

theorem splitOn_newline_cons (text : List Char) : ('\n' :: text).splitOn '\n' = [] :: text.splitOn '\n' := by
  rw [List.splitOn, List.splitOnP_cons_eq_if_modifyHead, if_pos (by decide)]
  rfl

theorem splitOn_cons (hc : c ≠ '\n') (text : List Char) :
    (c :: text).splitOn '\n' = (text.splitOn '\n').modifyHead (c :: ·) := by
  rw [List.splitOn, List.splitOnP_cons_eq_if_modifyHead, if_neg (by simpa using hc)]
  rfl

/-- What the body is cut into are its lines. -/
theorem splitOn_normalized (text : List Char) :
    (stripNewline (replaceCr (replaceCrlf text))).splitOn '\n' = lines text := by
  fun_induction lines text with
  | case1 => rfl
  | case2 => rfl
  | case3 rest hrest ih =>
    rw [← ih, ← splitOn_newline_cons, ← stripNewline_cons (normalized_ne_nil hrest)]
    rfl
  | case4 c hc hcrlf =>
    rcases hc with rfl | rfl <;> rfl
  | case5 c rest hcrlf hc hrest ih =>
    have hnormalized : replaceCr (replaceCrlf (c :: rest)) = '\n' :: replaceCr (replaceCrlf rest) := by
      rw [replaceCrlf.eq_3 _ _ hcrlf, replaceCr, List.map_cons]
      rcases hc with rfl | rfl <;> rfl
    rw [hnormalized, stripNewline_cons (normalized_ne_nil hrest), splitOn_newline_cons, ih]
  | case6 c rest hcrlf hc ih =>
    obtain ⟨hcr, hlf⟩ := not_or.mp hc
    have hnormalized : replaceCr (replaceCrlf (c :: rest)) = c :: replaceCr (replaceCrlf rest) := by
      rw [replaceCrlf.eq_3 _ _ hcrlf, replaceCr, List.map_cons, if_neg hcr]
      rfl
    rcases eq_or_ne rest [] with rfl | hrest
    · have hstrip : stripNewline [c] = [c] := if_neg (by simpa using hlf)
      have hcut : (stripNewline [c]).splitOn '\n' = [[c]] := by rw [hstrip, splitOn_cons hlf, List.splitOn_nil]; rfl
      rw [hnormalized]
      exact hcut
    · rw [hnormalized, stripNewline_cons (normalized_ne_nil hrest), splitOn_cons hlf, ih]

theorem dotStuff_eq_data (body : String) : (dotStuff body).toList = data (lines body.toList) := by
  rw [dotStuff, String.toList_ofList, splitOn_normalized, data]
  refine congrArg (List.flatMap · _) (funext fun line => ?_)
  rw [stuff]
  split_ifs <;> rfl

/-- **The body arrives as it was**: no line on the way is one dot, taking the dots off gives the
lines of the body, each with CR LF, and the receiver goes on behind the last dot. -/
theorem dotStuff_transparent (body : String) :
    (∀ line ∈ lines (dotStuff body).toList, line ≠ ['.']) ∧
      (lines (dotStuff body).toList).flatMap (unstuff · ++ ['\r', '\n']) =
        (lines body.toList).flatMap (· ++ ['\r', '\n']) ∧
      ∀ after : List Char,
        receive [] ((dotStuff body).toList ++ ['.', '\r', '\n'] ++ after) = some (lines body.toList, after) := by
  have hunbroken : ∀ line ∈ lines body.toList, Unbroken line := fun line h => unbroken_of_mem_lines h
  have hlines : lines (dotStuff body).toList = (lines body.toList).map stuff := by
    rw [dotStuff_eq_data, lines_data hunbroken (lines_ne_nil _)]
  refine ⟨?_, ?_, fun after => ?_⟩
  · rw [hlines]
    intro line hline
    obtain ⟨line, -, rfl⟩ := List.mem_map.mp hline
    exact stuff_ne_dot line
  · rw [hlines, List.flatMap_map]
    simp
  · rw [dotStuff_eq_data, List.append_assoc]
    exact receive_data hunbroken after

end Omnion.Automation
