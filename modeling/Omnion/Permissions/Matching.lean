import Mathlib.Data.Prod.Lex
import Mathlib.Data.String.Basic
import Omnion.Library.Glob

/-!
# Resource matching

`matching.rs` of `crates/permissions/src`: whether the scope of a binding covers the
target of a request. The scope names its target as a glob, where `*` stands for any run
of characters and `?` for exactly one.

## What is proved

* `globMatches_iff` — the walk, which goes back to the last star only, finds a match of
  the glob whenever there is one.
-/

namespace Omnion.Permissions

/-- The loop of `glob_matches`: the positions in the pattern and the value, the last star
seen and where the text it stands for ends so far. -/
def globLoop (pattern value : List Char) (p v : ℕ) (star : Option ℕ) (checkpoint : ℕ) (hcheckpoint : checkpoint ≤ v) :
    Bool :=
  if hvalue : v < value.length then
    if hstar : pattern[p]? = some '*' then
      globLoop pattern value (p + 1) v (some p) v le_rfl
    else if pattern[p]? = some '?' then
      globLoop pattern value (p + 1) (v + 1) star checkpoint (Nat.le_succ_of_le hcheckpoint)
    else if pattern[p]? = some value[v] then
      globLoop pattern value (p + 1) (v + 1) star checkpoint (Nat.le_succ_of_le hcheckpoint)
    else
      match star with
      -- The last star takes one more character, and the walk goes on from just behind it.
      | some starAt => globLoop pattern value (starAt + 1) (checkpoint + 1) star (checkpoint + 1) le_rfl
      | none => false
  else
    (pattern.drop p).all (· = '*')
termination_by (value.length - checkpoint, value.length - v, pattern.length - p)
decreasing_by
  · have hpattern := (List.getElem?_eq_some_iff.mp hstar).1
    simp only [Prod.lex_def, true_and]
    omega
  · simp only [Prod.lex_def, true_and]
    omega
  · simp only [Prod.lex_def, true_and]
    omega
  · simp only [Prod.lex_def]
    omega

/-- `true` when the pattern matches the value. -/
def globMatches (pattern value : String) : Bool := globLoop pattern.toList value.toList 0 0 none 0 le_rfl

/-- The globs of scopes: `*` is a star, `?` fits any character and any other character fits
itself. -/
def scopeGlob : Glob Char Char where
  star c := c = '*'
  fits c a := c = '?' ∨ c = a

theorem not_reads {pattern value : List Char} {p v : ℕ} (hvalue : v < value.length) (hstar : pattern[p]? ≠ some '*')
    (hany : pattern[p]? ≠ some '?') (hsame : pattern[p]? ≠ some value[v]) :
    ¬ scopeGlob.Reads (fun _ => False) (pattern.drop p) (value.drop v) := by
  rw [List.drop_eq_getElem_cons hvalue]
  rcases hp : pattern[p]? with _ | c
  · rw [List.drop_eq_nil_of_le (List.getElem?_eq_none_iff.mp hp)]
    exact Glob.not_reads_nil_cons
  · rw [Glob.drop_of_getElem? hp, Glob.reads_item_iff fun h => hstar (hp.trans (congrArg some h))]
    rintro ⟨rfl | rfl, -⟩
    · exact hany hp
    · exact hsame hp

open Glob in
/-- The loop finds what is left to find. -/
theorem globLoop_iff (pattern value : List Char) (p v : ℕ) (star : Option ℕ) (checkpoint : ℕ)
    (hcheckpoint : checkpoint ≤ v)
    (hahead : scopeGlob.Ahead (fun _ => False) (lastStar pattern value star checkpoint)
      (pattern.drop p) (value.drop v)) :
    globLoop pattern value p v star checkpoint hcheckpoint = true ↔
      scopeGlob.Answer (fun _ => False) (lastStar pattern value star checkpoint) (pattern.drop p) (value.drop v) := by
  fun_induction globLoop pattern value p v star checkpoint hcheckpoint with
  | case1 p v star checkpoint hcheckpoint hvalue hstar ih =>
    rw [ih .start, drop_of_getElem? hstar]
    rw [drop_of_getElem? hstar] at hahead
    rw [List.drop_eq_getElem_cons hvalue] at hahead ⊢
    rw [hahead.answer_star rfl id, lastStar_some, List.drop_eq_getElem_cons hvalue]
  | case2 p v star checkpoint hcheckpoint hvalue hstar hany ih =>
    have hmeets : scopeGlob.Meets (fun _ => False) '?' value[v] := .inr ⟨by simp [scopeGlob], .inl rfl⟩
    rw [drop_of_getElem? hany, List.drop_eq_getElem_cons hvalue] at hahead ⊢
    rw [answer_step hmeets, ih (hahead.step hmeets)]
  | case3 p v star checkpoint hcheckpoint hvalue hstar hany hsame ih =>
    have hnot : ¬ scopeGlob.star value[v] := fun h => hstar (hsame.trans (congrArg some h))
    have hmeets : scopeGlob.Meets (fun _ => False) value[v] value[v] := .inr ⟨hnot, .inr rfl⟩
    rw [drop_of_getElem? hsame, List.drop_eq_getElem_cons hvalue] at hahead ⊢
    rw [answer_step hmeets, ih (hahead.step hmeets)]
  | case4 p v checkpoint hcheckpoint hvalue hstar hany hsame starAt ih =>
    rw [answer_back_drop (not_reads hvalue hstar hany hsame), ih .start]
  | case5 p v checkpoint hcheckpoint hvalue hstar hany hsame =>
    simpa using answer_none (not_reads hvalue hstar hany hsame)
  | case6 p v star checkpoint hcheckpoint hvalue =>
    rw [List.drop_eq_nil_of_le (not_lt.mp hvalue)] at hahead ⊢
    rw [hahead.answer_nil, List.all_eq_true]
    simp [scopeGlob]

/-- A pattern matches a value just when the glob it is does. -/
theorem globMatches_iff (pattern value : String) :
    globMatches pattern value = true ↔ scopeGlob.Matches pattern.toList value.toList := by
  rw [globMatches, globLoop_iff _ _ _ _ _ _ _ .none, Glob.lastStar_none, Glob.answer_start, Glob.reads_iff_matches,
    List.drop_zero, List.drop_zero]

end Omnion.Permissions
