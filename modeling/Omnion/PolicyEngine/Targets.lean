import Omnion.Library.Glob
import Omnion.PolicyEngine.PolicySet

/-!
# What a target covers

The patterns of a policy's targets are globs, in which `*` stands for any run of
characters. `wildcard_match` compares the characters before it looks for a star, so that a
star of the pattern that meets a `*` of the text is taken for that character alone, and no
other run is tried for it.

## What is proved

* `targets_right_iff` — a target accepts what its glob matches just when a match can be read
  in this way; on a text all patterns do just when it has no `*` before its last character.
* `star_not_covered` — `*` does not cover `*.read`.
-/

namespace Omnion.PolicyEngine

open Glob

/-- The globs of targets: `*` is a star, and any other character fits itself. -/
def targetGlob : Glob Char Char where
  star c := c = '*'
  fits c a := c = a

/-- What a target matches. -/
abbrev Covers (pattern text : String) : Prop := targetGlob.Matches pattern.toList text.toList

/-- What a target matches, with each star that meets a `*` of the text for that one
character. -/
abbrev CoversLiterally (pattern text : String) : Prop :=
  targetGlob.Reads (· = '*') pattern.toList text.toList

theorem meets_iff (c a : Char) : targetGlob.Meets (· = '*') c a ↔ c = a := by
  by_cases hc : c = '*' <;> simp [Meets, targetGlob, hc, eq_comm]

theorem not_reads {pattern text : List Char} {i j : ℕ} (htext : j < text.length) (hsame : pattern[i]? ≠ text[j]?)
    (hstar : pattern[i]? ≠ some '*') : ¬ targetGlob.Reads (· = '*') (pattern.drop i) (text.drop j) := by
  rw [List.drop_eq_getElem_cons htext]
  rcases hi : pattern[i]? with _ | c
  · rw [List.drop_eq_nil_of_le (List.getElem?_eq_none_iff.mp hi)]
    exact not_reads_nil_cons
  · rw [drop_of_getElem? hi, reads_item_iff fun h => hstar (hi.trans (congrArg some h))]
    rintro ⟨rfl, -⟩
    exact hsame (hi.trans (List.getElem?_eq_getElem htext).symm)

/-- The loop finds what is left to find. -/
theorem wildcardLoop_iff (pattern text : List Char) (patternAt textAt : ℕ) (star : Option ℕ) (mark : ℕ)
    (hmark : mark ≤ textAt)
    (hahead : targetGlob.Ahead (· = '*') (lastStar pattern text star mark) (pattern.drop patternAt)
      (text.drop textAt)) :
    wildcardLoop pattern text patternAt textAt star mark hmark = true ↔
      targetGlob.Answer (· = '*') (lastStar pattern text star mark) (pattern.drop patternAt) (text.drop textAt) := by
  fun_induction wildcardLoop pattern text patternAt textAt star mark hmark with
  | case1 patternAt textAt star mark hmark htext hsame ih =>
    have hmeets : targetGlob.Meets (· = '*') text[textAt] text[textAt] := (meets_iff _ _).mpr rfl
    have hpattern : pattern[patternAt]? = some text[textAt] := hsame.trans (List.getElem?_eq_getElem htext)
    rw [drop_of_getElem? hpattern, List.drop_eq_getElem_cons htext] at hahead ⊢
    rw [answer_step hmeets, ih (hahead.step hmeets)]
  | case2 patternAt textAt star mark hmark htext hsame hstar ih =>
    have hnot : text[textAt] ≠ '*' := by
      intro h
      rw [hstar, List.getElem?_eq_getElem htext, h] at hsame
      exact hsame rfl
    rw [ih .start, drop_of_getElem? hstar]
    rw [drop_of_getElem? hstar] at hahead
    rw [List.drop_eq_getElem_cons htext] at hahead ⊢
    rw [hahead.answer_star rfl hnot, lastStar_some, List.drop_eq_getElem_cons htext]
  | case3 patternAt textAt mark hmark htext hsame hstar starAt ih =>
    rw [answer_back_drop (not_reads htext hsame hstar), ih .start]
  | case4 patternAt textAt mark hmark htext hsame hstar =>
    simpa using answer_none (not_reads htext hsame hstar)
  | case5 patternAt textAt star mark hmark htext =>
    rw [List.drop_eq_nil_of_le (not_lt.mp htext)] at hahead ⊢
    rw [hahead.answer_nil, List.all_eq_true]
    simp [targetGlob]

theorem wildcardMatch_iff (pattern text : String) : wildcardMatch pattern text = true ↔
    CoversLiterally pattern text := by
  rw [wildcardMatch, wildcardLoop_iff _ _ _ _ _ _ _ .none, lastStar_none, answer_start, List.drop_zero, List.drop_zero]

theorem reads_self (p : List Char) : targetGlob.Reads (· = '*') p p := by
  induction p with
  | nil => exact .rest (by simp)
  | cons c p ih => exact (reads_meets_iff ((meets_iff c c).mpr rfl)).mpr ih

theorem eq_of_reads {p t : List Char} (hp : '*' ∉ p) (h : targetGlob.Reads (· = '*') p t) : p = t := by
  induction h with
  | @rest p hstars =>
    rcases p with _ | ⟨c, p⟩
    · rfl
    · obtain rfl : c = '*' := hstars c List.mem_cons_self
      exact absurd List.mem_cons_self hp
  | mark hs => exact absurd (hs ▸ List.mem_cons_self) hp
  | run hs => exact absurd (hs ▸ List.mem_cons_self) hp
  | item _ hfits _ ih => rw [show _ = _ from hfits, ih fun h => hp (List.mem_cons_of_mem _ h)]

/-- What a target accepts is its glob, with each star that meets a `*` for that character. -/
theorem targets_iff_reads (pattern text : String) : targets pattern text = true ↔ CoversLiterally pattern text := by
  rw [targets]
  split_ifs with hsame hstar
  · subst hsame
    exact iff_of_true rfl (reads_self _)
  · exact wildcardMatch_iff pattern text
  · refine iff_of_false (by simp) fun h => hsame ?_
    exact String.toList_inj.mp (eq_of_reads hstar h)

/-- A star that meets a `*` stands for that one character, whatever comes before it. -/
theorem reads_append_iff (u p t : List Char) :
    targetGlob.Reads (· = '*') (u ++ p) (u ++ t) ↔ targetGlob.Reads (· = '*') p t := by
  induction u with
  | nil => rfl
  | cons c u ih => rw [List.cons_append, List.cons_append, reads_meets_iff ((meets_iff c c).mpr rfl), ih]

theorem matches_append {p t : List Char} (u : List Char) (hu : '*' ∉ u) (h : targetGlob.Matches p t) :
    targetGlob.Matches (u ++ p) (u ++ t) := by
  induction u with
  | nil => exact h
  | cons c u ih =>
    obtain ⟨hc, hu⟩ := not_or.mp (mt List.mem_cons.mpr hu)
    exact .item (Ne.symm hc) rfl (ih hu)

/-- On a text with a `*` before its last character some match is missed: that of what stands
before it and one star. -/
theorem exists_missed {text : String} (h : '*' ∈ text.toList.dropLast) :
    ∃ pattern, Covers pattern text ∧ ¬ CoversLiterally pattern text := by
  obtain ⟨u, v, hsplit, hu⟩ := List.eq_append_cons_of_mem h
  have hne : text.toList ≠ [] := by
    rintro hnil
    rw [hnil] at h
    cases h
  have htext : text.toList = u ++ '*' :: (v ++ [text.toList.getLast hne]) := by
    conv_lhs => rw [← List.dropLast_append_getLast hne, hsplit]
    rw [List.append_assoc, List.cons_append]
  refine ⟨String.ofList (u ++ ['*']), ?_, ?_⟩
  · rw [Covers, String.toList_ofList, htext]
    refine matches_append u hu ?_
    simpa using Matches.run (g := targetGlob) ('*' :: (v ++ [text.toList.getLast hne])) rfl .nil
  · rw [CoversLiterally, String.toList_ofList, htext, reads_append_iff, reads_meets_iff ((meets_iff _ _).mpr rfl)]
    intro hrest
    rcases v with _ | ⟨c, v⟩
    · exact not_reads_nil_cons hrest
    · exact not_reads_nil_cons hrest

/-- **A target accepts what its glob matches** just when a match can be read with each star
that meets a `*` standing for that one character. All patterns do so on a text just when it
has no `*` before its last character. -/
theorem targets_right_iff (text : String) :
    (∀ pattern : String, (targets pattern text = true ↔ Covers pattern text) ↔
        (Covers pattern text → CoversLiterally pattern text)) ∧
      ((∀ pattern : String, targets pattern text = true ↔ Covers pattern text) ↔ '*' ∉ text.toList.dropLast) := by
  refine ⟨fun pattern => ?_, fun hright hstar => ?_, fun hstar pattern => ?_⟩
  · rw [targets_iff_reads]
    exact ⟨fun h => h.mpr, fun h => ⟨Reads.matches, h⟩⟩
  · obtain ⟨pattern, hcovers, hnot⟩ := exists_missed hstar
    exact hnot ((targets_iff_reads _ _).mp ((hright pattern).mpr hcovers))
  · rw [targets_iff_reads]
    refine ⟨Reads.matches, reads_of_matches ?_ fun a ha => ne_of_mem_of_not_mem ha hstar⟩
    rintro _ rfl s hfits
    exact hfits

/-- The star that is to cover everything does not cover `*.read`. -/
theorem star_not_covered : ¬ (targets "*" "*.read" = true ↔ Covers "*" "*.read") := by
  intro h
  have hcovers : Covers "*" "*.read" := .run "*.read".toList rfl .nil
  have hreads : targetGlob.Reads (· = '*') ['*'] "*.read".toList := (targets_iff_reads _ _).mp (h.mpr hcovers)
  exact not_reads_nil_cons ((reads_meets_iff ((meets_iff _ _).mpr rfl)).mp hreads)

end Omnion.PolicyEngine
