import Mathlib.Data.List.Basic
import Mathlib.Data.List.DropRight

/-!
# Words between marks

A text cut at its marks. `List.splitOnP` keeps the empty parts, `words` drops them. Joining
parts without marks, with a mark and anything else between them, and cutting the result gives
them back. A text trimmed of its marks is what stands between those at its ends.
-/

namespace Words

variable {α : Type*} {p : α → Bool} {mark a : α} {text part word first : List α} {parts others : List (List α)}

/-- The parts of a text between its marks, without the empty ones. -/
def words (p : α → Bool) (text : List α) : List (List α) := (text.splitOnP p).filter fun part => !part.isEmpty

theorem mem_splitOnP (hpart : part ∈ text.splitOnP p) (ha : a ∈ part) : a ∈ text ∧ p a = false := by
  induction text generalizing part with
  | nil =>
    rw [List.splitOnP_nil, List.mem_singleton] at hpart
    rw [hpart] at ha
    cases ha
  | cons b text ih =>
    rw [List.splitOnP_cons_eq_if_modifyHead] at hpart
    split_ifs at hpart with hmark
    · rcases List.mem_cons.mp hpart with rfl | hrest
      · cases ha
      · exact (ih hrest ha).imp_left (List.mem_cons_of_mem b)
    · obtain ⟨head, tail, hsplit⟩ := List.exists_cons_of_ne_nil (List.splitOnP_ne_nil p text)
      rw [hsplit, List.modifyHead_cons] at hpart
      rcases List.mem_cons.mp hpart with rfl | hrest
      · rcases List.mem_cons.mp ha with rfl | ha
        · exact ⟨List.mem_cons_self, by simpa using hmark⟩
        · exact (ih (hsplit ▸ List.mem_cons_self) ha).imp_left (List.mem_cons_of_mem b)
      · exact (ih (hsplit ▸ List.mem_cons_of_mem head hrest) ha).imp_left (List.mem_cons_of_mem b)

/-- **What a text is cut into** are the parts without marks that it joins. -/
theorem splitOn_eq_iff [DecidableEq α] :
    text.splitOn mark = parts ↔ parts ≠ [] ∧ (∀ part ∈ parts, mark ∉ part) ∧ [mark].intercalate parts = text := by
  constructor
  · rintro rfl
    refine ⟨List.splitOn_ne_nil mark text, fun part hpart hmark => ?_, List.intercalate_splitOn mark⟩
    rw [List.splitOn_eq_splitOnP] at hpart
    simpa using (mem_splitOnP hpart hmark).2
  · rintro ⟨hne, hparts, rfl⟩
    exact List.splitOn_intercalate mark hparts hne

theorem mem_words (hword : word ∈ words p text) (ha : a ∈ word) : a ∈ text ∧ p a = false :=
  mem_splitOnP (List.mem_filter.mp hword).1 ha

theorem words_append (hmark : p mark = true) (xs ys : List α) :
    words p (xs ++ mark :: ys) = words p xs ++ words p ys := by
  rw [words, List.splitOnP_append_cons xs ys hmark, List.filter_append]
  rfl

theorem words_cons (hmark : p mark = true) (text : List α) : words p (mark :: text) = words p text :=
  words_append hmark [] text

theorem words_word (hne : word ≠ []) (hword : ∀ a ∈ word, p a = false) : words p word = [word] := by
  rw [words, List.splitOnP_eq_singleton hword]
  simp [hne]

/-- **Words joined by a mark** are read back. -/
theorem words_intercalate (hmark : p mark = true) (hparts : ∀ part ∈ parts, part ≠ [] ∧ ∀ a ∈ part, p a = false) :
    words p ([mark].intercalate parts) = parts := by
  induction parts with
  | nil => rfl
  | cons part rest ih =>
    obtain ⟨hne, hpart⟩ := hparts part List.mem_cons_self
    have hrest := ih fun other hother => hparts other (List.mem_cons_of_mem part hother)
    by_cases hnil : rest = []
    · rw [hnil, List.intercalate_singleton, words_word hne hpart]
    · rw [List.intercalate_cons_of_ne_nil hnil, List.append_assoc, List.singleton_append, words_append hmark,
        words_word hne hpart, hrest]
      rfl

/-- **Parts joined by a mark and a text without marks** are cut apart again. -/
theorem splitOnP_intercalate (hmark : p mark = true) (hrest : ∀ a ∈ text, p a = false)
    (hparts : ∀ part ∈ first :: others, ∀ a ∈ part, p a = false) :
    ((mark :: text).intercalate (first :: others)).splitOnP p = first :: others.map (text ++ ·) := by
  induction others generalizing first with
  | nil =>
    rw [List.intercalate_singleton]
    exact List.splitOnP_eq_singleton (hparts first List.mem_cons_self)
  | cons second others ih =>
    have hfirst := hparts first List.mem_cons_self
    have hothers : ∀ part ∈ (text ++ second) :: others, ∀ a ∈ part, p a = false := by
      intro part hpart a ha
      rcases List.mem_cons.mp hpart with rfl | hpart
      · rcases List.mem_append.mp ha with ha | ha
        · exact hrest a ha
        · exact hparts second (List.mem_cons_of_mem first List.mem_cons_self) a ha
      · exact hparts part (List.mem_cons_of_mem first (List.mem_cons_of_mem second hpart)) a ha
    -- What follows the mark joins the second part.
    have hjoin : (mark :: text).intercalate (first :: second :: others) =
        first ++ mark :: (mark :: text).intercalate ((text ++ second) :: others) := by
      cases others with
      | nil => simp
      | cons third others => simp [List.intercalate_cons_cons]
    rw [hjoin, List.splitOnP_append_cons_of_forall_mem hfirst mark hmark, ih hothers]
    rfl

/-- What holds of the text between the parts holds of all just when it holds of the parts. -/
theorem forall_mem_intercalate {P : α → Prop} (htext : ∀ a ∈ text, P a) :
    (∀ a ∈ text.intercalate parts, P a) ↔ ∀ part ∈ parts, ∀ a ∈ part, P a := by
  induction parts with
  | nil => simp
  | cons part rest ih =>
    by_cases hnil : rest = []
    · simp [hnil]
    · rw [List.intercalate_cons_of_ne_nil hnil, List.forall_mem_append, List.forall_mem_append, ih,
        List.forall_mem_cons]
      exact ⟨fun h => ⟨h.1.1, h.2⟩, fun h => ⟨⟨h.1, htext⟩, h.2⟩⟩

/-! ### Marks inside quotes -/

section

variable [DecidableEq α] {quote : α} {quoted : Bool}

/-- The parts of a text between the marks outside quotes. -/
def cut (quote mark : α) : Bool → List α → List (List α)
  | _, [] => [[]]
  | quoted, a :: text =>
    if a = mark ∧ quoted = false then [] :: cut quote mark false text
    else (cut quote mark (if a = quote then !quoted else quoted) text).modifyHead (a :: ·)

theorem cut_ne_nil : cut quote mark quoted text ≠ [] := by
  induction text generalizing quoted with
  | nil => simp [cut]
  | cons a text ih =>
    rw [cut]
    split
    · simp
    · simpa using ih

theorem flatMap_splitOn_cut : (cut quote mark quoted text).flatMap (List.splitOn mark) = text.splitOn mark := by
  induction text generalizing quoted with
  | nil => simp [cut]
  | cons a text ih =>
    rw [cut]
    by_cases hcut : a = mark ∧ quoted = false
    · rw [if_pos hcut, List.flatMap_cons, ih, hcut.1]
      simp [List.splitOn_eq_splitOnP, List.splitOnP_cons_eq_if_modifyHead]
    · rw [if_neg hcut]
      generalize (if a = quote then !quoted else quoted) = after
      have hrest := @ih after
      have hne : cut quote mark after text ≠ [] := cut_ne_nil
      obtain ⟨head, tail, hparts⟩ := List.exists_cons_of_ne_nil hne
      rw [hparts, List.flatMap_cons] at hrest
      rw [hparts, List.modifyHead_cons, List.flatMap_cons]
      obtain ⟨first, others, hhead⟩ := List.exists_cons_of_ne_nil (List.splitOn_ne_nil mark head)
      simp only [List.splitOn_eq_splitOnP, List.splitOnP_cons_eq_if_modifyHead] at hhead hrest ⊢
      rw [hhead] at hrest
      rw [hhead, ← hrest]
      split_ifs <;> simp

end

/-! ### Trimmed texts -/

/-- The text without the marks at its ends. -/
def trim (p : α → Bool) (text : List α) : List α := (text.dropWhile p).rdropWhile p

/-- The text has no marks at its ends. -/
def Bare (p : α → Bool) (text : List α) : Prop := text.dropWhile p = text ∧ text.rdropWhile p = text

theorem bare_of_forall (h : ∀ a ∈ text, p a = false) : Bare p text := by
  refine ⟨List.dropWhile_eq_self_iff.mpr fun hlength => ?_, List.rdropWhile_eq_self_iff.mpr fun hne => ?_⟩
  · simp [h _ (List.getElem_mem hlength)]
  · simp [h _ (List.getLast_mem hne)]

/-- What begins and ends with a text without marks at the ends has none at the ends. -/
theorem Bare.append {before between after : List α} (hbefore : Bare p before) (hne : before ≠ [])
    (hafter : Bare p after)
    (hne' : after ≠ []) : Bare p (before ++ (between ++ after)) := by
  constructor
  · rw [List.dropWhile_append, hbefore.1, if_neg (by simpa using hne)]
  · rw [List.rdropWhile_eq_self_iff]
    intro hne''
    rw [List.getLast_append_of_ne_nil _ (by simp [hne']), List.getLast_append_of_ne_nil _ hne']
    exact List.rdropWhile_eq_self_iff.mp hafter.2 hne'

theorem bare_trim : Bare p (trim p text) := by
  refine ⟨List.dropWhile_eq_self_iff.mpr fun hlength => ?_, List.rdropWhile_idempotent p _⟩
  have hbegins : trim p text <+: text.dropWhile p := List.rdropWhile_prefix p _
  rw [hbegins.getElem hlength]
  exact List.dropWhile_eq_self_iff.mp (List.dropWhile_idempotent p text) (hlength.trans_le hbegins.length_le)

theorem bare_intercalate (hparts : ∀ part ∈ parts, part ≠ [] ∧ ∀ a ∈ part, p a = false) :
    Bare p ([mark].intercalate parts) := by
  induction parts with
  | nil => exact ⟨rfl, rfl⟩
  | cons part rest ih =>
    rw [List.forall_mem_cons] at hparts
    have hpart := bare_of_forall hparts.1.2
    cases rest with
    | nil => rwa [List.intercalate_singleton]
    | cons other rest =>
      rw [List.intercalate_cons_of_ne_nil (by simp), List.append_assoc]
      refine hpart.append hparts.1.1 (ih hparts.2) ?_
      have hother := (hparts.2 other List.mem_cons_self).1
      cases rest with
      | nil => rwa [List.intercalate_singleton]
      | cons last rest => simp [List.intercalate_cons_cons, hother]

/-- **What is trimmed** stands between marks. -/
theorem trim_eq_iff : trim p text = part ↔ ∃ before after, text = before ++ (part ++ after) ∧
    (∀ a ∈ before, p a = true) ∧ (∀ a ∈ after, p a = true) ∧ Bare p part := by
  constructor
  · rintro rfl
    refine ⟨text.takeWhile p, (text.dropWhile p).rtakeWhile p, ?_, fun a => List.mem_takeWhile_imp,
      fun a => List.mem_rtakeWhile_imp, bare_trim⟩
    rw [trim, List.rdropWhile_append_rtakeWhile, List.takeWhile_append_dropWhile]
  · rintro ⟨before, after, rfl, hbefore, hafter, hleft, hright⟩
    rw [trim, List.dropWhile_append_of_pos hbefore]
    by_cases hnil : part = []
    · rw [hnil, List.nil_append, List.dropWhile_eq_nil_iff.mpr hafter, List.rdropWhile_nil]
    · rw [List.dropWhile_append, hleft, if_neg (by simpa using hnil), List.rdropWhile, List.reverse_append,
        List.dropWhile_append_of_pos fun a ha => hafter a (List.mem_reverse.mp ha)]
      exact hright

theorem words_of_forall_append {before : List α} (hbefore : ∀ a ∈ before, p a = true) (text : List α) :
    words p (before ++ text) = words p text := by
  induction before with
  | nil => rfl
  | cons mark before ih =>
    rw [List.cons_append, words_cons (hbefore mark List.mem_cons_self),
      ih fun a ha => hbefore a (List.mem_cons_of_mem mark ha)]

theorem words_trim : words p (trim p text) = words p text := by
  obtain ⟨before, after, htext, hbefore, hafter, -⟩ := trim_eq_iff.mp (rfl : trim p text = trim p text)
  conv_rhs => rw [htext, words_of_forall_append hbefore]
  cases after with
  | nil => rw [List.append_nil]
  | cons mark after =>
    have hnone := words_of_forall_append (fun a ha => hafter a (List.mem_cons_of_mem mark ha)) []
    rw [List.append_nil] at hnone
    rw [words_append (hafter mark List.mem_cons_self), hnone]
    exact (List.append_nil _).symm

theorem Bare.trim (h : Bare p text) : trim p text = text := by
  rw [Words.trim, h.1, h.2]

@[simp] theorem trim_trim : trim p (trim p text) = trim p text :=
  trim_eq_iff.mpr ⟨[], [], by simp, by simp, by simp, bare_trim⟩

end Words
