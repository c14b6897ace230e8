import Mathlib.Data.List.Forall2
import Mathlib.Data.List.Infix

/-!
# Glob patterns

A pattern is a list of items. Some of them are stars: a star stands for any run of the
text, also for the empty one. Each other item stands for one item of the text that fits
it.

## The model

`Glob` says which items of a pattern are stars and what fits the others, and
`Glob.Matches` is the meaning of a pattern. A star may also be read more narrowly:
`Glob.Reads marked` is the meaning where a star that begins at a marked item of the text
stands for just that item. With nothing marked both are one (`reads_iff_matches`).

A greedy matcher keeps its last star only. What it still has to find is
`Glob.Answer`: the rest of the pattern here, or the pattern behind the last star further
on in the text. It is right as long as the pattern since the star was followed item by
item (`Glob.Ahead`).

## What is proved

* `Reads.matches` and `reads_of_matches` — the narrow reading is a match, and a match is
  one where no marked item stands before the last.
* `Follows.overtake` — a later match of what was followed ends further on in the text.
* `answer_step`, `Ahead.answer_star`, `answer_back`, `Ahead.answer_nil` — the steps of a greedy matcher
  keep the answer.
-/

/-- The items of patterns `π` over texts of `α`. -/
structure Glob (π α : Type*) where
  star : π → Prop
  /-- The item stands for this item of the text. -/
  fits : π → α → Prop

namespace Glob

variable {π α : Type*}

/-- What a pattern matches. -/
inductive Matches (g : Glob π α) : List π → List α → Prop where
  /-- The empty pattern matches the empty text. -/
  | nil : Matches g [] []
  | run {s : π} {p : List π} {t : List α} (v : List α) : g.star s → Matches g p t → Matches g (s :: p) (v ++ t)
  /-- Any other item stands for one item that fits. -/
  | item {s : π} {a : α} {p : List π} {t : List α} :
      ¬ g.star s → g.fits s a → Matches g p t → Matches g (s :: p) (a :: t)

/-- What a pattern matches, where a star that begins at a marked item stands for it alone. -/
inductive Reads (g : Glob π α) (marked : α → Prop) : List π → List α → Prop where
  /-- Stars may be left of the pattern at the end of the text. -/
  | rest {p : List π} : (∀ s ∈ p, g.star s) → Reads g marked p []
  /-- A star at a marked item stands for it. -/
  | mark {s : π} {a : α} {p : List π} {t : List α} :
      g.star s → marked a → Reads g marked p t → Reads g marked (s :: p) (a :: t)
  /-- A star at any other item stands for a run. -/
  | run {s : π} {a : α} {p : List π} {t u : List α} :
      g.star s → ¬ marked a → t <:+ a :: u → Reads g marked p t → Reads g marked (s :: p) (a :: u)
  /-- Any other item stands for one item that fits. -/
  | item {s : π} {a : α} {p : List π} {t : List α} :
      ¬ g.star s → g.fits s a → Reads g marked p t → Reads g marked (s :: p) (a :: t)

variable {g : Glob π α} {marked : α → Prop} {s : π} {a b : α} {p q seg : List π} {t u v txt : List α}
  {last : Option (List π × List α)}

/-! ### The two readings -/

theorem reads_nil_iff : g.Reads marked p [] ↔ ∀ s ∈ p, g.star s := by
  constructor
  · intro h
    generalize ht : ([] : List α) = t at h
    cases h with
    | rest h => exact h
    | mark => cases ht
    | run => cases ht
    | item => cases ht
  · exact .rest

theorem not_reads_nil_cons : ¬ g.Reads marked [] (a :: t) := by
  intro h
  generalize hp : ([] : List π) = p at h
  cases h with
  | mark => cases hp
  | run => cases hp
  | item => cases hp

theorem reads_item_iff (hs : ¬ g.star s) : g.Reads marked (s :: p) (a :: t) ↔ g.fits s a ∧ g.Reads marked p t := by
  constructor
  · intro h
    cases h with
    | mark h => exact absurd h hs
    | run h => exact absurd h hs
    | item _ hfits h => exact ⟨hfits, h⟩
  · rintro ⟨hfits, h⟩
    exact .item hs hfits h

theorem reads_mark_iff (hs : g.star s) (ha : marked a) : g.Reads marked (s :: p) (a :: t) ↔ g.Reads marked p t := by
  constructor
  · intro h
    cases h with
    | mark _ _ h => exact h
    | run _ h => exact absurd ha h
    | item h => exact absurd hs h
  · exact .mark hs ha

theorem reads_run_iff (hs : g.star s) (ha : ¬ marked a) :
    g.Reads marked (s :: p) (a :: u) ↔ ∃ t, t <:+ a :: u ∧ g.Reads marked p t := by
  constructor
  · intro h
    cases h with
    | mark _ h => exact absurd h ha
    | run _ _ ht h => exact ⟨_, ht, h⟩
    | item h => exact absurd hs h
  · rintro ⟨t, ht, h⟩
    exact .run hs ha ht h

theorem matches_of_all_star (h : ∀ s ∈ p, g.star s) : g.Matches p [] := by
  induction p with
  | nil => exact .nil
  | cons s p ih =>
    obtain ⟨hs, hp⟩ := List.forall_mem_cons.mp h
    exact .run [] hs (ih hp)

theorem all_star_of_matches (h : g.Matches p []) : ∀ s ∈ p, g.star s := by
  generalize ht : ([] : List α) = t at h
  induction h with
  | nil => simp
  | run v hs _ ih =>
    obtain ⟨rfl, rfl⟩ := List.append_eq_nil_iff.mp ht.symm
    exact List.forall_mem_cons.mpr ⟨hs, ih rfl⟩
  | item => cases ht

theorem Reads.matches (h : g.Reads marked p t) : g.Matches p t := by
  induction h with
  | rest h => exact matches_of_all_star h
  | mark hs _ _ ih => exact .run [_] hs ih
  | run hs _ ht _ ih =>
    obtain ⟨v, hv⟩ := ht
    exact hv ▸ .run v hs ih
  | item hs hfits _ ih => exact .item hs hfits ih

theorem all_star_of_matches_singleton (ha : ∀ s, g.fits s a → g.star s) (h : g.Matches p [a]) : ∀ s ∈ p, g.star s := by
  generalize ht : [a] = t at h
  induction h with
  | nil => cases ht
  | run v hs h ih =>
    rcases List.append_eq_cons_iff.mp ht.symm with ⟨-, rfl⟩ | ⟨v', -, hnil⟩
    · exact List.forall_mem_cons.mpr ⟨hs, ih rfl⟩
    · obtain ⟨-, rfl⟩ := List.append_eq_nil_iff.mp hnil.symm
      exact List.forall_mem_cons.mpr ⟨hs, all_star_of_matches h⟩
  | item hs hfits h ih =>
    obtain ⟨rfl, rfl⟩ := List.cons.inj ht
    exact absurd (ha _ hfits) hs

theorem mem_dropLast_of_suffix (h : t <:+ u) (ha : a ∈ t.dropLast) : a ∈ u.dropLast := by
  obtain ⟨v, rfl⟩ := h
  rcases eq_or_ne t [] with rfl | hne
  · simp at ha
  · rw [List.dropLast_append_of_ne_nil hne]
    exact List.mem_append_right _ ha

/-- A match is a reading where no marked item stands before the last, if marked items fit
nothing but stars. -/
theorem reads_of_matches (hmarked : ∀ a, marked a → ∀ s, g.fits s a → g.star s)
    (ht : ∀ a ∈ t.dropLast, ¬ marked a) (h : g.Matches p t) : g.Reads marked p t := by
  induction h with
  | nil => exact .rest (by simp)
  | @run s p t v hs h ih =>
    have hbehind : g.Reads marked p t := ih fun a ha => ht a (mem_dropLast_of_suffix (List.suffix_append v t) ha)
    have hall : g.Matches (s :: p) (v ++ t) := .run v hs h
    rcases hvt : v ++ t with _ | ⟨a, u⟩
    · exact .rest (all_star_of_matches (hvt ▸ hall))
    by_cases ha : marked a
    · -- The marked item is the last one, and only stars match it.
      have hu : u = [] := by
        by_contra hne
        refine ht a ?_ ha
        rw [hvt, List.dropLast_cons_of_ne_nil hne]
        exact List.mem_cons_self
      subst hu
      have hstars := all_star_of_matches_singleton (hmarked a ha) (hvt ▸ hall)
      exact .mark hs ha (.rest (List.forall_mem_cons.mp hstars).2)
    · exact .run hs ha (hvt ▸ List.suffix_append v t) hbehind
  | @item s a p t hs hfits h ih =>
    exact .item hs hfits (ih fun b hb => ht b (mem_dropLast_of_suffix (List.suffix_cons a t) hb))

theorem reads_iff_matches : g.Reads (fun _ => False) p t ↔ g.Matches p t := by
  constructor
  · exact Reads.matches
  · refine fun h => reads_of_matches ?_ ?_ h
    · exact fun a ha => ha.elim
    · exact fun a _ ha => ha

/-! ### A greedy matcher -/

/-- The pattern item and the text item stand for each other. -/
def Meets (g : Glob π α) (marked : α → Prop) (s : π) (a : α) : Prop :=
  g.star s ∧ marked a ∨ ¬ g.star s ∧ g.fits s a

theorem reads_meets_iff (h : g.Meets marked s a) : g.Reads marked (s :: p) (a :: t) ↔ g.Reads marked p t := by
  rcases h with ⟨hs, ha⟩ | ⟨hs, hfits⟩
  · exact reads_mark_iff hs ha
  · rw [reads_item_iff hs]
    exact and_iff_right hfits

theorem suffix_of_cons_suffix_cons (h : a :: t <:+ b :: u) : t <:+ u := by
  rcases List.suffix_cons_iff.mp h with heq | hbehind
  · exact (List.cons.inj heq).2 ▸ List.suffix_rfl
  · exact (List.suffix_cons a t).trans hbehind

theorem Reads.lengthen (hs : g.star s) (ha : ¬ marked a) (ht : t <:+ a :: u) (h : g.Reads marked (s :: p) t) :
    g.Reads marked (s :: p) (a :: u) := by
  cases h with
  | rest hstars => exact .run hs ha List.nil_suffix (.rest (List.forall_mem_cons.mp hstars).2)
  | mark _ _ h => exact .run hs ha ((List.suffix_cons ..).trans ht) h
  | run _ _ hv h => exact .run hs ha (hv.trans ht) h
  | item hnot _ _ => exact absurd hs hnot

/-- What was followed item by item ends no later than any later reading of it does. -/
theorem overtake (h : List.Forall₂ (g.Meets marked) seg txt) (hu : u <:+ txt ++ t)
    (hreads : g.Reads marked (seg ++ p) u) : ∃ v, v <:+ t ∧ g.Reads marked p v := by
  induction h generalizing u with
  | nil => exact ⟨u, hu, hreads⟩
  | @cons s b seg txt hmeets _ ih =>
    rw [List.cons_append] at hu hreads
    cases hreads with
    | rest hstars =>
      refine ⟨[], List.nil_suffix, .rest fun s hs => hstars s ?_⟩
      exact List.mem_cons_of_mem _ (List.mem_append_right _ hs)
    | mark _ _ h => exact ih (suffix_of_cons_suffix_cons hu) h
    | item _ _ h => exact ih (suffix_of_cons_suffix_cons hu) h
    | run hs ha ht h =>
      -- The star was followed at a marked item, so its run begins behind that item.
      refine ih ?_ h
      rcases List.suffix_cons_iff.mp hu with heq | hbehind
      · obtain ⟨rfl, rfl⟩ := List.cons.inj heq
        rcases hmeets with ⟨-, hb⟩ | ⟨hnot, -⟩
        · exact absurd hb ha
        · exact absurd hs hnot
      · exact ht.trans hbehind

/-- What is left to find: the pattern here, or, behind the last star, further on. -/
def Answer (g : Glob π α) (marked : α → Prop) (last : Option (List π × List α)) (p : List π) (t : List α) : Prop :=
  g.Reads marked p t ∨ ∃ q u, last = some (q, u) ∧ ∃ v, v <:+ u.tail ∧ g.Reads marked q v

/-- The pattern since the last star was followed item by item. -/
def Ahead (g : Glob π α) (marked : α → Prop) (last : Option (List π × List α)) (p : List π) (t : List α) : Prop :=
  ∀ q u, last = some (q, u) → ∃ seg txt, q = seg ++ p ∧ u = txt ++ t ∧ List.Forall₂ (g.Meets marked) seg txt

theorem Ahead.none : g.Ahead marked none p t := fun _ _ h => by cases h

theorem Ahead.start : g.Ahead marked (some (p, t)) p t := by
  intro q u h
  cases h
  exact ⟨[], [], rfl, rfl, .nil⟩

theorem Ahead.step (hmeets : g.Meets marked s a) (h : g.Ahead marked last (s :: p) (a :: t)) :
    g.Ahead marked last p t := by
  intro q u hlast
  obtain ⟨seg, txt, rfl, rfl, hfollowed⟩ := h q u hlast
  refine ⟨seg ++ [s], txt ++ [a], ?_, ?_, List.rel_append hfollowed (.cons hmeets .nil)⟩
  · rw [List.append_assoc, List.singleton_append]
  · rw [List.append_assoc, List.singleton_append]

/-- Where the last star is behind, a later reading from it leads to a reading from here on. -/
theorem Ahead.overtake (h : g.Ahead marked last p t)
    (hlater : ∃ q u, last = some (q, u) ∧ ∃ v, v <:+ u.tail ∧ g.Reads marked q v) : ∃ v, v <:+ t ∧
      g.Reads marked p v := by
  obtain ⟨q, u, hlast, v, hv, hreads⟩ := hlater
  obtain ⟨seg, txt, rfl, rfl, hfollowed⟩ := h q u hlast
  exact Glob.overtake hfollowed (hv.trans (List.tail_suffix _)) hreads

theorem answer_step (h : g.Meets marked s a) : g.Answer marked last (s :: p) (a :: t) ↔ g.Answer marked last p t := by
  rw [Answer, Answer, reads_meets_iff h]

theorem Ahead.answer_star (h : g.Ahead marked last (s :: p) (a :: t)) (hs : g.star s) (ha : ¬ marked a) :
    g.Answer marked last (s :: p) (a :: t) ↔ g.Answer marked (some (p, a :: t)) p (a :: t) := by
  have hnew : g.Answer marked (some (p, a :: t)) p (a :: t) ↔ g.Reads marked (s :: p) (a :: t) := by
    rw [reads_run_iff hs ha]
    constructor
    · rintro (hhere | ⟨q, u, hlast, v, hv, hreads⟩)
      · exact ⟨_, List.suffix_rfl, hhere⟩
      · cases hlast
        exact ⟨v, hv.trans (List.tail_suffix _), hreads⟩
    · rintro ⟨v, hv, hreads⟩
      rcases List.suffix_cons_iff.mp hv with rfl | hv
      · exact .inl hreads
      · exact .inr ⟨_, _, rfl, v, hv, hreads⟩
  rw [hnew]
  constructor
  · rintro (hhere | hlater)
    · exact hhere
    · obtain ⟨v, hv, hreads⟩ := h.overtake hlater
      exact hreads.lengthen hs ha hv
  · exact .inl

theorem answer_back (h : ¬ g.Reads marked p t) :
    g.Answer marked (some (q, u)) p t ↔ g.Answer marked (some (q, u.tail)) q u.tail := by
  constructor
  · rintro (hhere | ⟨q', u', hlast, v, hv, hreads⟩)
    · exact absurd hhere h
    · cases hlast
      rcases hw : u.tail with _ | ⟨b, w⟩
      · rw [hw] at hv
        exact .inl (List.suffix_nil.mp hv ▸ hreads)
      · rw [hw] at hv
        rcases List.suffix_cons_iff.mp hv with rfl | hv
        · exact .inl hreads
        · exact .inr ⟨_, _, rfl, v, hv, hreads⟩
  · rintro (hhere | ⟨q', u', hlast, v, hv, hreads⟩)
    · exact .inr ⟨_, _, rfl, _, List.suffix_rfl, hhere⟩
    · cases hlast
      exact .inr ⟨_, _, rfl, v, hv.trans (List.tail_suffix _), hreads⟩

theorem answer_start : g.Answer marked none p t ↔ g.Reads marked p t := by
  constructor
  · rintro (hhere | ⟨q, u, hlast, -⟩)
    · exact hhere
    · cases hlast
  · exact .inl

theorem answer_none (h : ¬ g.Reads marked p t) : ¬ g.Answer marked none p t := mt answer_start.mp h

theorem Ahead.answer_nil (h : g.Ahead marked last p []) : g.Answer marked last p [] ↔ ∀ s ∈ p, g.star s := by
  constructor
  · rintro (hhere | hlater)
    · exact reads_nil_iff.mp hhere
    · obtain ⟨v, hv, hreads⟩ := h.overtake hlater
      exact reads_nil_iff.mp (List.suffix_nil.mp hv ▸ hreads)
  · exact fun hstars => .inl (.rest hstars)

/-! ### By positions -/

/-- The last star by its position and where it was met: the pattern behind it and the text
from there. -/
def lastStar (p : List π) (t : List α) (star : Option ℕ) (mark : ℕ) : Option (List π × List α) :=
  star.map fun i => (p.drop (i + 1), t.drop mark)

@[simp] theorem lastStar_none (p : List π) (t : List α) (mark : ℕ) : lastStar p t none mark = none := rfl

@[simp] theorem lastStar_some (p : List π) (t : List α) (i mark : ℕ) :
    lastStar p t (some i) mark = some (p.drop (i + 1), t.drop mark) := rfl

theorem drop_of_getElem? {i : ℕ} (h : p[i]? = some s) : p.drop i = s :: p.drop (i + 1) := by
  obtain ⟨hi, rfl⟩ := List.getElem?_eq_some_iff.mp h
  exact List.drop_eq_getElem_cons hi

theorem answer_back_drop {i mark : ℕ} (h : ¬ g.Reads marked q u) :
    g.Answer marked (lastStar p t (some i) mark) q u ↔
      g.Answer marked (lastStar p t (some i) (mark + 1)) (p.drop (i + 1)) (t.drop (mark + 1)) := by
  rw [lastStar_some, answer_back h, List.tail_drop]
  rfl

end Glob
