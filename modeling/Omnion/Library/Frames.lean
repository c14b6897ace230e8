import Mathlib.Data.List.Forall2
import Mathlib.Data.Option.Basic
import Mathlib.Tactic.SplitIfs

/-!
# Frames of a stream

A stream comes in pieces. What has come is kept, and whole frames are taken off its front, until
one of them ends the stream.

## What is proved

* `Cutter.take_append` — frames taken as they come are those of the whole stream.
* `Cutter.take_rel` — streams that are cut alike give frames that are alike.
-/

namespace Frames

variable {α β : Type*}

/-- A way to take the first frame off a stream. What follows a whole frame does not change it. -/
structure Cutter (α β : Type*) where
  cut : List α → Option (β × List α)
  shrinks : ∀ {text rest frame}, cut text = some (frame, rest) → rest.length < text.length
  stable : ∀ {text rest frame} (more), cut text = some (frame, rest) → cut (text ++ more) = some (frame, rest ++ more)

/-- What was taken off a stream: its frames, whether the last one ended it, and what is left. -/
structure Taken (α β : Type*) where
  frames : List β
  stopped : Bool
  rest : List α

namespace Cutter

variable (c : Cutter α β) (stops : β → Bool)

/-- Take the frames off a stream. -/
def take (text : List α) : Taken α β :=
  match _h : c.cut text with
  | none => ⟨[], false, text⟩
  | some (frame, rest) =>
    if stops frame then ⟨[frame], true, rest⟩
    else ⟨frame :: (take rest).frames, (take rest).stopped, (take rest).rest⟩
termination_by text.length
decreasing_by all_goals exact c.shrinks ‹_›

variable {c stops} {text rest : List α} {frame : β}

theorem take_none (h : c.cut text = none) : c.take stops text = ⟨[], false, text⟩ := by
  rw [take]
  split
  · rfl
  · simp_all

theorem take_stop (h : c.cut text = some (frame, rest)) (hstop : stops frame = true) :
    c.take stops text = ⟨[frame], true, rest⟩ := by
  rw [take]
  split <;> simp_all

theorem take_cons (h : c.cut text = some (frame, rest)) (hstop : stops frame = false) :
    c.take stops text =
      ⟨frame :: (c.take stops rest).frames, (c.take stops rest).stopped, (c.take stops rest).rest⟩ := by
  rw [take]
  split <;> simp_all

theorem take_induction (c : Cutter α β) (stops : β → Bool) {P : List α → Prop}
    (hnone : ∀ text, c.cut text = none → P text)
    (hstop : ∀ text frame rest, c.cut text = some (frame, rest) → stops frame = true → P text)
    (hcons : ∀ text frame rest, c.cut text = some (frame, rest) → stops frame = false → P rest → P text)
    (text : List α) : P text := by
  induction h : text.length using Nat.strongRecOn generalizing text with
  | _ n ih =>
    cases hcut : c.cut text with
    | none => exact hnone text hcut
    | some p =>
      obtain ⟨frame, rest⟩ := p
      cases hstops : stops frame with
      | true => exact hstop text frame rest hcut hstops
      | false => exact hcons text frame rest hcut hstops (ih _ (h ▸ c.shrinks hcut) rest rfl)

theorem cut_rest (h : (c.take stops text).stopped = false) : c.cut (c.take stops text).rest = none := by
  induction text using take_induction c stops with
  | hnone text hcut => rwa [take_none hcut]
  | hstop text frame rest hcut hstop => simp [take_stop hcut hstop] at h
  | hcons text frame rest hcut hstop ih =>
    rw [take_cons hcut hstop] at h ⊢
    exact ih h

theorem take_append_of_stopped (h : (c.take stops text).stopped = true) (more : List α) :
    c.take stops (text ++ more) = { c.take stops text with rest := (c.take stops text).rest ++ more } := by
  induction text using take_induction c stops with
  | hnone text hcut => simp [take_none hcut] at h
  | hstop text frame rest hcut hstop => rw [take_stop hcut hstop, take_stop (c.stable more hcut) hstop]
  | hcons text frame rest hcut hstop ih =>
    rw [take_cons hcut hstop] at h ⊢
    rw [take_cons (c.stable more hcut) hstop, ih h]

/-- **Frames taken as they come** are those of the whole stream. -/
theorem take_append (h : (c.take stops text).stopped = false) (more : List α) :
    c.take stops (text ++ more) =
      ⟨(c.take stops text).frames ++ (c.take stops ((c.take stops text).rest ++ more)).frames,
        (c.take stops ((c.take stops text).rest ++ more)).stopped,
        (c.take stops ((c.take stops text).rest ++ more)).rest⟩ := by
  induction text using take_induction c stops with
  | hnone text hcut => rw [take_none hcut, List.nil_append]
  | hstop text frame rest hcut hstop => simp [take_stop hcut hstop] at h
  | hcons text frame rest hcut hstop ih =>
    rw [take_cons hcut hstop] at h ⊢
    rw [take_cons (c.stable more hcut) hstop, ih h]
    rfl

/-- **Streams that are cut alike** give frames that are alike. -/
theorem take_rel {R : List α → List α → Prop} {S : β → β → Prop} {text' : List α}
    (hcut : ∀ {x y}, R x y → Option.Rel (fun p q => S p.1 q.1 ∧ R p.2 q.2) (c.cut x) (c.cut y))
    (hstops : ∀ {f g}, S f g → stops f = stops g) (h : R text' text) :
    List.Forall₂ S (c.take stops text').frames (c.take stops text).frames ∧
      (c.take stops text').stopped = (c.take stops text).stopped ∧
      R (c.take stops text').rest (c.take stops text).rest := by
  induction text using take_induction c stops generalizing text' with
  | hnone text hnone =>
    have halike := hcut h
    rw [hnone] at halike
    cases hcut' : c.cut text' with
    | none =>
      rw [take_none hcut', take_none hnone]
      exact ⟨.nil, rfl, h⟩
    | some p =>
      rw [hcut'] at halike
      cases halike
  | hstop text frame rest hsome hstop =>
    have halike := hcut h
    rw [hsome] at halike
    cases hcut' : c.cut text' with
    | none =>
      rw [hcut'] at halike
      cases halike
    | some p =>
      obtain ⟨frame', rest'⟩ := p
      rw [hcut', Option.rel_some_some] at halike
      rw [take_stop hcut' ((hstops halike.1).trans hstop), take_stop hsome hstop]
      exact ⟨.cons halike.1 .nil, rfl, halike.2⟩
  | hcons text frame rest hsome hstop ih =>
    have halike := hcut h
    rw [hsome] at halike
    cases hcut' : c.cut text' with
    | none =>
      rw [hcut'] at halike
      cases halike
    | some p =>
      obtain ⟨frame', rest'⟩ := p
      rw [hcut', Option.rel_some_some] at halike
      rw [take_cons hcut' ((hstops halike.1).trans hstop), take_cons hsome hstop]
      obtain ⟨hframes, hstopped, hrest⟩ := ih halike.2
      exact ⟨.cons halike.1 hframes, hstopped, hrest⟩

end Cutter

end Frames
