import Omnion.Media.Probe

/-!
# The walks through a header

Each walk through the segments of a JPEG and the boxes of an MP4 file, by the sizes these declare: where it comes, that
it always gets further, and when it reads outside the bytes or counts beyond 64 bits.

## What is proved

* `probeWithin_answers_iff` — the probe answers, in no more turns than there are bytes, unless a JPEG is cut inside the
  first frame header the walk comes to, or a box of an MP4 file that it comes to has a size of 64 bits that does not fit
  behind its offset; and the walk through the elements of a stream gets further with each.
-/

namespace Omnion.Media.HeaderProbe

open Guarded
open ExifReader (fromBytes quad)

variable {head bytes : List UInt8} {offset turns : ℕ} {marker : UInt8}

/-! ### The markers of a JPEG -/

/-- A marker, with at least two bytes behind it. -/
structure IsMarker (head : List UInt8) (offset : ℕ) (marker : UInt8) : Prop where
  within : offset + 3 < head.length
  first : head[offset]? = some 0xff
  second : head[offset + 1]? = some marker

/-- Where the walk through the markers of a JPEG comes. -/
inductive JpegAt (head : List UInt8) : ℕ → Prop where
  | start : JpegAt head 2
  | fill {offset : ℕ} : JpegAt head offset → offset + 3 < head.length → head[offset]? ≠ some 0xff →
      JpegAt head (offset + 1)
  | standalone {offset : ℕ} {marker : UInt8} : JpegAt head offset → IsMarker head offset marker →
      isFrame marker = false → isStandalone marker = true → JpegAt head (offset + 2)
  | segment {offset : ℕ} {marker : UInt8} : JpegAt head offset → IsMarker head offset marker →
      isFrame marker = false → isStandalone marker = false → 2 ≤ numberAt false 2 head (offset + 2) →
      JpegAt head (offset + 2 + numberAt false 2 head (offset + 2))

/-- The file ends inside a frame header that the walk comes to: behind three bytes of it, and before the seventh. -/
def CutFrame (head : List UInt8) : Prop :=
  [0xff, 0xd8] <+: head ∧ ∃ offset marker, JpegAt head offset ∧ IsMarker head offset marker ∧ isFrame marker = true ∧
    offset + 7 ≤ head.length ∧ head.length < offset + 9

theorem JpegAt.near (h : JpegAt head offset) : offset ≤ head.length + 2 ^ 33 := by
  induction h with
  | start => omega
  | fill _ hin _ _ => omega
  | standalone _ hmarker _ _ _ =>
    have hin := hmarker.within
    omega
  | @segment offset _ _ hmarker _ _ _ _ =>
    have hin := hmarker.within
    have hlength := numberAt_lt false 2 head (offset + 2)
    omega

section Turn

variable (hsmall : head.length < sliceLimit)
include hsmall

theorem jpegTurn_end (hnear : offset ≤ head.length + 2 ^ 33) (hout : ¬ offset + 3 < head.length) :
    jpegTurn head offset = .ok (.inr {}) := by
  rw [jpegTurn, add_eq_of_le hsmall (by omega), ok_bind, if_neg hout]
  rfl

theorem jpegTurn_fill (hin : offset + 3 < head.length) (hfirst : head[offset]? ≠ some 0xff) :
    jpegTurn head offset = .ok (.inl (offset + 1)) := by
  obtain ⟨byte, hbyte, rfl⟩ := index_yields (l := head) (i := offset) (by omega)
  rw [List.getElem?_eq_getElem (by omega), Ne, Option.some.injEq] at hfirst
  rw [jpegTurn, add_eq_of_le hsmall (by omega), ok_bind, if_pos hin, hbyte, ok_bind, if_pos hfirst,
    add_eq_of_le hsmall (by omega)]
  rfl

theorem jpegTurn_marker (h : IsMarker head offset marker) :
    jpegTurn head offset = jpegSegment head marker (offset + 2) := by
  have hin := h.within
  have hfirst : index head offset = .ok 0xff := by rw [index, h.first]
  have hsecond : index head (offset + 1) = .ok marker := by rw [index, h.second]
  rw [jpegTurn, add_eq_of_le hsmall (by omega), ok_bind, if_pos hin, hfirst, ok_bind, if_neg (not_not.mpr rfl),
    add_eq_of_le hsmall (by omega), ok_bind, hsecond, ok_bind, add_eq_of_le hsmall (by omega), ok_bind]

theorem jpegSegment_length (hin : offset + 2 ≤ head.length) (hframe : isFrame marker = false)
    (halone : isStandalone marker = false) : jpegSegment head marker offset =
      .ok (if numberAt false 2 head offset < 2 then .inr {} else .inl (offset + numberAt false 2 head offset)) := by
  obtain ⟨length, hlength, rfl⟩ := pairAt_yields hsmall hin false
  have hlt := numberAt_lt false 2 head offset
  rw [jpegSegment, if_neg (by simp [hframe]), if_neg (by simp [halone]), add_eq_of_le hsmall (by omega), ok_bind,
    if_neg (by omega), hlength, ok_bind]
  split_ifs with hshort
  · rfl
  · rw [add_eq_of_le hsmall (by omega)]
    rfl

/-- A frame header is read, or its size is not reached, -/
theorem jpegSegment_frame (hin : offset + 2 ≤ head.length) (hframe : isFrame marker = true)
    (hcut : ¬ (offset + 5 ≤ head.length ∧ head.length < offset + 7)) :
    Yields (jpegSegment head marker offset) fun r => ∃ p, r = .inr p ∧ p.IsPaired := by
  rw [jpegSegment, if_pos hframe, add_eq_of_le hsmall (by omega), ok_bind]
  refine yields_ite (fun _ => yields_pure ⟨{}, rfl, isPaired_empty⟩) fun hlong => ?_
  rw [add_eq_of_le hsmall (by omega), ok_bind]
  refine (pairAt_yields hsmall (by omega) false).bind fun height _ => ?_
  refine (pairAt_yields hsmall (by omega) false).bind fun width _ => ?_
  exact yields_pure ⟨_, rfl, isPaired_dimensions _ _⟩

/-- but the bytes behind the first five are read wherever the file ends. -/
theorem jpegSegment_cut (hframe : isFrame marker = true) (hin : offset + 5 ≤ head.length)
    (hcut : head.length < offset + 7) (r : ℕ ⊕ MediaProbe) : jpegSegment head marker offset ≠ .ok r := by
  intro h
  obtain ⟨height, hheight, -⟩ := pairAt_yields hsmall (show offset + 3 + 2 ≤ head.length by omega) false
  rw [jpegSegment, if_pos hframe, add_eq_of_le hsmall (by omega), ok_bind, if_neg (by omega),
    add_eq_of_le hsmall (by omega), ok_bind, hheight, ok_bind, ok_bind] at h
  cases hwidth : pairAt false head (offset + 5) with
  | error e =>
    rw [hwidth] at h
    cases h
  | ok width => exact pairAt_ne_ok (by omega) width hwidth

end Turn

/-- What a turn of the walk is to yield. -/
abbrev JpegTurns (head : List UInt8) (offset : ℕ) : ℕ ⊕ MediaProbe → Prop :=
  Turns (JpegAt head) (fun offset => head.length - offset) MediaProbe.IsPaired offset

/-- **One turn gets further**, or ends the walk. -/
theorem jpegTurn_yields (hsmall : head.length < sliceLimit) (hcut : ∀ offset marker, JpegAt head offset →
    IsMarker head offset marker → isFrame marker = true → ¬ (offset + 7 ≤ head.length ∧ head.length < offset + 9))
    (offset : ℕ) (hat : JpegAt head offset) : Yields (jpegTurn head offset) (JpegTurns head offset) := by
  by_cases hin : offset + 3 < head.length
  · by_cases hfirst : head[offset]? = some 0xff
    · obtain ⟨marker, hsecond⟩ : ∃ marker, head[offset + 1]? = some marker :=
        ⟨_, List.getElem?_eq_getElem (by omega)⟩
      have hmarker : IsMarker head offset marker := ⟨hin, hfirst, hsecond⟩
      rw [jpegTurn_marker hsmall hmarker]
      cases hframe : isFrame marker with
      | true =>
        refine (jpegSegment_frame hsmall (by omega) hframe ?_).mono fun r hr => ?_
        · have hnot := hcut offset marker hat hmarker hframe
          omega
        · obtain ⟨p, rfl, hp⟩ := hr
          exact hp
      | false =>
        cases halone : isStandalone marker with
        | true =>
          rw [jpegSegment, if_neg (by simp [hframe]), if_pos halone]
          exact yields_pure ⟨hat.standalone hmarker hframe halone, Nat.sub_lt_sub_left (by omega) (by omega)⟩
        | false =>
          rw [jpegSegment_length hsmall (by omega) hframe halone]
          refine yields_pure ?_
          split_ifs with hshort
          · exact isPaired_empty
          · exact ⟨hat.segment hmarker hframe halone (not_lt.mp hshort), Nat.sub_lt_sub_left (by omega) (by omega)⟩
    · rw [jpegTurn_fill hsmall hin hfirst]
      exact yields_pure ⟨hat.fill hin hfirst, Nat.sub_lt_sub_left (by omega) (by omega)⟩
  · rw [jpegTurn_end hsmall hat.near hin]
    exact yields_pure isPaired_empty

theorem JpegAt.loops (hsmall : head.length < sliceLimit) {p : MediaProbe}
    (hloop : loop (jpegTurn head) turns 2 = .ok p) (hat : JpegAt head offset) :
    ∃ turns, loop (jpegTurn head) turns offset = .ok p := by
  induction hat with
  | start => exact ⟨turns, hloop⟩
  | fill _ hin hfirst ih =>
    obtain ⟨turns, hloop⟩ := ih
    exact loop_of_turn (jpegTurn_fill hsmall hin hfirst) hloop
  | standalone _ hmarker hframe halone ih =>
    obtain ⟨turns, hloop⟩ := ih
    refine loop_of_turn ?_ hloop
    rw [jpegTurn_marker hsmall hmarker, jpegSegment, if_neg (by simp [hframe]), if_pos halone]
    rfl
  | segment _ hmarker hframe halone hlong ih =>
    obtain ⟨turns, hloop⟩ := ih
    have hin := hmarker.within
    refine loop_of_turn ?_ hloop
    rw [jpegTurn_marker hsmall hmarker, jpegSegment_length hsmall (by omega) hframe halone,
      if_neg (not_lt.mpr hlong)]

theorem probeJpeg_eq (hlong : 4 ≤ head.length) (hsignature : [0xff, 0xd8] <+: head) :
    probeJpeg turns head = loop (jpegTurn head) turns 2 := by
  obtain ⟨rest, rfl⟩ := hsignature
  rw [probeJpeg, if_neg (not_lt.mpr hlong)]
  rfl

/-- **A JPEG is read to its end** unless it is cut in a frame header, -/
theorem probeJpeg_settles (hsmall : head.length < sliceLimit) (hcut : ¬ CutFrame head) :
    Settles head.length (fun turns => probeJpeg turns head) MediaProbe.IsPaired := by
  by_cases hlong : 4 ≤ head.length
  · by_cases hsignature : [0xff, 0xd8] <+: head
    · simp only [probeJpeg_eq hlong hsignature]
      refine loop_settles (jpegTurn_yields hsmall fun offset marker hat hmarker hframe hends => hcut ?_) .start
        (Nat.sub_le ..)
      exact ⟨hsignature, offset, marker, hat, hmarker, hframe, hends⟩
    · refine settles_ite (fun _ => settles_of_yields pure_empty_yields _) fun _ => ?_
      refine settles_bind (index_yields (by omega)) fun first hfirst =>
        settles_ite (fun _ => settles_of_yields pure_empty_yields _) fun hff => ?_
      refine settles_bind (index_yields (by omega)) fun second hsecond =>
        settles_ite (fun _ => settles_of_yields pure_empty_yields _) fun hd8 => (hsignature ?_).elim
      rw [List.prefix_iff_eq_take, ← List.drop_zero (l := head), List.length_cons, List.length_singleton,
        take_drop_succ (by omega), take_drop_succ (by omega), List.take_zero]
      rw [not_not] at hff hd8
      rw [← hfirst, ← hsecond, hff, hd8]
  · refine settles_ite (fun _ => settles_of_yields pure_empty_yields _) fun hlong' => ?_
    omega

/-- and is not read at all if it is. -/
theorem probeJpeg_cut (hsmall : head.length < sliceLimit) (hcut : CutFrame head) (p : MediaProbe) :
    probeJpeg turns head ≠ .ok p := by
  intro h
  obtain ⟨hsignature, offset, marker, hat, hmarker, hframe, hin, hends⟩ := hcut
  rw [probeJpeg_eq (by omega) hsignature] at h
  obtain ⟨turns, hloop⟩ := hat.loops hsmall h
  obtain ⟨r, hr⟩ := turn_of_loop hloop
  rw [jpegTurn_marker hsmall hmarker] at hr
  exact jpegSegment_cut hsmall hframe (by omega) (by omega) r hr

/-! ### What is read of a box -/

variable {found : MediaProbe} {body kind : List UInt8}

theorem mvhdDuration_yields (hsmall : body.length < sliceLimit) (wide : Bool) :
    Yields (mvhdDuration wide body) (· = if wide then numberAt false 4 body 16 * 0x100000000 + numberAt false 4 body 20
      else numberAt false 4 body 16) := by
  refine (wordOr0_yields hsmall false 4 16).bind fun high hhigh => ?_
  subst hhigh
  cases wide with
  | true => exact (wordOr0_yields hsmall false 4 20).map fun low hlow => hlow ▸ rfl
  | false => exact yields_pure rfl

/-- The playing time that is read of a movie header. -/
def movieMillis (body : List UInt8) : Option ℕ :=
  if body.length < 20 ∨ body[0]? = some 1 ∧ body.length < 32 then none
  else
    let timescale := numberAt false 4 body 12
    let duration := if body[0]? = some 1 then numberAt false 4 body 16 * 0x100000000 + numberAt false 4 body 20
      else numberAt false 4 body 16
    if 0 < timescale ∧ 0 < duration then some (min (saturatingMul duration 1000 / timescale) LONGEST_MS) else none

/-- A movie header writes the playing time, and nothing else. -/
theorem mvhd_eq (hsmall : body.length < sliceLimit) (found : MediaProbe) : mvhd found body =
    .ok { found with durationMs := ((movieMillis body).map Nat.cast).or found.durationMs } := by
  by_cases hshort : body.length < 20
  · rw [mvhd, if_pos hshort, movieMillis, if_pos (.inl hshort)]
    rfl
  · obtain ⟨version, hversion, hindex⟩ := index_yields (l := body) (i := 0) (by omega)
    have hbyte : body[0]? = some 1 ↔ version = 1 := by
      rw [List.getElem?_eq_getElem (by omega), hindex, Option.some.injEq]
    have htimescale : beU32 body 12 = .ok (numberAt false 4 body 12) := wordOr0_eq hsmall false 4 12
    obtain ⟨duration, hduration, rfl⟩ := mvhdDuration_yields hsmall (version = 1)
    rw [mvhd, if_neg hshort, hversion, ok_bind, movieMillis]
    simp only [hshort, hbyte, false_or, decide_eq_true_eq] at hduration ⊢
    by_cases hwide : version = 1 ∧ body.length < 32
    · rw [if_pos hwide, if_pos hwide]
      rfl
    · rw [if_neg hwide, if_neg hwide, htimescale, ok_bind, hduration, ok_bind]
      generalize (if version = 1 then _ else numberAt false 4 body 16) = duration
      split_ifs with hpos
      · obtain ⟨millis, hmillis, rfl⟩ := div_yields (a := saturatingMul duration 1000) hpos.1.ne'
        rw [hmillis]
        rfl
      · rfl

theorem tkhd_yields (hsmall : body.length < sliceLimit) (found : MediaProbe) : Yields (tkhd found body) fun p =>
    (found.IsPaired → p.IsPaired) ∧ p.durationMs = found.durationMs := by
  have hfound : Yields (pure found) fun p => (found.IsPaired → p.IsPaired) ∧ p.durationMs = found.durationMs :=
    yields_pure ⟨id, rfl⟩
  refine yields_ite (fun _ => hfound) fun hlong => ?_
  refine (index_yields (by omega)).bind fun version _ => ?_
  have hoffset : (if version = 1 then 96 else 80) ≤ 96 := by split_ifs <;> decide
  refine (add_yields_of_le hsmall (by omega) (by decide)).bind fun stop _ =>
    yields_ite (fun _ => hfound) fun _ => ?_
  refine (wordOr0_yields hsmall false 4 _).bind fun width _ => ?_
  refine (add_yields_of_le hsmall (by omega) (by decide)).bind fun next _ => ?_
  refine (wordOr0_yields hsmall false 4 _).bind fun height _ => ?_
  refine yields_ite (fun hpos => yields_pure ⟨fun _ => .inr ⟨_, _, rfl, rfl, ?_⟩, rfl⟩) fun _ => hfound
  omega

theorem tkhd_short (hsmall : body.length < sliceLimit)
    (hshort : body.length < (if body[0]? = some 1 then 96 else 80) + 8) : tkhd found body = .ok found := by
  rw [tkhd]
  split_ifs with hempty
  · rfl
  · obtain ⟨version, hversion, rfl⟩ := index_yields (l := body) (i := 0) (by omega)
    simp only [List.getElem?_eq_getElem (show 0 < body.length by omega), Option.some.injEq] at hshort
    have hoffset : (if body[0] = 1 then 96 else 80) ≤ 96 := by split_ifs <;> decide
    rw [hversion, ok_bind]
    dsimp only
    rw [add_eq_of_le hsmall (by omega), ok_bind, if_pos hshort]
    rfl

theorem visit_yields (hsmall : body.length < sliceLimit) (hfound : found.IsPaired) (kind : List UInt8) :
    Yields (visit found kind body) MediaProbe.IsPaired := by
  refine yields_ite (fun _ => ⟨_, mvhd_eq hsmall found, hfound⟩) fun _ => ?_
  exact yields_ite (fun _ => (tkhd_yields hsmall found).mono fun _ hp => hp.1 hfound) fun _ => yields_pure hfound

/-! ### The boxes of an MP4 file -/

/-- The size that a box declares in a part of the file that ends at `stop`, and that of its header. -/
def DeclaresSize (bytes : List UInt8) (stop offset size header : ℕ) : Prop :=
  numberAt false 4 bytes offset = 0 ∧ size = stop - offset ∧ header = 8 ∨
    numberAt false 4 bytes offset = 1 ∧ header = 16 ∧
      size = numberAt false 4 bytes (offset + 8) * 0x100000000 + numberAt false 4 bytes (offset + 12) ∨
    1 < numberAt false 4 bytes offset ∧ size = numberAt false 4 bytes offset ∧ header = 8

/-- A box whose header is in the part of the file that ends at `stop`. -/
structure IsBox (bytes : List UInt8) (stop offset size header : ℕ) : Prop where
  declares : DeclaresSize bytes stop offset size header
  header_le : header ≤ size
  stop_le : offset + header ≤ stop
  length_le : offset + header ≤ bytes.length

/-- The four letters of a box. -/
def kindAt (bytes : List UInt8) (offset : ℕ) : List UInt8 := (bytes.drop (offset + 4)).take 4

/-- Where the body of a box ends. -/
def boxEnd (bytes : List UInt8) (stop offset size : ℕ) : ℕ := min (min (offset + size) stop) bytes.length

/-- The body of a box. -/
def bodyAt (bytes : List UInt8) (stop offset size header : ℕ) : List UInt8 :=
  (bytes.drop (offset + header)).take (boxEnd bytes stop offset size - (offset + header))

/-- Where the walk through the boxes comes: the depth, the end of the part of the file, and the offset. -/
inductive BoxAt (bytes : List UInt8) : ℕ → ℕ → ℕ → Prop where
  | start : BoxAt bytes 0 bytes.length 0
  | next {depth stop offset size header : ℕ} : BoxAt bytes depth stop offset →
      IsBox bytes stop offset size header → BoxAt bytes depth stop (offset + size)
  | child {depth stop offset size header : ℕ} : BoxAt bytes depth stop offset →
      IsBox bytes stop offset size header → kindAt bytes offset ∈ CONTAINERS → depth < 3 →
      BoxAt bytes (depth + 1) (boxEnd bytes stop offset size) (offset + header)

/-- The walk comes to a box that has no end, and no header behind it, that 64 bits can count. -/
def WideBox (bytes : List UInt8) : Prop :=
  ∃ depth stop offset size header, BoxAt bytes depth stop offset ∧ IsBox bytes stop offset size header ∧
    wordMax < offset + size + 8

variable {depth stop size header : ℕ}

theorem BoxAt.stop_le (h : BoxAt bytes depth stop offset) : stop ≤ bytes.length := by
  induction h with
  | start => exact le_rfl
  | next _ _ ih => exact ih
  | child _ _ _ _ _ => exact Nat.min_le_right ..

theorem DeclaresSize.header_mem (h : DeclaresSize bytes stop offset size header) : 8 ≤ header ∧ header ≤ 16 := by
  rcases h with ⟨-, -, rfl⟩ | ⟨-, rfl, -⟩ | ⟨-, -, rfl⟩ <;> decide

/-- The size of the box at an offset, and that of its header. -/
def boxOf (bytes : List UInt8) (stop offset : ℕ) : ℕ × ℕ :=
  if numberAt false 4 bytes offset = 0 then (stop - offset, 8)
  else if numberAt false 4 bytes offset = 1 then
    (numberAt false 4 bytes (offset + 8) * 0x100000000 + numberAt false 4 bytes (offset + 12), 16)
  else (numberAt false 4 bytes offset, 8)

theorem DeclaresSize.eq_boxOf (h : DeclaresSize bytes stop offset size header) :
    (size, header) = boxOf bytes stop offset := by
  rcases h with ⟨hzero, rfl, rfl⟩ | ⟨hone, rfl, rfl⟩ | ⟨hmore, rfl, rfl⟩
  · rw [boxOf, if_pos hzero]
  · rw [boxOf, if_neg (by omega), if_pos hone]
  · rw [boxOf, if_neg (by omega), if_neg (by omega)]

/-- The header of the box at an offset fits. -/
abbrev HasBox (bytes : List UInt8) (stop offset : ℕ) : Prop :=
  (boxOf bytes stop offset).2 ≤ (boxOf bytes stop offset).1 ∧
    offset + (boxOf bytes stop offset).2 ≤ min stop bytes.length

theorem HasBox.isBox (h : HasBox bytes stop offset) :
    IsBox bytes stop offset (boxOf bytes stop offset).1 (boxOf bytes stop offset).2 := by
  refine ⟨?_, h.1, h.2.trans (Nat.min_le_left ..), h.2.trans (Nat.min_le_right ..)⟩
  rw [boxOf]
  split_ifs with hzero hone
  · exact .inl ⟨hzero, rfl, rfl⟩
  · exact .inr (.inl ⟨hone, rfl, rfl⟩)
  · exact .inr (.inr ⟨by omega, rfl, rfl⟩)

theorem BoxAt.into (hat : BoxAt bytes depth stop offset)
    (h : HasBox bytes stop offset ∧ kindAt bytes offset ∈ CONTAINERS ∧ depth < 3) :
    BoxAt bytes (depth + 1) (boxEnd bytes stop offset (boxOf bytes stop offset).1)
      (offset + (boxOf bytes stop offset).2) :=
  hat.child h.1.isBox h.2.1 h.2.2

/-- The box at a place leads to places of a list: behind it, and into it when it holds others. -/
abbrev LeadsWithin (bytes : List UInt8) (places : List (ℕ × ℕ × ℕ)) (depth stop offset : ℕ) : Prop :=
  offset + (boxOf bytes stop offset).2 ≤ stop → (depth, stop, offset + (boxOf bytes stop offset).1) ∈ places ∧
    (kindAt bytes offset ∈ CONTAINERS → depth < 3 →
      (depth + 1, boxEnd bytes stop offset (boxOf bytes stop offset).1, offset + (boxOf bytes stop offset).2) ∈ places)

/-- Places that hold the first one, and all those that their boxes lead to. -/
abbrev ClosedPlaces (bytes : List UInt8) (places : List (ℕ × ℕ × ℕ)) : Prop :=
  (0, bytes.length, 0) ∈ places ∧ ∀ place ∈ places, LeadsWithin bytes places place.1 place.2.1 place.2.2

theorem BoxAt.mem_places {places : List (ℕ × ℕ × ℕ)} (hclosed : ClosedPlaces bytes places)
    (h : BoxAt bytes depth stop offset) : (depth, stop, offset) ∈ places := by
  induction h with
  | start => exact hclosed.1
  | next _ hbox ih =>
    have hleads := hclosed.2 _ ih
    rw [LeadsWithin, ← hbox.declares.eq_boxOf] at hleads
    exact (hleads hbox.stop_le).1
  | child _ hbox hkind hdeep ih =>
    have hleads := hclosed.2 _ ih
    rw [LeadsWithin, ← hbox.declares.eq_boxOf] at hleads
    exact (hleads hbox.stop_le).2 hkind hdeep

/-- What holds of the body of every box of some letters at these places holds of all such boxes. -/
theorem forall_body_of_places {places : List (ℕ × ℕ × ℕ)} (hclosed : ClosedPlaces bytes places) {kind : List UInt8}
    {P : List UInt8 → Prop} (hall : ∀ place ∈ places, kindAt bytes place.2.2 = kind →
      P (bodyAt bytes place.2.1 place.2.2 (boxOf bytes place.2.1 place.2.2).1 (boxOf bytes place.2.1 place.2.2).2))
    (hat : BoxAt bytes depth stop offset)
    (hbox : IsBox bytes stop offset size header) (hkind : kindAt bytes offset = kind) :
    P (bodyAt bytes stop offset size header) := by
  have hbody := hall _ (hat.mem_places hclosed) hkind
  rwa [← hbox.declares.eq_boxOf] at hbody

theorem not_wideBox_of_places {places : List (ℕ × ℕ × ℕ)} (hclosed : ClosedPlaces bytes places)
    (hnarrow : ∀ place ∈ places, place.2.2 + (boxOf bytes place.2.1 place.2.2).1 + 8 ≤ wordMax) : ¬ WideBox bytes := by
  rintro ⟨depth, stop, offset, size, header, hat, hbox, hwide⟩
  have hle := hnarrow _ (hat.mem_places hclosed)
  rw [← hbox.declares.eq_boxOf] at hle
  exact absurd hwide (not_lt.mpr hle)

section Turn

variable (hsmall : bytes.length < sliceLimit)
include hsmall

theorem boxSize_eq_some (hstop : offset + 8 ≤ stop) (hlarge : offset + header ≤ bytes.length)
    (h : DeclaresSize bytes stop offset size header) :
    boxSize bytes stop offset = .ok (some (size, header)) := by
  have hword : beU32 bytes offset = .ok (numberAt false 4 bytes offset) := wordOr0_eq hsmall false 4 offset
  rw [boxSize, hword, ok_bind]
  rcases h with ⟨hzero, rfl, rfl⟩ | ⟨hone, rfl, rfl⟩ | ⟨hmore, rfl, rfl⟩
  · obtain ⟨rest, hrest, rfl⟩ := sub_yields (a := stop) (b := offset) (by omega)
    rw [hzero, if_neg (by decide), if_pos rfl, hrest]
    rfl
  · have hhigh : beU32 bytes (offset + 8) = .ok (numberAt false 4 bytes (offset + 8)) := wordOr0_eq hsmall false 4 _
    have hlow : beU32 bytes (offset + 12) = .ok (numberAt false 4 bytes (offset + 12)) := wordOr0_eq hsmall false 4 _
    rw [if_pos hone, add_eq_of_le hsmall (by omega), ok_bind, if_neg (by omega), add_eq_of_le hsmall (by omega),
      ok_bind, hhigh, ok_bind, add_eq_of_le hsmall (by omega), ok_bind, hlow]
    rfl
  · rw [if_neg (by omega), if_neg (by omega)]
    rfl

theorem boxSize_yields (hin : offset + 8 ≤ bytes.length) (hstop : offset + 8 ≤ stop) :
    Yields (boxSize bytes stop offset) fun found => (∀ sizes ∈ found,
      DeclaresSize bytes stop offset sizes.1 sizes.2) ∧
      (found = none → ∀ size header, DeclaresSize bytes stop offset size header → bytes.length < offset + header) := by
  by_cases hone : numberAt false 4 bytes offset = 1
  · by_cases hlarge : offset + 16 ≤ bytes.length
    · have hdeclares : DeclaresSize bytes stop offset
          (numberAt false 4 bytes (offset + 8) * 0x100000000 + numberAt false 4 bytes (offset + 12)) 16 :=
        .inr (.inl ⟨hone, rfl, rfl⟩)
      refine ⟨_, boxSize_eq_some hsmall hstop hlarge hdeclares, fun sizes hsizes => ?_, fun hnone => nomatch hnone⟩
      obtain rfl := Option.mem_some_iff.mp hsizes
      exact hdeclares
    · have hword : beU32 bytes offset = .ok (numberAt false 4 bytes offset) := wordOr0_eq hsmall false 4 offset
      have hnone : boxSize bytes stop offset = .ok none := by
        rw [boxSize, hword, ok_bind, if_pos hone, add_eq_of_le hsmall (by omega), ok_bind, if_pos (by omega)]
        rfl
      refine ⟨none, hnone, ?_, ?_⟩
      · intro sizes hsizes
        cases hsizes
      · intro _ size header hdeclares
        rcases hdeclares with ⟨hzero, -⟩ | ⟨-, rfl, -⟩ | ⟨hmore, -⟩
        · omega
        · omega
        · omega
  · obtain ⟨size, hdeclares⟩ : ∃ size, DeclaresSize bytes stop offset size 8 := by
      by_cases hzero : numberAt false 4 bytes offset = 0
      · exact ⟨_, .inl ⟨hzero, rfl, rfl⟩⟩
      · exact ⟨_, .inr (.inr ⟨by omega, rfl, rfl⟩)⟩
    refine ⟨_, boxSize_eq_some hsmall hstop hin hdeclares, fun sizes hsizes => ?_, fun hnone => nomatch hnone⟩
    obtain rfl := Option.mem_some_iff.mp hsizes
    exact hdeclares

variable {descend : ℕ → ℕ → MediaProbe → Except Trap MediaProbe}

/-- The walk reads a box, walks through it, and goes on behind it. -/
theorem mp4Turn_box (h : IsBox bytes stop offset size header) : mp4Turn bytes descend stop (offset, found) = (do
    let found ← visit found (kindAt bytes offset) (bodyAt bytes stop offset size header)
    let found ← enter descend (kindAt bytes offset) (offset + header) (boxEnd bytes stop offset size) found
    return .inl (← add offset size, found)) := by
  obtain ⟨hdeclares, hheader, hstop, hlength⟩ := h
  have hbounds := hdeclares.header_mem
  obtain ⟨kind, hkind, rfl⟩ := quad_yields hsmall (show offset + 4 + 4 ≤ bytes.length by omega)
  have hend : min (min (saturatingAdd offset size) stop) bytes.length = boxEnd bytes stop offset size := by
    simp only [saturatingAdd, boxEnd, sliceLimit, wordMax] at *
    omega
  have hle : offset + header ≤ boxEnd bytes stop offset size := by
    rw [boxEnd]
    omega
  obtain ⟨body, hbody, rfl⟩ := slice_yields hle (Nat.min_le_right ..)
  rw [mp4Turn]
  simp only [add_eq_of_le (k := 8) hsmall (show offset + 8 ≤ bytes.length + 2 ^ 35 by omega),
    add_eq_of_le (k := 4) hsmall (show offset + 4 ≤ bytes.length + 2 ^ 35 by omega),
    add_eq_of_le (k := header) hsmall (show offset + header ≤ bytes.length + 2 ^ 35 by omega), ok_bind, hkind,
    boxSize_eq_some hsmall (show offset + 8 ≤ stop by omega) hlength hdeclares, hend, min_eq_left hlength, hbody]
  rw [if_pos ⟨by omega, by omega⟩, if_neg (not_lt.mpr hheader), if_neg (not_lt.mpr hle)]
  rfl

/-- Where there is no box the walk ends. -/
theorem mp4Turn_end (hnear : offset + 8 ≤ wordMax) (h : ∀ size header, ¬ IsBox bytes stop offset size header) :
    mp4Turn bytes descend stop (offset, found) = .ok (.inr found) := by
  have hfirst : add offset 8 = .ok (offset + 8) := add_eq hnear
  rw [mp4Turn]
  simp only [hfirst, ok_bind]
  by_cases hin : offset + 8 ≤ stop ∧ offset + 8 ≤ bytes.length
  · obtain ⟨kind, hkind, -⟩ := quad_yields hsmall (show offset + 4 + 4 ≤ bytes.length by omega)
    obtain ⟨sizes, hsizes, hsome, -⟩ := boxSize_yields hsmall hin.2 hin.1
    rw [if_pos hin, add_eq_of_le hsmall (by omega), ok_bind, hkind, ok_bind, hsizes, ok_bind]
    cases sizes with
    | none => rfl
    | some sizes =>
      obtain ⟨size, header⟩ := sizes
      have hdeclares : DeclaresSize bytes stop offset size header := hsome _ rfl
      have hbounds := hdeclares.header_mem
      dsimp only
      by_cases hheader : size < header
      · rw [if_pos hheader]
        rfl
      · have hshort : min (min (saturatingAdd offset size) stop) bytes.length < offset + header := by
          by_contra hlong
          exact h size header ⟨hdeclares, not_lt.mp hheader, by omega, by omega⟩
        rw [if_neg hheader, add_eq_of_le hsmall (by omega), ok_bind, if_pos hshort]
        rfl
  · rw [if_neg hin]
    rfl

end Turn

/-- A turn at a box that comes to an end has read the box and walked through it, and its end can be counted. -/
theorem mp4Turn_eq_ok {descend : ℕ → ℕ → MediaProbe → Except Trap MediaProbe} {r : (ℕ × MediaProbe) ⊕ MediaProbe}
    (hsmall : bytes.length < sliceLimit) (hbox : IsBox bytes stop offset size header)
    (h : mp4Turn bytes descend stop (offset, found) = .ok r) : ∃ read walked,
      visit found (kindAt bytes offset) (bodyAt bytes stop offset size header) = .ok read ∧
      enter descend (kindAt bytes offset) (offset + header) (boxEnd bytes stop offset size) read = .ok walked ∧
      offset + size ≤ wordMax ∧ r = .inl (offset + size, walked) := by
  rw [mp4Turn_box hsmall hbox] at h
  cases hread : visit found (kindAt bytes offset) (bodyAt bytes stop offset size header) with
  | error e =>
    rw [hread] at h
    cases h
  | ok read =>
    rw [hread, ok_bind] at h
    cases hwalked : enter descend (kindAt bytes offset) (offset + header) (boxEnd bytes stop offset size) read with
    | error e =>
      rw [hwalked] at h
      cases h
    | ok walked =>
      rw [hwalked, ok_bind, add] at h
      split_ifs at h with hfits
      · cases h
        exact ⟨read, walked, rfl, hwalked, hfits, rfl⟩
      · cases h

theorem walkMp4_succ (hdepth : depth ≤ 3) (levels start : ℕ) : walkMp4 turns bytes (levels + 1) depth start stop found =
    loop (mp4Turn bytes (fun start stop => walkMp4 turns bytes levels (depth + 1) start stop) stop) turns
      (start, found) := by
  rw [walkMp4, if_neg (not_lt.mpr hdepth)]

theorem walkMp4_below (hdepth : 3 < depth) (levels start : ℕ) :
    walkMp4 turns bytes levels depth start stop found = pure found := by
  unfold walkMp4
  rw [if_pos hdepth]

/-- What the visits of all boxes that the walk comes to keep. -/
def Kept (bytes : List UInt8) (keeps : MediaProbe → Prop) : Prop :=
  ∀ depth stop offset size header, BoxAt bytes depth stop offset → IsBox bytes stop offset size header →
    ∀ found read, keeps found →
      visit found (kindAt bytes offset) (bodyAt bytes stop offset size header) = .ok read → keeps read

/-- The loop through the boxes of a part of the file. -/
abbrev boxLoop (turns : ℕ) (bytes : List UInt8) (levels depth stop left : ℕ) (state : ℕ × MediaProbe) :
    Except Trap MediaProbe :=
  loop (mp4Turn bytes (fun start stop => walkMp4 turns bytes levels (depth + 1) start stop) stop) left state

/-- What a turn that comes to an end has done: it has passed a box, or ended the walk. -/
theorem mp4Turn_cases {descend : ℕ → ℕ → MediaProbe → Except Trap MediaProbe} {r : (ℕ × MediaProbe) ⊕ MediaProbe}
    (hsmall : bytes.length < sliceLimit) (h : mp4Turn bytes descend stop (offset, found) = .ok r) :
    (∃ size header read walked, IsBox bytes stop offset size header ∧
      visit found (kindAt bytes offset) (bodyAt bytes stop offset size header) = .ok read ∧
      enter descend (kindAt bytes offset) (offset + header) (boxEnd bytes stop offset size) read = .ok walked ∧
      r = .inl (offset + size, walked)) ∨ r = .inr found := by
  by_cases hbox : ∃ size header, IsBox bytes stop offset size header
  · obtain ⟨size, header, hbox⟩ := hbox
    obtain ⟨read, walked, hread, hwalked, -, rfl⟩ := mp4Turn_eq_ok hsmall hbox h
    exact .inl ⟨size, header, read, walked, hbox, hread, hwalked, rfl⟩
  · by_cases hnear : offset + 8 ≤ wordMax
    · rw [mp4Turn_end hsmall hnear fun size header hbox' => hbox ⟨size, header, hbox'⟩] at h
      exact .inr (Except.ok.inj h).symm
    · have hfirst : add offset 8 = .error .overflow := if_neg hnear
      rw [mp4Turn, hfirst] at h
      cases h

/-- What the visits keep is kept by the boxes of a part of the file, when the walk keeps it a level below, -/
theorem boxLoop_keeps_of (hsmall : bytes.length < sliceLimit) {keeps : MediaProbe → Prop} (hkept : Kept bytes keeps)
    {levels left : ℕ} {q : MediaProbe} (hat : BoxAt bytes depth stop offset) (hfound : keeps found)
    (hbelow : ∀ start stop read walked, (depth < 3 → BoxAt bytes (depth + 1) stop start) → keeps read →
      walkMp4 turns bytes levels (depth + 1) start stop read = .ok walked → keeps walked)
    (h : boxLoop turns bytes levels depth stop left (offset, found) = .ok q) : keeps q := by
  have hgoes : ∀ state state' : ℕ × MediaProbe, BoxAt bytes depth stop state.1 ∧ keeps state.2 →
      mp4Turn bytes (fun start stop => walkMp4 turns bytes levels (depth + 1) start stop) stop state =
        .ok (.inl state') → BoxAt bytes depth stop state'.1 ∧ keeps state'.2 := by
    rintro ⟨offset, found⟩ state' ⟨hat, hfound⟩ hturn
    rcases mp4Turn_cases hsmall hturn with ⟨size, header, read, walked, hbox, hread, hwalked, hstate⟩ | hend
    · obtain rfl := Sum.inl.inj hstate
      have hkeeps := hkept _ _ _ _ _ hat hbox found read hfound hread
      refine ⟨hat.next hbox, ?_⟩
      rw [enter] at hwalked
      split_ifs at hwalked with hkind
      · exact hbelow _ _ read walked (fun hdeep => hat.child hbox (List.contains_iff_mem.mp hkind) hdeep) hkeeps
          hwalked
      · exact Except.ok.inj hwalked ▸ hkeeps
    · cases hend
  have hends : ∀ (state : ℕ × MediaProbe) q, BoxAt bytes depth stop state.1 ∧ keeps state.2 →
      mp4Turn bytes (fun start stop => walkMp4 turns bytes levels (depth + 1) start stop) stop state =
        .ok (.inr q) → keeps q := by
    rintro ⟨offset, found⟩ q ⟨-, hfound⟩ hturn
    rcases mp4Turn_cases hsmall hturn with ⟨_, _, _, _, -, -, -, hstate⟩ | hend
    · cases hstate
    · exact Sum.inr.inj hend ▸ hfound
  exact loop_keeps hgoes hends ⟨hat, hfound⟩ h

/-- and so on every level. -/
theorem boxLoop_keeps (hsmall : bytes.length < sliceLimit) {keeps : MediaProbe → Prop} (hkept : Kept bytes keeps)
    {levels left : ℕ} {q : MediaProbe} (hat : BoxAt bytes depth stop offset) (hfound : keeps found)
    (h : boxLoop turns bytes levels depth stop left (offset, found) = .ok q) : keeps q := by
  induction levels generalizing depth stop left offset found q with
  | zero =>
    refine boxLoop_keeps_of hsmall hkept hat hfound (fun start stop read walked _ hread hwalked => ?_) h
    by_cases hdeep : depth < 3
    · rw [walkMp4, if_neg (by omega)] at hwalked
      cases hwalked
    · rw [walkMp4_below (by omega)] at hwalked
      exact Except.ok.inj hwalked ▸ hread
  | succ levels ih =>
    refine boxLoop_keeps_of hsmall hkept hat hfound (fun start stop read walked hat hread hwalked => ?_) h
    by_cases hdeep : depth < 3
    · rw [walkMp4_succ (by omega)] at hwalked
      exact ih (hat hdeep) hread hwalked
    · rw [walkMp4_below (by omega)] at hwalked
      exact Except.ok.inj hwalked ▸ hread

/-- A walk that ends has come to every box it goes by, and keeps what it finds from there on. -/
theorem BoxAt.loops (hsmall : bytes.length < sliceLimit) {p : MediaProbe} (h : probeMp4 turns bytes = .ok p)
    (hat : BoxAt bytes depth stop offset) : depth ≤ 3 ∧ ∃ left found q,
      boxLoop turns bytes (3 - depth) depth stop left (offset, found) = .ok q ∧
      ∀ keeps : MediaProbe → Prop, Kept bytes keeps → keeps q → keeps p := by
  induction hat with
  | start =>
    refine ⟨by decide, turns, {}, p, ?_, fun _ _ hq => hq⟩
    rw [boxLoop, ← walkMp4_succ (by decide)]
    exact h
  | next _ hbox ih =>
    obtain ⟨hdepth, left, found, q, hloop, hkeeps⟩ := ih
    obtain ⟨r, hr⟩ := turn_of_loop hloop
    obtain ⟨_, walked, -, -, -, rfl⟩ := mp4Turn_eq_ok hsmall hbox hr
    obtain ⟨left, hloop⟩ := loop_of_turn hr hloop
    exact ⟨hdepth, left, walked, q, hloop, hkeeps⟩
  | @child depth _ _ _ _ hat hbox hkind hdeep ih =>
    obtain ⟨-, left, found, q, hloop, hkeeps⟩ := ih
    obtain ⟨r, hr⟩ := turn_of_loop hloop
    obtain ⟨read, walked, -, hwalked, -, rfl⟩ := mp4Turn_eq_ok hsmall hbox hr
    obtain ⟨left, hloop⟩ := loop_of_turn hr hloop
    obtain ⟨levels, hlevels⟩ : ∃ levels, 3 - depth = levels + 1 := ⟨2 - depth, by omega⟩
    rw [enter, if_pos (List.contains_iff_mem.mpr hkind), hlevels, walkMp4_succ (by omega)] at hwalked
    refine ⟨by omega, turns, read, walked, ?_, fun keeps hkept hq => hkeeps keeps hkept ?_⟩
    · rw [show 3 - (depth + 1) = levels by omega]
      exact hwalked
    · exact boxLoop_keeps hsmall hkept (hat.next hbox) hq hloop

/-- **A box that is too wide is never passed.** -/
theorem probeMp4_wide (hsmall : bytes.length < sliceLimit) (hwide : WideBox bytes) (p : MediaProbe) :
    probeMp4 turns bytes ≠ .ok p := by
  intro h
  obtain ⟨depth, stop, offset, size, header, hat, hbox, hsum⟩ := hwide
  obtain ⟨-, left, found, q, hloop, -⟩ := hat.loops hsmall h
  obtain ⟨r, hr⟩ := turn_of_loop hloop
  obtain ⟨_, walked, -, -, -, rfl⟩ := mp4Turn_eq_ok hsmall hbox hr
  -- Behind the box the next turn counts the header of another.
  obtain ⟨left, hloop⟩ := loop_of_turn hr hloop
  obtain ⟨r, hr⟩ := turn_of_loop hloop
  have hfirst : add (offset + size) 8 = .error .overflow := if_neg (not_le.mpr hsum)
  rw [mp4Turn, hfirst] at hr
  cases hr

/-- What a turn of the walk is to yield. -/
abbrev Mp4Turns (bytes : List UInt8) (depth stop : ℕ) (state : ℕ × MediaProbe) : (ℕ × MediaProbe) ⊕ MediaProbe → Prop :=
  Turns (fun state => BoxAt bytes depth stop state.1 ∧ state.1 + 8 ≤ wordMax ∧ state.2.IsPaired)
    (fun state => stop - state.1) MediaProbe.IsPaired state

/-- **The boxes are read to their end**, within the levels that are left. -/
theorem walkMp4_settles (hsmall : bytes.length < sliceLimit) (hwide : ¬ WideBox bytes) {levels start : ℕ}
    (hlevels : 4 ≤ levels + depth) (hat : depth ≤ 3 → BoxAt bytes depth stop start ∧ start + 8 ≤ wordMax)
    (hfound : found.IsPaired) : Settles bytes.length (fun turns => walkMp4 turns bytes levels depth start stop found)
      MediaProbe.IsPaired := by
  induction levels generalizing depth stop start found with
  | zero =>
    simp only [walkMp4_below (show 3 < depth by omega)]
    exact settles_of_yields (yields_pure hfound) _
  | succ levels ih =>
    by_cases hdepth : depth ≤ 3
    · obtain ⟨hat, hnear⟩ := hat hdepth
      simp only [walkMp4_succ hdepth]
      have hturn : ∀ state : ℕ × MediaProbe,
          BoxAt bytes depth stop state.1 ∧ state.1 + 8 ≤ wordMax ∧ state.2.IsPaired →
          Settles bytes.length (fun turns => mp4Turn bytes
            (fun start stop => walkMp4 turns bytes levels (depth + 1) start stop) stop state)
            (Mp4Turns bytes depth stop state) := by
        rintro ⟨offset, found⟩ ⟨hat, hnear, hfound⟩
        by_cases hbox : ∃ size header, IsBox bytes stop offset size header
        · obtain ⟨size, header, hbox⟩ := hbox
          have hbody : (bodyAt bytes stop offset size header).length < sliceLimit := by
            rw [bodyAt, List.length_take, List.length_drop]
            omega
          have hfits : offset + size + 8 ≤ wordMax :=
            not_lt.mp fun hsum => hwide ⟨depth, stop, offset, size, header, hat, hbox, hsum⟩
          have hheader := hbox.declares.header_mem
          have hinside := hbox.length_le
          have hstop := hbox.stop_le
          have hsize := hbox.header_le
          simp only [mp4Turn_box hsmall hbox]
          refine settles_bind (visit_yields hbody hfound _) fun read hread => ?_
          have henter : Settles bytes.length (fun turns => enter
              (fun start stop => walkMp4 turns bytes levels (depth + 1) start stop) (kindAt bytes offset)
              (offset + header) (boxEnd bytes stop offset size) read) MediaProbe.IsPaired := by
            refine settles_ite (fun hkind => ih (by omega) (fun hdeep => ?_) hread) fun _ =>
              settles_of_yields (yields_pure hread) _
            refine ⟨hat.child hbox (List.contains_iff_mem.mp hkind) (by omega), ?_⟩
            simp only [sliceLimit, wordMax] at *
            omega
          refine henter.bind fun walked hwalked => settles_of_yields ?_ _
          refine (add_yields (by omega)).bind fun next hnext => ?_
          subst hnext
          exact yields_pure ⟨⟨hat.next hbox, hfits, hwalked⟩,
            Nat.sub_lt_sub_left (show offset < stop by omega) (show offset < offset + size by omega)⟩
        · have hend : ∀ turns, mp4Turn bytes (fun start stop => walkMp4 turns bytes levels (depth + 1) start stop) stop
              (offset, found) = .ok (.inr found) := fun turns =>
            mp4Turn_end hsmall hnear fun size header h => hbox ⟨size, header, h⟩
          exact ⟨.inr found, hfound, fun turns _ => hend turns⟩
      exact settles_loop hturn ⟨hat, hnear, hfound⟩ ((Nat.sub_le ..).trans hat.stop_le)
    · simp only [walkMp4_below (not_le.mp hdepth)]
      exact settles_of_yields (yields_pure hfound) _

theorem probeMp4_settles (hsmall : bytes.length < sliceLimit) (hwide : ¬ WideBox bytes) :
    Settles bytes.length (fun turns => probeMp4 turns bytes) MediaProbe.IsPaired :=
  walkMp4_settles hsmall hwide (by decide) (fun _ => ⟨.start, by decide⟩) isPaired_empty

/-! ### Every format -/

/-- What no walk gets past: a JPEG that is cut in a frame header, and a box of an MP4 file that is too wide. -/
def Trips (contentType : String) (head : List UInt8) : Prop :=
  contentType = "image/jpeg" ∧ CutFrame head ∨
    (contentType = "video/mp4" ∨ contentType = "video/quicktime") ∧ WideBox head

/-- Whatever is not tripped over is read to its end; and a width goes with a height, except of a stream. -/
theorem probeWithin_settles (hsmall : head.length < sliceLimit) {contentType : String}
    (htrips : ¬ Trips contentType head) : Settles head.length (fun turns => probeWithin turns contentType head)
      fun p => contentType = "video/webm" ∨ p.IsPaired := by
  rw [Trips, not_or, not_and, not_and] at htrips
  have hyields : ∀ {m : Except Trap MediaProbe}, Yields m MediaProbe.IsPaired →
      Settles head.length (fun _ => m) fun p => contentType = "video/webm" ∨ p.IsPaired :=
    fun h => settles_of_yields (h.mono fun _ => .inr) _
  have hsettles : ∀ {m : ℕ → Except Trap MediaProbe}, Settles head.length m MediaProbe.IsPaired →
      Settles head.length m fun p => contentType = "video/webm" ∨ p.IsPaired :=
    fun h => h.mono fun _ => .inr
  refine settles_ite (fun _ => hyields (probePng_yields hsmall)) fun _ => ?_
  refine settles_ite (fun _ => hyields (probeGif_yields hsmall)) fun _ => ?_
  refine settles_ite (fun hjpeg => hsettles (probeJpeg_settles hsmall (htrips.1 hjpeg))) fun _ => ?_
  refine settles_ite (fun _ => hyields (probeWebp_yields hsmall)) fun _ => ?_
  refine settles_ite (fun _ => hyields (probeBmp_yields hsmall)) fun _ => ?_
  refine settles_ite (fun _ => hyields (probeTiff_yields hsmall)) fun _ => ?_
  refine settles_ite (fun hfilm => hsettles (probeMp4_settles hsmall (htrips.2 hfilm))) fun _ => ?_
  refine settles_ite
    (fun hwebm => settles_of_yields ((probeWebm_yields hsmall).mono fun _ _ => .inl hwebm) _) fun _ => ?_
  refine settles_ite (fun _ => hyields (probeMp3_yields head)) fun _ => ?_
  refine settles_ite (fun _ => hyields pure_empty_yields) fun _ => ?_
  refine settles_ite (fun _ => hsettles (probeWave_settles hsmall)) fun _ => ?_
  refine settles_ite (fun _ => hsettles (probePdf_settles head)) fun _ => ?_
  exact hyields pure_empty_yields

theorem not_trips_of_ok (hsmall : head.length < sliceLimit) {contentType : String} {p : MediaProbe}
    (h : probeWithin turns contentType head = .ok p) : ¬ Trips contentType head := by
  rintro (⟨rfl, hcut⟩ | ⟨hfilm, hwide⟩)
  · exact probeJpeg_cut hsmall hcut p h
  · have hfilm : probeWithin turns contentType head = probeMp4 turns head := by
      rcases hfilm with rfl | rfl <;> rfl
    exact probeMp4_wide hsmall hwide p (hfilm ▸ h)

/-- **The probe answers**, however many turns above the number of bytes a walk may take, just when nothing trips it; and
the elements of a stream end before their count does, when that is greater than the number of bytes. -/
theorem probeWithin_answers_iff (contentType : String) {head : List UInt8} (hsmall : head.length < sliceLimit) :
    ((∃ p, ∀ turns, head.length < turns → probeWithin turns contentType head = .ok p) ↔
      ¬ Trips contentType head) ∧
      ∀ guard, head.length < guard → webmElements head guard 0 {} = webmElements head (head.length + 1) 0 {} := by
  refine ⟨⟨?_, fun htrips => ?_⟩, fun guard hguard => webmElements_saturated hsmall {} (by omega) hguard⟩
  · rintro ⟨p, hanswers⟩
    exact not_trips_of_ok hsmall (hanswers (head.length + 1) (Nat.lt_succ_self _))
  · obtain ⟨p, -, hp⟩ := probeWithin_settles hsmall htrips
    exact ⟨p, hp⟩

/-- A film with a box in another. -/
def smallFilm : List UInt8 := [0, 0, 0, 16] ++ ascii "moov" ++ [0, 0, 0, 8] ++ ascii "free"

/-- The small film is answered; a JPEG that ends behind the height of its frame never is. -/
theorem answers_film_not_cut_frame :
    (∃ p, ∀ turns, smallFilm.length < turns → probeWithin turns "video/mp4" smallFilm = .ok p) ∧
    ¬ ∃ p, ∀ turns, 9 < turns →
      probeWithin turns "image/jpeg" [0xff, 0xd8, 0xff, 0xc0, 0x00, 0x11, 0x08, 0x00, 0x10] = .ok p := by
  constructor
  · refine (probeWithin_answers_iff "video/mp4" (show smallFilm.length < sliceLimit by decide)).1.mpr ?_
    rintro (⟨hjpeg, -⟩ | ⟨-, hwide⟩)
    · exact absurd hjpeg (by decide)
    · exact not_wideBox_of_places
        (show ClosedPlaces smallFilm [(0, 16, 0), (0, 16, 16), (1, 16, 8), (1, 16, 16)] by decide) (by decide) hwide
  · intro hanswers
    exact (probeWithin_answers_iff "image/jpeg"
      (show [0xff, 0xd8, 0xff, 0xc0, 0x00, 0x11, 0x08, 0x00, 0x10].length < sliceLimit by decide)).1.mp hanswers
        (.inl ⟨rfl, ⟨_, rfl⟩, 2, 0xc0, .start, ⟨by decide, rfl, rfl⟩, by decide, by decide, by decide⟩)

/-- A frame that is cut behind its height, and a box at offset 16 whose end is one more than the greatest word. -/
theorem cut_frame_and_wide_box :
    probe "image/jpeg" [0xff, 0xd8, 0xff, 0xc0, 0x00, 0x11, 0x08, 0x00, 0x10] = .error .outside ∧
    probe "video/mp4" ([0, 0, 0, 16] ++ ascii "ftyp" ++ [0, 0, 0, 0, 0, 0, 0, 0] ++ [0, 0, 0, 1] ++ ascii "free" ++
      [0xff, 0xff, 0xff, 0xff, 0xff, 0xff, 0xff, 0xf0]) = .error .overflow :=
  ⟨by decide, by decide⟩

end Omnion.Media.HeaderProbe
