import Omnion.Library.Selection
import Omnion.Media.ExifOrder
import Omnion.Media.ProbeWalks

/-!
# Headers of the formats

What a well-formed header says about a picture or a film, and what the probe reports of it.

## The headers

A header lies in the bytes of a file: words at their places (`Lies`), the fields of a directory, the boxes of a film
that the walk comes to (`BoxAt`). Nothing else is said of the file, and it may be cut behind them. A WebM file is the
bytes of a tree of elements (`Ebml`), each where the format places it, and may be cut behind its canvas.

## What is proved

* `header_isReported_iff` — of a header the numbers are reported just when it is legible: those of a BMP file, of a
  track header and of a WebM file never are, since they are looked for at other places; those of a TIFF file when the
  two fields are among the first 64 and their numbers in the two bytes that are read; those of a movie header when it is
  of version 0 and its film not too long. A width is reported with a height, both positive, except of a stream with
  numbers that do not pair.

## Honest scope

A slice is no longer than `isize::MAX`. The playing time of a WebM file is not compared with its header.
-/

namespace Omnion.Media.HeaderProbe

open Guarded
open ExifReader (fromBytes toWord length_toWord fromBytes_toWord Field DirectoryAt)

variable {head bytes : List UInt8} {little : Bool} {count offset n : ℕ}

/-! ### Words that lie at an offset -/

theorem numberAt_of_lies (h : Lies bytes offset (toWord little count n)) (hpos : 0 < count) :
    numberAt little count bytes offset = n % 256 ^ count := by
  have hne : toWord little count n ≠ [] := List.length_pos_iff.mp (by rwa [length_toWord])
  have hin := h.le_length hne
  have htake := List.prefix_iff_eq_take.mp h
  rw [length_toWord] at hin htake
  rw [numberAt, if_pos hin, ← htake, fromBytes, toWord]
  cases little with
  | true => simp [Bytes.ofBe_toBe_mod]
  | false => simp [Bytes.ofBe_toBe_mod]

theorem toWord_four (little : Bool) (n : ℕ) : toWord little 4 n =
    toWord little 2 (if little then n else n / 65536) ++ toWord little 2 (if little then n / 65536 else n) := by
  cases little with
  | true => simp [toWord, Bytes.toBe_add 2 2 n]
  | false => simp [toWord, Bytes.toBe_add 2 2 n]

/-- The first half of a word, -/
theorem numberAt_first_half (h : Lies bytes offset (toWord little 4 n)) :
    numberAt little 2 bytes offset = (if little then n else n / 65536) % 65536 := by
  rw [toWord_four] at h
  exact numberAt_of_lies (Lies.append_iff.mp h).1 (by decide)

/-- and the second. -/
theorem numberAt_second_half (h : Lies bytes offset (toWord little 4 n)) :
    numberAt little 2 bytes (offset + 2) = (if little then n / 65536 else n) % 65536 := by
  rw [toWord_four] at h
  have hsecond := (Lies.append_iff.mp h).2
  rw [length_toWord] at hsecond
  exact numberAt_of_lies hsecond (by decide)

theorem lies_zero_iff {raw : List UInt8} : Lies head 0 raw ↔ raw <+: head := by rw [Lies, List.drop_zero]

/-! ### Bitmaps -/

/-- The probe reports a canvas. -/
def ReportsCanvas (contentType : String) (head : List UInt8) (width height : ℤ) : Prop :=
  ∃ p, probe contentType head = .ok p ∧ p.width = some width ∧ p.height = some height

/-- A BMP file with a `BITMAPINFOHEADER`: a size of 40, and a width and a height of 32 bits with a sign. The rows of a
picture with a negative height come from the top. -/
structure Bmp where
  head : List UInt8
  small : head.length < sliceLimit
  width : ℤ
  height : ℤ
  width_range : 0 < width ∧ width < 2 ^ 31
  height_range : height ≠ 0 ∧ -2 ^ 31 ≤ height ∧ height < 2 ^ 31
  signature : Lies head 0 (ascii "BM")
  size_lies : Lies head 14 (toWord true 4 40)
  width_lies : Lies head 18 (toWord true 4 width.toNat)
  height_lies : Lies head 22 (toWord true 4 (height % 2 ^ 32).toNat)

theorem probe_bmp (b : Bmp) : probe "image/bmp" b.head = .ok
    (dimensions (some (toI16 (b.width.toNat % 65536))) (some (toI16 (b.width.toNat / 65536 % 65536)).natAbs)) := by
  have hsignature := List.isPrefixOf_iff_prefix.mpr (lies_zero_iff.mp b.signature)
  have hin : 22 + 4 ≤ b.head.length := by
    have hle := b.height_lies.le_length (List.length_pos_iff.mp (by rw [length_toWord]; decide))
    rwa [length_toWord] at hle
  obtain ⟨width, hwidth, rfl⟩ := pairAt_yields b.small (show 18 + 2 ≤ b.head.length by omega) true
  obtain ⟨height, hheight, rfl⟩ := pairAt_yields b.small (show 20 + 2 ≤ b.head.length by omega) true
  have hprobe : probe "image/bmp" b.head = probeBmp b.head := rfl
  have hfirst : numberAt true 2 b.head 18 = b.width.toNat % 65536 := numberAt_first_half b.width_lies
  have hsecond : numberAt true 2 b.head 20 = b.width.toNat / 65536 % 65536 := numberAt_second_half b.width_lies
  rw [hprobe, probeBmp, if_neg (by simp [hsignature]; omega), hwidth, ok_bind, hheight, ok_bind, hfirst, hsecond]
  rfl

/-- **No canvas of a bitmap is reported.** -/
theorem not_reportsCanvas_bmp (b : Bmp) : ¬ ReportsCanvas "image/bmp" b.head b.width b.height.natAbs := by
  rintro ⟨p, hp, hreports⟩
  rw [probe_bmp] at hp
  cases hp
  obtain ⟨hwidth, hheight, -, hpos⟩ := dimensions_eq_some_iff.mp hreports
  have hrange := b.width_range
  -- A width that is read in 16 bits leaves nothing for the height.
  have hwidth := Option.some.inj hwidth
  have hheight := Option.some.inj hheight
  unfold toI16 at hwidth hheight
  split_ifs at hwidth <;> split_ifs at hheight <;> omega

/-! ### Directories of a TIFF file -/

/-- A field that is one number, of type SHORT or LONG. -/
def IsNumber (f : Field) (n : ℕ) : Prop := (f.kind = 3 ∨ f.kind = 4) ∧ f.count = 1 ∧ f.words = [n]

/-- A TIFF file in one of the byte orders: its first directory has the fields of the width and of the height next to
each other, as the tags of a directory ascend. -/
structure TiffFile where
  head : List UInt8
  small : head.length < sliceLimit
  little : Bool
  first : ℕ
  before : List Field
  widthField : Field
  heightField : Field
  after : List Field
  width : ℕ
  height : ℕ
  first_lt : first < 2 ^ 32
  header : Lies head 0 (ExifReader.header little first)
  directory : DirectoryAt (Field.LiesAt little head) little head first (before ++ widthField :: heightField :: after)
  before_lt : ∀ f ∈ before, f.tag < 256
  width_tag : widthField.tag = 256
  height_tag : heightField.tag = 257
  after_gt : ∀ f ∈ after, 257 < f.tag
  width_number : IsNumber widthField width
  height_number : IsNumber heightField height
  width_pos : 0 < width
  height_pos : 0 < height

variable {f : Field} {ifd left entry : ℕ} {found : Option ℤ × Option ℤ} {entries : List Field}

/-- What the reader takes of an entry: the tag, and the first half of the value. -/
theorem numbers_of_field (h : f.LiesAt little head entry) :
    numberAt little 2 head entry = f.tag ∧ (f.known = true → numberAt little 2 head (entry + 8) = f.half little) := by
  obtain ⟨hhead, hin, hslot⟩ := h
  constructor
  · rw [numberAt_of_lies (Lies.append_iff.mp hhead).1 (by decide)]
    exact Nat.mod_eq_of_lt f.tag_lt
  · intro hknown
    obtain ⟨rest, hrest⟩ := (hslot hknown).1
    have hlength : 2 ≤ (f.slot little).length := by
      rw [Field.slot]
      split_ifs with hshort
      · rw [List.length_append, List.length_replicate]
        omega
      · rw [length_toWord]
        decide
    rw [numberAt, if_pos (by omega), ← hrest, List.take_append_of_le_length hlength, Field.half]

/-- What a field writes into the canvas. -/
def canvasField (little : Bool) (found : Option ℤ × Option ℤ) (f : Field) : Option ℤ × Option ℤ :=
  tiffField f.tag (f.half little) found

theorem tiffField_other {tag : ℕ} (value : ℕ) (hwidth : tag ≠ 256) (hheight : tag ≠ 257) :
    tiffField tag value found = found := by
  rw [tiffField, if_neg hwidth, if_neg hheight]

/-- The fields of a directory are read one after the other. -/
theorem tiffEntries_of_fields (hsmall : head.length < sliceLimit) (hifd : ifd < 2 ^ 32) (hentries : entry + left ≤ 64)
    (hleft : left ≤ entries.length)
    (hlies : ExifReader.EntriesAt (Field.LiesAt little head) (entryAt ifd entry) entries)
    (hknown : ∀ f ∈ entries, f.tag = 256 ∨ f.tag = 257 → f.known = true) :
    tiffEntries little head ifd left entry found = .ok ((entries.take left).foldl (canvasField little) found) := by
  induction left generalizing entry entries found with
  | zero => rfl
  | succ left ih =>
    cases entries with
    | nil => cases hleft
    | cons f rest =>
      obtain ⟨hfield, hrest⟩ := hlies
      obtain ⟨htag, hvalue⟩ := numbers_of_field hfield
      have hin := hfield.2.1
      have hwrite : tiffField f.tag (numberAt little 2 head (entryAt ifd entry + 8)) found =
          canvasField little found f := by
        by_cases hread : f.tag = 256 ∨ f.tag = 257
        · rw [hvalue (hknown f List.mem_cons_self hread), canvasField]
        · rw [not_or] at hread
          rw [canvasField, tiffField_other _ hread.1 hread.2, tiffField_other _ hread.1 hread.2]
      rw [tiffEntries_succ hsmall hifd (by omega), if_neg (by omega), htag, hwrite, List.take_succ_cons,
        List.foldl_cons]
      have hnext : entryAt ifd entry + 12 = entryAt ifd (entry + 1) := by
        simp only [entryAt]
        omega
      rw [hnext] at hrest
      exact ih (by omega) (Nat.le_of_succ_le_succ hleft) hrest fun f hf => hknown f (List.mem_cons_of_mem _ hf)

theorem foldl_canvas_other (h : ∀ f ∈ entries, f.tag ≠ 256 ∧ f.tag ≠ 257) :
    entries.foldl (canvasField little) found = found := by
  induction entries with
  | nil => rfl
  | cons f rest ih =>
    rw [List.forall_mem_cons] at h
    rw [List.foldl_cons, canvasField, tiffField_other _ h.1.1 h.1.2, ih h.2]

theorem foldl_canvas_height (h : ∀ f ∈ entries, f.tag ≠ 257) :
    (entries.foldl (canvasField little) found).2 = found.2 := by
  induction entries generalizing found with
  | nil => rfl
  | cons f rest ih =>
    rw [List.forall_mem_cons] at h
    rw [List.foldl_cons, ih h.2, canvasField, tiffField]
    split_ifs with hwidth hheight
    · rfl
    · exact absurd hheight h.1
    · rfl

/-- The number of a field, when it is in the two bytes that are read. -/
def IsLegible (little : Bool) (f : Field) (n : ℕ) : Prop := f.kind = 3 ∨ little = true ∧ n < 65536

theorem known_of_isNumber (h : IsNumber f n) : f.known = true := by
  rw [Field.known]
  rcases h.1 with hkind | hkind <;> rw [hkind] <;> rfl

/-- A positive number is read when it is legible. -/
theorem half_eq_iff (h : IsNumber f n) (hpos : 0 < n) : f.half little = n ↔ IsLegible little f n := by
  obtain ⟨hkind, hcount, hwords⟩ := h
  have hlt := f.words_lt n (hwords ▸ List.mem_singleton_self n)
  rcases hkind with hkind | hkind
  · have hn : n < 256 ^ 2 := by
      rw [hkind] at hlt
      exact hlt
    have hslot : (f.slot little).take 2 = toWord little 2 n := by
      simp [Field.slot, Field.bytes, hwords, hkind, ExifReader.wordWidth]
    rw [Field.half, hslot, fromBytes_toWord little hn]
    exact iff_of_true rfl (.inl hkind)
  · have hslot : (f.slot little).take 2 = toWord little 2 (if little then n else n / 65536) := by
      have hbytes : f.slot little = toWord little 4 n := by
        simp [Field.slot, Field.bytes, hwords, hkind, ExifReader.wordWidth]
      rw [hbytes, toWord_four]
      simp
    have hread : fromBytes little (toWord little 2 (if little then n else n / 65536)) =
        (if little then n else n / 65536) % 65536 := by
      cases little <;> simp [fromBytes, toWord, Bytes.ofBe_toBe_mod]
    have hn : n < 256 ^ 4 := by
      rw [hkind] at hlt
      exact hlt
    rw [Field.half, hslot, hread, IsLegible, hkind]
    cases little with
    | true => simp
    | false => simp; omega

/-- The fields of the first directory. -/
def TiffFile.fields (t : TiffFile) : List Field := t.before ++ t.widthField :: t.heightField :: t.after

/-- What the reader makes of the fields. -/
def TiffFile.canvas (t : TiffFile) : Option ℤ × Option ℤ :=
  (t.fields.take (min t.fields.length 64)).foldl (canvasField t.little) (none, none)

theorem TiffFile.known (t : TiffFile) : ∀ f ∈ t.fields, f.tag = 256 ∨ f.tag = 257 → f.known = true := by
  intro f hf hread
  rw [fields, List.mem_append, List.mem_cons, List.mem_cons] at hf
  rcases hf with hf | rfl | rfl | hf
  · have hlt := t.before_lt f hf
    omega
  · exact known_of_isNumber t.width_number
  · exact known_of_isNumber t.height_number
  · have hgt := t.after_gt f hf
    omega

theorem tiffIn_of_file (t : TiffFile) : tiffIn t.little t.head = .ok (dimensions t.canvas.1 t.canvas.2) := by
  obtain ⟨hcount, hnumber, hentries⟩ := t.directory
  have hplace : Lies t.head 4 (toWord t.little 4 t.first) := by
    have hrest := (Lies.append_iff.mp t.header).2
    have hplace := (Lies.append_iff.mp hrest).2
    rw [length_toWord] at hplace
    cases hlittle : t.little with
    | true => simpa [hlittle] using hplace
    | false => simpa [hlittle] using hplace
  have hin := hplace.le_length (List.length_pos_iff.mp (by rw [length_toWord]; decide))
  have hstart := hnumber.le_length (List.length_pos_iff.mp (by rw [length_toWord]; decide))
  rw [length_toWord] at hin hstart
  have hfirst : numberAt t.little 4 t.head 4 = t.first := by
    rw [numberAt_of_lies hplace (by decide)]
    exact Nat.mod_eq_of_lt t.first_lt
  have hlength : numberAt t.little 2 t.head t.first = t.fields.length := by
    rw [numberAt_of_lies hnumber (by decide)]
    exact Nat.mod_eq_of_lt hcount
  obtain ⟨ifd, hifd, rfl⟩ := readU32_yields t.small (show 4 ≤ t.head.length + 2 ^ 34 by omega) t.little
  obtain ⟨entries, hentriesRead, rfl⟩ :=
    readU16_yields t.small (show t.first ≤ t.head.length + 2 ^ 34 by omega) t.little
  rw [if_pos hin, hfirst] at hifd
  rw [if_pos hstart, hlength] at hentriesRead
  have hread : tiffEntries t.little t.head t.first (min t.fields.length 64) 0 (none, none) = .ok t.canvas :=
    tiffEntries_of_fields t.small t.first_lt (by omega) (Nat.min_le_left ..)
      (by rwa [show entryAt t.first 0 = t.first + 2 from rfl]) t.known
  rw [tiffIn, if_neg (by omega), hifd, ok_bind]
  dsimp only
  rw [add_eq_of_le t.small (by omega), ok_bind, if_neg (by omega), hentriesRead, ok_bind, Option.getD_some, hread]
  rfl

theorem probe_tiff (t : TiffFile) : probe "image/tiff" t.head = .ok (dimensions t.canvas.1 t.canvas.2) := by
  have hprobe : probe "image/tiff" t.head = probeTiff t.head := rfl
  have horder : range t.head 0 2 = some (if t.little then [0x49, 0x49] else [0x4d, 0x4d]) := by
    have horder := range_of_lies (Lies.append_iff.mp t.header).1 (Nat.zero_le _)
    cases hlittle : t.little with
    | true => simpa [hlittle] using horder
    | false => simpa [hlittle] using horder
  rw [hprobe, probeTiff, horder, ← tiffIn_of_file t]
  cases t.little with
  | true => rfl
  | false => rfl

theorem TiffFile.canvas_of_few (t : TiffFile) (hfew : t.before.length + 2 ≤ 64) : t.canvas =
    (some ((t.widthField.half t.little : ℕ) : ℤ), some ((t.heightField.half t.little : ℕ) : ℤ)) := by
  obtain ⟨k, hk⟩ : ∃ k, min t.fields.length 64 = t.before.length + (k + 2) := by
    have hlength : t.fields.length = t.before.length + (t.after.length + 2) := by
      rw [fields, List.length_append, List.length_cons, List.length_cons]
    exact ⟨min t.fields.length 64 - t.before.length - 2, by omega⟩
  have hbefore : ∀ f ∈ t.before, f.tag ≠ 256 ∧ f.tag ≠ 257 := by
    intro f hf
    have hlt := t.before_lt f hf
    omega
  have hafter : ∀ f ∈ t.after.take k, f.tag ≠ 256 ∧ f.tag ≠ 257 := by
    intro f hf
    have hgt := t.after_gt f (List.mem_of_mem_take hf)
    omega
  rw [canvas, hk, fields, List.take_length_add_append, List.take_succ_cons, List.take_succ_cons, List.foldl_append,
    foldl_canvas_other hbefore, List.foldl_cons, List.foldl_cons, foldl_canvas_other hafter, canvasField, canvasField,
    t.width_tag, t.height_tag]
  rfl

theorem TiffFile.canvas_of_many (t : TiffFile) (hmany : ¬ t.before.length + 2 ≤ 64) : t.canvas.2 = none := by
  have hfields : t.fields = (t.before ++ [t.widthField]) ++ t.heightField :: t.after := by
    rw [fields, List.append_assoc]
    rfl
  refine foldl_canvas_height fun f hf => ?_
  rw [hfields, List.take_append_of_le_length (by simp; omega)] at hf
  rcases List.mem_append.mp (List.mem_of_mem_take hf) with hf | hf
  · have hlt := t.before_lt f hf
    omega
  · rw [List.mem_singleton.mp hf, t.width_tag]
    decide

/-- **The canvas of a TIFF file is reported** when its fields are among the first 64, and are legible. -/
theorem reportsCanvas_tiff_iff (t : TiffFile) : ReportsCanvas "image/tiff" t.head t.width t.height ↔
    t.before.length + 2 ≤ 64 ∧ IsLegible t.little t.widthField t.width ∧ IsLegible t.little t.heightField t.height := by
  have hwidth : (0 : ℤ) < t.width := by exact_mod_cast t.width_pos
  have hheight : (0 : ℤ) < t.height := by exact_mod_cast t.height_pos
  rw [← half_eq_iff t.width_number t.width_pos, ← half_eq_iff t.height_number t.height_pos]
  have hreports : ReportsCanvas "image/tiff" t.head t.width t.height ↔
      t.canvas.1 = some (t.width : ℤ) ∧ t.canvas.2 = some (t.height : ℤ) := by
    rw [ReportsCanvas, probe_tiff]
    constructor
    · rintro ⟨p, hp, hreports⟩
      cases hp
      obtain ⟨hw, hh, -, -⟩ := dimensions_eq_some_iff.mp hreports
      exact ⟨hw, hh⟩
    · rintro ⟨hw, hh⟩
      exact ⟨_, rfl, dimensions_eq_some_iff.mpr ⟨hw, hh, hwidth, hheight⟩⟩
  rw [hreports]
  by_cases hfew : t.before.length + 2 ≤ 64
  · rw [t.canvas_of_few hfew, and_iff_right hfew, Option.some.injEq, Option.some.injEq]
    omega
  · rw [t.canvas_of_many hfew]
    simp [hfew]

/-! ### Boxes of a film -/

/-- The probe reports a playing time. -/
def ReportsDuration (contentType : String) (head : List UInt8) (millis : ℤ) : Prop :=
  ∃ p, probe contentType head = .ok p ∧ p.durationMs = some millis

/-- An MP4 or QuickTime file without a box that is too wide. -/
structure Film where
  head : List UInt8
  small : head.length < sliceLimit
  contentType : String
  is_film : contentType = "video/mp4" ∨ contentType = "video/quicktime"
  fits : ¬ WideBox head

/-- A box with some letters and some body is among those that lie in a film. -/
def Film.Has (film : Film) (kind body : List UInt8) : Prop :=
  ∃ depth stop offset size header, BoxAt film.head depth stop offset ∧ IsBox film.head stop offset size header ∧
    kindAt film.head offset = kind ∧ bodyAt film.head stop offset size header = body

/-- Bytes of a time, in a header of version 0 or 1. -/
def timeBytes (wide : Bool) : ℕ := if wide then 8 else 4

/-- A header box has a version. -/
def HasVersion (wide : Bool) (body : List UInt8) : Prop := body[0]? = some (if wide then 1 else 0)

/-- A film with its movie header: the version, the time of its creation, that of its modification, the ticks of a second
and the duration in ticks. -/
structure MovieHeader extends Film where
  body : List UInt8
  wide : Bool
  modification : ℕ
  timescale : ℕ
  duration : ℕ
  has : toFilm.Has (ascii "mvhd") body
  only : ∀ other, toFilm.Has (ascii "mvhd") other → other = body
  length : body.length = 88 + 3 * timeBytes wide
  version : HasVersion wide body
  times : Lies body (4 + timeBytes wide) (toWord false (timeBytes wide) modification ++
    (toWord false 4 timescale ++ toWord false (timeBytes wide) duration))
  modification_lt : modification < 256 ^ timeBytes wide
  timescale_lt : timescale < 256 ^ 4
  duration_lt : duration < 256 ^ timeBytes wide
  timescale_pos : 0 < timescale
  duration_pos : 0 < duration

/-- A track header ends behind the canvas. -/
def IsTrackHeader (wide : Bool) (body : List UInt8) : Prop :=
  HasVersion wide body ∧ body.length = 72 + 3 * timeBytes wide

/-- A film with a track that has a canvas, in points and their 65536ths. -/
structure TrackHeader extends Film where
  body : List UInt8
  wide : Bool
  width : ℕ
  height : ℕ
  part : ℕ
  part' : ℕ
  has : toFilm.Has (ascii "tkhd") body
  all : ∀ other, toFilm.Has (ascii "tkhd") other → ∃ wide, IsTrackHeader wide other
  version : HasVersion wide body
  canvas : Lies body (64 + 3 * timeBytes wide)
    (toWord false 4 (width * 65536 + part) ++ toWord false 4 (height * 65536 + part'))
  width_pos : 0 < width
  height_pos : 0 < height

variable {p : MediaProbe}

theorem Film.probe_eq (film : Film) : probe film.contentType film.head = probeMp4 (film.head.length + 1) film.head := by
  rw [probe]
  rcases film.is_film with hfilm | hfilm <;> rw [hfilm] <;> rfl

theorem Film.keeps (film : Film) {keeps : MediaProbe → Prop} (hempty : keeps {}) (hkept : Kept film.head keeps)
    (hp : probe film.contentType film.head = .ok p) : keeps p := by
  rw [film.probe_eq, probeMp4, walkMp4_succ (by decide)] at hp
  exact boxLoop_keeps film.small hkept .start hempty hp

theorem length_bodyAt_lt (film : Film) (stop offset size header : ℕ) :
    (bodyAt film.head stop offset size header).length < sliceLimit := by
  have hsmall := film.small
  rw [bodyAt, List.length_take, List.length_drop]
  omega

theorem visit_durationMs {kind body : List UInt8} {found read : MediaProbe} (hsmall : body.length < sliceLimit)
    (h : visit found kind body = .ok read) : read.durationMs =
      if kind = ascii "mvhd" then ((movieMillis body).map Nat.cast).or found.durationMs else found.durationMs := by
  rw [visit] at h
  split_ifs at h with hmvhd htkhd
  · rw [mvhd_eq hsmall] at h
    rw [if_pos hmvhd, ← Except.ok.inj h]
  · obtain ⟨q, hq, -, hduration⟩ := tkhd_yields hsmall found
    rw [if_neg hmvhd, ← hduration, ← Except.ok.inj (hq.symm.trans h)]
  · rw [if_neg hmvhd, Except.ok.inj h]

/-- **The one movie header of a film is what is reported of its playing time.** -/
theorem MovieHeader.durationMs_eq (m : MovieHeader) (hp : probe m.contentType m.head = .ok p) :
    p.durationMs = (movieMillis m.body).map Nat.cast := by
  have hkept : Kept m.head fun p => p.durationMs = (movieMillis m.body).map Nat.cast := by
    intro depth stop offset size header hat hbox found read hfound hread
    rw [visit_durationMs (length_bodyAt_lt m.toFilm ..) hread]
    split_ifs with hkind
    · rw [m.only _ ⟨depth, stop, offset, size, header, hat, hbox, hkind, rfl⟩, hfound, Option.or_self]
    · exact hfound
  cases hmillis : movieMillis m.body with
  | none =>
    rw [hmillis] at hkept
    have hempty : ({} : MediaProbe).durationMs = (none : Option ℕ).map Nat.cast := rfl
    exact m.toFilm.keeps hempty hkept hp
  | some millis =>
    obtain ⟨depth, stop, offset, size, header, hat, hbox, hkind, hbody⟩ := m.has
    rw [m.toFilm.probe_eq] at hp
    obtain ⟨-, left, found, q, hloop, hkeeps⟩ := hat.loops m.small hp
    refine hmillis ▸ hkeeps _ hkept ?_
    -- The box is read, and the rest of its part of the file keeps what it says.
    obtain ⟨r, hr⟩ := turn_of_loop hloop
    obtain ⟨read, walked, hread, hwalked, -, rfl⟩ := mp4Turn_eq_ok m.small hbox hr
    obtain ⟨left, hloop⟩ := loop_of_turn hr hloop
    have hsays : read.durationMs = (movieMillis m.body).map Nat.cast := by
      rw [visit_durationMs (length_bodyAt_lt m.toFilm ..) hread, if_pos hkind, hbody, hmillis]
      rfl
    have hsame : read = walked := by
      rw [hkind, enter, if_neg (by decide)] at hwalked
      exact Except.ok.inj hwalked
    exact boxLoop_keeps m.small hkept (hat.next hbox) (hsame ▸ hsays) hloop

theorem toWord_eight (n : ℕ) : toWord false 8 n = toWord false 4 (n / 2 ^ 32) ++ toWord false 4 n := by
  simp [toWord, Bytes.toBe_add 4 4 n]

/-- Of a header of version 0 the ticks are read where they are. -/
theorem movieMillis_narrow (m : MovieHeader) (hwide : m.wide = false) :
    movieMillis m.body = some (min (m.duration * 1000 / m.timescale) LONGEST_MS) := by
  have hlength := m.length
  have hversion := m.version
  have htimes := m.times
  have hlt := m.duration_lt
  have hscale := m.timescale_lt
  rw [hwide] at hlength htimes hlt
  rw [HasVersion, hwide] at hversion
  simp only [timeBytes, Bool.false_eq_true, if_false] at hlength htimes hlt hversion
  obtain ⟨hmodification, htimes⟩ := Lies.append_iff.mp htimes
  obtain ⟨htimescale, hduration⟩ := Lies.append_iff.mp htimes
  simp only [length_toWord] at htimescale hduration
  have htimescale : numberAt false 4 m.body 12 = m.timescale :=
    (numberAt_of_lies htimescale (by decide)).trans (Nat.mod_eq_of_lt hscale)
  have hduration : numberAt false 4 m.body 16 = m.duration :=
    (numberAt_of_lies hduration (by decide)).trans (Nat.mod_eq_of_lt hlt)
  have hfits : saturatingMul m.duration 1000 = m.duration * 1000 := by
    simp only [saturatingMul, wordMax]
    omega
  have hnarrow : m.body[0]? ≠ some 1 := by
    rw [hversion]
    decide
  simp only [movieMillis, hnarrow, htimescale, hduration, hfits, false_and, or_false, if_false]
  rw [if_neg (by omega), if_pos ⟨m.timescale_pos, m.duration_pos⟩]

/-- Of one of version 1 the upper half of the time of modification is taken for the ticks of a second, and its lower
half with the ticks of a second for the duration. -/
theorem movieMillis_wide (m : MovieHeader) (hwide : m.wide = true) : movieMillis m.body =
    if 0 < m.modification / 2 ^ 32 then
      some (min (saturatingMul (m.modification % 2 ^ 32 * 2 ^ 32 + m.timescale) 1000 / (m.modification / 2 ^ 32))
        LONGEST_MS)
    else none := by
  have hlength := m.length
  have hversion := m.version
  have htimes := m.times
  have hlt := m.modification_lt
  have hscale := m.timescale_lt
  rw [hwide] at hlength htimes hlt
  rw [HasVersion, hwide] at hversion
  simp only [timeBytes, if_true] at hlength htimes hlt hversion
  obtain ⟨hmodification, htimes⟩ := Lies.append_iff.mp htimes
  have htimescale := (Lies.append_iff.mp htimes).1
  rw [toWord_eight] at hmodification
  obtain ⟨hhigh, hlow⟩ := Lies.append_iff.mp hmodification
  simp only [length_toWord] at htimescale hlow
  have hhigh : numberAt false 4 m.body 12 = m.modification / 2 ^ 32 :=
    (numberAt_of_lies hhigh (by decide)).trans (Nat.mod_eq_of_lt (by omega))
  have hlow : numberAt false 4 m.body 16 = m.modification % 2 ^ 32 := numberAt_of_lies hlow (by decide)
  have htimescale : numberAt false 4 m.body 20 = m.timescale :=
    (numberAt_of_lies htimescale (by decide)).trans (Nat.mod_eq_of_lt hscale)
  have hpos := m.timescale_pos
  simp only [movieMillis, hversion, hhigh, hlow, htimescale, true_and, if_true]
  rw [if_neg (by omega)]
  refine if_congr ⟨And.left, fun h => ⟨h, by omega⟩⟩ ?_ rfl
  rfl

/-- The playing time of a film is the one its header says: with version 0 when it is no longer than the longest one that
is reported, and with version 1 only when the time of modification happens to make up for the places that are read. -/
def MovieHeader.IsLegible (m : MovieHeader) : Prop :=
  if m.wide then 0 < m.modification / 2 ^ 32 ∧
    min (saturatingMul (m.modification % 2 ^ 32 * 2 ^ 32 + m.timescale) 1000 / (m.modification / 2 ^ 32)) LONGEST_MS =
      m.duration * 1000 / m.timescale
  else m.duration * 1000 / m.timescale ≤ LONGEST_MS

theorem reportsDuration_movie_iff (m : MovieHeader) :
    ReportsDuration m.contentType m.head (m.duration * 1000 / m.timescale : ℕ) ↔ m.IsLegible := by
  have hreports : ReportsDuration m.contentType m.head (m.duration * 1000 / m.timescale : ℕ) ↔
      movieMillis m.body = some (m.duration * 1000 / m.timescale) := by
    obtain ⟨q, -, hq⟩ := probeMp4_settles m.small m.fits
    have hprobe : probe m.contentType m.head = .ok q := by
      rw [m.toFilm.probe_eq]
      exact hq _ (Nat.lt_succ_self _)
    have hcast : Function.Injective fun n : ℕ => (n : ℤ) := fun a b hab => Int.ofNat.inj hab
    constructor
    · rintro ⟨p, hp, hduration⟩
      rw [m.durationMs_eq hp] at hduration
      exact Option.map_injective hcast hduration
    · intro hmillis
      exact ⟨q, hprobe, by rw [m.durationMs_eq hprobe, hmillis]; rfl⟩
  rw [hreports, MovieHeader.IsLegible]
  cases hwide : m.wide with
  | false =>
    rw [movieMillis_narrow m hwide, if_neg (by decide), Option.some.injEq]
    omega
  | true =>
    rw [movieMillis_wide m hwide, if_pos rfl]
    split_ifs with hhigh
    · rw [Option.some.injEq, and_iff_right hhigh]
    · exact iff_of_false (fun hnone => nomatch hnone) fun h => hhigh h.1

theorem visit_of_isTrackHeader {body : List UInt8} {found : MediaProbe} {wide : Bool}
    (hsmall : body.length < sliceLimit) (h : IsTrackHeader wide body) :
    visit found (ascii "tkhd") body = .ok found := by
  have hshort : tkhd found body = .ok found := by
    refine tkhd_short hsmall ?_
    obtain ⟨hversion, hlength⟩ := h
    rw [hlength, hversion]
    cases wide with
    | true => decide
    | false => decide
  rw [visit, if_neg (by decide)]
  split_ifs
  · exact hshort
  · rfl

/-- **No canvas of a track is reported.** -/
theorem not_reportsCanvas_track (t : TrackHeader) : ¬ ReportsCanvas t.contentType t.head t.width t.height := by
  rintro ⟨p, hp, hwidth, -⟩
  have hkept : Kept t.head fun p => p.width = none := by
    intro depth stop offset size header hat hbox found read hfound hread
    have hlt := length_bodyAt_lt t.toFilm stop offset size header
    by_cases hkind : kindAt t.head offset = ascii "tkhd"
    · obtain ⟨wide, hheader⟩ := t.all _ ⟨depth, stop, offset, size, header, hat, hbox, hkind, rfl⟩
      rw [hkind, visit_of_isTrackHeader hlt hheader] at hread
      exact Except.ok.inj hread ▸ hfound
    · rw [visit] at hread
      split_ifs at hread with hmvhd hother
      · rw [mvhd_eq hlt] at hread
        rw [← Except.ok.inj hread]
        exact hfound
      · exact absurd hother.1 hkind
      · exact Except.ok.inj hread ▸ hfound
  have hempty : ({} : MediaProbe).width = none := rfl
  rw [t.toFilm.keeps hempty hkept hp] at hwidth
  cases hwidth

/-! ### Elements of a stream -/

/-- Bytes of a number of variable length at an offset, when it is there. -/
def vintLengthAt (bytes : List UInt8) (offset : ℕ) : Option ℕ :=
  bytes[offset]?.bind fun first =>
    if first = 0 ∨ bytes.length < offset + vintLength first then none else some (vintLength first)

/-- An element: its id, where its body begins, and where that ends within the file. A size of ones is unknown. -/
def elementAt (bytes : List UInt8) (offset : ℕ) : Option (ℕ × ℕ × ℕ) :=
  (vintLengthAt bytes offset).bind fun idLength =>
    (vintLengthAt bytes (offset + idLength)).map fun sizeLength =>
      let start := offset + idLength + sizeLength
      let size := numberAt false sizeLength bytes (offset + idLength) % 2 ^ (7 * sizeLength)
      (numberAt false idLength bytes offset % 2 ^ 32, start,
        if size = 2 ^ (7 * sizeLength) - 1 then bytes.length else min (start + size) bytes.length)

/-- The elements from an offset on, so many at most, with their bodies; behind a master come those in it. -/
def elements (bytes : List UInt8) : (count offset : ℕ) → List (ℕ × List UInt8)
  | 0, _ => []
  | count + 1, offset =>
    match elementAt bytes offset with
    | none => []
    | some (id, start, stop) =>
      (id, (bytes.drop start).take (stop - start)) :: elements bytes count (if id ∈ MASTERS then start else stop)

theorem vintAt_eq (hsmall : bytes.length < sliceLimit) (offset : ℕ) :
    vintAt bytes offset = .ok (vintLengthAt bytes offset) := by
  rw [vintAt, vintLengthAt]
  cases hfirst : bytes[offset]? with
  | none => rfl
  | some first =>
    have hin := (List.getElem?_eq_some_iff.mp hfirst).1
    rw [Option.bind_some]
    dsimp only
    by_cases hzero : first = 0
    · rw [if_pos hzero, if_pos (.inl hzero)]
      rfl
    · have hlength := vintLength_le hzero
      rw [if_neg hzero, add_eq_of_le hsmall (by omega), ok_bind]
      by_cases hout : bytes.length < offset + vintLength first
      · rw [if_pos hout, if_pos (.inr hout)]
        rfl
      · rw [if_neg hout, if_neg (not_or.mpr ⟨hzero, hout⟩)]
        rfl

theorem vintLengthAt_bounds {length : ℕ} (h : vintLengthAt bytes offset = some length) :
    0 < length ∧ length ≤ 8 ∧ offset + length ≤ bytes.length := by
  obtain ⟨first, -, hif⟩ := Option.bind_eq_some_iff.mp h
  split_ifs at hif with hbad
  rw [not_or] at hbad
  cases hif
  have hlength := vintLength_le hbad.1
  omega

theorem vint_eq (hsmall : bytes.length < sliceLimit) {length : ℕ} (h : vintLengthAt bytes offset = some length)
    (bits : ℕ) : vint bits bytes offset length = .ok (numberAt false length bytes offset % 2 ^ bits) := by
  have hin := (vintLengthAt_bounds h).2.2
  obtain ⟨value, hvalue, rfl⟩ := vint_yields hsmall hin bits
  rw [hvalue, numberAt, if_pos hin]
  rfl

theorem readEbmlId_eq (hsmall : bytes.length < sliceLimit) (offset : ℕ) : readEbmlId bytes offset =
    .ok ((vintLengthAt bytes offset).map fun length =>
      (numberAt false length bytes offset % 2 ^ 32, offset + length)) := by
  rw [readEbmlId, vintAt_eq hsmall, ok_bind]
  cases hlength : vintLengthAt bytes offset with
  | none => rfl
  | some length =>
    have hbounds := vintLengthAt_bounds hlength
    dsimp only
    rw [vint_eq hsmall hlength, ok_bind, add_eq_of_le hsmall (by omega)]
    rfl

theorem readEbmlSize_eq (hsmall : bytes.length < sliceLimit) (offset : ℕ) : readEbmlSize bytes offset =
    .ok ((vintLengthAt bytes offset).map fun length =>
      (if numberAt false length bytes offset % 2 ^ (7 * length) = 2 ^ (7 * length) - 1 then
        bytes.length - (offset + length)
      else numberAt false length bytes offset % 2 ^ (7 * length), offset + length)) := by
  rw [readEbmlSize, vintAt_eq hsmall, ok_bind]
  cases hlength : vintLengthAt bytes offset with
  | none => rfl
  | some length =>
    have hbounds := vintLengthAt_bounds hlength
    have hvalue : numberAt false length bytes offset % 2 ^ 64 = numberAt false length bytes offset := by
      refine Nat.mod_eq_of_lt ((numberAt_lt false length bytes offset).trans_le ?_)
      exact (Nat.pow_le_pow_right (by decide) hbounds.2.1).trans (by decide)
    dsimp only
    rw [vint_eq hsmall hlength, ok_bind, add_eq_of_le hsmall (by omega), ok_bind, hvalue, Option.map_some]
    split_ifs
    · rfl
    · rfl

theorem elementAt_eq {idLength sizeLength : ℕ} (hid : vintLengthAt bytes offset = some idLength)
    (hsize : vintLengthAt bytes (offset + idLength) = some sizeLength) : elementAt bytes offset =
      some (numberAt false idLength bytes offset % 2 ^ 32, offset + idLength + sizeLength,
        if numberAt false sizeLength bytes (offset + idLength) % 2 ^ (7 * sizeLength) = 2 ^ (7 * sizeLength) - 1 then
          bytes.length
        else min (offset + idLength + sizeLength + numberAt false sizeLength bytes (offset + idLength) %
          2 ^ (7 * sizeLength)) bytes.length) := by
  rw [elementAt, hid, Option.bind_some, hsize]
  rfl

theorem element_master {found : MediaProbe} {id : ℕ} (h : id ∈ MASTERS) (body : List UInt8) :
    element found id body = found := by
  have hother : id ≠ 0x4489 ∧ id ≠ 0xb0 ∧ id ≠ 0xba := by
    simp only [MASTERS, List.mem_cons, List.not_mem_nil, or_false] at h
    omega
  rw [element, if_neg hother.1, if_neg hother.2.1, if_neg hother.2.2]

/-- **The walk reads the elements** one after the other. -/
theorem webmElements_eq (hsmall : head.length < sliceLimit) (count offset : ℕ) (found : MediaProbe) :
    webmElements head count offset found =
      .ok ((elements head count offset).foldl (fun found e => element found e.1 e.2) found) := by
  induction count generalizing offset found with
  | zero => rfl
  | succ count ih =>
    rw [webmElements, elements]
    by_cases hin : offset < head.length
    · rw [if_pos hin, readEbmlId_eq hsmall, ok_bind]
      cases hid : vintLengthAt head offset with
      | none =>
        rw [elementAt, hid]
        rfl
      | some idLength =>
        rw [Option.map_some]
        dsimp only
        rw [readEbmlSize_eq hsmall, ok_bind]
        cases hsize : vintLengthAt head (offset + idLength) with
        | none =>
          rw [elementAt, hid, Option.bind_some, hsize]
          rfl
        | some sizeLength =>
          have hbounds := vintLengthAt_bounds hsize
          rw [elementAt_eq hid hsize, Option.map_some]
          dsimp only
          generalize numberAt false sizeLength head (offset + idLength) % 2 ^ (7 * sizeLength) = size
          generalize hstop : (if size = 2 ^ (7 * sizeLength) - 1 then head.length
            else min (offset + idLength + sizeLength + size) head.length) = stop
          have hend : min (saturatingAdd (offset + idLength + sizeLength) (if size = 2 ^ (7 * sizeLength) - 1 then
              head.length - (offset + idLength + sizeLength) else size)) head.length = stop := by
            rw [← hstop]
            simp only [saturatingAdd, sliceLimit, wordMax] at *
            split_ifs <;> omega
          have hle : offset + idLength + sizeLength ≤ stop ∧ stop ≤ head.length := by
            rw [← hstop]
            split_ifs <;> omega
          obtain ⟨body, hbody, rfl⟩ := slice_yields hle.1 hle.2
          rw [hend, if_neg (not_lt.mpr hle.1), hbody, ok_bind, List.foldl_cons]
          split_ifs with hmaster
          · rw [ih, element_master hmaster]
          · rw [ih]
    · have hnone : elementAt head offset = none := by
        rw [elementAt, vintLengthAt, List.getElem?_eq_none (not_lt.mp hin)]
        rfl
      rw [if_neg hin, hnone]
      rfl

/-- The number of the last element with an id, of those that the walk comes to. -/
def lastNumber (head : List UInt8) (id : ℕ) : Option ℕ :=
  ((elements head 512 0).findRev? fun e => e.1 = id).bind fun e => readEbmlInt e.2

/-- The last width and the last height are positive as numbers of 32 bits with a sign, or are both absent. -/
def PairsNumbers (head : List UInt8) : Prop :=
  lastNumber head 0xb0 = none ∧ lastNumber head 0xba = none ∨
    ∃ w h, lastNumber head 0xb0 = some w ∧ lastNumber head 0xba = some h ∧ 0 < asI32 w ∧ 0 < asI32 h

theorem element_width (found : MediaProbe) (id : ℕ) (body : List UInt8) : (element found id body).width =
    if decide (id = 0xb0) then (readEbmlInt body).map asI32 else found.width := by
  simp only [element, decide_eq_true_eq]
  split_ifs <;> first | rfl | omega

theorem element_height (found : MediaProbe) (id : ℕ) (body : List UInt8) : (element found id body).height =
    if decide (id = 0xba) then (readEbmlInt body).map asI32 else found.height := by
  simp only [element, decide_eq_true_eq]
  split_ifs <;> first | rfl | omega

theorem canvas_of_webm (hsmall : head.length < sliceLimit) (hsignature : [0x1a, 0x45, 0xdf, 0xa3] <+: head)
    (hp : probe "video/webm" head = .ok p) :
    p.width = (lastNumber head 0xb0).map asI32 ∧ p.height = (lastNumber head 0xba).map asI32 := by
  have hprobe : probe "video/webm" head = probeWebm head := rfl
  rw [hprobe, probeWebm, if_pos (List.isPrefixOf_iff_prefix.mpr hsignature), webmElements_eq hsmall] at hp
  have hcanvas : ∀ (get : MediaProbe → Option ℤ) (id : ℕ), get {} = none →
      (∀ found (e : ℕ × List UInt8), get (element found e.1 e.2) =
        if decide (e.1 = id) then (readEbmlInt e.2).map asI32 else get found) →
      get p = (lastNumber head id).map asI32 := by
    intro get id hempty hwrite
    rw [← Except.ok.inj hp, Selection.get_foldl get hwrite, hempty, lastNumber]
    cases (elements head 512 0).findRev? fun e => decide (e.1 = id) with
    | none => rfl
    | some e => rfl
  exact ⟨hcanvas _ 0xb0 rfl fun found e => element_width found e.1 e.2,
    hcanvas _ 0xba rfl fun found e => element_height found e.1 e.2⟩

theorem isPaired_webm_iff (hsmall : head.length < sliceLimit) (hsignature : [0x1a, 0x45, 0xdf, 0xa3] <+: head)
    (hp : probe "video/webm" head = .ok p) : p.IsPaired ↔ PairsNumbers head := by
  obtain ⟨hwidth, hheight⟩ := canvas_of_webm hsmall hsignature hp
  rw [MediaProbe.IsPaired, hwidth, hheight, PairsNumbers, Option.map_eq_none_iff, Option.map_eq_none_iff]
  refine or_congr_right ⟨?_, ?_⟩
  · rintro ⟨_, _, hw, hh, hpos⟩
    obtain ⟨w, hlastW, rfl⟩ := Option.map_eq_some_iff.mp hw
    obtain ⟨h, hlastH, rfl⟩ := Option.map_eq_some_iff.mp hh
    exact ⟨w, h, hlastW, hlastH, hpos⟩
  · rintro ⟨w, h, hw, hh, hpos⟩
    exact ⟨asI32 w, asI32 h, by rw [hw]; rfl, by rw [hh]; rfl, hpos⟩

/-! ### Files of elements -/

/-- An element as the format has it: an id and the number of its bytes, the number of bytes of the size, and the data or
the elements within. The size of a master may be unknown. -/
inductive Ebml where
  | data (id idLength sizeLength : ℕ) (body : List UInt8)
  | master (id idLength sizeLength : ℕ) (known : Bool) (within : List Ebml)

namespace Ebml

/-- A number in so many bytes, marked by the bit in front of it. -/
def IsVint (length n : ℕ) : Prop := 1 ≤ length ∧ length ≤ 8 ∧ 2 ^ (7 * length) ≤ n ∧ n < 2 ^ (7 * length + 1)

/-- The id, the size and the body. -/
def frame (id idLength sizeLength size : ℕ) (body : List UInt8) : List UInt8 :=
  Bytes.toBe idLength id ++ (Bytes.toBe sizeLength (2 ^ (7 * sizeLength) + size) ++ body)

mutual

/-- The bytes of an element. A size of ones is unknown. -/
def encode : Ebml → List UInt8
  | data id idLength sizeLength body => frame id idLength sizeLength body.length body
  | master id idLength sizeLength known within =>
    frame id idLength sizeLength (if known then (encodeAll within).length else 2 ^ (7 * sizeLength) - 1)
      (encodeAll within)

/-- The bytes of elements, one behind the other. -/
def encodeAll : List Ebml → List UInt8
  | [] => []
  | e :: rest => encode e ++ encodeAll rest

end

/-- The masters on the way to a canvas: the segment, its tracks, the entry of a track, and its video; and that of the
playing time. -/
def canvasMasters : List ℕ := [0x18538067, 0x1654ae6b, 0xae, 0xe0, 0x1549a966]

/-- The video of a track lies in its entry, and a width and a height of points in a video. -/
def Placed (parent id : ℕ) : Prop := (id = 0xe0 → parent = 0xae) ∧ (id = 0xb0 ∨ id = 0xba → parent = 0xe0)

mutual

/-- An element is well-formed within a parent. -/
def Formed (parent : ℕ) : Ebml → Prop
  | data id idLength sizeLength body => IsVint idLength id ∧ idLength ≤ 4 ∧ Placed parent id ∧ id ∉ canvasMasters ∧
      1 ≤ sizeLength ∧ sizeLength ≤ 8 ∧ body.length < 2 ^ (7 * sizeLength) - 1
  | master id idLength sizeLength known within => IsVint idLength id ∧ idLength ≤ 4 ∧ Placed parent id ∧
      1 ≤ sizeLength ∧ sizeLength ≤ 8 ∧ (known = true → (encodeAll within).length < 2 ^ (7 * sizeLength) - 1) ∧
        AllFormed id within

/-- Elements are well-formed within a parent. -/
def AllFormed (parent : ℕ) : List Ebml → Prop
  | [] => True
  | e :: rest => Formed parent e ∧ AllFormed parent rest

end

/-- The elements within those with an id. -/
def inside (id : ℕ) (es : List Ebml) : List Ebml :=
  es.flatMap fun
    | data .. => []
    | master id' _ _ _ within => if id' = id then within else []

theorem allFormed_iff {parent : ℕ} {es : List Ebml} : AllFormed parent es ↔ ∀ e ∈ es, Formed parent e := by
  induction es with
  | nil => simp [AllFormed]
  | cons e rest ih => simp [AllFormed, ih]

theorem encodeAll_append (es es' : List Ebml) : encodeAll (es ++ es') = encodeAll es ++ encodeAll es' := by
  induction es with
  | nil => rfl
  | cons e rest ih => simp [encodeAll, ih]

/-! ### The walk through a file of elements -/

variable {word rest : List UInt8} {length id idLength sizeLength size : ℕ}

theorem vintLength_toBe (h : IsVint length n) :
    ∃ first tail, Bytes.toBe length n = first :: tail ∧ first ≠ 0 ∧ vintLength first = length := by
  obtain ⟨hpos, hle, hlow, hhigh⟩ := h
  obtain ⟨k, rfl⟩ := Nat.exists_eq_add_of_le' hpos
  have hpow : 256 ^ k = 2 ^ (8 * k) := by rw [Nat.pow_mul]
  have hfirst : 2 ^ (7 - k) ≤ n / 256 ^ k ∧ n / 256 ^ k < 2 ^ (7 - k + 1) := by
    rw [hpow, Nat.le_div_iff_mul_le (Nat.two_pow_pos _), Nat.div_lt_iff_lt_mul (Nat.two_pow_pos _), ← Nat.pow_add,
      ← Nat.pow_add, show 7 - k + 8 * k = 7 * (k + 1) by omega, show 7 - k + 1 + 8 * k = 7 * (k + 1) + 1 by omega]
    exact ⟨hlow, hhigh⟩
  have hbyte : (UInt8.ofNat (n / 256 ^ k)).toNat = n / 256 ^ k := by
    have hle : 2 ^ (7 - k + 1) ≤ 2 ^ 8 := Nat.pow_le_pow_right (by decide) (by omega)
    rw [UInt8.toNat_ofNat', Nat.mod_eq_of_lt (hfirst.2.trans_le hle)]
  have hpositive : 0 < n / 256 ^ k := Nat.lt_of_lt_of_le (Nat.two_pow_pos _) hfirst.1
  refine ⟨_, _, Bytes.toBe_succ k n, fun hzero => ?_, ?_⟩
  · rw [hzero] at hbyte
    exact hpositive.ne hbyte
  · rw [vintLength, hbyte, (Nat.log2_eq_iff hpositive.ne').mpr hfirst]
    omega

/-- Where such a number lies, it has its bytes, unless the file is cut within them. -/
theorem vintLengthAt_of_prefix (h : IsVint length n) (hstart : head.drop offset <+: Bytes.toBe length n ++ rest) :
    vintLengthAt head offset = none ∨
      vintLengthAt head offset = some length ∧ Lies head offset (Bytes.toBe length n) := by
  obtain ⟨first, tail, hword, hne, hlength⟩ := vintLength_toBe h
  cases hat : head[offset]? with
  | none => exact .inl (by rw [vintLengthAt, hat, Option.bind_none])
  | some byte =>
    obtain ⟨hlt, hget⟩ := List.getElem?_eq_some_iff.mp hat
    obtain rfl : byte = first := by
      rw [List.drop_eq_getElem_cons hlt, hget, hword, List.cons_append] at hstart
      exact (List.cons_prefix_cons.mp hstart).1
    rw [vintLengthAt, hat, Option.bind_some]
    by_cases hshort : head.length < offset + vintLength byte
    · exact .inl (if_pos (.inr hshort))
    · refine .inr ⟨by rw [if_neg (not_or.mpr ⟨hne, hshort⟩), hlength], ?_⟩
      refine List.prefix_of_prefix_length_le (List.prefix_append _ rest) hstart ?_
      rw [Bytes.length_toBe, List.length_drop]
      omega

theorem drop_of_prefix (h : head.drop offset <+: word ++ rest) (hword : Lies head offset word) :
    head.drop (offset + word.length) <+: rest := by
  obtain ⟨tail, htail⟩ := hword
  rw [← htail] at h
  rw [← List.drop_drop, ← htail, List.drop_left]
  exact (List.prefix_append_right_inj word).mp h

theorem isVint_size (hpos : 1 ≤ sizeLength) (hle : sizeLength ≤ 8) (hsize : size < 2 ^ (7 * sizeLength)) :
    IsVint sizeLength (2 ^ (7 * sizeLength) + size) := by
  refine ⟨hpos, hle, Nat.le_add_right .., ?_⟩
  rw [Nat.pow_succ]
  omega

theorem lt_of_isVint (h : IsVint length n) : n < 256 ^ length := by
  refine h.2.2.2.trans_le ?_
  rw [show 256 = 2 ^ 8 from rfl, ← Nat.pow_mul]
  exact Nat.pow_le_pow_right (by decide) (by have := h.1; omega)

/-- Where the bytes of an element lie, the walk comes to its id and its body, unless the file is cut before. -/
theorem elementAt_of_frame {body : List UInt8} (hid : IsVint idLength id) (hidLength : idLength ≤ 4)
    (hpos : 1 ≤ sizeLength) (hle : sizeLength ≤ 8) (hsize : size < 2 ^ (7 * sizeLength))
    (hstart : head.drop offset <+: frame id idLength sizeLength size body ++ rest) :
    elementAt head offset = none ∨ ∃ start, head.drop start <+: body ++ rest ∧ elementAt head offset =
      some (id, start, if size = 2 ^ (7 * sizeLength) - 1 then head.length else min (start + size) head.length) := by
  rw [frame, List.append_assoc, List.append_assoc] at hstart
  rcases vintLengthAt_of_prefix hid hstart with hnone | ⟨hidAt, hidLies⟩
  · exact .inl (by rw [elementAt, hnone, Option.bind_none])
  have hbehind := drop_of_prefix hstart hidLies
  rw [Bytes.length_toBe] at hbehind
  rcases vintLengthAt_of_prefix (isVint_size hpos hle hsize) hbehind with hnone | ⟨hsizeAt, hsizeLies⟩
  · exact .inl (by rw [elementAt, hidAt, Option.bind_some, hnone, Option.map_none])
  have hbody := drop_of_prefix hbehind hsizeLies
  rw [Bytes.length_toBe] at hbody
  refine .inr ⟨_, hbody, ?_⟩
  have hidNumber : numberAt false idLength head offset = id :=
    (numberAt_of_lies hidLies hid.1).trans (Nat.mod_eq_of_lt (lt_of_isVint hid))
  have hsizeNumber : numberAt false sizeLength head (offset + idLength) = 2 ^ (7 * sizeLength) + size :=
    (numberAt_of_lies hsizeLies hpos).trans (Nat.mod_eq_of_lt (lt_of_isVint (isVint_size hpos hle hsize)))
  have hidWord : id < 2 ^ 32 := (lt_of_isVint hid).trans_le (Nat.pow_le_pow_right (by decide) hidLength)
  rw [elementAt_eq hidAt hsizeAt, hidNumber, hsizeNumber, Nat.mod_eq_of_lt hidWord, Nat.add_mod_left,
    Nat.mod_eq_of_lt hsize]

theorem drop_stop {body : List UInt8} {start : ℕ} (h : head.drop start <+: body ++ rest)
    (hsize : size = 2 ^ (7 * sizeLength) - 1 ∨ size = body.length) :
    head.drop (if size = 2 ^ (7 * sizeLength) - 1 then head.length else min (start + size) head.length) <+: rest := by
  split_ifs with hones
  · simp
  · rcases Nat.le_total head.length (start + size) with hcut | hwhole
    · rw [Nat.min_eq_right hcut, List.drop_length]
      exact List.nil_prefix
    · obtain rfl := hsize.resolve_left hones
      rw [Nat.min_eq_left hwhole]
      refine drop_of_prefix h (List.prefix_of_prefix_length_le (List.prefix_append _ rest) h ?_)
      rw [List.length_drop]
      omega

/-- Where a well-formed element lies, the walk comes to its id and goes on within it or behind it, unless the file is
cut before. -/
theorem elementAt_of_formed {parent : ℕ} {e : Ebml} (h : Formed parent e)
    (hstart : head.drop offset <+: encode e ++ rest) :
    elementAt head offset = none ∨ ∃ id start stop, elementAt head offset = some (id, start, stop) ∧ Placed parent id ∧
      (id ∉ MASTERS → head.drop stop <+: rest) ∧
      (id ∈ MASTERS → ∃ within, AllFormed id within ∧ head.drop start <+: encodeAll within ++ rest) := by
  cases e with
  | data id idLength sizeLength body =>
    obtain ⟨hid, hidLength, hplaced, hmaster, hpos, hle, hsize⟩ := h
    rw [encode] at hstart
    have hskip : id ∉ MASTERS := by
      simp only [MASTERS, canvasMasters, List.mem_cons, List.not_mem_nil, or_false] at hmaster ⊢
      omega
    refine (elementAt_of_frame hid hidLength hpos hle (by omega) hstart).imp_right ?_
    rintro ⟨start, hbody, hat⟩
    exact ⟨id, start, _, hat, hplaced, fun _ => drop_stop hbody (.inr rfl), fun hin => absurd hin hskip⟩
  | master id idLength sizeLength known within =>
    obtain ⟨hid, hidLength, hplaced, hpos, hle, hsize, hwithin⟩ := h
    rw [encode] at hstart
    have hpow : 0 < 2 ^ (7 * sizeLength) := Nat.two_pow_pos _
    have hlt : (if known then (encodeAll within).length else 2 ^ (7 * sizeLength) - 1) < 2 ^ (7 * sizeLength) := by
      split_ifs with hknown
      · have := hsize hknown
        omega
      · omega
    refine (elementAt_of_frame hid hidLength hpos hle hlt hstart).imp_right ?_
    rintro ⟨start, hbody, hat⟩
    refine ⟨id, start, _, hat, hplaced, fun _ => drop_stop hbody ?_, fun _ => ⟨within, hwithin, hbody⟩⟩
    split_ifs
    · exact .inr rfl
    · exact .inl rfl

/-- The walk goes into no entry of a track, and so comes to no video and no canvas. -/
theorem elements_outside (pending : List Ebml) : ∀ {count offset : ℕ},
    (∀ e ∈ pending, ∃ parent, Formed parent e ∧ parent ≠ 0xae ∧ parent ≠ 0xe0) →
    head.drop offset <+: encodeAll pending →
    ∀ e ∈ elements head count offset, e.1 ≠ 0xb0 ∧ e.1 ≠ 0xba := by
  intro count
  induction count generalizing pending with
  | zero => exact fun _ _ e he => nomatch he
  | succ count ih =>
    intro offset houtside hstart e he
    cases pending with
    | nil =>
      have hnone : elementAt head offset = none := by
        have hdrop : head.drop offset = [] := List.prefix_nil.mp hstart
        rw [elementAt, vintLengthAt, List.getElem?_eq_none (List.drop_eq_nil_iff.mp hdrop)]
        rfl
      rw [elements, hnone] at he
      cases he
    | cons first pending =>
      obtain ⟨⟨parent, hfirst, hentry, hvideo⟩, hrest⟩ := List.forall_mem_cons.mp houtside
      rw [encodeAll] at hstart
      rcases elementAt_of_formed hfirst hstart with hnone | ⟨id, start, stop, hat, hplaced, hbehind, hwithin⟩
      · rw [elements, hnone] at he
        cases he
      rw [elements, hat] at he
      simp only [List.mem_cons] at he
      rcases he with rfl | he
      · exact ⟨fun h => hvideo (hplaced.2 (.inl h)), fun h => hvideo (hplaced.2 (.inr h))⟩
      by_cases hmaster : id ∈ MASTERS
      · -- it is no entry of a track, and no video
        have hid : id ≠ 0xae ∧ id ≠ 0xe0 := by
          refine ⟨fun hae => ?_, fun he0 => hentry (hplaced.1 he0)⟩
          rw [hae] at hmaster
          revert hmaster
          decide
        obtain ⟨within, hformed, hinside⟩ := hwithin hmaster
        rw [if_pos hmaster] at he
        refine ih (within ++ pending) (fun e he => ?_) (by rwa [encodeAll_append]) e he
        rcases List.mem_append.mp he with he | he
        · exact ⟨id, allFormed_iff.mp hformed e he, hid⟩
        · exact hrest e he
      · rw [if_neg hmaster] at he
        exact ih _ hrest (hbehind hmaster) e he

end Ebml

/-- The head of a WebM file, with a track that has a canvas. It may be cut behind the video of the track. -/
structure WebM where
  head : List UInt8
  small : head.length < sliceLimit
  signature : [0x1a, 0x45, 0xdf, 0xa3] <+: head
  content : List Ebml
  encoded : head <+: Ebml.encodeAll content
  formed : Ebml.AllFormed 0 content
  sizes : ℕ × ℕ
  known : Bool
  video : List Ebml
  width : ℕ
  height : ℕ
  has_video : .master 0xe0 sizes.1 sizes.2 known video ∈
    Ebml.inside 0xae (Ebml.inside 0x1654ae6b (Ebml.inside 0x18538067 content))
  video_lies : ∃ offset, Lies head offset (Ebml.encode (.master 0xe0 sizes.1 sizes.2 known video))
  has_width : ∃ idLength sizeLength count, width < 256 ^ count ∧
    .data 0xb0 idLength sizeLength (Bytes.toBe count width) ∈ video
  has_height : ∃ idLength sizeLength count, height < 256 ^ count ∧
    .data 0xba idLength sizeLength (Bytes.toBe count height) ∈ video
  width_pos : 0 < width
  height_pos : 0 < height

/-- **No canvas of a WebM file is reported.** -/
theorem not_reportsCanvas_webm (w : WebM) : ¬ ReportsCanvas "video/webm" w.head w.width w.height := by
  rintro ⟨p, hp, hwidth, -⟩
  have houtside : ∀ e ∈ elements w.head 512 0, e.1 ≠ 0xb0 ∧ e.1 ≠ 0xba :=
    Ebml.elements_outside w.content
      (fun e he => ⟨0, Ebml.allFormed_iff.mp w.formed e he, by decide, by decide⟩) (by simpa using w.encoded)
  have hnone : lastNumber w.head 0xb0 = none := by
    have hfind : (elements w.head 512 0).findRev? (fun e => e.1 = 0xb0) = none := by
      rw [List.findRev?_eq_find?_reverse, List.find?_eq_none]
      intro e he
      simpa using (houtside e (List.mem_reverse.mp he)).1
    rw [lastNumber, hfind]
    rfl
  rw [(canvas_of_webm w.small w.signature hp).1, hnone] at hwidth
  cases hwidth

/-! ### Every header -/

/-- A well-formed header of one of the formats. -/
inductive Header where
  | bmp (b : Bmp)
  | tiff (t : TiffFile)
  | movie (m : MovieHeader)
  | track (t : TrackHeader)
  | webm (w : WebM)

/-- The numbers of a header are reported. -/
def Header.IsReported : Header → Prop
  | bmp b => ReportsCanvas "image/bmp" b.head b.width b.height.natAbs
  | tiff t => ReportsCanvas "image/tiff" t.head t.width t.height
  | movie m => ReportsDuration m.contentType m.head (m.duration * 1000 / m.timescale : ℕ)
  | track t => ReportsCanvas t.contentType t.head t.width t.height
  | webm w => ReportsCanvas "video/webm" w.head w.width w.height

/-- They are where the reader looks for them, and not more than it takes. -/
def Header.IsLegible : Header → Prop
  | bmp _ => False
  | tiff t => t.before.length + 2 ≤ 64 ∧ HeaderProbe.IsLegible t.little t.widthField t.width ∧
      HeaderProbe.IsLegible t.little t.heightField t.height
  | movie m => m.IsLegible
  | track _ => False
  | webm _ => False

/-- A stream has a last width and a last height that pair. -/
def PairsAxes (contentType : String) (head : List UInt8) : Prop :=
  contentType = "video/webm" → [0x1a, 0x45, 0xdf, 0xa3] <+: head → PairsNumbers head

theorem isPaired_iff (hsmall : head.length < sliceLimit) {contentType : String}
    (hp : probe contentType head = .ok p) : p.IsPaired ↔ PairsAxes contentType head := by
  by_cases hwebm : contentType = "video/webm"
  · subst hwebm
    by_cases hsignature : [0x1a, 0x45, 0xdf, 0xa3] <+: head
    · rw [isPaired_webm_iff hsmall hsignature hp]
      exact ⟨fun h _ _ => h, fun h => h rfl hsignature⟩
    · have hnone : probe "video/webm" head = .ok {} := by
        have hprobe : probe "video/webm" head = probeWebm head := rfl
        rw [hprobe, probeWebm, if_neg (mt List.isPrefixOf_iff_prefix.mp hsignature)]
        rfl
      rw [← Except.ok.inj (hnone.symm.trans hp)]
      exact iff_of_true isPaired_empty fun _ h => absurd h hsignature
  · obtain ⟨q, hq, hanswer⟩ := probeWithin_settles hsmall (not_trips_of_ok hsmall hp)
    have hsame : q = p := Except.ok.inj ((hanswer _ (Nat.lt_succ_self _)).symm.trans hp)
    exact iff_of_true (hsame ▸ hq.resolve_left hwebm) fun h => absurd h hwebm

/-- **The numbers of a header are reported** just when it is legible; and a width is reported with a height, both
positive, unless a stream has numbers that do not pair. -/
theorem header_isReported_iff (h : Header) : (h.IsReported ↔ h.IsLegible) ∧
    ∀ (contentType : String) (head : List UInt8) (p : MediaProbe), head.length < sliceLimit →
      probe contentType head = .ok p → (p.IsPaired ↔ PairsAxes contentType head) := by
  refine ⟨?_, fun contentType head p hsmall hp => isPaired_iff hsmall hp⟩
  cases h with
  | bmp b => exact iff_of_false (not_reportsCanvas_bmp b) id
  | tiff t => exact reportsCanvas_tiff_iff t
  | movie m => exact reportsDuration_movie_iff m
  | track t => exact iff_of_false (not_reportsCanvas_track t) id
  | webm w => exact iff_of_false (not_reportsCanvas_webm w) id

/-- A bitmap of two points in one row. -/
def smallBmp : Bmp where
  head := ascii "BM" ++ [62, 0, 0, 0, 0, 0, 0, 0, 54, 0, 0, 0] ++ [40, 0, 0, 0] ++ [2, 0, 0, 0] ++ [1, 0, 0, 0] ++
    [1, 0, 24, 0]
  small := by decide
  width := 2
  height := 1
  width_range := by decide
  height_range := by decide
  signature := by decide
  size_lies := by decide
  width_lies := by decide
  height_lies := by decide

/-- A SHORT's number fits a SHORT and a LONG. -/
theorem lt_wordWidth {kind n : ℕ} (hkind : kind = 3 ∨ kind = 4) (hn : n < 256 ^ 2) :
    n < 256 ^ ExifReader.wordWidth kind := by
  rcases hkind with rfl | rfl
  · exact hn
  · exact hn.trans (by decide)

theorem one_lt_word : 1 < 2 ^ 32 := by decide

theorem zero_lt_word : 0 < 2 ^ 32 := by decide

def numberField (tag kind n : ℕ) (htag : tag < 2 ^ 16) (hkind : kind = 3 ∨ kind = 4) (hn : n < 256 ^ 2) : Field where
  tag := tag
  kind := kind
  count := 1
  words := [n]
  place := 0
  tag_lt := htag
  kind_lt := by omega
  count_lt := one_lt_word
  place_lt := zero_lt_word
  words_lt := List.forall_mem_singleton.mpr (lt_wordWidth hkind hn)
  length_words := by
    rcases hkind with rfl | rfl
    · rintro _ ⟨⟩
      rfl
    · rintro _ ⟨⟩
      rfl

/-- A TIFF file of two points in one row: of Intel with SHORT numbers, of Motorola with LONG ones. -/
def smallTiff (little : Bool) : TiffFile where
  head := ExifReader.header little 8 ++ (toWord little 2 2 ++
    (ExifReader.entryHead little 256 (if little then 3 else 4) 1 ++ toWord little (if little then 2 else 4) 2 ++
      List.replicate (if little then 2 else 0) 0 ++
    (ExifReader.entryHead little 257 (if little then 3 else 4) 1 ++ toWord little (if little then 2 else 4) 1 ++
      List.replicate (if little then 2 else 0) 0 ++ toWord little 4 0)))
  small := by cases little <;> decide
  little := little
  first := 8
  before := []
  widthField := numberField 256 (if little then 3 else 4) 2 (by decide) (by cases little <;> decide) (by decide)
  heightField := numberField 257 (if little then 3 else 4) 1 (by decide) (by cases little <;> decide) (by decide)
  after := []
  width := 2
  height := 1
  first_lt := by decide
  header := by cases little <;> decide
  directory := by cases little <;> decide +kernel
  before_lt := by simp
  width_tag := rfl
  height_tag := rfl
  after_gt := by simp
  width_number := ⟨by cases little <;> decide, rfl, rfl⟩
  height_number := ⟨by cases little <;> decide, rfl, rfl⟩
  width_pos := by decide
  height_pos := by decide

/-- A box of some letters. -/
def boxed (kind : String) (body : List UInt8) : List UInt8 := toWord false 4 (8 + body.length) ++ ascii kind ++ body

/-- A movie header of five seconds. -/
def movieBody (wide : Bool) : List UInt8 :=
  [if wide then 1 else 0, 0, 0, 0] ++ toWord false (timeBytes wide) 0 ++ toWord false (timeBytes wide) 0 ++
    toWord false 4 1000 ++ toWord false (timeBytes wide) 5000 ++ List.replicate 80 0

/-- The places in a film with a movie header alone. -/
def moviePlaces (wide : Bool) : List (ℕ × ℕ × ℕ) :=
  let stop := 104 + 3 * timeBytes wide
  [(0, stop, 0), (0, stop, stop), (1, stop, 8), (1, stop, stop)]

theorem moviePlaces_closed (wide : Bool) :
    ClosedPlaces (boxed "moov" (boxed "mvhd" (movieBody wide))) (moviePlaces wide) := by
  cases wide with
  | true => decide +kernel
  | false => decide +kernel

/-- A film of five seconds. -/
def smallMovie (wide : Bool) : MovieHeader where
  head := boxed "moov" (boxed "mvhd" (movieBody wide))
  small := by cases wide <;> decide +kernel
  contentType := "video/mp4"
  is_film := .inl rfl
  fits := not_wideBox_of_places (moviePlaces_closed wide) (by cases wide <;> decide +kernel)
  body := movieBody wide
  wide := wide
  modification := 0
  timescale := 1000
  duration := 5000
  has := ⟨_, _, _, _, _, BoxAt.start.into (by cases wide <;> decide +kernel),
    HasBox.isBox (by cases wide <;> decide +kernel), by cases wide <;> decide +kernel,
    by cases wide <;> decide +kernel⟩
  only := fun other ⟨_, _, _, _, _, hat, hbox, hkind, hbody⟩ =>
    hbody ▸ forall_body_of_places (P := (· = movieBody wide)) (moviePlaces_closed wide)
      (by cases wide <;> decide +kernel) hat hbox hkind
  length := by cases wide <;> decide
  version := by cases wide <;> rfl
  times := by cases wide <;> decide +kernel
  modification_lt := by cases wide <;> decide
  timescale_lt := by decide
  duration_lt := by cases wide <;> decide
  timescale_pos := by decide
  duration_pos := by decide

/-- A track header with a canvas of two points in one row. -/
def trackBody (wide : Bool) : List UInt8 :=
  [if wide then 1 else 0, 0, 0, 0] ++ toWord false (timeBytes wide) 0 ++ toWord false (timeBytes wide) 0 ++
    [0, 0, 0, 1, 0, 0, 0, 0] ++ toWord false (timeBytes wide) 5000 ++ List.replicate 52 0 ++ [0, 2, 0, 0, 0, 1, 0, 0]

/-- The places in a film with a track header alone. -/
def trackPlaces (wide : Bool) : List (ℕ × ℕ × ℕ) :=
  let stop := 96 + 3 * timeBytes wide
  [(0, stop, 0), (0, stop, stop), (1, stop, 8), (1, stop, stop), (2, stop, 16), (2, stop, stop)]

theorem trackPlaces_closed (wide : Bool) :
    ClosedPlaces (boxed "moov" (boxed "trak" (boxed "tkhd" (trackBody wide)))) (trackPlaces wide) := by
  cases wide with
  | true => decide +kernel
  | false => decide +kernel

/-- A film with one track. -/
def smallTrack (wide : Bool) : TrackHeader where
  head := boxed "moov" (boxed "trak" (boxed "tkhd" (trackBody wide)))
  small := by cases wide <;> decide +kernel
  contentType := "video/quicktime"
  is_film := .inr rfl
  fits := not_wideBox_of_places (trackPlaces_closed wide) (by cases wide <;> decide +kernel)
  body := trackBody wide
  wide := wide
  width := 2
  height := 1
  part := 0
  part' := 0
  has := ⟨_, _, _, _, _, (BoxAt.start.into (by cases wide <;> decide +kernel)).into
    (by cases wide <;> decide +kernel), HasBox.isBox (by cases wide <;> decide +kernel),
    by cases wide <;> decide +kernel, by cases wide <;> decide +kernel⟩
  all := fun other ⟨_, _, _, _, _, hat, hbox, hkind, hbody⟩ => by
    have hother : other = trackBody wide :=
      hbody ▸ forall_body_of_places (P := (· = trackBody wide)) (trackPlaces_closed wide)
        (by cases wide <;> decide +kernel) hat hbox hkind
    exact ⟨wide, hother ▸ by cases wide <;> rfl, hother ▸ by cases wide <;> rfl⟩
  version := by cases wide <;> rfl
  canvas := by cases wide <;> decide +kernel
  width_pos := by decide
  height_pos := by decide

/-- The video of a track, with its width and its height. -/
def smallVideo : List Ebml := [.data 0xb0 1 1 [2], .data 0xba 1 1 [1]]

/-- The elements of a WebM file: its head, and a segment of unknown size with one track. -/
def smallContent : List Ebml :=
  [.master 0x1a45dfa3 4 1 true [.data 0x4282 2 1 (ascii "webm")],
    .master 0x18538067 4 8 false [.master 0x1654ae6b 4 1 true [.master 0xae 1 1 true
      [.data 0xd7 1 1 [1], .master 0xe0 1 1 true smallVideo]]]]

/-- A WebM file of two points in one row. -/
def smallWebm : WebM where
  head := Ebml.encodeAll smallContent
  small := by decide +kernel
  signature := by decide +kernel
  content := smallContent
  encoded := List.prefix_rfl
  formed := by
    simp [smallContent, smallVideo, Ebml.AllFormed, Ebml.Formed, Ebml.IsVint, Ebml.Placed, Ebml.canvasMasters,
      Ebml.encodeAll, Ebml.encode, Ebml.frame, ascii]
  sizes := (1, 1)
  known := true
  video := smallVideo
  width := 2
  height := 1
  has_video := by simp [smallContent, Ebml.inside]
  video_lies := ⟨34, by decide +kernel⟩
  has_width := ⟨1, 1, 1, by decide, by simp [smallVideo, Bytes.toBe]⟩
  has_height := ⟨1, 1, 1, by decide, by simp [smallVideo, Bytes.toBe]⟩
  width_pos := by decide
  height_pos := by decide

/-- Of such files only the numbers in Intel's order and those of version 0 are reported. -/
theorem header_isReported_small :
    (Header.tiff (smallTiff true)).IsReported ∧ ¬ (Header.tiff (smallTiff false)).IsReported ∧
    (Header.movie (smallMovie false)).IsReported ∧ ¬ (Header.movie (smallMovie true)).IsReported ∧
    (∀ wide, ¬ (Header.track (smallTrack wide)).IsReported) ∧
    ¬ (Header.webm smallWebm).IsReported ∧ ¬ (Header.bmp smallBmp).IsReported := by
  refine ⟨(header_isReported_iff _).1.mpr ⟨by decide, .inl rfl, .inl rfl⟩, mt (header_isReported_iff _).1.mp ?_,
    (header_isReported_iff _).1.mpr ?_, mt (header_isReported_iff _).1.mp ?_,
    fun wide => mt (header_isReported_iff _).1.mp id, mt (header_isReported_iff _).1.mp id,
    mt (header_isReported_iff _).1.mp id⟩
  · rintro ⟨-, hwidth, -⟩
    rcases hwidth with hkind | ⟨hlittle, -⟩
    · exact absurd hkind (by decide)
    · exact absurd hlittle (by decide)
  · show 5000 * 1000 / 1000 ≤ LONGEST_MS
    decide
  · rintro ⟨hpos, -⟩
    exact absurd hpos (by decide)

/-- Nothing is reported of a small bitmap; and of a stream with a width alone a width is, of -1. -/
theorem small_bmp_and_lone_width : ¬ (Header.bmp smallBmp).IsReported ∧
    probe "video/webm" [0x1a, 0x45, 0xdf, 0xa3, 0x80, 0xb0, 0x84, 0xff, 0xff, 0xff, 0xff] =
      .ok { width := some (-1) } := by
  constructor
  · rintro ⟨p, hp, hwidth, -⟩
    have hempty : probe "image/bmp" smallBmp.head = .ok {} := by decide
    rw [← Except.ok.inj (hempty.symm.trans hp)] at hwidth
    cases hwidth
  · decide

end Omnion.Media.HeaderProbe
