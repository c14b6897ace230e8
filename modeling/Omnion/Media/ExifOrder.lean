import Omnion.Library.Selection
import Omnion.Media.Exif

/-!
# Byte orders

A block is written with the least byte of a word first, or with the greatest, and says which. The reader of
`crates/media/src/exif.rs` is to answer the same for a directory in either order.

## The content

A field has a tag, a type, a count and the words of its value; the bytes of the value are in the entry when they are no
more than four, and else at a place of the block. A directory is its fields and, in the first one, pointers to further
directories. `Encodes` says that a block has some content, in one order: where an entry lies, and where its value does.
The places of values are the same in both orders, since the reader takes a half of such a place for a speed.

## What is proved

* `read_eq_iff` — two files with one content in the two orders are read alike just when, for each part of the record,
  the last field that writes it is `Neutral`. A rational is read from its bytes in the wrong order when the greatest
  comes first.
-/

namespace Omnion.Media.ExifReader

open Guarded

/-! ### Contents -/

/-- A word of so many bytes, in one order. -/
def toWord (little : Bool) (size n : ℕ) : List UInt8 :=
  if little then (Bytes.toBe size n).reverse else Bytes.toBe size n

/-- The bytes of one word of a value; a RATIONAL has two words. -/
def wordWidth (kind : ℕ) : ℕ :=
  if kind ∈ [1, 2, 6, 7] then 1
  else if kind ∈ [3, 8] then 2
  else if kind ∈ [4, 5, 9, 10, 11] then 4
  else 8

/-- A field, and the place of its value when it is not in the entry. -/
structure Field where
  tag : ℕ
  kind : ℕ
  count : ℕ
  words : List ℕ
  place : ℕ
  tag_lt : tag < 2 ^ 16
  kind_lt : kind < 2 ^ 16
  count_lt : count < 2 ^ 32
  place_lt : place < 2 ^ 32
  words_lt : ∀ n ∈ words, n < 256 ^ wordWidth kind
  /-- So many values, of a type with a width. -/
  length_words : ∀ width ∈ typeWidth kind, words.length * wordWidth kind = width * count

/-- The tag of a pointer to a directory. -/
def pointerTag : ℕ := 0x8769

/-- An entry of the first directory: a field, or a pointer to a directory, of type LONG or IFD. -/
inductive Item where
  | field (f : Field) (h : f.tag ≠ pointerTag)
  | directory (kind place : ℕ) (fields : List Field) (hkind : kind = 4 ∨ kind = 13) (hplace : place < 2 ^ 32)

/-- The fields of an entry. -/
def Item.fields : Item → List Field
  | field f _ => [f]
  | directory _ _ fields _ _ => fields

/-- The fields of some content, in the order in which they are read. -/
def fieldsOf (content : List Item) : List Field := content.flatMap Item.fields

/-! ### Encodings -/

/-- Whether the width of a type is known. -/
def Field.known (f : Field) : Bool := (typeWidth f.kind).isSome

/-- The bytes of a value. -/
def Field.bytes (little : Bool) (f : Field) : List UInt8 := f.words.flatMap (toWord little (wordWidth f.kind))

/-- The last four bytes of an entry: a value and zeros, or the place of a value. -/
def Field.slot (little : Bool) (f : Field) : List UInt8 :=
  if (f.bytes little).length ≤ 4 then f.bytes little ++ List.replicate (4 - (f.bytes little).length) 0
  else toWord little 4 f.place

/-- An entry is a tag, a type, a count and four more bytes. -/
def entryHead (little : Bool) (tag kind count : ℕ) : List UInt8 :=
  toWord little 2 tag ++ (toWord little 2 kind ++ toWord little 4 count)

/-- A block has an entry of a field somewhere; what a value of a type without a width is like is not said. -/
def Field.LiesAt (little : Bool) (block : List UInt8) (entry : ℕ) (f : Field) : Prop :=
  Lies block entry (entryHead little f.tag f.kind f.count) ∧ entry + 12 ≤ block.length ∧
    (f.known = true → Lies block (entry + 8) (f.slot little) ∧
      (4 < (f.bytes little).length → Lies block f.place (f.bytes little)))

instance (little : Bool) (block : List UInt8) (entry : ℕ) (f : Field) : Decidable (f.LiesAt little block entry) :=
  inferInstanceAs (Decidable (_ ∧ _ ∧ (_ → _ ∧ (_ → _))))

section Entries

variable {α : Type} (lies : ℕ → α → Prop)

/-- Entries one after the other. -/
def EntriesAt : ℕ → List α → Prop
  | _, [] => True
  | entry, a :: rest => lies entry a ∧ EntriesAt (entry + 12) rest

instance [∀ entry a, Decidable (lies entry a)] : (entry : ℕ) → (entries : List α) →
    Decidable (EntriesAt lies entry entries)
  | _, [] => inferInstanceAs (Decidable True)
  | entry, a :: rest =>
    have := instDecidableEntriesAt (entry + 12) rest
    inferInstanceAs (Decidable (lies entry a ∧ EntriesAt lies (entry + 12) rest))

/-- A directory: the number of its entries, and the entries. -/
def DirectoryAt (little : Bool) (block : List UInt8) (offset : ℕ) (entries : List α) : Prop :=
  entries.length < 2 ^ 16 ∧ Lies block offset (toWord little 2 entries.length) ∧ EntriesAt lies (offset + 2) entries

instance [∀ entry a, Decidable (lies entry a)] (little : Bool) (block : List UInt8) (offset : ℕ) (entries : List α) :
    Decidable (DirectoryAt lies little block offset entries) :=
  inferInstanceAs (Decidable (_ ∧ _ ∧ EntriesAt lies (offset + 2) entries))

end Entries

/-- A block has an entry of the first directory. -/
def Item.LiesAt (little : Bool) (block : List UInt8) (entry : ℕ) : Item → Prop
  | field f _ => f.LiesAt little block entry
  | directory kind place fields _ _ =>
    Lies block entry (entryHead little pointerTag kind 1 ++ toWord little 4 place) ∧
      DirectoryAt (Field.LiesAt little block) little block place fields

instance (little : Bool) (block : List UInt8) (entry : ℕ) : (item : Item) → Decidable (item.LiesAt little block entry)
  | .field f _ => inferInstanceAs (Decidable (f.LiesAt little block entry))
  | .directory _ place fields _ _ =>
    inferInstanceAs (Decidable (_ ∧ DirectoryAt (Field.LiesAt little block) little block place fields))

/-- `II` or `MM`, 42, and the place of the first directory. -/
def header (little : Bool) (first : ℕ) : List UInt8 :=
  (if little then [73, 73] else [77, 77]) ++ (toWord little 2 42 ++ toWord little 4 first)

/-- **A block has some content**, in one order. -/
def Encodes (little : Bool) (block : List UInt8) (content : List Item) : Prop :=
  ∃ first < 2 ^ 32, Lies block 0 (header little first) ∧
    DirectoryAt (Item.LiesAt little block) little block first content

/-! ### What a field reads as -/

/-- The bytes that the reader takes as a field's value. -/
def Field.value (little : Bool) (f : Field) : Option (List UInt8) := if f.known then some (f.bytes little) else none

def Field.text (little : Bool) (f : Field) : Option String := (f.value little).bind ExifReader.text

def dateText (raw : String) : Option String :=
  match datetime raw with
  | .ok date => date
  | .error _ => none

def Field.date (little : Bool) (f : Field) : Option String := (f.text little).bind dateText

/-- A word of four bytes, with the least first. -/
def wordOf (i : ℕ) (raw : List UInt8) : ℕ := fromBytes true ((raw.drop (4 * i)).take 4)

/-- A field as a rational: its first two words, and in the other order the second and the first. -/
def Field.ratio (little : Bool) (f : Field) : Option (ℕ × ℕ) :=
  ((f.value little).filter fun raw => 8 ≤ raw.length).map fun raw =>
    if little then (wordOf 0 raw, wordOf 1 raw) else (wordOf 1 raw, wordOf 0 raw)

/-- How many parts of a unit a rational is, or 0 when it is absent or more than so many units. -/
def parts (limit scale : ℕ) : Option (ℕ × ℕ) → ℕ
  | some (num, den) => if num = 0 ∨ den = 0 ∨ den * limit < num then 0 else num * scale / den
  | none => 0

/-- A number that is not 0. -/
def positive (n : ℕ) : Option ℤ := if n = 0 then none else some n

/-- A field as a number of parts of a unit, so many of them taken together. -/
def Field.number (limit scale whole : ℕ) (little : Bool) (f : Field) : Option ℤ :=
  positive (parts limit scale (f.ratio little) / whole)

/-- The 16-bit word at the start of an entry's slot. -/
def Field.half (little : Bool) (f : Field) : ℕ := fromBytes little ((f.slot little).take 2)

/-- A field as a speed. -/
def Field.iso (little : Bool) (f : Field) : Option ℤ := if f.known ∧ f.count = 1 then some (f.half little) else none

/-- What is in a slot, of one value or of several. -/
def Field.held (little : Bool) (f : Field) : ℕ :=
  if f.count = 1 then f.half little else fromBytes little (f.slot little)

def Field.orientation (little : Bool) (f : Field) : Option ℤ :=
  if f.known ∧ 1 ≤ f.held little ∧ f.held little ≤ 8 then some (f.held little) else none

/-- What a field writes into the record: the part with its tag. -/
def Field.write (little : Bool) (f : Field) (out : Exif) : Exif where
  make := if f.tag ∈ [0x010f] then f.text little else out.make
  model := if f.tag ∈ [0x0110] then f.text little else out.model
  lens := if f.tag ∈ [0xa434] then f.text little else out.lens
  software := if f.tag ∈ [0x0131] then f.text little else out.software
  capturedAt := if f.tag ∈ [0x0132, 0x9003] then f.date little else out.capturedAt
  exposureMs := if f.tag ∈ [0x829a] then f.number 3600 1000 1 little else out.exposureMs
  apertureX100 := if f.tag ∈ [0x829d] then f.number 128 100 1 little else out.apertureX100
  focalLengthMm := if f.tag ∈ [0x920a] then f.number 3600 1000 1000 little else out.focalLengthMm
  iso := if f.tag ∈ [0x8827] then f.iso little else out.iso
  orientation := if f.tag ∈ [0x0112] then f.orientation little else out.orientation
  gps := f.tag = 0x8825 || out.gps

/-- What the fields of some content write, one after the other. -/
def recordOf (little : Bool) (fields : List Field) : Exif := fields.foldl (fun out f => f.write little out) {}

/-! ### Words of a block -/

variable {t : Tiff} {f : Field} {raw block : List UInt8} {out : Exif}
variable {size n tag kind count place entry offset : ℕ}

@[simp] theorem length_toWord (little : Bool) (size n : ℕ) : (toWord little size n).length = size := by
  unfold toWord
  split_ifs <;> simp

theorem fromBytes_toWord (little : Bool) (h : n < 256 ^ size) : fromBytes little (toWord little size n) = n := by
  cases little <;> simpa [fromBytes, toWord] using Bytes.ofBe_toBe h

theorem wordAt_of_lies (hsmall : t.bytes.length < sliceLimit) (h : Lies t.bytes offset raw) (hne : raw ≠ []) :
    t.wordAt raw.length offset = .ok (some (fromBytes t.little raw)) := by
  have hin := h.le_length hne
  have hadd : checkedAdd offset raw.length = some (offset + raw.length) := by
    refine checkedAdd_eq_some.mpr ⟨?_, rfl⟩
    simp only [sliceLimit, wordMax] at *
    omega
  rw [Tiff.wordAt, hadd, Option.bind_some, range_of_lies h (by omega)]
  simp only [word, le_refl, if_true, List.take_length]
  rfl

theorem wordAt_toWord (hsmall : t.bytes.length < sliceLimit) (h : Lies t.bytes offset (toWord t.little count n))
    (hpos : 0 < count) (hn : n < 256 ^ count) : t.wordAt count offset = .ok (some n) := by
  have hne : toWord t.little count n ≠ [] := List.length_pos_iff.mp (by rwa [length_toWord])
  have hword := wordAt_of_lies hsmall h hne
  rwa [length_toWord, fromBytes_toWord t.little hn] at hword

theorem words_of_entryHead (hsmall : t.bytes.length < sliceLimit)
    (h : Lies t.bytes entry (entryHead t.little tag kind count)) (htag : tag < 2 ^ 16) (hkind : kind < 2 ^ 16)
      (hcount : count < 2 ^ 32) :
    t.u16At entry = .ok (some tag) ∧ t.u16At (entry + 2) = .ok (some kind) ∧
      t.u32At (entry + 4) = .ok (some count) := by
  obtain ⟨hfirst, hrest⟩ := Lies.append_iff.mp h
  obtain ⟨hsecond, hthird⟩ := Lies.append_iff.mp hrest
  rw [length_toWord] at hsecond hthird
  rw [length_toWord, Nat.add_assoc] at hthird
  exact ⟨wordAt_toWord hsmall hfirst (by decide) htag, wordAt_toWord hsmall hsecond (by decide) hkind,
    wordAt_toWord hsmall hthird (by decide) hcount⟩

/-! ### Entries are read -/

theorem Field.length_bytes (f : Field) (little : Bool) {width : ℕ} (h : typeWidth f.kind = some width) :
    (f.bytes little).length = width * f.count := by
  rw [← f.length_words width h, Field.bytes, List.length_flatMap]
  simp

@[simp] theorem Field.length_slot (f : Field) (little : Bool) : (f.slot little).length = 4 := by
  unfold Field.slot
  split_ifs with h
  · rw [List.length_append, List.length_replicate]
    omega
  · exact length_toWord _ _ _

theorem Field.LiesAt.near (hsmall : t.bytes.length < sliceLimit)
    (h : f.LiesAt t.little t.bytes entry) : Near entry := by
  have hin := h.2.1
  simp only [Near, sliceLimit, wordMax] at *
  omega

theorem add_of_near {k : ℕ} (h : Near entry) (hk : k ≤ 8) : add entry k = .ok (entry + k) :=
  add_eq ((Nat.add_le_add_left hk entry).trans h)

theorem typeWidth_le {width : ℕ} (h : typeWidth kind = some width) : width ≤ 8 := by
  unfold typeWidth at h
  split_ifs at h <;> obtain rfl := Option.some.inj h <;> decide

theorem valueStart_of_lies (hsmall : t.bytes.length < sliceLimit) (h : f.LiesAt t.little t.bytes entry)
    (hknown : f.known = true) : ∃ start, valueStart t entry (f.bytes t.little).length = .ok (some start) ∧
      start ≤ t.bytes.length ∧ Lies t.bytes start (f.bytes t.little) := by
  have hnear := h.near hsmall
  obtain ⟨-, hroom, hvalue⟩ := h
  obtain ⟨hslot, hplace⟩ := hvalue hknown
  simp only [valueStart, add_of_near hnear le_rfl]
  by_cases hinline : (f.bytes t.little).length ≤ 4
  · refine ⟨entry + 8, if_pos hinline, by omega, ?_⟩
    rw [Field.slot, if_pos hinline] at hslot
    exact (Lies.append_iff.mp hslot).1
  · have hlies := hplace (not_le.mp hinline)
    have hin := hlies.le_length fun hnil => hinline (by rw [hnil]; decide)
    rw [Field.slot, if_neg hinline] at hslot
    refine ⟨f.place, (if_neg hinline).trans ?_, by omega, hlies⟩
    exact wordAt_toWord hsmall hslot (by decide) f.place_lt

/-- **The value of an entry is the field's.** -/
theorem valueOf_of_lies (hsmall : t.bytes.length < sliceLimit) (h : f.LiesAt t.little t.bytes entry) :
    valueOf t entry = .ok (f.value t.little) := by
  have hnear := h.near hsmall
  obtain ⟨-, hkind, hcount⟩ := words_of_entryHead hsmall h.1 f.tag_lt f.kind_lt f.count_lt
  have hadd : ∀ k ≤ 8, add entry k = .ok (entry + k) := fun k => add_of_near hnear
  simp only [valueOf, hadd 2 (by decide), hadd 4 (by decide), ok_bind, hkind, hcount]
  cases hwidth : typeWidth f.kind with
  | none =>
    rw [Field.value, Field.known, hwidth]
    rfl
  | some width =>
    have hknown : f.known = true := by rw [Field.known, hwidth]; rfl
    obtain ⟨start, hstart, hin, hlies⟩ := valueStart_of_lies hsmall h hknown
    have hlength := f.length_bytes t.little hwidth
    have hproduct : checkedMul width f.count = some (width * f.count) := by
      refine checkedMul_eq_some.mpr ⟨?_, rfl⟩
      exact (Nat.mul_le_mul (typeWidth_le hwidth) f.count_lt.le).trans (by decide)
    have hsum : checkedAdd start (f.bytes t.little).length = some (start + (f.bytes t.little).length) := by
      refine checkedAdd_eq_some.mpr ⟨?_, rfl⟩
      have hend := List.IsPrefix.length_le hlies
      rw [List.length_drop] at hend
      simp only [sliceLimit, wordMax] at *
      omega
    rw [Option.bind_some, hproduct, ← hlength]
    simp only [hstart, ok_bind, hsum, Option.bind_some, range_of_lies hlies hin, Field.value, hknown, if_true]
    rfl

/-! ### What is written -/

theorem wordOf_lt (i : ℕ) (raw : List UInt8) : wordOf i raw < 2 ^ 32 := by
  have hlt := fromBytes_lt true ((raw.drop (4 * i)).take 4)
  have hpow : 256 ^ ((raw.drop (4 * i)).take 4).length ≤ 256 ^ 4 :=
    Nat.pow_le_pow_right (by decide) (List.length_take_le 4 _)
  exact hlt.trans_le hpow

theorem pair_eq (t : Tiff) (raw : List UInt8) : pair t raw = .ok (((some raw).filter fun raw => 8 ≤ raw.length).map
    fun raw => if t.little then (wordOf 0 raw, wordOf 1 raw) else (wordOf 1 raw, wordOf 0 raw)) := by
  by_cases hshort : raw.length < 8
  · rw [pair, if_pos hshort, Option.filter_some_neg (by simpa using hshort)]
    rfl
  · have hfirst : word true 4 raw = .ok (wordOf 0 raw) := if_pos (by omega)
    have hsecond : word true 4 (raw.drop 4) = .ok (wordOf 1 raw) := if_pos (by rw [List.length_drop]; omega)
    rw [pair, if_neg hshort, hfirst, hsecond, Option.filter_some_pos (by simpa using hshort)]
    cases t.little <;> rfl

theorem filter_toI32 (h : n ≤ i32Max) : (toI32 n).filter (0 < ·) = positive n := by
  rw [toI32, if_pos h, positive]
  by_cases hzero : n = 0
  · rw [if_pos hzero, hzero]
    rfl
  · rw [if_neg hzero, Option.filter_some_pos]
    exact decide_eq_true (by omega)

theorem positive_div (n : ℕ) : ((positive n).map (· / 1000)).filter (0 < ·) = positive (n / 1000) := by
  unfold positive
  by_cases hzero : n = 0
  · rw [if_pos hzero, hzero]
    rfl
  rw [if_neg hzero, Option.map_some]
  by_cases hless : n / 1000 = 0
  · rw [if_pos hless, Option.filter_some_neg]
    simpa using by omega
  · rw [if_neg hless, Option.filter_some_pos]
    · rfl
    · exact decide_eq_true (by omega)

/-- **A rational is read as its parts.** -/
theorem scaled_eq {limit scale : ℕ} (hfits : limit * scale ≤ i32Max) (hlimit : 0 < limit) (hscale : 0 < scale)
    {ratio : Option (ℕ × ℕ)} (h : ∀ r ∈ ratio, r.1 < 2 ^ 32 ∧ r.2 < 2 ^ 32) :
    scaled limit scale ratio = .ok (positive (parts limit scale ratio)) := by
  cases ratio with
  | none => rfl
  | some ratio =>
    obtain ⟨num, den⟩ := ratio
    obtain ⟨hnum, hden⟩ := h (num, den) rfl
    have hbound : ∀ k l, k < 2 ^ 32 → l ≤ limit * scale → k * l ≤ wordMax := fun k l hk hl =>
      (Nat.mul_le_mul hk.le (hl.trans hfits)).trans (by decide)
    simp only [scaled, parts]
    by_cases hzero : num = 0 ∨ den = 0
    · rw [if_pos hzero, if_pos (hzero.imp_right .inl)]
      rfl
    rw [if_neg hzero]
    have hproduct : mul den limit = .ok (den * limit) :=
      if_pos (hbound den limit hden (Nat.le_mul_of_pos_right limit hscale))
    simp only [hproduct, ok_bind]
    by_cases hover : den * limit < num
    · rw [if_pos hover, if_pos (.inr (.inr hover))]
      rfl
    have hnot : ¬ (num = 0 ∨ den = 0 ∨ den * limit < num) := by
      rw [← or_assoc]
      exact not_or.mpr ⟨hzero, hover⟩
    have hsat : saturatingMul num scale = num * scale :=
      min_eq_left (hbound num scale hnum (Nat.le_mul_of_pos_left scale hlimit))
    have hquotient : num * scale / den ≤ i32Max := by
      refine le_trans (Nat.div_le_of_le_mul ?_) hfits
      rw [← Nat.mul_assoc]
      exact Nat.mul_le_mul_right scale (not_lt.mp hover)
    have hdiv : div (num * scale) den = .ok (num * scale / den) := if_neg fun hden => hzero (.inr hden)
    rw [if_neg hover, if_neg hnot, hsat, hdiv, ok_bind, filter_toI32 hquotient]
    rfl

theorem ratio_lt (little : Bool) (f : Field) : ∀ r ∈ f.ratio little, r.1 < 2 ^ 32 ∧ r.2 < 2 ^ 32 := by
  intro r hr
  obtain ⟨raw, -, rfl⟩ := Option.map_eq_some_iff.mp hr
  split_ifs <;> exact ⟨wordOf_lt _ raw, wordOf_lt _ raw⟩

theorem ofValue_rational {α : Type} (t : Tiff) (f : Field) {g : Option (ℕ × ℕ) → Except Trap (Option α)}
    (hnone : g none = .ok none) :
    ofValue (f.value t.little) (fun raw => do g (← pair t raw)) = g (f.ratio t.little) := by
  rw [Field.ratio]
  cases f.value t.little with
  | none => exact hnone.symm
  | some raw => simp only [ofValue, pair_eq, ok_bind]

theorem exposure_of_field (t : Tiff) (f : Field) :
    ofValue (f.value t.little) (rationalX1000 t) = .ok (f.number 3600 1000 1 t.little) := by
  rw [Field.number, Nat.div_one, ← scaled_eq (by decide) (by decide) (by decide) (ratio_lt t.little f)]
  exact ofValue_rational t f rfl

theorem aperture_of_field (t : Tiff) (f : Field) :
    ofValue (f.value t.little) (rationalX100 t) = .ok (f.number 128 100 1 t.little) := by
  rw [Field.number, Nat.div_one, ← scaled_eq (by decide) (by decide) (by decide) (ratio_lt t.little f)]
  exact ofValue_rational t f rfl

theorem focalLength_of_field (t : Tiff) (f : Field) :
    ofValue (f.value t.little) (rationalRound t) = .ok (f.number 3600 1000 1000 t.little) := by
  have hread : ofValue (f.value t.little) (rationalRound t) = (do
      let thousandths ← ofValue (f.value t.little) (rationalX1000 t)
      pure ((thousandths.map (· / 1000)).filter (0 < ·))) := by
    cases f.value t.little <;> rfl
  rw [hread, exposure_of_field, ok_bind, Field.number, Nat.div_one, positive_div]
  rfl

theorem dateOf_eq (raw : List UInt8) : dateOf raw = .ok ((text raw).bind dateText) := by
  rw [dateOf]
  cases text raw with
  | none => rfl
  | some raw =>
    obtain ⟨date, hdate, -⟩ := datetime_yields raw
    simp only [Option.bind_some, dateText, hdate]

theorem date_of_field (t : Tiff) (f : Field) : ofValue (f.value t.little) dateOf = .ok (f.date t.little) := by
  rw [Field.date, Field.text]
  cases f.value t.little with
  | none => rfl
  | some raw => exact dateOf_eq raw

theorem words_of_slot (hsmall : t.bytes.length < sliceLimit) (h : f.LiesAt t.little t.bytes entry)
    (hknown : f.known = true) : t.u16At (entry + 8) = .ok (some (f.half t.little)) ∧
      t.u32At (entry + 8) = .ok (some (fromBytes t.little (f.slot t.little))) := by
  have hslot := (h.2.2 hknown).1
  have hne : f.slot t.little ≠ [] := List.length_pos_iff.mp (by rw [f.length_slot]; decide)
  have hwide := wordAt_of_lies hsmall hslot hne
  rw [f.length_slot] at hwide
  refine ⟨?_, hwide⟩
  have htake : Lies t.bytes (entry + 8) ((f.slot t.little).take 2) := (List.take_prefix 2 _).trans hslot
  have hlength : ((f.slot t.little).take 2).length = 2 := by
    rw [List.length_take, f.length_slot]
    rfl
  have hnarrow := wordAt_of_lies hsmall htake (List.length_pos_iff.mp (by rw [hlength]; decide))
  rwa [hlength] at hnarrow

theorem countIsOne_of_lies (hsmall : t.bytes.length < sliceLimit) (h : f.LiesAt t.little t.bytes entry) :
    countIsOne t entry = .ok (decide (f.count = 1)) := by
  obtain ⟨-, -, hcount⟩ := words_of_entryHead hsmall h.1 f.tag_lt f.kind_lt f.count_lt
  rw [countIsOne, add_of_near (h.near hsmall) (by decide), ok_bind, hcount]
  simp

theorem iso_of_field (hsmall : t.bytes.length < sliceLimit) (h : f.LiesAt t.little t.bytes entry) :
    ofValue (f.value t.little) (fun _ => isoOf t entry) = .ok (f.iso t.little) := by
  by_cases hknown : f.known = true
  · simp only [Field.value, Field.iso, hknown, if_true, ofValue, isoOf, add_of_near (h.near hsmall) le_rfl, ok_bind,
      (words_of_slot hsmall h hknown).1, countIsOne_of_lies hsmall h, true_and]
    by_cases hone : f.count = 1 <;> simp only [hone, decide_true, decide_false, if_true, if_false] <;> rfl
  · rw [Field.value, Field.iso, if_neg hknown, if_neg fun hread => hknown hread.1]
    rfl

theorem orientation_of_field (hsmall : t.bytes.length < sliceLimit) (h : f.LiesAt t.little t.bytes entry) :
    ofValue (f.value t.little) (fun _ => orientationOf t entry) = .ok (f.orientation t.little) := by
  by_cases hknown : f.known = true
  · obtain ⟨hnarrow, hwide⟩ := words_of_slot hsmall h hknown
    have hfirst : firstU16 t entry = .ok (if f.count = 1 then some (f.held t.little) else
        (some (f.held t.little)).filter (· < 2 ^ 16)) := by
      simp only [firstU16, countIsOne_of_lies hsmall h, ok_bind, decide_eq_true_eq]
      simp only [add_of_near (h.near hsmall) le_rfl, ok_bind, hnarrow, hwide, Field.held]
      exact ite_ok (fun hone => by rw [if_pos hone, if_pos hone]) fun hone => by rw [if_neg hone, if_neg hone]; rfl
    rw [Field.value, if_pos hknown, Field.orientation]
    simp only [ofValue, orientationOf, hfirst, ok_bind, hknown, true_and]
    refine congrArg Except.ok ?_
    by_cases hturn : 1 ≤ f.held t.little ∧ f.held t.little ≤ 8
    · have hless : f.held t.little < 2 ^ 16 := hturn.2.trans_lt (by decide)
      have hsome : (if f.count = 1 then some (f.held t.little) else
          (some (f.held t.little)).filter (· < 2 ^ 16)) = some (f.held t.little) := by
        split_ifs
        · rfl
        · exact Option.filter_some_pos (by simpa using hless)
      rw [hsome, Option.filter_some_pos (by simpa using hturn), if_pos hturn]
      rfl
    · have hnone : ∀ o : Option ℕ, (∀ n ∈ o, n = f.held t.little) → o.filter (fun n => 1 ≤ n ∧ n ≤ 8) = none := by
        intro o ho
        refine Option.filter_eq_none_iff.mpr fun n hn => ?_
        simpa [ho n hn] using hturn
      rw [if_neg hturn, hnone _ fun n hn => ?_]
      · rfl
      · split_ifs at hn
        · exact (Option.mem_some_iff.mp hn).symm
        · exact (Option.mem_some_iff.mp (Option.mem_filter_iff.mp hn).1).symm
  · rw [Field.value, Field.orientation, if_neg hknown, if_neg fun hread => hknown hread.1]
    rfl

/-- **What an entry writes is what its field does.** -/
theorem record_of_lies (hsmall : t.bytes.length < sliceLimit) (h : f.LiesAt t.little t.bytes entry) (out : Exif) :
    record t entry (f.value t.little) out f.tag = .ok (f.write t.little out) := by
  have hwrite : ∀ {β : Type} {value : Except Trap β} {v : β} {g : β → Exif},
      value = .ok v → (do return g (← value)) = Except.ok (ε := Trap) (g v) := by
    rintro β value v g rfl
    rfl
  unfold record
  refine ite_ok (fun hgps => ?_) fun hgps => ?_
  · exact congrArg Except.ok (by simp [Field.write, hgps])
  refine ite_ok (fun hturn => ?_) fun hturn => ?_
  · exact (hwrite (orientation_of_field hsmall h)).trans (by simp [Field.write, hturn])
  refine ite_ok (fun hmake => ?_) fun hmake => ?_
  · exact congrArg Except.ok (by simp [Field.write, hmake, Field.text])
  refine ite_ok (fun hmodel => ?_) fun hmodel => ?_
  · exact congrArg Except.ok (by simp [Field.write, hmodel, Field.text])
  refine ite_ok (fun hsoftware => ?_) fun hsoftware => ?_
  · exact congrArg Except.ok (by simp [Field.write, hsoftware, Field.text])
  refine ite_ok (fun hdate => ?_) fun hdate => ?_
  · exact (hwrite (date_of_field t f)).trans (by simp [Field.write, hdate])
  refine ite_ok (fun hshot => ?_) fun hshot => ?_
  · exact (hwrite (date_of_field t f)).trans (by simp [Field.write, hshot])
  refine ite_ok (fun hexposure => ?_) fun hexposure => ?_
  · exact (hwrite (exposure_of_field t f)).trans (by simp [Field.write, hexposure])
  refine ite_ok (fun haperture => ?_) fun haperture => ?_
  · exact (hwrite (aperture_of_field t f)).trans (by simp [Field.write, haperture])
  refine ite_ok (fun hiso => ?_) fun hiso => ?_
  · exact (hwrite (iso_of_field hsmall h)).trans (by simp [Field.write, hiso])
  refine ite_ok (fun hfocal => ?_) fun hfocal => ?_
  · exact (hwrite (focalLength_of_field t f)).trans (by simp [Field.write, hfocal])
  refine ite_ok (fun hlens => ?_) fun hlens => ?_
  · exact congrArg Except.ok (by simp [Field.write, hlens, Field.text])
  exact congrArg Except.ok (by simp [Field.write, *])

/-! ### Directories are read -/

variable {follow : ℕ → Exif → Except Trap Exif}

theorem readEntry_of_field (hsmall : t.bytes.length < sliceLimit) (h : f.LiesAt t.little t.bytes entry)
    (hfollow : f.tag = pointerTag → ∀ target out, follow target out = .ok out) (out : Exif) :
    readEntry t follow entry out = .ok (f.write t.little out) := by
  obtain ⟨htag, -, -⟩ := words_of_entryHead hsmall h.1 f.tag_lt f.kind_lt f.count_lt
  simp only [readEntry, htag, ok_bind, valueOf_of_lies hsmall h]
  by_cases hpointer : f.tag = 0x8769
  · have hsame : f.write t.little out = out := by simp [Field.write, hpointer]
    rw [if_pos hpointer, hsame, add_of_near (h.near hsmall) le_rfl, ok_bind]
    obtain ⟨target, htarget, -⟩ := t.u32At_yields (entry + 8)
    rw [htarget, ok_bind]
    cases target with
    | none => rfl
    | some target => exact hfollow hpointer target out
  · rw [if_neg hpointer]
    exact record_of_lies hsmall h out

section Entries

variable {α : Type} {lies : ℕ → α → Prop} {write : α → Exif → Exif}

/-- Entries that are read each are read one after the other. -/
theorem readEntries_of_entries (hsmall : t.bytes.length < sliceLimit)
    (hread : ∀ entry a out, lies entry a → readEntry t follow entry out = .ok (write a out))
    (hroom : ∀ entry a, lies entry a → entry + 12 ≤ t.bytes.length) {entries : List α} {i : ℕ}
    (h : EntriesAt lies (offset + 2 + i * 12) entries) (out : Exif) :
    readEntries t follow offset entries.length i out = .ok (entries.foldl (fun out a => write a out) out) := by
  induction entries generalizing i out with
  | nil => rfl
  | cons a entries ih =>
    obtain ⟨ha, hrest⟩ := h
    have hin := hroom _ a ha
    have hword : ∀ n ≤ offset + 2 + i * 12, n ≤ wordMax := by
      simp only [sliceLimit, wordMax] at *
      omega
    have hentry : entryAt offset i = some (offset + 2 + i * 12) := by
      rw [entryAt, checkedAdd_eq_some.mpr ⟨hword (offset + 2) (by omega), rfl⟩, Option.bind_some,
        checkedMul_eq_some.mpr ⟨hword (i * 12) (by omega), rfl⟩, Option.bind_some]
      exact checkedAdd_eq_some.mpr ⟨hword _ le_rfl, rfl⟩
    rw [List.length_cons, readEntries, hentry]
    simp only [hread _ a out ha, ok_bind]
    rw [ih, List.foldl_cons]
    rwa [Nat.add_one_mul, ← Nat.add_assoc]

theorem readIfd_of_directory (hsmall : t.bytes.length < sliceLimit) {levels depth : ℕ} (hdepth : depth ≤ 1)
    (hread : ∀ entry a out, lies entry a →
      readEntry t (fun target => readIfd t levels target (depth + 1)) entry out = .ok (write a out))
    (hroom : ∀ entry a, lies entry a → entry + 12 ≤ t.bytes.length) {entries : List α}
    (h : DirectoryAt lies t.little t.bytes offset entries) (out : Exif) :
    readIfd t (levels + 1) offset depth out = .ok (entries.foldl (fun out a => write a out) out) := by
  obtain ⟨hlength, hcount, hentries⟩ := h
  rw [readIfd_succ hdepth, Tiff.u16At, wordAt_toWord hsmall hcount (by decide) hlength, ok_bind]
  exact readEntries_of_entries hsmall hread hroom (by simpa using hentries) out

end Entries

/-- What an entry of the first directory writes. -/
def Item.write (little : Bool) (item : Item) (out : Exif) : Exif :=
  item.fields.foldl (fun out f => f.write little out) out

theorem foldl_write (little : Bool) (content : List Item) (out : Exif) :
    content.foldl (fun out item => item.write little out) out =
      (fieldsOf content).foldl (fun out f => f.write little out) out := by
  rw [fieldsOf, List.foldl_flatMap]
  rfl

@[simp] theorem length_entryHead (little : Bool) (tag kind count : ℕ) :
    (entryHead little tag kind count).length = 8 := by
  simp [entryHead]

theorem Item.LiesAt.le_length {little : Bool} {item : Item} (h : item.LiesAt little block entry) :
    entry + 12 ≤ block.length := by
  cases item with
  | field f _ => exact h.2.1
  | directory kind place fields _ _ =>
    have hlength : (entryHead little pointerTag kind 1 ++ toWord little 4 place).length = 12 := by simp
    rw [← hlength]
    exact Lies.le_length h.1 (List.length_pos_iff.mp (by rw [hlength]; decide))

/-- An entry of the first directory is read, with the directory that it points to. -/
theorem readEntry_of_item (hsmall : t.bytes.length < sliceLimit) {item : Item}
    (h : item.LiesAt t.little t.bytes entry) (out : Exif) :
    readEntry t (fun target => readIfd t 1 target 1) entry out = .ok (item.write t.little out) := by
  have hroom := h.le_length
  cases item with
  | field f hf => exact readEntry_of_field hsmall h (fun htag => absurd htag hf) out
  | directory kind place fields hkind hplace =>
    obtain ⟨hentry, hdirectory⟩ := h
    obtain ⟨hhead, htarget⟩ := Lies.append_iff.mp hentry
    rw [length_entryHead] at htarget
    have hkindLt : kind < 2 ^ 16 := by
      rcases hkind with rfl | rfl <;> decide
    have hnear : Near entry := by
      simp only [Near, sliceLimit, wordMax] at *
      omega
    obtain ⟨htag, -, -⟩ := words_of_entryHead hsmall hhead (by decide) hkindLt (by decide)
    obtain ⟨bytes, hbytes, -⟩ := valueOf_yields t hnear
    simp only [readEntry, htag, ok_bind, hbytes, add_of_near hnear le_rfl]
    rw [if_pos (show pointerTag = 0x8769 from rfl), Tiff.u32At, wordAt_toWord hsmall htarget
      (by decide) hplace, ok_bind]
    -- A directory below this one is not read.
    refine readIfd_of_directory hsmall le_rfl (fun entry f out hf => ?_) (fun entry f hf => hf.2.1) hdirectory out
    refine readEntry_of_field hsmall hf (fun _ target out => ?_) out
    rw [readIfd_below (by decide)]
    rfl

@[simp] theorem length_header (little : Bool) (first : ℕ) : (header little first).length = 8 := by
  cases little <;> simp [header]

theorem Encodes.le_length {little : Bool} {content : List Item} (h : Encodes little block content) :
    8 ≤ block.length := by
  obtain ⟨first, -, hheader, -⟩ := h
  have hin := hheader.le_length (List.length_pos_iff.mp (by rw [length_header]; decide))
  rwa [length_header, Nat.zero_add] at hin

/-- **What is read of a block is what its fields write**, one after the other. -/
theorem readTiff_encodes (hsmall : block.length < sliceLimit) (little : Bool) {content : List Item}
    (h : Encodes little block content) : readTiff 2 block {} = .ok (recordOf little (fieldsOf content)) := by
  obtain ⟨first, hfirst, hheader, hdirectory⟩ := h
  obtain ⟨hmark, hrest⟩ := Lies.append_iff.mp hheader
  obtain ⟨hmagic, hplace⟩ := Lies.append_iff.mp hrest
  have hlength : (if little then [73, 73] else [77, 77] : List UInt8).length = 2 := by cases little <;> rfl
  rw [hlength, Nat.zero_add] at hmagic hplace
  rw [length_toWord] at hplace
  have hin := hplace.le_length (List.length_pos_iff.mp (by rw [length_toWord]; decide))
  rw [length_toWord] at hin
  have horder : slice block 0 2 = .ok (if little then [73, 73] else [77, 77]) := by
    have hrange := range_of_lies hmark (Nat.zero_le _)
    rw [hlength] at hrange
    rw [slice, hrange]
  have hforty : range block 2 4 = some (toWord little 2 42) := by
    have hrange := range_of_lies hmagic (by omega)
    rwa [length_toWord] at hrange
  have hword : (Tiff.mk block little).u32At 4 = .ok (some first) :=
    wordAt_toWord (t := ⟨block, little⟩) hsmall hplace (by decide) hfirst
  have hread : readIfd (Tiff.mk block little) 2 first 0 {} = .ok (recordOf little (fieldsOf content)) := by
    rw [recordOf, ← foldl_write]
    refine readIfd_of_directory (t := ⟨block, little⟩) hsmall (by decide) ?_ ?_ hdirectory {}
    · exact fun entry item out hitem => readEntry_of_item (t := ⟨block, little⟩) hsmall hitem out
    · exact fun entry item hitem => hitem.le_length
  simp only [readTiff, horder, ok_bind, hforty]
  cases little with
  | true =>
    simp only [hword, ok_bind]
    exact hread
  | false =>
    simp only [hword, ok_bind]
    exact hread

/-- A file has a block with some content, in one order. -/
def Carries (little : Bool) (contentType : String) (head : List UInt8) (content : List Item) : Prop :=
  ∃ block, blockOf (head.length + 1) contentType head = .ok (some block) ∧ Encodes little block content

theorem read_of_carries {little : Bool} {contentType : String} {head : List UInt8} {content : List Item}
    (hsmall : head.length < sliceLimit) (h : Carries little contentType head content) :
    read contentType head = .ok (recordOf little (fieldsOf content)) := by
  obtain ⟨block, hblock, hencodes⟩ := h
  obtain ⟨found, hinside, hfound⟩ := blockOf_settles hsmall contentType
  have hsame := (hfound (head.length + 1) (Nat.lt_succ_self _)).symm.trans hblock
  cases hsame
  have hshort : ¬ block.length < 8 := not_lt.mpr hencodes.le_length
  rw [read, readWithin, hblock, ok_bind]
  simp only [if_neg hshort]
  exact readTiff_encodes ((hinside block rfl).trans_lt hsmall) little hencodes

/-! ### One content in two orders -/

def last (tags : List ℕ) (fields : List Field) : Option Field := fields.findRev? fun f => f.tag ∈ tags

theorem foldl_last {β : Type} (get : Exif → Option β) (tags : List ℕ) (value : Field → Option β) {little : Bool}
    (hwrite : ∀ f out, get (f.write little out) = if f.tag ∈ tags then value f else get out) (fields : List Field)
    (out : Exif) : get (fields.foldl (fun out f => f.write little out) out) =
      ((last tags fields).map value).getD (get out) := by
  refine Selection.get_foldl get (fun out f => ?_) fields out
  simp only [hwrite, decide_eq_true_eq]

/-- Two orders give a part of the record the same when they do so for the last field that writes it. -/
theorem part_eq_iff {β : Type} (get : Exif → Option β) (tags : List ℕ) {value : Bool → Field → Option β}
    {same : Field → Prop} (hsame : ∀ f, value true f = value false f ↔ same f) (hempty : get {} = none)
    (hwrite : ∀ little f out, get (f.write little out) = if f.tag ∈ tags then value little f else get out)
    (fields : List Field) :
    get (recordOf true fields) = get (recordOf false fields) ↔ ∀ f ∈ last tags fields, same f := by
  rw [recordOf, recordOf, foldl_last get tags (value true) (hwrite true),
    foldl_last get tags (value false) (hwrite false), hempty]
  cases last tags fields with
  | none => simp
  | some f => simpa using hsame f

theorem gps_eq (fields : List Field) : (recordOf true fields).gps = (recordOf false fields).gps := by
  have hgps : ∀ (little : Bool) (out : Exif), (fields.foldl (fun out f => f.write little out) out).gps =
      (fields.any (fun f => f.tag = 0x8825) || out.gps) := by
    intro little
    induction fields with
    | nil => simp
    | cons f fields ih =>
      intro out
      rw [List.foldl_cons, ih, List.any_cons, Field.write]
      cases decide (f.tag = 0x8825) <;> simp
  rw [recordOf, recordOf, hgps, hgps]

/-- A text reads the same from its bytes in both orders. -/
def SameText (f : Field) : Prop := f.known = true → text (f.bytes true) = text (f.bytes false)

/-- A date does. -/
def SameDate (f : Field) : Prop :=
  f.known = true → (text (f.bytes true)).bind dateText = (text (f.bytes false)).bind dateText

/-- The bytes of the first two words, with the least first, are as much as those of the second and the first in the
other order, in parts of a unit. -/
def SameParts (limit scale whole : ℕ) (f : Field) : Prop :=
  f.known = true → 8 ≤ (f.bytes true).length →
    parts limit scale (some (wordOf 0 (f.bytes true), wordOf 1 (f.bytes true))) / whole =
      parts limit scale (some (wordOf 1 (f.bytes false), wordOf 0 (f.bytes false))) / whole

/-- The first half of the slot of a single value is the same number in both orders. -/
def SameHalf (f : Field) : Prop := f.known = true → f.count = 1 → f.half true = f.half false

/-- An orientation, or 0. -/
def turned (n : ℕ) : ℕ := if 1 ≤ n ∧ n ≤ 8 then n else 0

/-- A slot holds the same orientation in both orders, or none. -/
def SameTurn (f : Field) : Prop := f.known = true → turned (f.held true) = turned (f.held false)

/-- **Fields that are read the same in both orders**: the last ones that write each part of the record are. -/
structure Neutral (fields : List Field) : Prop where
  make : ∀ f ∈ last [0x010f] fields, SameText f
  model : ∀ f ∈ last [0x0110] fields, SameText f
  lens : ∀ f ∈ last [0xa434] fields, SameText f
  software : ∀ f ∈ last [0x0131] fields, SameText f
  capturedAt : ∀ f ∈ last [0x0132, 0x9003] fields, SameDate f
  exposureMs : ∀ f ∈ last [0x829a] fields, SameParts 3600 1000 1 f
  apertureX100 : ∀ f ∈ last [0x829d] fields, SameParts 128 100 1 f
  focalLengthMm : ∀ f ∈ last [0x920a] fields, SameParts 3600 1000 1000 f
  iso : ∀ f ∈ last [0x8827] fields, SameHalf f
  orientation : ∀ f ∈ last [0x0112] fields, SameTurn f

theorem positive_inj {n m : ℕ} : positive n = positive m ↔ n = m := by
  unfold positive
  split_ifs with hn hm hm <;> simp <;> omega

theorem length_bytes_eq (f : Field) : (f.bytes true).length = (f.bytes false).length := by
  simp [Field.bytes, List.length_flatMap]

theorem text_eq_iff (f : Field) : f.text true = f.text false ↔ SameText f := by
  by_cases hknown : f.known = true <;> simp [Field.text, Field.value, SameText, hknown]

theorem date_eq_iff (f : Field) : f.date true = f.date false ↔ SameDate f := by
  by_cases hknown : f.known = true <;> simp [Field.date, Field.text, Field.value, SameDate, hknown]

theorem number_eq_iff (limit scale whole : ℕ) (f : Field) :
    f.number limit scale whole true = f.number limit scale whole false ↔ SameParts limit scale whole f := by
  have hlength := length_bytes_eq f
  rw [Field.number, Field.number, positive_inj]
  by_cases hknown : f.known = true
  · by_cases hlong : 8 ≤ (f.bytes true).length
    · simp [Field.ratio, Field.value, SameParts, hknown, hlong, hlength ▸ hlong, Option.filter_some]
    · simp [Field.ratio, Field.value, SameParts, hknown, hlong, hlength ▸ hlong, Option.filter_some]
  · simp [Field.ratio, Field.value, SameParts, hknown]

theorem iso_eq_iff (f : Field) : f.iso true = f.iso false ↔ SameHalf f := by
  by_cases hread : f.known = true ∧ f.count = 1
  · simp only [Field.iso, SameHalf, hread, and_self, if_true, Option.some.injEq, forall_const]
    exact Int.natCast_inj
  · simp only [Field.iso, SameHalf, if_neg hread, true_iff]
    exact fun hknown hone => absurd ⟨hknown, hone⟩ hread

theorem orientation_eq_iff (f : Field) : f.orientation true = f.orientation false ↔ SameTurn f := by
  by_cases hknown : f.known = true
  · simp only [Field.orientation, SameTurn, turned, hknown, true_and, forall_const]
    split_ifs <;> simp <;> omega
  · simp [Field.orientation, SameTurn, hknown]

/-! ### Which fields are neutral -/

/-- **Two files with one content in the two orders are read alike** just when the fields that count are neutral. -/
theorem read_eq_iff (content : List Item) (contentType contentType' : String) (head head' : List UInt8)
    (hsmall : head.length < sliceLimit) (hsmall' : head'.length < sliceLimit)
    (hlittle : Carries true contentType head content) (hbig : Carries false contentType' head' content) :
    read contentType head = read contentType' head' ↔ Neutral (fieldsOf content) := by
  rw [read_of_carries hsmall hlittle, read_of_carries hsmall' hbig, Except.ok.injEq]
  generalize fieldsOf content = fields
  rw [Exif.ext_iff, part_eq_iff Exif.make [0x010f] text_eq_iff rfl (fun _ _ _ => rfl),
    part_eq_iff Exif.model [0x0110] text_eq_iff rfl (fun _ _ _ => rfl),
    part_eq_iff Exif.lens [0xa434] text_eq_iff rfl (fun _ _ _ => rfl),
    part_eq_iff Exif.software [0x0131] text_eq_iff rfl (fun _ _ _ => rfl),
    part_eq_iff Exif.capturedAt [0x0132, 0x9003] date_eq_iff rfl (fun _ _ _ => rfl),
    part_eq_iff Exif.exposureMs [0x829a] (number_eq_iff 3600 1000 1) rfl (fun _ _ _ => rfl),
    part_eq_iff Exif.apertureX100 [0x829d] (number_eq_iff 128 100 1) rfl (fun _ _ _ => rfl),
    part_eq_iff Exif.focalLengthMm [0x920a] (number_eq_iff 3600 1000 1000) rfl (fun _ _ _ => rfl),
    part_eq_iff Exif.iso [0x8827] iso_eq_iff rfl (fun _ _ _ => rfl),
    part_eq_iff Exif.orientation [0x0112] orientation_eq_iff rfl (fun _ _ _ => rfl)]
  constructor
  · rintro ⟨make, model, lens, iso, exposureMs, apertureX100, focalLengthMm, orientation, capturedAt, software, -⟩
    exact ⟨make, model, lens, software, capturedAt, exposureMs, apertureX100, focalLengthMm, iso, orientation⟩
  · intro h
    exact ⟨h.make, h.model, h.lens, h.iso, h.exposureMs, h.apertureX100, h.focalLengthMm, h.orientation, h.capturedAt,
      h.software, gps_eq fields⟩

/-- A maker, and a speed of 400 in a directory of its own. -/
def camera : List Item :=
  [.field ⟨0x010f, 2, 6, [67, 97, 110, 111, 110, 0], 56, by decide, by decide, by decide, by decide, by decide,
      by decide⟩ (by decide),
    .directory 4 38 [⟨0x8827, 3, 1, [400], 0, by decide, by decide, by decide, by decide, by decide, by decide⟩]
      (by decide) (by decide)]

/-- A block with them. -/
def cameraBlock (little : Bool) : List UInt8 :=
  header little 8 ++ toWord little 2 2 ++ entryHead little 0x010f 2 6 ++ toWord little 4 56 ++
    entryHead little 0x8769 4 1 ++ toWord little 4 38 ++ [0, 0, 0, 0] ++ toWord little 2 1 ++
    entryHead little 0x8827 3 1 ++ toWord little 2 400 ++ [0, 0, 0, 0, 0, 0] ++ [67, 97, 110, 111, 110, 0]

/-- Two files without a rational. -/
theorem read_eq_iff_camera : read "image/png" (pngOf (cameraBlock true)) = read "image/png"
    (pngOf (cameraBlock false)) ↔
    Neutral (fieldsOf camera) :=
  read_eq_iff camera "image/png" "image/png" _ _ (by decide +kernel) (by decide +kernel)
    ⟨cameraBlock true, by decide +kernel, 8, by decide, by decide +kernel, by decide +kernel⟩
    ⟨cameraBlock false, by decide +kernel, 8, by decide, by decide +kernel, by decide +kernel⟩

/-- An exposure of 1/200 of a second. -/
def shutter : List Item :=
  [.field ⟨0x829a, 5, 1, [1, 200], 26, by decide, by decide, by decide, by decide, by decide, by decide⟩ (by decide)]

def shutterBlock (little : Bool) : List UInt8 :=
  header little 8 ++ toWord little 2 1 ++ entryHead little 0x829a 5 1 ++ toWord little 4 26 ++ [0, 0, 0, 0] ++
    toWord little 4 1 ++ toWord little 4 200

/-- **An exposure of 5 ms is read as 200 s** when the greatest byte of a word comes first. -/
theorem shutter_read_apart : ¬ ∀ (content : List Item) (contentType contentType' : String) (head head' : List UInt8),
    head.length < sliceLimit → head'.length < sliceLimit → Carries true contentType head content →
      Carries false contentType' head' content → read contentType head = read contentType' head' := by
  intro h
  have hsame := h shutter "image/png" "image/png" (pngOf (shutterBlock true)) (pngOf (shutterBlock false))
    (by decide +kernel) (by decide +kernel)
    ⟨shutterBlock true, by decide +kernel, 8, by decide, by decide +kernel, by decide +kernel⟩
    ⟨shutterBlock false, by decide +kernel, 8, by decide, by decide +kernel, by decide +kernel⟩
  have hlittle : read "image/png" (pngOf (shutterBlock true)) = .ok { exposureMs := some 5 } := by decide +kernel
  have hbig : read "image/png" (pngOf (shutterBlock false)) = .ok { exposureMs := some 200000 } := by decide +kernel
  rw [hlittle, hbig] at hsame
  exact absurd hsame (by decide)

end Omnion.Media.ExifReader
