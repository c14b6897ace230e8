import Omnion.Core.Text
import Omnion.Identity.WebAuthn
import Omnion.Library.Bytes
import Omnion.Library.Guarded

/-!
# What a camera wrote

`crates/media/src/exif.rs`: the reader of the EXIF block of a picture. A block lies in a segment of a JPEG, or in a chunk
of a PNG or a WebP file, and holds directories of entries; the value of an entry is in the entry, or elsewhere in the
block. The bytes are whatever was uploaded, and so are all the lengths, counts and places they declare.

## The model

Every index, slice, sum and product that can fail in the code can in the model (`Guarded`). The walks through a
container may take so many turns, and directories may be read to so many levels (`readWithin`).

## What is proved

* `readWithin_answers` — the reader answers whatever the bytes are, without an index outside them and without an
  overflow, in no more turns than there are bytes, and with two levels of directories.

## Honest scope

A slice is no longer than `isize::MAX`; `usize` has 64 bits.
-/

namespace Omnion.Media.ExifReader

open Guarded
open Text (pad digit_of_mem_pad)
open Identity.WebAuthn (utf8Bytes)

/-! ### Records -/

/-- What a camera recorded about the picture. -/
@[ext]
structure Exif where
  make : Option String := none
  model : Option String := none
  lens : Option String := none
  iso : Option ℤ := none
  exposureMs : Option ℤ := none
  /-- Aperture, hundredths of an f-stop. -/
  apertureX100 : Option ℤ := none
  focalLengthMm : Option ℤ := none
  orientation : Option ℤ := none
  capturedAt : Option String := none
  software : Option String := none
  /-- Whether the block carried a GPS fix. -/
  gps : Bool := false
  deriving DecidableEq

/-- The largest value a single EXIF string field may store, in bytes. -/
def MAX_STRING_BYTES : ℕ := 512

/-- `i32::MAX`. -/
def i32Max : ℕ := 0x7fffffff

/-- `i32::try_from`, of a number that is not negative. -/
def toI32 (n : ℕ) : Option ℤ := if n ≤ i32Max then some n else none

/-! ### Words -/

/-- `from_le_bytes` and `from_be_bytes`. -/
def fromBytes (little : Bool) (raw : List UInt8) : ℕ := Bytes.ofBe (if little then raw.reverse else raw)

/-- The word of `raw[0]` to `raw[count - 1]`. -/
def word (little : Bool) (count : ℕ) (raw : List UInt8) : Except Trap ℕ :=
  if count ≤ raw.length then .ok (fromBytes little (raw.take count)) else .error .outside

/-- Byte order of a TIFF block, and the block itself. -/
structure Tiff where
  bytes : List UInt8
  little : Bool

/-- A word at an offset, or none when the block does not reach it. -/
def Tiff.wordAt (t : Tiff) (count offset : ℕ) : Except Trap (Option ℕ) :=
  match (checkedAdd offset count).bind (range t.bytes offset) with
  | some raw => some <$> word t.little count raw
  | none => pure none

/-- A `u16` at an offset. -/
def Tiff.u16At (t : Tiff) (offset : ℕ) : Except Trap (Option ℕ) := t.wordAt 2 offset

/-- A `u32` at an offset. -/
def Tiff.u32At (t : Tiff) (offset : ℕ) : Except Trap (Option ℕ) := t.wordAt 4 offset

/-- A `u16` at an offset, big-endian, or `0` when the prefix is too short. -/
def beU16 (bytes : List UInt8) (offset : ℕ) : Except Trap ℕ :=
  match range bytes offset (saturatingAdd offset 2) with
  | some raw => word false 2 raw
  | none => pure 0

/-! ### Values -/

/-- The byte width of one TIFF field type. -/
def typeWidth (kind : ℕ) : Option ℕ :=
  if kind ∈ [1, 2, 6, 7] then some 1
  else if kind ∈ [3, 8] then some 2
  else if kind ∈ [4, 9, 11] then some 4
  else if kind ∈ [5, 10, 12] then some 8
  else none

/-- Where an entry's value lies: inside the entry, or at an offset into the block. -/
def valueStart (t : Tiff) (entry total : ℕ) : Except Trap (Option ℕ) := do
  let field ← add entry 8
  if total ≤ 4 then pure (some field) else t.u32At field

/-- An entry's value. -/
def valueOf (t : Tiff) (entry : ℕ) : Except Trap (Option (List UInt8)) := do
  match ← t.u16At (← add entry 2) with
  | some kind =>
    match ← t.u32At (← add entry 4) with
    | some count =>
      match (typeWidth kind).bind fun width => checkedMul width count with
      | some total =>
        match ← valueStart t entry total with
        | some start => pure ((checkedAdd start total).bind (range t.bytes start))
        | none => pure none
      | none => pure none
    | none => pure none
  | none => pure none

/-- Whether an entry holds exactly one value. -/
def countIsOne (t : Tiff) (entry : ℕ) : Except Trap Bool := do
  let count ← t.u32At (← add entry 4)
  pure (count = some 1)

/-- The single `u16` of an inline numeric entry. -/
def firstU16 (t : Tiff) (entry : ℕ) : Except Trap (Option ℕ) := do
  if ← countIsOne t entry then t.u16At (← add entry 8)
  else
    let wide ← t.u32At (← add entry 8)
    pure (wide.filter (· < 2 ^ 16))

/-- Numerator and denominator of a RATIONAL, in the entry's byte order. -/
def pair (t : Tiff) (raw : List UInt8) : Except Trap (Option (ℕ × ℕ)) := do
  if raw.length < 8 then pure none
  else
    let first ← word true 4 raw
    let second ← word true 4 (raw.drop 4)
    if t.little then pure (some (first, second)) else pure (some (second, first))

/-- A rational in so many parts of a unit, unless it is absent, or more than so many units. -/
def scaled (limit scale : ℕ) (ratio : Option (ℕ × ℕ)) : Except Trap (Option ℤ) :=
  match ratio with
  | some (num, den) =>
    if num = 0 ∨ den = 0 then pure none
    else do
      if (← mul den limit) < num then pure none
      else
        let n ← div (saturatingMul num scale) den
        pure ((toI32 n).filter (0 < ·))
  | none => pure none

/-- A rational, kept in thousandths. -/
def rationalX1000 (t : Tiff) (raw : List UInt8) : Except Trap (Option ℤ) := do scaled 3600 1000 (← pair t raw)

/-- A rational rounded to a whole unit. -/
def rationalRound (t : Tiff) (raw : List UInt8) : Except Trap (Option ℤ) := do
  let thousandths ← rationalX1000 t raw
  pure ((thousandths.map (· / 1000)).filter (0 < ·))

/-- A rational scaled to hundredths. -/
def rationalX100 (t : Tiff) (raw : List UInt8) : Except Trap (Option ℤ) := do scaled 128 100 (← pair t raw)

/-- An ASCII field as a trimmed string, or none when it is not one. -/
def text (raw : List UInt8) : Option String :=
  -- The declared count includes the NUL terminator.
  match String.fromUTF8? ⟨(raw.takeWhile (· ≠ 0)).toArray⟩ with
  | some decoded =>
    let value := Text.trim decoded
    if value = "" ∨ MAX_STRING_BYTES < value.utf8ByteSize then none else some value
  | none => none

/-! ### Dates -/

/-- `u8::is_ascii_digit`. -/
def isDigit (byte : UInt8) : Bool := 48 ≤ byte && byte ≤ 57

/-- What is asked of the bytes of a date. -/
inductive DateCheck where
  | digits (start stop : ℕ)
  | byte (i : ℕ) (expected : UInt8)
  deriving DecidableEq

/-- `YYYY:MM:DD HH:MM:SS`. -/
def dateShape : List DateCheck :=
  [.digits 0 4, .byte 4 58, .digits 5 7, .byte 7 58, .digits 8 10, .byte 10 32, .digits 11 13, .byte 13 58,
    .digits 14 16, .byte 16 58, .digits 17 19]

def DateCheck.passes (bytes : List UInt8) : DateCheck → Except Trap Bool
  | digits start stop => do
    let part ← slice bytes start stop
    pure (part.all isDigit)
  | byte i expected => do
    let found ← index bytes i
    pure (found = expected)

/-- One check after the other, until one fails. -/
def passAll (bytes : List UInt8) : List DateCheck → Except Trap Bool
  | [] => pure true
  | check :: checks => do
    if ← check.passes bytes then passAll bytes checks else pure false

/-- `str::is_char_boundary`. -/
def isCharBoundary (bytes : List UInt8) (i : ℕ) : Bool :=
  i = bytes.length || bytes[i]?.any fun byte => byte < 0x80 || 0xc0 ≤ byte

/-- `raw[start..stop]`, of a `str`. -/
def strSlice (bytes : List UInt8) (start stop : ℕ) : Except Trap (List UInt8) :=
  if isCharBoundary bytes start ∧ isCharBoundary bytes stop then slice bytes start stop else .error .outside

/-- `str::parse::<i32>` of digits. -/
def parseDigits (raw : List UInt8) : Option ℕ :=
  if raw ≠ [] ∧ raw.all isDigit then
    some (raw.foldl (fun n byte => n * 10 + (byte.toNat - 48)) 0)
  else none

/-- The numbers of a date: a year, a month, a day, an hour, a minute and a second. -/
def dateNumbers (bytes : List UInt8) : Except Trap (List (Option ℕ)) :=
  [(0, 4), (5, 7), (8, 10), (11, 13), (14, 16), (17, 19)].mapM fun place => do
    let part ← strSlice bytes place.1 place.2
    pure (parseDigits part)

/-- `YYYY:MM:DD HH:MM:SS` as written by a camera, as RFC 3339 without a zone. -/
def datetime (raw : String) : Except Trap (Option String) := do
  let bytes := utf8Bytes raw
  if bytes.length ≠ 19 then pure none
  else if ← passAll bytes dateShape then
    match ← dateNumbers bytes with
    | [some year, some month, some day, some hour, some minute, some second] =>
      if month < 1 ∨ 12 < month ∨ day < 1 ∨ 31 < day ∨ 23 < hour ∨ 59 < minute ∨ 60 < second ∨
        year < 1800 then pure none
      else
        pure (some (pad 4 year ++ "-" ++ pad 2 month ++ "-" ++ pad 2 day ++ "T" ++ pad 2 hour ++ ":" ++ pad 2 minute ++
          ":" ++ pad 2 second))
    | _ => pure none
  else pure none

/-! ### Directories -/

/-- A value that is there, as what it reads as. -/
def ofValue {α : Type} (bytes : Option (List UInt8)) (f : List UInt8 → Except Trap (Option α)) :
    Except Trap (Option α) :=
  match bytes with
  | some raw => f raw
  | none => pure none

/-- The orientation an entry gives. -/
def orientationOf (t : Tiff) (entry : ℕ) : Except Trap (Option ℤ) := do
  let value ← firstU16 t entry
  pure ((value.filter fun n => 1 ≤ n ∧ n ≤ 8).map Nat.cast)

/-- The ISO speed an entry gives. -/
def isoOf (t : Tiff) (entry : ℕ) : Except Trap (Option ℤ) := do
  match ← t.u16At (← add entry 8) with
  | some n => if ← countIsOne t entry then pure (some n) else pure none
  | none => pure none

/-- The date an entry gives. -/
def dateOf (raw : List UInt8) : Except Trap (Option String) :=
  match text raw with
  | some raw => datetime raw
  | none => pure none

/-- What an entry with a value writes into the record, but for a pointer to a sub-directory. -/
def record (t : Tiff) (entry : ℕ) (bytes : Option (List UInt8)) (out : Exif) (tag : ℕ) : Except Trap Exif :=
  if tag = 0x8825 then pure { out with gps := true }
  else if tag = 0x0112 then do return { out with orientation := ← ofValue bytes fun _ => orientationOf t entry }
  else if tag = 0x010f then pure { out with make := bytes.bind text }
  else if tag = 0x0110 then pure { out with model := bytes.bind text }
  else if tag = 0x0131 then pure { out with software := bytes.bind text }
  else if tag = 0x0132 then do return { out with capturedAt := ← ofValue bytes dateOf }
  else if tag = 0x9003 then do return { out with capturedAt := ← ofValue bytes dateOf }
  else if tag = 0x829a then do return { out with exposureMs := ← ofValue bytes (rationalX1000 t) }
  else if tag = 0x829d then do return { out with apertureX100 := ← ofValue bytes (rationalX100 t) }
  else if tag = 0x8827 then do return { out with iso := ← ofValue bytes fun _ => isoOf t entry }
  else if tag = 0x920a then do return { out with focalLengthMm := ← ofValue bytes (rationalRound t) }
  else if tag = 0xa434 then pure { out with lens := bytes.bind text }
  else pure out

/-- One entry of a directory; `follow` reads a sub-directory. -/
def readEntry (t : Tiff) (follow : ℕ → Exif → Except Trap Exif) (entry : ℕ) (out : Exif) : Except Trap Exif := do
  match ← t.u16At entry with
  | some tag =>
    let bytes ← valueOf t entry
    if tag = 0x8769 then
      match ← t.u32At (← add entry 8) with
      | some target => follow target out
      | none => pure out
    else record t entry bytes out tag
  | none => pure out

/-- The offset of an entry, counted from the start of its directory. -/
def entryAt (offset i : ℕ) : Option ℕ :=
  (checkedAdd offset 2).bind fun base => (checkedMul i 12).bind fun skipped => checkedAdd base skipped

/-- So many entries of a directory, from the `i`-th on. -/
def readEntries (t : Tiff) (follow : ℕ → Exif → Except Trap Exif) (offset : ℕ) : ℕ → ℕ → Exif → Except Trap Exif
  | 0, _, out => pure out
  | left + 1, i, out =>
    match entryAt offset i with
    | some entry => do readEntries t follow offset left (i + 1) (← readEntry t follow entry out)
    | none => pure out

/-- Read every recognised tag of one directory, and follow the sub-directory pointers, within so many levels. -/
def readIfd (t : Tiff) : (levels offset depth : ℕ) → Exif → Except Trap Exif
  | levels, offset, depth, out =>
    if 1 < depth then pure out
    else
      match levels with
      | 0 => .error .exhausted
      | levels + 1 => do
        match ← t.u16At offset with
        | some count => readEntries t (fun target => readIfd t levels target (depth + 1)) offset count 0 out
        | none => pure out

/-- Walk a TIFF block and fill the record with everything this reader understands. -/
def readTiff (levels : ℕ) (block : List UInt8) (out : Exif) : Except Trap Exif := do
  let order ← slice block 0 2
  let walk (little : Bool) : Except Trap Exif := do
    if range block 2 4 ≠ some [42, 0] ∧ range block 2 4 ≠ some [0, 42] then pure out
    else
      let t : Tiff := ⟨block, little⟩
      match ← t.u32At 4 with
      | some first => readIfd t levels first 0 out
      | none => pure out
  if order = [73, 73] then walk true else if order = [77, 77] then walk false else pure out

/-! ### Containers -/

/-- `Exif\0\0`. -/
def exifSignature : List UInt8 := [69, 120, 105, 102, 0, 0]

/-- A segment with a marker, at what follows it. -/
def jpegSegment (head : List UInt8) (marker : UInt8) (offset : ℕ) : Except Trap (ℕ ⊕ Option (List UInt8)) :=
  if marker = 0xda ∨ marker = 0xd9 then pure (.inr none)
  else if marker = 0xd8 ∨ marker = 0x01 ∨ 0xd0 ≤ marker ∧ marker ≤ 0xd7 then pure (.inl offset)
  else if marker = 0xe1 then do
    let length ← beU16 head offset
    if length < 8 then pure (.inr none)
    else
      let stop ← add offset length
      if head.length < stop then pure (.inr none)
      else
        let payload ← slice head (← add offset 2) stop
        pure (.inr (if exifSignature.isPrefixOf payload then some (payload.drop 6) else none))
  else do
    let next ← add offset 1
    if head.length < next then pure (.inr none)
    else
      let length ← beU16 head offset
      if length < 2 then pure (.inr none) else .inl <$> add offset length

/-- One turn of the walk through the segments. -/
def jpegTurn (head : List UInt8) (offset : ℕ) : Except Trap (ℕ ⊕ Option (List UInt8)) := do
  let last ← add offset 3
  if last < head.length then
    let byte ← index head offset
    if byte = 0xff then
      let marker ← index head (← add offset 1)
      jpegSegment head marker (← add offset 2)
    else .inl <$> add offset 1
  else pure (.inr none)

/-- The TIFF block of a JPEG's first `APP1` segment that carries the EXIF signature. -/
def jpegApp1 (turns : ℕ) (head : List UInt8) : Except Trap (Option (List UInt8)) := do
  if head.length < 4 then pure none
  else if (← index head 0) ≠ 0xff then pure none
  else if (← index head 1) ≠ 0xd8 then pure none
  else loop (jpegTurn head) turns 2

/-- `[head[offset], …, head[offset + 3]]`. -/
def quad (head : List UInt8) (offset : ℕ) : Except Trap (List UInt8) := do
  return [← index head offset, ← index head (← add offset 1), ← index head (← add offset 2),
    ← index head (← add offset 3)]

/-- The payload of a chunk, as far as it is in the prefix. -/
def payloadOf (head : List UInt8) (start stop : ℕ) : Except Trap (ℕ ⊕ Option (List UInt8)) := do
  let payload ← slice head start (min stop head.length)
  pure (.inr (some payload))

/-- One turn of the walk through the chunks of a PNG file. -/
def pngTurn (wanted head : List UInt8) (offset : ℕ) : Except Trap (ℕ ⊕ Option (List UInt8)) := do
  let last ← add offset 8
  if last ≤ head.length then
    let length ← word false 4 (← quad head offset)
    let id ← quad head (← add offset 4)
    let start ← add offset 8
    if head.length < start then pure (.inr none)
    else
      let stop := saturatingAdd start length
      if id = wanted then payloadOf head start stop
      -- `IEND` is the last chunk.
      else if id = [73, 69, 78, 68] then pure (.inr none)
      else pure (.inl (saturatingAdd stop 4))
  else pure (.inr none)

/-- `\x89PNG\r\n\x1a\n`. -/
def pngSignature : List UInt8 := [0x89, 80, 78, 71, 0x0d, 0x0a, 0x1a, 0x0a]

/-- The payload of a PNG chunk. -/
def pngChunk (turns : ℕ) (head wanted : List UInt8) : Except Trap (Option (List UInt8)) := do
  if head.length < 8 then pure none
  else if (← slice head 0 8) ≠ pngSignature then pure none
  else loop (pngTurn wanted head) turns 8

/-- One turn of the walk through the chunks of a RIFF file. -/
def riffTurn (wanted head : List UInt8) (offset : ℕ) : Except Trap (ℕ ⊕ Option (List UInt8)) := do
  let last ← add offset 8
  if last ≤ head.length then
    let id ← quad head offset
    let length ← word true 4 (← quad head (← add offset 4))
    let start ← add offset 8
    let stop := saturatingAdd start length
    if head.length < start then pure (.inr none)
    else if id = wanted then payloadOf head start stop
    -- A padding byte follows an odd-sized chunk.
    else .inl <$> add stop (length % 2)
  else pure (.inr none)

/-- The payload of a RIFF (WebP) or PNG chunk, from the container's first chunk onwards. -/
def chunk (turns : ℕ) (head wanted : List UInt8) : Except Trap (Option (List UInt8)) := do
  if head.length < 16 then pngChunk turns head wanted
  else if [82, 73, 70, 70].isPrefixOf head = false then pngChunk turns head wanted
  else if (← slice head 8 12) ≠ [87, 69, 66, 80] then pngChunk turns head wanted
  else loop (riffTurn wanted head) turns 12

/-- A PNG file with a block, as an `eXIf` chunk. -/
def pngOf (block : List UInt8) : List UInt8 :=
  pngSignature ++ [0, 0, 0, UInt8.ofNat block.length, 101, 88, 73, 102] ++ block

/-- The TIFF block of a file. -/
def blockOf (turns : ℕ) (contentType : String) (head : List UInt8) : Except Trap (Option (List UInt8)) :=
  if contentType = "image/jpeg" then jpegApp1 turns head
  else if contentType = "image/png" then chunk turns head [101, 88, 73, 102]
  else if contentType = "image/webp" then chunk turns head [69, 88, 73, 70]
  else pure none

/-- `read`, when a walk may take so many turns and directories be read to so many levels. -/
def readWithin (levels turns : ℕ) (contentType : String) (head : List UInt8) : Except Trap Exif := do
  match ← blockOf turns contentType head with
  | some block => if block.length < 8 then pure {} else readTiff levels block {}
  | none => pure {}

/-- Read the EXIF block out of a byte prefix, if the format carries one. -/
def read (contentType : String) (head : List UInt8) : Except Trap Exif :=
  readWithin 2 (head.length + 1) contentType head

/-! ### What a record holds -/

/-- A text that is kept: nothing is trimmed of it, and it is neither empty nor too long. -/
def IsText (s : String) : Prop := Text.trim s = s ∧ s ≠ "" ∧ s.utf8ByteSize ≤ MAX_STRING_BYTES

/-- An `i32` that is not negative. -/
def IsCount (n : ℤ) : Prop := 0 ≤ n ∧ n ≤ i32Max

/-- A text of ASCII characters that are neither blanks nor control characters. -/
def IsPrinted (s : String) : Prop := ∀ c ∈ s.toList, 0x20 < c.toNat ∧ c.toNat < 0x80

/-- A date and a time as they are written into the record: a year of four digits, and a hyphen after it. -/
def IsStamp (s : String) : Prop :=
  IsPrinted s ∧ ∃ year rest : String, s = year ++ "-" ++ rest ∧ (utf8Bytes year).length = 4

/-- **What a record holds.** -/
structure Legible (x : Exif) : Prop where
  make : ∀ s ∈ x.make, IsText s
  model : ∀ s ∈ x.model, IsText s
  lens : ∀ s ∈ x.lens, IsText s
  software : ∀ s ∈ x.software, IsText s
  capturedAt : ∀ s ∈ x.capturedAt, IsStamp s
  iso : ∀ n ∈ x.iso, IsCount n
  exposureMs : ∀ n ∈ x.exposureMs, IsCount n
  apertureX100 : ∀ n ∈ x.apertureX100, IsCount n
  focalLengthMm : ∀ n ∈ x.focalLengthMm, IsCount n
  orientation : ∀ n ∈ x.orientation, IsCount n

theorem legible_empty : Legible {} := by constructor <;> simp

/-! ### Words -/

variable {little : Bool} {raw bytes : List UInt8} {count offset entry : ℕ} {t : Tiff} {out : Exif}

theorem fromBytes_lt (little : Bool) (raw : List UInt8) : fromBytes little raw < 256 ^ raw.length := by
  unfold fromBytes
  split_ifs
  · simpa using Bytes.ofBe_lt raw.reverse
  · exact Bytes.ofBe_lt raw

theorem word_yields (h : count ≤ raw.length) : Yields (word little count raw) (· < 256 ^ count) := by
  refine ⟨_, if_pos h, ?_⟩
  have hlt := fromBytes_lt little (raw.take count)
  rwa [List.length_take, min_eq_left h] at hlt

/-- A word that is there lies in the block, and is no more than it can be. -/
def Fits (t : Tiff) (count offset : ℕ) (found : Option ℕ) : Prop :=
  ∀ n ∈ found, n < 256 ^ count ∧ offset + count ≤ t.bytes.length

theorem Tiff.wordAt_yields (t : Tiff) (count offset : ℕ) : Yields (t.wordAt count offset) (Fits t count offset) := by
  unfold wordAt
  split
  · rename_i raw hraw
    obtain ⟨stop, hstop, hrange⟩ := Option.bind_eq_some_iff.mp hraw
    obtain ⟨-, rfl⟩ := checkedAdd_eq_some.mp hstop
    have hlength := length_of_range hrange
    obtain ⟨-, hin, -⟩ := range_eq_some.mp hrange
    refine (word_yields (by omega)).map fun n hn m hm => ?_
    obtain rfl := Option.mem_some_iff.mp hm
    exact ⟨hn, hin⟩
  · exact yields_pure fun n hn => nomatch hn

theorem Tiff.u16At_yields (t : Tiff) (offset : ℕ) : Yields (t.u16At offset) (Fits t 2 offset) :=
    t.wordAt_yields 2 offset

theorem Tiff.u32At_yields (t : Tiff) (offset : ℕ) : Yields (t.u32At offset) (Fits t 4 offset) :=
    t.wordAt_yields 4 offset

theorem beU16_yields (h : bytes.length < sliceLimit) (offset : ℕ) : Yields (beU16 bytes offset) (· < 256 ^ 2) := by
  unfold beU16
  split
  · rename_i raw hraw
    have hlength := length_of_range hraw
    obtain ⟨-, hstop, -⟩ := range_eq_some.mp hraw
    refine word_yields ?_
    simp only [saturatingAdd, sliceLimit, wordMax] at *
    omega
  · exact yields_pure (by decide)

/-! ### Values -/

/-- There is room for the words of an entry after its offset. -/
def Near (entry : ℕ) : Prop := entry + 8 ≤ wordMax

theorem Near.add {k : ℕ} (h : Near entry) (hk : k ≤ 8) : Yields (add entry k) (· = entry + k) :=
  add_yields ((Nat.add_le_add_left hk entry).trans h)

theorem valueOf_yields (t : Tiff) (h : Near entry) : Yields (valueOf t entry) fun _ => True := by
  unfold valueOf
  refine (h.add (by decide)).bind fun _ _ => (t.u16At_yields _).bind fun kind _ => ?_
  cases kind with
  | none => exact yields_pure trivial
  | some kind =>
    refine (h.add (by decide)).bind fun _ _ => (t.u32At_yields _).bind fun count _ => ?_
    cases count with
    | none => exact yields_pure trivial
    | some count =>
      dsimp only
      split
      · rename_i total _
        have hstart : Yields (valueStart t entry total) fun _ => True := by
          unfold valueStart
          refine (h.add (by decide)).bind fun field _ => ?_
          split_ifs
          · exact yields_pure trivial
          · exact (t.u32At_yields field).mono fun _ _ => trivial
        refine hstart.bind fun start _ => ?_
        cases start <;> exact yields_pure trivial
      · exact yields_pure trivial

theorem countIsOne_yields (t : Tiff) (h : Near entry) : Yields (countIsOne t entry) fun _ => True :=
  (h.add (by decide)).bind fun _ _ => (t.u32At_yields _).bind fun _ _ => yields_pure trivial

/-- A `u16`, where there is one. -/
def IsU16 (found : Option ℕ) : Prop := ∀ n ∈ found, n < 256 ^ 2

theorem Fits.isU16 {found : Option ℕ} (h : Fits t 2 offset found) : IsU16 found := fun n hn => (h n hn).1

theorem firstU16_yields (t : Tiff) (h : Near entry) : Yields (firstU16 t entry) IsU16 := by
  refine (countIsOne_yields t h).bind fun one _ => ?_
  split_ifs
  · exact (h.add le_rfl).bind fun _ _ => (t.u16At_yields _).mono fun _ hfits => hfits.isU16
  · refine (h.add le_rfl).bind fun _ _ => (t.u32At_yields _).bind fun _ _ => yields_pure fun n hn => ?_
    simpa using (Option.mem_filter_iff.mp hn).2

/-- A count, where there is one. -/
def IsCounted (found : Option ℤ) : Prop := ∀ n ∈ found, IsCount n

theorem isCounted_none : IsCounted none := fun _ hn => nomatch hn

theorem isCount_of_u16 {n : ℕ} (h : n < 256 ^ 2) : IsCount n := by
  simp only [IsCount, i32Max]
  omega

theorem orientationOf_yields (t : Tiff) (h : Near entry) : Yields (orientationOf t entry) IsCounted := by
  refine (firstU16_yields t h).bind fun value hvalue => yields_pure fun n hn => ?_
  obtain ⟨m, hm, rfl⟩ := Option.map_eq_some_iff.mp hn
  exact isCount_of_u16 (hvalue m (Option.mem_filter_iff.mp hm).1)

theorem isoOf_yields (t : Tiff) (h : Near entry) : Yields (isoOf t entry) IsCounted := by
  refine (h.add le_rfl).bind fun _ _ => (t.u16At_yields _).bind fun value hvalue => ?_
  cases value with
  | none => exact yields_pure isCounted_none
  | some n =>
    refine (countIsOne_yields t h).bind fun one _ => ?_
    split_ifs
    · refine yields_pure fun m hm => ?_
      obtain rfl := Option.mem_some_iff.mp hm
      exact isCount_of_u16 (hvalue n rfl).1
    · exact yields_pure isCounted_none

theorem pair_yields (t : Tiff) (raw : List UInt8) :
    Yields (pair t raw) fun ratio => ∀ r ∈ ratio, r.1 < 256 ^ 4 ∧ r.2 < 256 ^ 4 := by
  unfold pair
  by_cases hshort : raw.length < 8
  · rw [if_pos hshort]
    exact yields_pure fun r hr => nomatch hr
  · rw [if_neg hshort]
    refine (word_yields (by omega)).bind fun first hfirst => (word_yields ?_).bind fun second hsecond => ?_
    · rw [List.length_drop]
      omega
    · split_ifs
      · refine yields_pure fun r hr => ?_
        obtain rfl := Option.mem_some_iff.mp hr
        exact ⟨hfirst, hsecond⟩
      · refine yields_pure fun r hr => ?_
        obtain rfl := Option.mem_some_iff.mp hr
        exact ⟨hsecond, hfirst⟩

theorem isCount_of_toI32 {n : ℕ} {m : ℤ} (h : toI32 n = some m) : IsCount m := by
  unfold toI32 at h
  split_ifs at h with hle
  cases h
  simp only [IsCount]
  omega

theorem scaled_yields {limit : ℕ} (hlimit : limit ≤ 256 ^ 4) (scale : ℕ) {ratio : Option (ℕ × ℕ)}
    (h : ∀ r ∈ ratio, r.1 < 256 ^ 4 ∧ r.2 < 256 ^ 4) : Yields (scaled limit scale ratio) IsCounted := by
  unfold scaled
  split
  · rename_i num den
    have hden : den < 256 ^ 4 := (h (num, den) rfl).2
    split_ifs with hzero
    · exact yields_pure isCounted_none
    · have hproduct : den * limit ≤ wordMax :=
        (Nat.mul_le_mul (Nat.le_sub_one_of_lt hden) hlimit).trans (by decide)
      refine (mul_yields hproduct).bind fun _ _ => ?_
      split_ifs
      · exact yields_pure isCounted_none
      · refine (div_yields fun hden => hzero (.inr hden)).bind fun _ _ => yields_pure fun n hn => ?_
        exact isCount_of_toI32 (Option.mem_filter_iff.mp hn).1
  · exact yields_pure isCounted_none

theorem rationalX1000_yields (t : Tiff) (raw : List UInt8) : Yields (rationalX1000 t raw) IsCounted :=
  (pair_yields t raw).bind fun _ hpair => scaled_yields (by decide) 1000 hpair

theorem rationalX100_yields (t : Tiff) (raw : List UInt8) : Yields (rationalX100 t raw) IsCounted :=
  (pair_yields t raw).bind fun _ hpair => scaled_yields (by decide) 100 hpair

theorem rationalRound_yields (t : Tiff) (raw : List UInt8) : Yields (rationalRound t raw) IsCounted := by
  refine (rationalX1000_yields t raw).bind fun thousandths hcounted => yields_pure fun n hn => ?_
  obtain ⟨m, hm, rfl⟩ := Option.map_eq_some_iff.mp (Option.mem_filter_iff.mp hn).1
  obtain ⟨hlow, hhigh⟩ := hcounted m hm
  simp only [IsCount] at *
  omega

theorem isText_of_text {s : String} (h : text raw = some s) : IsText s := by
  unfold text at h
  split at h
  · rename_i decoded _
    dsimp only at h
    split_ifs at h with hbad
    rw [not_or, not_lt] at hbad
    cases h
    exact ⟨Text.trim_trim decoded, hbad⟩
  · cases h

/-! ### Dates -/

/-- The places of a check are in a text of this length. -/
def DateCheck.Within (length : ℕ) : DateCheck → Prop
  | digits start stop => start ≤ stop ∧ stop ≤ length
  | byte i _ => i < length

/-- What it says of the bytes. -/
def DateCheck.Holds (bytes : List UInt8) : DateCheck → Prop
  | digits start stop => ((bytes.drop start).take (stop - start)).all isDigit = true
  | byte i expected => bytes[i]? = some expected

theorem passes_yields {check : DateCheck} (h : check.Within bytes.length) :
    Yields (check.passes bytes) fun passed => passed = true ↔ check.Holds bytes := by
  cases check with
  | digits start stop =>
    refine (slice_yields h.1 h.2).bind fun part hpart => yields_pure ?_
    rw [hpart]
    rfl
  | byte i expected =>
    refine (index_yields h).bind fun found hfound => yields_pure ?_
    rw [hfound, DateCheck.Holds, List.getElem?_eq_getElem h, decide_eq_true_iff, Option.some.injEq]

theorem passAll_yields {checks : List DateCheck} (h : ∀ check ∈ checks, check.Within bytes.length) :
    Yields (passAll bytes checks) fun passed => passed = true ↔ ∀ check ∈ checks, check.Holds bytes := by
  induction checks with
  | nil => exact yields_pure (by simp)
  | cons check checks ih =>
    rw [List.forall_mem_cons] at h
    refine (passes_yields h.1).bind fun passed hpassed => ?_
    split_ifs with hif
    · refine (ih h.2).mono fun rest hrest => ?_
      rw [hrest, List.forall_mem_cons]
      exact (and_iff_right (hpassed.mp hif)).symm
    · refine yields_pure ?_
      rw [List.forall_mem_cons, ← hpassed]
      simp [hif]

/-- A text ends at a character, -/
theorem isCharBoundary_length (bytes : List UInt8) : isCharBoundary bytes bytes.length = true := by
  simp [isCharBoundary]

/-- a character begins at an ASCII byte, -/
theorem isCharBoundary_of_byte {i : ℕ} {byte : UInt8} (h : (DateCheck.byte i byte).Holds bytes) (hascii : byte < 0x80) :
    isCharBoundary bytes i = true := by
  have hbyte : bytes[i]? = some byte := h
  simp [isCharBoundary, hbyte, hascii]

theorem lt_of_isDigit {byte : UInt8} (h : isDigit byte = true) : byte < 0x80 := by
  simp only [isDigit, Bool.and_eq_true, decide_eq_true_eq, UInt8.le_iff_toNat_le, UInt8.lt_iff_toNat_lt] at *
  exact h.2.trans_lt (by decide)

/-- and at a digit. -/
theorem isCharBoundary_of_digits {start stop : ℕ} (h : (DateCheck.digits start stop).Holds bytes) (hlt : start < stop)
    (hstop : stop ≤ bytes.length) : isCharBoundary bytes start = true := by
  have hstart : start < bytes.length := hlt.trans_le hstop
  refine isCharBoundary_of_byte (List.getElem?_eq_getElem hstart) (lt_of_isDigit ?_)
  refine List.all_eq_true.mp h _ (List.mem_iff_getElem.mpr ⟨0, ?_, ?_⟩)
  · rw [List.length_take, List.length_drop]
    omega
  · simp

theorem parseDigits_lt {n : ℕ} (h : parseDigits raw = some n) : n < 10 ^ raw.length := by
  unfold parseDigits at h
  split_ifs at h with hdigits
  obtain rfl := Option.some.inj h
  have hall := hdigits.2
  clear h hdigits
  induction raw using List.reverseRecOn with
  | nil => simp
  | append_singleton raw byte ih =>
    rw [List.all_append, Bool.and_eq_true] at hall
    have hbyte : byte.toNat ≤ 57 := by
      have hdigit : isDigit byte = true := by simpa using hall.2
      simp only [isDigit, Bool.and_eq_true, decide_eq_true_eq, UInt8.le_iff_toNat_le] at hdigit
      exact hdigit.2
    have hrest := ih hall.1
    rw [List.foldl_append, List.length_append, List.length_singleton, Nat.pow_succ]
    simp only [List.foldl_cons, List.foldl_nil]
    omega

/-- The numbers of a date have as many digits as there is room for. -/
theorem dateNumbers_yields (hlength : bytes.length = 19) (h : ∀ check ∈ dateShape, check.Holds bytes) :
    Yields (dateNumbers bytes) fun numbers =>
      List.Forall₂ (fun place number => ∀ n ∈ number, n < 10 ^ (place.2 - place.1 : ℕ))
        [(0, 4), (5, 7), (8, 10), (11, 13), (14, 16), (17, 19)] numbers := by
  have hstart : ∀ start stop, DateCheck.digits start stop ∈ dateShape → start < stop → stop ≤ bytes.length →
      isCharBoundary bytes start = true := fun start stop hmem hlt hstop =>
        isCharBoundary_of_digits (h _ hmem) hlt hstop
  have hstop : ∀ i byte, DateCheck.byte i byte ∈ dateShape → byte < 0x80 → isCharBoundary bytes i = true :=
    fun i byte hmem hascii => isCharBoundary_of_byte (h _ hmem) hascii
  refine mapM_yields fun place hplace => ?_
  have hslice : Yields (strSlice bytes place.1 place.2) fun part => part.length = place.2 - place.1 := by
    have hbounds : isCharBoundary bytes place.1 = true ∧ isCharBoundary bytes place.2 = true ∧ place.1 ≤ place.2 ∧
        place.2 ≤ bytes.length := by
      simp only [List.mem_cons, List.not_mem_nil, or_false] at hplace
      rcases hplace with rfl | rfl | rfl | rfl | rfl | rfl
      · exact ⟨hstart 0 4 (by decide) (by decide) (by omega), hstop 4 58 (by decide) (by decide), by decide, by omega⟩
      · exact ⟨hstart 5 7 (by decide) (by decide) (by omega), hstop 7 58 (by decide) (by decide), by decide, by omega⟩
      · exact ⟨hstart 8 10 (by decide) (by decide) (by omega), hstop 10 32 (by decide) (by decide), by decide, by omega⟩
      · exact ⟨hstart 11 13 (by decide) (by decide) (by omega), hstop 13 58 (by decide)
          (by decide), by decide, by omega⟩
      · exact ⟨hstart 14 16 (by decide) (by decide) (by omega), hstop 16 58 (by decide)
          (by decide), by decide, by omega⟩
      · refine ⟨hstart 17 19 (by decide) (by decide) (by omega), ?_, by decide, by omega⟩
        exact hlength ▸ isCharBoundary_length bytes
    obtain ⟨hleft, hright, hle, hin⟩ := hbounds
    rw [strSlice, if_pos ⟨hleft, hright⟩]
    refine (slice_yields hle hin).mono fun part hpart => ?_
    rw [hpart, List.length_take, List.length_drop]
    omega
  refine hslice.bind fun part hpart => yields_pure fun n hn => ?_
  rw [← hpart]
  exact parseDigits_lt hn

theorem isPrinted_pad (width n : ℕ) : IsPrinted (pad width n) := by
  intro c hc
  have hdigit := Char.isDigit_iff_toNat.mp (digit_of_mem_pad hc)
  exact ⟨lt_of_lt_of_le (by decide) hdigit.1, hdigit.2.trans_lt (by decide)⟩

theorem IsPrinted.append {s s' : String} (h : IsPrinted s) (h' : IsPrinted s') : IsPrinted (s ++ s') := by
  intro c hc
  rw [String.toList_append, List.mem_append] at hc
  exact hc.elim (h c) (h' c)

theorem isPrinted_stamp (year month day hour minute second : ℕ) :
    IsPrinted (pad 4 year ++ "-" ++ pad 2 month ++ "-" ++ pad 2 day ++ "T" ++ pad 2 hour ++ ":" ++ pad 2 minute ++
      ":" ++ pad 2 second) := by
  have hdash : IsPrinted "-" := by simp [IsPrinted]
  have hmark : IsPrinted "T" := by simp [IsPrinted]
  have hcolon : IsPrinted ":" := by simp [IsPrinted]
  have hdate := ((((isPrinted_pad 4 year).append hdash).append (isPrinted_pad 2 month)).append hdash).append
    (isPrinted_pad 2 day)
  have hhour := (hdate.append hmark).append (isPrinted_pad 2 hour)
  exact (((hhour.append hcolon).append (isPrinted_pad 2 minute)).append hcolon).append (isPrinted_pad 2 second)

theorem length_pad {width n : ℕ} (h : n < 10 ^ width) (hwidth : 0 < width) :
    (utf8Bytes (pad width n)).length = width := by
  have hdigits : (Nat.toDigits 10 n).length ≤ width := (Nat.length_toDigits_le_iff (by decide) hwidth).mpr h
  have hascii : ∀ c ∈ (pad width n).toList, c.utf8Size = 1 := by
    intro c hc
    rw [Char.utf8Size_eq_one_iff, UInt32.le_iff_toNat_le]
    exact Nat.le_of_lt_succ (isPrinted_pad width n c hc).2
  rw [← String.ofList_toList (s := pad width n), Identity.WebAuthn.utf8Bytes_ofList, List.length_flatMap]
  simp only [String.length_utf8EncodeChar]
  rw [List.map_congr_left hascii, List.map_const', List.sum_replicate_nat, Nat.mul_one, pad, String.toList_ofList,
    List.length_append, List.length_replicate]
  omega

/-- **A date is read to its end**, and written with a year of four digits and a hyphen. -/
theorem datetime_yields (raw : String) : Yields (datetime raw) fun stamp => ∀ s ∈ stamp, IsStamp s := by
  unfold datetime
  dsimp only
  by_cases hlength : (utf8Bytes raw).length = 19
  · rw [if_neg (not_not.mpr hlength)]
    have hwithin : ∀ check ∈ dateShape, check.Within (utf8Bytes raw).length := by
      rw [hlength]
      simp [dateShape, DateCheck.Within]
    refine (passAll_yields hwithin).bind fun passed hpassed => ?_
    by_cases hif : passed = true
    · rw [if_pos hif]
      refine (dateNumbers_yields hlength (hpassed.mp hif)).bind fun numbers hnumbers => ?_
      split
      · rename_i year month day hour minute second
        by_cases hrange : month < 1 ∨ 12 < month ∨ day < 1 ∨ 31 < day ∨ 23 < hour ∨ 59 < minute ∨
          60 < second ∨ year < 1800
        · rw [if_pos hrange]
          exact yields_pure fun s hs => nomatch hs
        · rw [if_neg hrange]
          refine yields_pure fun s hs => ?_
          obtain rfl := Option.mem_some_iff.mp hs
          obtain ⟨hyear, -⟩ := List.forall₂_cons.mp hnumbers
          exact ⟨isPrinted_stamp year month day hour minute second, pad 4 year, _,
            by simp only [String.append_assoc]; rfl, length_pad (hyear year rfl) (by decide)⟩
      · exact yields_pure fun s hs => nomatch hs
    · rw [if_neg hif]
      exact yields_pure fun s hs => nomatch hs
  · rw [if_pos hlength]
    exact yields_pure fun s hs => nomatch hs

theorem dateOf_yields (raw : List UInt8) : Yields (dateOf raw) fun stamp => ∀ s ∈ stamp, IsStamp s := by
  unfold dateOf
  split
  · exact datetime_yields _
  · refine yields_pure fun s hs => ?_
    cases hs

/-! ### Directories -/

theorem ofValue_yields {α : Type} {f : List UInt8 → Except Trap (Option α)} {p : Option α → Prop} (hnone : p none)
    (h : ∀ raw, Yields (f raw) p) (bytes : Option (List UInt8)) : Yields (ofValue bytes f) p := by
  cases bytes with
  | none => exact yields_pure hnone
  | some raw => exact h raw

theorem isText_of_bind {bytes : Option (List UInt8)} : ∀ s ∈ bytes.bind text, IsText s := by
  intro s hs
  obtain ⟨raw, -, hraw⟩ := Option.bind_eq_some_iff.mp hs
  exact isText_of_text hraw

/-- **What an entry writes is legible.** -/
theorem record_yields (t : Tiff) (h : Near entry) (bytes : Option (List UInt8)) (hout : Legible out) (tag : ℕ) :
    Yields (record t entry bytes out tag) Legible := by
  have hnone : ∀ s ∈ (none : Option String), IsStamp s := fun s hs => nomatch hs
  have hwrite : ∀ {α : Type} {p : Option α → Prop} {value : Except Trap (Option α)} {f : Option α → Exif},
      Yields value p → (∀ v, p v → Legible (f v)) → Yields (do return f (← value)) Legible :=
    fun hvalue hf => hvalue.bind fun v hv => yields_pure (hf v hv)
  unfold record
  refine yields_ite (fun _ => yields_pure { hout with }) fun _ => ?_
  refine yields_ite (fun _ => hwrite (ofValue_yields isCounted_none (fun _ => orientationOf_yields t h) bytes)
    fun _ hv => { hout with orientation := hv }) fun _ => ?_
  refine yields_ite (fun _ => yields_pure { hout with make := isText_of_bind }) fun _ => ?_
  refine yields_ite (fun _ => yields_pure { hout with model := isText_of_bind }) fun _ => ?_
  refine yields_ite (fun _ => yields_pure { hout with software := isText_of_bind }) fun _ => ?_
  refine yields_ite (fun _ => hwrite (ofValue_yields hnone dateOf_yields bytes)
    fun _ hv => { hout with capturedAt := hv }) fun _ => ?_
  refine yields_ite (fun _ => hwrite (ofValue_yields hnone dateOf_yields bytes)
    fun _ hv => { hout with capturedAt := hv }) fun _ => ?_
  refine yields_ite (fun _ => hwrite (ofValue_yields isCounted_none (rationalX1000_yields t) bytes)
    fun _ hv => { hout with exposureMs := hv }) fun _ => ?_
  refine yields_ite (fun _ => hwrite (ofValue_yields isCounted_none (rationalX100_yields t) bytes)
    fun _ hv => { hout with apertureX100 := hv }) fun _ => ?_
  refine yields_ite (fun _ => hwrite (ofValue_yields isCounted_none (fun _ => isoOf_yields t h) bytes)
    fun _ hv => { hout with iso := hv }) fun _ => ?_
  refine yields_ite (fun _ => hwrite (ofValue_yields isCounted_none (rationalRound_yields t) bytes)
    fun _ hv => { hout with focalLengthMm := hv }) fun _ => ?_
  exact yields_ite (fun _ => yields_pure { hout with lens := isText_of_bind }) fun _ => yields_pure hout

variable {follow : ℕ → Exif → Except Trap Exif}

theorem readEntry_yields (hsmall : t.bytes.length < sliceLimit)
    (hfollow : ∀ target out, Legible out → Yields (follow target out) Legible) (hout : Legible out) (entry : ℕ) :
    Yields (readEntry t follow entry out) Legible := by
  refine (t.u16At_yields entry).bind fun tag htag => ?_
  cases tag with
  | none => exact yields_pure hout
  | some tag =>
    -- The tag lies in the block, and no offset in it is near the greatest word.
    have hnear : Near entry := by
      have hin := (htag tag rfl).2
      simp only [Near, sliceLimit, wordMax] at *
      omega
    refine (valueOf_yields t hnear).bind fun bytes _ => ?_
    by_cases hpointer : tag = 0x8769
    · rw [if_pos hpointer]
      refine (hnear.add le_rfl).bind fun _ _ => (t.u32At_yields _).bind fun target _ => ?_
      cases target with
      | none => exact yields_pure hout
      | some target => exact hfollow target out hout
    · rw [if_neg hpointer]
      exact record_yields t hnear bytes hout tag

theorem readEntries_yields (hsmall : t.bytes.length < sliceLimit)
    (hfollow : ∀ target out, Legible out → Yields (follow target out) Legible) (left i : ℕ) (hout : Legible out) :
    Yields (readEntries t follow offset left i out) Legible := by
  induction left generalizing i out with
  | zero => exact yields_pure hout
  | succ left ih =>
    unfold readEntries
    split
    · exact (readEntry_yields hsmall hfollow hout _).bind fun out hout => ih (i + 1) hout
    · exact yields_pure hout

theorem readIfd_below {depth : ℕ} (h : 1 < depth) (levels : ℕ) : readIfd t levels offset depth out = pure out := by
  unfold readIfd
  rw [if_pos h]

/-- **A directory is read to its end**, within the levels that are left. -/
theorem readIfd_yields (hsmall : t.bytes.length < sliceLimit) {levels depth : ℕ} (hlevels : 2 ≤ levels + depth)
    (offset : ℕ) (hout : Legible out) : Yields (readIfd t levels offset depth out) Legible := by
  induction levels generalizing offset depth out with
  | zero =>
    rw [readIfd_below (by omega)]
    exact yields_pure hout
  | succ levels ih =>
    unfold readIfd
    by_cases hdeep : 1 < depth
    · rw [if_pos hdeep]
      exact yields_pure hout
    · rw [if_neg hdeep]
      refine (t.u16At_yields offset).bind fun count _ => ?_
      cases count with
      | none => exact yields_pure hout
      | some count =>
        exact readEntries_yields hsmall (fun target out hout => ih (by omega) target hout) count 0 hout

theorem readIfd_succ {depth : ℕ} (h : depth ≤ 1) (levels : ℕ) : readIfd t (levels + 1) offset depth out = (do
    match ← t.u16At offset with
    | some count => readEntries t (fun target => readIfd t levels target (depth + 1)) offset count 0 out
    | none => pure out) := by
  rw [readIfd, if_neg (not_lt.mpr h)]

/-- **Two levels are enough**, and more change nothing. -/
theorem readIfd_levels {levels : ℕ} (h : 2 ≤ levels) : readIfd t levels offset 0 out = readIfd t 2 offset 0 out := by
  obtain ⟨levels, rfl⟩ := Nat.exists_eq_add_of_le' h
  have hthird : ∀ levels, (fun target => readIfd t levels target (1 + 1)) = fun _ out => pure out := by
    intro levels
    funext target out
    exact readIfd_below (by decide) levels
  have hsecond : (fun target => readIfd t (levels + 1) target (0 + 1)) = fun target => readIfd t 1 target (0 + 1) := by
    funext target out
    rw [readIfd_succ le_rfl, readIfd_succ le_rfl, hthird levels, hthird 0]
  rw [readIfd_succ (by decide), readIfd_succ (by decide), hsecond]

theorem readTiff_yields {block : List UInt8} (hsmall : block.length < sliceLimit) (hheader : 8 ≤ block.length)
    {levels : ℕ} (hlevels : 2 ≤ levels) (hout : Legible out) : Yields (readTiff levels block out) Legible := by
  have hwalk : ∀ little, Yields (do
      match ← (Tiff.mk block little).u32At 4 with
      | some first => readIfd (Tiff.mk block little) levels first 0 out
      | none => pure out) Legible := by
    intro little
    refine (Tiff.u32At_yields _ 4).bind fun first _ => ?_
    cases first with
    | none => exact yields_pure hout
    | some first => exact readIfd_yields (t := ⟨block, little⟩) hsmall (by omega) first hout
  refine (slice_yields (by decide) (by omega)).bind fun order _ => ?_
  refine yields_ite (fun _ => yields_ite (fun _ => yields_pure hout) fun _ => hwalk true) fun _ => ?_
  exact yields_ite (fun _ => yields_ite (fun _ => yields_pure hout) fun _ => hwalk false) fun _ => yields_pure hout

theorem readTiff_levels {levels : ℕ} (h : 2 ≤ levels) (block : List UInt8) (out : Exif) :
    readTiff levels block out = readTiff 2 block out := by
  simp only [readTiff, readIfd_levels h]

/-! ### Containers -/

variable {head wanted : List UInt8}

/-- A block that was found is no longer than the bytes it was found in. -/
def Inside (head : List UInt8) (block : Option (List UInt8)) : Prop := ∀ b ∈ block, b.length ≤ head.length

theorem inside_none : Inside head none := fun _ hb => nomatch hb

/-- An offset is not far behind the bytes. -/
def Close (head : List UInt8) (offset : ℕ) : Prop := offset ≤ head.length + 2 ^ 33

/-- What a turn is to yield: an offset further behind, or an end. -/
abbrev Walks (head : List UInt8) (offset : ℕ) : ℕ ⊕ Option (List UInt8) → Prop :=
  Turns (Close head) (fun offset => head.length - offset) (Inside head) offset

theorem walks_done : Walks head offset (.inr none) := inside_none

theorem walks_on {next : ℕ} (hin : offset < head.length) (hnext : offset < next) (hclose : Close head next) :
    Walks head offset (.inl next) :=
  ⟨hclose, Nat.sub_lt_sub_left hin hnext⟩

theorem walks_found {block : List UInt8} (h : block.length ≤ head.length) : Walks head offset (.inr (some block)) := by
  intro b hb
  obtain rfl := Option.mem_some_iff.mp hb
  exact h

theorem Close.add (hsmall : head.length < sliceLimit) (h : Close head offset) {k : ℕ} (hk : k ≤ 2 ^ 33) :
    Yields (add offset k) (· = offset + k) := by
  refine add_yields ?_
  simp only [Close, sliceLimit, wordMax] at *
  omega

theorem length_of_slice {start stop : ℕ} {payload : List UInt8} (h : payload = (head.drop start).take (stop - start)) :
    payload.length ≤ head.length := by
  rw [h, List.length_take, List.length_drop]
  omega

theorem jpegSegment_yields (hsmall : head.length < sliceLimit) {start : ℕ} (hin : start + 3 < head.length)
    (marker : UInt8) : Yields (jpegSegment head marker (start + 2)) (Walks head start) := by
  have hclose : Close head (start + 2) := by
    simp only [Close]
    omega
  refine yields_ite (fun _ => yields_pure walks_done) fun _ => ?_
  refine yields_ite (fun _ => yields_pure (walks_on (by omega) (by omega) hclose)) fun _ => ?_
  refine yields_ite (fun _ => ?_) fun _ => ?_
  · refine (beU16_yields hsmall _).bind fun length hlength =>
      yields_ite (fun _ => yields_pure walks_done) fun hlong => ?_
    refine (hclose.add hsmall (by omega)).bind fun stop hstop => ?_
    refine yields_ite (fun _ => yields_pure walks_done) fun hwithin => ?_
    refine (hclose.add hsmall (by decide)).bind fun first hfirst => ?_
    refine (slice_yields (by omega) (by omega)).bind fun payload hpayload => yields_pure ?_
    have hpayload := length_of_slice hpayload
    split_ifs
    · refine walks_found ?_
      rw [List.length_drop]
      omega
    · exact walks_done
  · refine (hclose.add hsmall (by decide)).bind fun next _ => yields_ite (fun _ => yields_pure walks_done) fun _ => ?_
    refine (beU16_yields hsmall _).bind fun length hlength => yields_ite (fun _ => yields_pure walks_done) fun _ => ?_
    refine (hclose.add hsmall (by omega)).map fun stop hstop => walks_on (by omega) (by omega) ?_
    simp only [Close]
    omega

theorem jpegTurn_yields (hsmall : head.length < sliceLimit) (offset : ℕ) (hclose : Close head offset) :
    Yields (jpegTurn head offset) (Walks head offset) := by
  refine (hclose.add hsmall (by decide)).bind fun last hlast => yields_ite (fun hin => ?_) fun _ =>
    yields_pure walks_done
  refine (index_yields (by omega)).bind fun byte _ => yields_ite (fun _ => ?_) fun _ => ?_
  · refine (hclose.add hsmall (by decide)).bind fun next hnext => (index_yields (by omega)).bind fun marker _ => ?_
    refine (hclose.add hsmall (by decide)).bind fun start hstart => ?_
    rw [hstart]
    exact jpegSegment_yields hsmall (by omega) marker
  · refine (hclose.add hsmall (by decide)).map fun next hnext => walks_on (by omega) (by omega) ?_
    simp only [Close]
    omega

/-- Some value comes of a computation with turns, whatever their number, if there are more of them than bytes. -/
abbrev Settles (head : List UInt8) (m : ℕ → Except Trap (Option (List UInt8))) : Prop :=
  Guarded.Settles head.length m (Inside head)

theorem settles_none : Settles head fun _ => pure none := settles_of_yields (yields_pure inside_none) _

theorem jpegApp1_settles (hsmall : head.length < sliceLimit) : Settles head fun turns => jpegApp1 turns head := by
  refine settles_ite (fun _ => settles_none) fun hlong => ?_
  refine settles_bind (index_yields (by omega)) fun _ _ => settles_ite (fun _ => settles_none) fun _ => ?_
  refine settles_bind (index_yields (by omega)) fun _ _ => settles_ite (fun _ => settles_none) fun _ => ?_
  refine loop_settles (jpegTurn_yields hsmall) ?_ (Nat.sub_le ..)
  simp only [Close]
  omega

theorem quad_yields (hsmall : head.length < sliceLimit) (hin : offset + 4 ≤ head.length) :
    Yields (quad head offset) (·.length = 4) := by
  have hclose : Close head offset := by
    simp only [Close]
    omega
  refine (index_yields (by omega)).bind fun _ _ => ?_
  refine (hclose.add hsmall (by decide)).bind fun _ h => (index_yields (by omega)).bind fun _ _ => ?_
  refine (hclose.add hsmall (by decide)).bind fun _ h => (index_yields (by omega)).bind fun _ _ => ?_
  refine (hclose.add hsmall (by decide)).bind fun _ h => (index_yields (by omega)).bind fun _ _ => ?_
  exact yields_pure rfl

theorem payloadOf_yields {start stop : ℕ} (hle : start ≤ stop) (hin : start ≤ head.length) :
    Yields (payloadOf head start stop) (Walks head offset) :=
  (slice_yields (le_min hle hin) (Nat.min_le_right ..)).bind fun _ hpayload =>
    yields_pure (walks_found (length_of_slice hpayload))

theorem le_saturatingAdd {n k : ℕ} (h : n ≤ wordMax) : n ≤ saturatingAdd n k := le_min (Nat.le_add_right n k) h

theorem saturatingAdd_le (n k : ℕ) : saturatingAdd n k ≤ n + k := Nat.min_le_left ..

theorem pngTurn_yields (hsmall : head.length < sliceLimit) (offset : ℕ) (hclose : Close head offset) :
    Yields (pngTurn wanted head offset) (Walks head offset) := by
  refine (hclose.add hsmall (by decide)).bind fun last hlast => yields_ite (fun hin => ?_) fun _ =>
    yields_pure walks_done
  refine (quad_yields hsmall (by omega)).bind fun raw hraw => (word_yields hraw.ge).bind fun length hlength => ?_
  refine (hclose.add hsmall (by decide)).bind fun next hnext => (quad_yields hsmall (by omega)).bind fun id _ => ?_
  refine (hclose.add hsmall (by decide)).bind fun start hstart => yields_ite
    (fun _ => yields_pure walks_done) fun _ => ?_
  have hword : start ≤ wordMax := by
    simp only [sliceLimit, wordMax] at *
    omega
  have hstop : start ≤ saturatingAdd start length := le_saturatingAdd hword
  have hend := saturatingAdd_le start length
  refine yields_ite (fun _ => payloadOf_yields hstop (by omega)) fun _ => ?_
  refine yields_ite (fun _ => yields_pure walks_done) fun _ => yields_pure (walks_on (by omega) ?_ ?_)
  · refine lt_of_lt_of_le ?_ (le_saturatingAdd ((saturatingAdd_le start length).trans ?_))
    · omega
    · simp only [sliceLimit, wordMax] at *
      omega
  · have hskip := saturatingAdd_le (saturatingAdd start length) 4
    simp only [Close]
    omega

theorem pngChunk_settles (hsmall : head.length < sliceLimit) (wanted : List UInt8) :
    Settles head fun turns => pngChunk turns head wanted := by
  refine settles_ite (fun _ => settles_none) fun hlong => ?_
  refine settles_bind (slice_yields (by decide) (by omega)) fun _ _ => settles_ite (fun _ => settles_none) fun _ => ?_
  refine loop_settles (pngTurn_yields hsmall) ?_ (Nat.sub_le ..)
  simp only [Close]
  omega

theorem riffTurn_yields (hsmall : head.length < sliceLimit) (offset : ℕ) (hclose : Close head offset) :
    Yields (riffTurn wanted head offset) (Walks head offset) := by
  refine (hclose.add hsmall (by decide)).bind fun last hlast => yields_ite (fun hin => ?_) fun _ =>
    yields_pure walks_done
  refine (quad_yields hsmall (by omega)).bind fun id _ => ?_
  refine (hclose.add hsmall (by decide)).bind fun next hnext => (quad_yields hsmall (by omega)).bind fun raw hraw => ?_
  refine (word_yields hraw.ge).bind fun length hlength => (hclose.add hsmall (by decide)).bind fun start hstart => ?_
  have hword : start ≤ wordMax := by
    simp only [sliceLimit, wordMax] at *
    omega
  have hstop : start ≤ saturatingAdd start length := le_saturatingAdd hword
  have hend := saturatingAdd_le start length
  refine yields_ite (fun _ => yields_pure walks_done) fun _ => ?_
  refine yields_ite (fun _ => payloadOf_yields hstop (by omega)) fun _ => ?_
  -- The end of the chunk, and a padding byte.
  have hclose' : Close head (saturatingAdd start length) := by
    simp only [Close]
    omega
  refine (hclose'.add hsmall (by omega)).map fun next hnext => walks_on (by omega) (by omega) ?_
  simp only [Close]
  omega

theorem chunk_settles (hsmall : head.length < sliceLimit) (wanted : List UInt8) :
    Settles head fun turns => chunk turns head wanted := by
  have hpng := pngChunk_settles hsmall wanted
  refine settles_ite (fun _ => hpng) fun hlong => settles_ite (fun _ => hpng) fun _ => ?_
  refine settles_bind (slice_yields (by decide) (by omega)) fun _ _ => settles_ite (fun _ => hpng) fun _ => ?_
  refine loop_settles (riffTurn_yields hsmall) ?_ (Nat.sub_le ..)
  simp only [Close]
  omega

theorem blockOf_settles (hsmall : head.length < sliceLimit) (contentType : String) :
    Settles head fun turns => blockOf turns contentType head := by
  refine settles_ite (fun _ => jpegApp1_settles hsmall) fun _ => ?_
  refine settles_ite (fun _ => chunk_settles hsmall _) fun _ => settles_ite
    (fun _ => chunk_settles hsmall _) fun _ => ?_
  exact settles_none

theorem readWithin_legible (hsmall : head.length < sliceLimit) (contentType : String) :
    ∃ x, Legible x ∧ ∀ levels turns, 2 ≤ levels → head.length < turns →
      readWithin levels turns contentType head = .ok x := by
  obtain ⟨block, hinside, hblock⟩ := blockOf_settles hsmall contentType
  dsimp only at hblock
  cases block with
  | none => exact ⟨{}, legible_empty, fun levels turns _ hturns => by rw [readWithin, hblock turns hturns]; rfl⟩
  | some block =>
    by_cases hshort : block.length < 8
    · refine ⟨{}, legible_empty, fun levels turns _ hturns => ?_⟩
      rw [readWithin, hblock turns hturns]
      exact if_pos hshort
    · obtain ⟨x, hread, hlegible⟩ := readTiff_yields ((hinside block rfl).trans_lt hsmall) (not_lt.mp hshort) le_rfl
        legible_empty
      refine ⟨x, hlegible, fun levels turns hlevels hturns => ?_⟩
      rw [readWithin, hblock turns hturns, ← hread, ← readTiff_levels hlevels]
      exact if_neg hshort

/-- **The reader answers**, whatever the bytes are: without an index outside them and without an overflow, in no more
turns of a walk than there are bytes, and with two levels of directories; more of either change nothing. -/
theorem readWithin_answers (contentType : String) (head : List UInt8) (h : head.length < sliceLimit) :
    ∃ x, read contentType head = .ok x ∧ ∀ levels turns, 2 ≤ levels → head.length < turns →
      readWithin levels turns contentType head = .ok x := by
  obtain ⟨x, -, hread⟩ := readWithin_legible h contentType
  exact ⟨x, hread 2 _ le_rfl (Nat.lt_succ_self _), hread⟩

/-- A JPEG file with a block in its second segment: an orientation, a sub-directory at 38, and in it an ISO speed
and an aperture whose value lies at 68. -/
def photo : List UInt8 :=
  [0xff, 0xd8, 0xff, 0xe0, 0, 4, 0, 0, 0xff, 0xe1, 0, 84] ++ exifSignature ++
    [73, 73, 42, 0, 8, 0, 0, 0, 2, 0, 0x12, 0x01, 3, 0, 1, 0, 0, 0, 6, 0, 0, 0, 0x69, 0x87, 4, 0, 1, 0, 0, 0, 38, 0, 0, 0,
      0, 0, 0, 0, 2, 0, 0x27, 0x88, 3, 0, 1, 0, 0, 0, 200, 0, 0, 0, 0x9d, 0x82, 5, 0, 1, 0, 0, 0, 68, 0, 0, 0, 0, 0, 0, 0,
      28, 0, 0, 0, 10, 0, 0, 0] ++ [0xff, 0xd9]

theorem readWithin_answers_photo :
    read "image/jpeg" photo = .ok { orientation := some 6, iso := some 200, apertureX100 := some 280 } ∧
      ∃ x, read "image/jpeg" photo = .ok x ∧ ∀ levels turns, 2 ≤ levels → photo.length < turns →
        readWithin levels turns "image/jpeg" photo = .ok x :=
  ⟨by decide +kernel, readWithin_answers "image/jpeg" photo (by decide)⟩

end Omnion.Media.ExifReader
