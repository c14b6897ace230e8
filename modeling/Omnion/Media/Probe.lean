import Omnion.Core.Json
import Omnion.Core.NetText
import Omnion.Core.Utf8
import Omnion.Library.Words
import Omnion.Media.Exif

/-!
# What a header says

`crates/media/src/probe.rs`: the size of a picture, the playing time of a film and the page count of a document are
read out of the first bytes of a file. The bytes are whatever was uploaded, and the walks through segments, boxes and
elements go by the sizes these declare.

## The model

Every index, slice and sum that can fail in the code can in the model (`Guarded`), and a walk may take so many turns
(`probeWithin`). A text is the list of its characters, so that a place in it is at a character. What a float says is
computed with exact numbers and rounded as the code rounds.

## What is proved

* `probePng_yields` and its kin — each reader of pictures, sounds and documents comes to an end, with a canvas of two
  positive sides or without one, whatever the bytes are.

## Honest scope

A slice is no longer than `isize::MAX`; `usize` has 64 bits. Memory is not modelled.
-/

namespace Omnion.Media.HeaderProbe

open Guarded
open ExifReader (fromBytes word quad toI32 i32Max pngSignature)
open Text (fromUtf8Lossy splitOnce parseI32 isWhitespace)

/-- What the header of a file says about it. -/
structure MediaProbe where
  width : Option ℤ := none
  height : Option ℤ := none
  durationMs : Option ℤ := none
  pageCount : Option ℤ := none
  deriving DecidableEq

/-! ### Small readers -/

/-- The bytes of an ASCII text. -/
def ascii (text : String) : List UInt8 := text.toList.map fun c => UInt8.ofNat c.toNat

/-- A word at an offset, or 0 when the prefix is too short. -/
def wordOr0 (little : Bool) (count : ℕ) (bytes : List UInt8) (offset : ℕ) : Except Trap ℕ :=
  match range bytes offset (saturatingAdd offset count) with
  | some raw => word little count raw
  | none => pure 0

/-- `be_u32`. -/
def beU32 (bytes : List UInt8) (offset : ℕ) : Except Trap ℕ := wordOr0 false 4 bytes offset

/-- `le_u16`. -/
def leU16 (bytes : List UInt8) (offset : ℕ) : Except Trap ℕ := wordOr0 true 2 bytes offset

/-- `le_u32`. -/
def leU32 (bytes : List UInt8) (offset : ℕ) : Except Trap ℕ := wordOr0 true 4 bytes offset

/-- `from_le_bytes` and `from_be_bytes` of `[head[offset], head[offset + 1]]`. -/
def pairAt (little : Bool) (head : List UInt8) (offset : ℕ) : Except Trap ℕ := do
  return fromBytes little [← index head offset, ← index head (← add offset 1)]

/-- An `i16` of its bits. -/
def toI16 (n : ℕ) : ℤ := if n < 0x8000 then n else n - 0x10000

/-- `as i32`. -/
def asI32 (n : ℕ) : ℤ := if n % 0x100000000 < 0x80000000 then n % 0x100000000 else n % 0x100000000 - 0x100000000

/-- Pair a width and a height, refusing a zero or absent axis. -/
def dimensions (width height : Option ℤ) : MediaProbe :=
  match width, height with
  | some w, some h => if 0 < w ∧ 0 < h then { width := some w, height := some h } else {}
  | _, _ => {}

/-! ### Pictures -/

/-- PNG: the size is at a fixed offset. -/
def probePng (head : List UInt8) : Except Trap MediaProbe := do
  if head.length < 16 + 8 then pure {}
  else if (← slice head 0 8) ≠ pngSignature then pure {}
  else if (← slice head 12 16) ≠ ascii "IHDR" then pure {}
  else return dimensions (toI32 (← beU32 head 16)) (toI32 (← beU32 head (16 + 4)))

/-- GIF: the logical screen descriptor is behind the signature. -/
def probeGif (head : List UInt8) : Except Trap MediaProbe := do
  if head.length < 10 then pure {}
  else if !((ascii "GIF87a").isPrefixOf head || (ascii "GIF89a").isPrefixOf head) then pure {}
  else
    let width ← leU16 head 6
    let height ← leU16 head 8
    pure (dimensions (some width) (some height))

/-- BMP: a file header, then the `BITMAPINFOHEADER`. -/
def probeBmp (head : List UInt8) : Except Trap MediaProbe := do
  if head.length < 26 ∨ (ascii "BM").isPrefixOf head = false then pure {}
  else
    let width ← pairAt true head 18
    let height ← pairAt true head 20
    pure (dimensions (some (toI16 width)) (some (toI16 height).natAbs))

/-- `read_u16` of a TIFF file. -/
def readU16 (little : Bool) (head : List UInt8) (offset : ℕ) : Except Trap (Option ℕ) := do
  if head.length < (← add offset 2) then pure none else some <$> pairAt little head offset

/-- `read_u32` of a TIFF file. -/
def readU32 (little : Bool) (head : List UInt8) (offset : ℕ) : Except Trap (Option ℕ) := do
  if head.length < (← add offset 4) then pure none else some <$> fromBytes little <$> quad head offset

/-- So many entries of a directory, from one of them on: the width and the height. -/
def tiffEntries (little : Bool) (head : List UInt8) (ifd : ℕ) :
    ℕ → ℕ → Option ℤ × Option ℤ → Except Trap (Option ℤ × Option ℤ)
  | 0, _, found => pure found
  | left + 1, entry, found => do
    let base ← add (← add ifd 2) (← mul entry 12)
    if head.length < (← add base 12) then pure found
    else
      let tag := (← readU16 little head base).getD 0
      if tag = 256 then
        let value ← readU16 little head (← add base 8)
        tiffEntries little head ifd left (entry + 1) (value.map Nat.cast, found.2)
      else if tag = 257 then
        let value ← readU16 little head (← add base 8)
        tiffEntries little head ifd left (entry + 1) (found.1, value.map Nat.cast)
      else tiffEntries little head ifd left (entry + 1) found

/-- A TIFF file in one byte order. -/
def tiffIn (little : Bool) (head : List UInt8) : Except Trap MediaProbe := do
  if head.length < 8 then pure {}
  else
    match ← readU32 little head 4 with
    | none => pure {}
    | some ifd =>
      if head.length < (← add ifd 2) then pure {}
      else
        let entries := (← readU16 little head ifd).getD 0
        let found ← tiffEntries little head ifd (min entries 64) 0 (none, none)
        pure (dimensions found.1 found.2)

/-- TIFF: the header points at the directory. -/
def probeTiff (head : List UInt8) : Except Trap MediaProbe :=
  match range head 0 2 with
  | some order =>
    if order = [0x49, 0x49] then tiffIn true head else if order = [0x4d, 0x4d] then tiffIn false head else pure {}
  | none => pure {}

/-- Three bytes of a WebP canvas. -/
def read24 (head : List UInt8) (offset : ℕ) : Except Trap (Option ℕ) := do
  if head.length < (← add offset 3) then pure none
  else
    return some (fromBytes true [← index head offset, ← index head (← add offset 1), ← index head (← add offset 2)])

/-- WebP: three layouts behind one signature. -/
def probeWebp (head : List UInt8) : Except Trap MediaProbe := do
  if head.length < 16 ∨ (ascii "RIFF").isPrefixOf head = false then pure {}
  else if (← slice head 8 12) ≠ ascii "WEBP" then pure {}
  else
    let chunk ← quad head 12
    if chunk = ascii "VP8X" then
      match ← read24 head 24, ← read24 head 27 with
      | some w, some h => if w = 0 ∨ h = 0 then pure {} else pure (dimensions (some (w + 1)) (some (h + 1)))
      | _, _ => pure {}
    else if chunk = ascii "VP8 " then
      if head.length < 30 then pure {}
      else
        let width ← leU16 head 26
        let height ← leU16 head 28
        pure (dimensions (some (width % 0x4000 : ℕ)) (some (height % 0x4000 : ℕ)))
    else if chunk = ascii "VP8L" then
      if head.length < 25 then pure {}
      else
        let bits := fromBytes true (← quad head 21)
        pure (dimensions (some (bits % 0x4000 + 1 : ℕ)) (some (bits / 0x4000 % 0x4000 + 1 : ℕ)))
    else pure {}

/-- A start of frame. -/
def isFrame (marker : UInt8) : Bool :=
  0xc0 ≤ marker && marker ≤ 0xcf && !(marker == 0xc4 || marker == 0xc8 || marker == 0xcc)

/-- A marker without a payload. -/
def isStandalone (marker : UInt8) : Bool :=
  marker == 0xd8 || marker == 0xd9 || marker == 0x01 || 0xd0 ≤ marker && marker ≤ 0xd7

/-- What is behind a marker: the size, or where the walk goes on. -/
def jpegSegment (head : List UInt8) (marker : UInt8) (offset : ℕ) : Except Trap (ℕ ⊕ MediaProbe) := do
  if isFrame marker then
    if head.length < (← add offset 5) then pure (.inr {})
    else
      let height ← pairAt false head (← add offset 3)
      let width ← pairAt false head (← add offset 5)
      pure (.inr (dimensions (some width) (some height)))
  else if isStandalone marker then pure (.inl offset)
  else if head.length < (← add offset 1) then pure (.inr {})
  else
    let length ← pairAt false head offset
    if length < 2 then pure (.inr {}) else .inl <$> add offset length

/-- One turn of the walk through the markers. -/
def jpegTurn (head : List UInt8) (offset : ℕ) : Except Trap (ℕ ⊕ MediaProbe) := do
  if (← add offset 3) < head.length then
    if (← index head offset) ≠ 0xff then .inl <$> add offset 1
    else
      let marker ← index head (← add offset 1)
      jpegSegment head marker (← add offset 2)
  else pure (.inr {})

/-- JPEG: the size lives behind a start-of-frame marker. -/
def probeJpeg (turns : ℕ) (head : List UInt8) : Except Trap MediaProbe := do
  if head.length < 4 then pure {}
  else if (← index head 0) ≠ 0xff then pure {}
  else if (← index head 1) ≠ 0xd8 then pure {}
  else loop (jpegTurn head) turns 2

/-! ### Films -/

/-- Longest playing time, in milliseconds. -/
def LONGEST_MS : ℕ := 2073600000

/-- The duration of a movie header, in 32 or in 64 bits. -/
def mvhdDuration (wide : Bool) (body : List UInt8) : Except Trap ℕ := do
  let high ← beU32 body 16
  if wide then (high * 0x100000000 + ·) <$> beU32 body 20 else pure high

/-- The movie header. -/
def mvhd (found : MediaProbe) (body : List UInt8) : Except Trap MediaProbe := do
  if body.length < 20 then pure found
  else
    let version ← index body 0
    if version = 1 ∧ body.length < 32 then pure found
    else
      let timescale ← beU32 body 12
      let duration ← mvhdDuration (version = 1) body
      if 0 < timescale ∧ 0 < duration then
        let millis ← div (saturatingMul duration 1000) timescale
        pure { found with durationMs := some (min millis LONGEST_MS : ℕ) }
      else pure found

/-- A track header. -/
def tkhd (found : MediaProbe) (body : List UInt8) : Except Trap MediaProbe := do
  if body.length < 4 then pure found
  else
    let offset := if (← index body 0) = 1 then 96 else 80
    if body.length < (← add offset 8) then pure found
    else
      let canvasW := (← beU32 body offset) / 0x10000 % 0x10000
      let canvasH := (← beU32 body (← add offset 4)) / 0x10000 % 0x10000
      if 0 < canvasW ∧ 0 < canvasH then pure { found with width := some canvasW, height := some canvasH }
      else pure found

/-- What is read of a box. -/
def visit (found : MediaProbe) (kind body : List UInt8) : Except Trap MediaProbe :=
  if kind = ascii "mvhd" then mvhd found body
  else if kind = ascii "tkhd" ∧ found.width = none ∧ found.height = none then tkhd found body
  else pure found

/-- The boxes that are walked into. -/
def CONTAINERS : List (List UInt8) := ["moov", "trak", "mdia", "minf", "stbl", "edts", "udta"].map ascii

/-- The size of a box and of its header, unless a size of 64 bits is not there. -/
def boxSize (bytes : List UInt8) (stop offset : ℕ) : Except Trap (Option (ℕ × ℕ)) := do
  let size ← beU32 bytes offset
  if size = 1 then
    if bytes.length < (← add offset 16) then pure none
    else
      let high ← beU32 bytes (← add offset 8)
      let low ← beU32 bytes (← add offset 12)
      pure (some (high * 0x100000000 + low, 16))
  else if size = 0 then return some (← sub stop offset, 8)
  else pure (some (size, 8))

/-- Walk through the boxes of a box that is a container. -/
def enter (descend : ℕ → ℕ → MediaProbe → Except Trap MediaProbe) (kind : List UInt8) (bodyStart bodyEnd : ℕ)
    (found : MediaProbe) : Except Trap MediaProbe :=
  if CONTAINERS.contains kind then descend bodyStart bodyEnd found else pure found

/-- One turn of the walk through the boxes of a part of the file; `descend` walks through those of a container. -/
def mp4Turn (bytes : List UInt8) (descend : ℕ → ℕ → MediaProbe → Except Trap MediaProbe) (stop : ℕ)
    (state : ℕ × MediaProbe) : Except Trap ((ℕ × MediaProbe) ⊕ MediaProbe) := do
  let (offset, found) := state
  let first ← add offset 8
  if first ≤ stop ∧ first ≤ bytes.length then
    let kind ← quad bytes (← add offset 4)
    match ← boxSize bytes stop offset with
    | none => pure (.inr found)
    | some (size, header) =>
      if size < header then pure (.inr found)
      else
        let bodyStart ← add offset header
        let bodyEnd := min (min (saturatingAdd offset size) stop) bytes.length
        if bodyEnd < bodyStart then pure (.inr found)
        else
          let body ← slice bytes (min bodyStart bytes.length) bodyEnd
          let found ← visit found kind body
          let found ← enter descend kind bodyStart bodyEnd found
          return .inl (← add offset size, found)
  else pure (.inr found)

/-- Walk through the boxes of a part of the file, within so many levels. -/
def walkMp4 (turns : ℕ) (bytes : List UInt8) : (levels depth start stop : ℕ) → MediaProbe → Except Trap MediaProbe
  | levels, depth, start, stop, found =>
    if 3 < depth then pure found
    else
      match levels with
      | 0 => .error .exhausted
      | levels + 1 =>
        loop (mp4Turn bytes (fun start stop => walkMp4 turns bytes levels (depth + 1) start stop) stop) turns
          (start, found)

/-- MP4 and QuickTime: walk the box tree. -/
def probeMp4 (turns : ℕ) (head : List UInt8) : Except Trap MediaProbe := walkMp4 turns head 4 0 0 head.length {}

/-- Bytes of a number that begins with a byte. -/
def vintLength (first : UInt8) : ℕ := 8 - Nat.log2 first.toNat

/-- The bytes of a number, from one on, as a word of so many bits. -/
def vint (bits : ℕ) (bytes : List UInt8) (offset : ℕ) : ℕ → Except Trap ℕ
  | 0 => pure 0
  | count + 1 => do
    let value ← vint bits bytes offset count
    let byte ← index bytes (← add offset count)
    pure ((value * 256 + byte.toNat) % 2 ^ bits)

/-- Where a number of variable length ends, when it is there. -/
def vintAt (bytes : List UInt8) (offset : ℕ) : Except Trap (Option ℕ) :=
  match bytes[offset]? with
  | none => pure none
  | some first =>
    if first = 0 then pure none
    else do
      let stop ← add offset (vintLength first)
      if bytes.length < stop then pure none else pure (some (vintLength first))

/-- An element id, and what is behind it. -/
def readEbmlId (bytes : List UInt8) (offset : ℕ) : Except Trap (Option (ℕ × ℕ)) := do
  match ← vintAt bytes offset with
  | none => pure none
  | some length => return some (← vint 32 bytes offset length, ← add offset length)

/-- The size of an element, and what is behind it. All ones say that it runs to the end. -/
def readEbmlSize (bytes : List UInt8) (offset : ℕ) : Except Trap (Option (ℕ × ℕ)) := do
  match ← vintAt bytes offset with
  | none => pure none
  | some length =>
    let value := (← vint 64 bytes offset length) % 2 ^ (7 * length)
    let next ← add offset length
    if value = 2 ^ (7 * length) - 1 then pure (some (bytes.length - next, next)) else pure (some (value, next))

/-- The bytes of an unsigned integer. -/
def readEbmlInt (body : List UInt8) : Option ℕ :=
  if body = [] then none else some (fromBytes false (body.take 8))

/-- The parts of a positive finite float: its fraction, and its exponent to the base 2. -/
def positiveFloat (exponentBits fractionBits bits : ℕ) : Option (ℕ × ℤ) :=
  let fraction := bits % 2 ^ fractionBits
  let exponent := bits / 2 ^ fractionBits % 2 ^ exponentBits
  let negative := bits / 2 ^ (fractionBits + exponentBits) ≠ 0
  let lowest : ℤ := 2 - 2 ^ (exponentBits - 1) - fractionBits
  if negative ∨ exponent = 2 ^ exponentBits - 1 then none
  else if exponent = 0 then if fraction = 0 then none else some (fraction, lowest)
  else some (2 ^ fractionBits + fraction, exponent - 1 + lowest)

/-- A thousand times a float, without what is behind the point, unless that is infinite. -/
def timesThousand (fraction : ℕ) (exponent : ℤ) : Option ℕ :=
  let rounded := (Json.nearestFloat (fraction * 1000)).toNat
  let whole := if 0 ≤ exponent then rounded * 2 ^ exponent.toNat else rounded / 2 ^ (-exponent).toNat
  if 2 ^ 1024 ≤ whole then none else some whole

/-- The bytes of a float, in thousandths. -/
def readEbmlFloat (body : List UInt8) : Option ℤ :=
  let parts :=
    if body.length = 4 then positiveFloat 8 23 (fromBytes false body)
    else if body.length = 8 then positiveFloat 11 52 (fromBytes false body)
    else none
  (parts.bind fun p => timesThousand p.1 p.2).map fun millis => (min millis LONGEST_MS : ℕ)

/-- The elements that are walked into: `Segment`, `Info`, `Tracks` and `Video`. -/
def MASTERS : List ℕ := [0x18538067, 0x1549a966, 0x1654ae6b, 0xe0]

/-- What is read of an element. -/
def element (found : MediaProbe) (id : ℕ) (body : List UInt8) : MediaProbe :=
  if id = 0x4489 then { found with durationMs := readEbmlFloat body }
  else if id = 0xb0 then { found with width := (readEbmlInt body).map asI32 }
  else if id = 0xba then { found with height := (readEbmlInt body).map asI32 }
  else found

/-- So many elements of the stream. -/
def webmElements (head : List UInt8) : (guard offset : ℕ) → MediaProbe → Except Trap MediaProbe
  | 0, _, found => pure found
  | guard + 1, offset, found => do
    if offset < head.length then
      match ← readEbmlId head offset with
      | none => pure found
      | some (id, afterId) =>
        match ← readEbmlSize head afterId with
        | none => pure found
        | some (size, bodyStart) =>
          let bodyEnd := min (saturatingAdd bodyStart size) head.length
          if bodyEnd < bodyStart then pure found
          else
            let body ← slice head bodyStart bodyEnd
            if id ∈ MASTERS then webmElements head guard bodyStart found
            else webmElements head guard bodyEnd (element found id body)
    else pure found

/-- WebM: at most 512 elements, one after the other. -/
def probeWebm (head : List UInt8) : Except Trap MediaProbe :=
  if [0x1a, 0x45, 0xdf, 0xa3].isPrefixOf head then webmElements head 512 0 {} else pure {}

/-! ### Sounds -/

/-- What the walk through a WAVE file knows: the offset, the bytes of a second and those of the data. -/
structure Wave where
  offset : ℕ
  byteRate : Option ℕ
  dataBytes : Option ℕ

/-- The bytes of a second, when a `fmt ` chunk says so. -/
def byteRateOf (head id : List UInt8) (body : ℕ) (byteRate : Option ℕ) : Except Trap (Option ℕ) :=
  if id = ascii "fmt " then do
    if (← add body 12) ≤ head.length then some <$> leU32 head (← add body 8) else pure byteRate
  else pure byteRate

/-- One turn of the walk through the chunks of a WAVE file. -/
def waveTurn (head : List UInt8) (wave : Wave) : Except Trap (Wave ⊕ MediaProbe) := do
  if (← add wave.offset 8) ≤ head.length then
    let id ← quad head wave.offset
    let size ← leU32 head (← add wave.offset 4)
    let body ← add wave.offset 8
    let byteRate ← byteRateOf head id body wave.byteRate
    let dataBytes := if id = ascii "data" then some size else wave.dataBytes
    let next ← add (← add body size) (size % 2)
    match byteRate, dataBytes with
    | some rate, some bytes =>
      if 0 < rate then
        let millis ← div (← mul bytes 1000) rate
        pure (.inr { durationMs := toI32 millis })
      else pure (.inl ⟨next, byteRate, dataBytes⟩)
    | _, _ => pure (.inl ⟨next, byteRate, dataBytes⟩)
  else pure (.inr {})

/-- WAVE: the rate and the length of the data. -/
def probeWave (turns : ℕ) (head : List UInt8) : Except Trap MediaProbe := do
  if head.length < 44 ∨ (ascii "RIFF").isPrefixOf head = false then pure {}
  else if (← slice head 8 12) ≠ ascii "WAVE" then pure {}
  else loop (waveTurn head) turns ⟨12, none, none⟩

/-- Bit rates of MP3 frames. -/
def BITRATES : List ℕ := [0, 32, 40, 48, 56, 64, 80, 96, 112, 128, 160, 192, 224, 256, 320]

/-- Sample rates of MP3 frames. -/
def SAMPLE_RATES : List ℕ := [44100, 48000, 32000]

/-- MP3: the first frame header is looked at; it says nothing about the length. -/
def probeMp3 (head : List UInt8) : Except Trap MediaProbe := do
  if head.length < 4 ∨ (ascii "ID3").isPrefixOf head then pure {}
  else if (← index head 0) ≠ 0xff then pure {}
  else
    let second ← index head 1
    if second.toNat / 32 ≠ 7 ∨ second = 0xff then pure {}
    else
      let third ← index head 2
      let bitrateIndex := third.toNat / 16
      let sampleRateIndex := third.toNat / 4 % 4
      if bitrateIndex = 0 ∨ bitrateIndex = 15 ∨ sampleRateIndex = 3 then pure {}
      else
        let _ ← index BITRATES bitrateIndex
        let _ ← index SAMPLE_RATES sampleRateIndex
        pure {}

/-- Ogg: the length is never in the prefix, whatever the first packet is. -/
def probeOgg (_head : List UInt8) : Except Trap MediaProbe := pure {}

/-! ### Documents -/

/-- One turn of the search for page counts, with the last one found. -/
def pdfTurn (state : List Char × Option ℤ) : List Char × Option ℤ ⊕ Option ℤ :=
  match splitOnce "/Count".toList state.1 with
  | none => .inr state.2
  | some (_, rest) =>
    match (Words.words isWhitespace rest).head? with
    | none => .inl (rest, state.2)
    | some part =>
      match parseI32 (part.dropWhile fun c => c = '[' || isWhitespace c) with
      | none => .inl (rest, state.2)
      | some value => .inl (rest, if 0 < value then some value else state.2)

/-- PDF: the last `/Count`. -/
def probePdf (turns : ℕ) (head : List UInt8) : Except Trap MediaProbe := do
  if (ascii "%PDF-").isPrefixOf head then
    let best ← loop (fun state => pure (pdfTurn state)) turns (fromUtf8Lossy head, none)
    pure { pageCount := best.filter fun value => 0 < value ∧ value < 1000000 }
  else pure {}

/-- `probe`, when a walk may take so many turns. -/
def probeWithin (turns : ℕ) (contentType : String) (head : List UInt8) : Except Trap MediaProbe :=
  if contentType = "image/png" then probePng head
  else if contentType = "image/gif" then probeGif head
  else if contentType = "image/jpeg" then probeJpeg turns head
  else if contentType = "image/webp" then probeWebp head
  else if contentType = "image/bmp" then probeBmp head
  else if contentType = "image/tiff" then probeTiff head
  else if contentType = "video/mp4" ∨ contentType = "video/quicktime" then probeMp4 turns head
  else if contentType = "video/webm" then probeWebm head
  else if contentType = "audio/mpeg" then probeMp3 head
  else if contentType = "audio/ogg" then probeOgg head
  else if contentType = "audio/wav" then probeWave turns head
  else if contentType = "application/pdf" then probePdf turns head
  else pure {}

/-- Read what a byte prefix says about a file of a content type. -/
def probe (contentType : String) (head : List UInt8) : Except Trap MediaProbe :=
  probeWithin (head.length + 1) contentType head

/-! ### What the small readers yield -/

variable {head bytes : List UInt8} {little : Bool} {count offset : ℕ}

/-- So many bytes from an offset on, as a number, and 0 when they are not there. -/
def numberAt (little : Bool) (count : ℕ) (bytes : List UInt8) (offset : ℕ) : ℕ :=
  if offset + count ≤ bytes.length then fromBytes little ((bytes.drop offset).take count) else 0

theorem numberAt_lt (little : Bool) (count : ℕ) (bytes : List UInt8) (offset : ℕ) :
    numberAt little count bytes offset < 256 ^ count := by
  unfold numberAt
  split_ifs with hin
  · have hlt := ExifReader.fromBytes_lt little ((bytes.drop offset).take count)
    rwa [List.length_take, List.length_drop, min_eq_left (by omega)] at hlt
  · exact Nat.pow_pos (by decide)

theorem wordOr0_eq (hsmall : bytes.length < sliceLimit) (little : Bool) (count offset : ℕ) :
    wordOr0 little count bytes offset = .ok (numberAt little count bytes offset) := by
  unfold wordOr0 numberAt
  by_cases hin : offset + count ≤ bytes.length
  · have hsum : saturatingAdd offset count = offset + count := by
      simp only [saturatingAdd, sliceLimit, wordMax] at *
      omega
    have hlength : ((bytes.drop offset).take count).length = count := by
      rw [List.length_take, List.length_drop]
      omega
    have hrange : range bytes offset (offset + count) = some ((bytes.drop offset).take count) := by
      rw [range, if_pos ⟨Nat.le_add_right .., hin⟩, Nat.add_sub_cancel_left]
    rw [hsum, hrange, if_pos hin]
    dsimp only
    rw [word, if_pos hlength.ge, List.take_take, min_self]
  · have hrange : range bytes offset (saturatingAdd offset count) = none := by
      refine if_neg fun h => ?_
      simp only [saturatingAdd, sliceLimit, wordMax] at *
      omega
    rw [hrange, if_neg hin]
    rfl

theorem wordOr0_yields (hsmall : bytes.length < sliceLimit) (little : Bool) (count offset : ℕ) :
    Yields (wordOr0 little count bytes offset) (· = numberAt little count bytes offset) :=
  ⟨_, wordOr0_eq hsmall little count offset, rfl⟩

theorem add_eq_of_le (hsmall : head.length < sliceLimit) {k : ℕ} (hin : offset + k ≤ head.length + 2 ^ 35) :
    add offset k = .ok (offset + k) := by
  refine add_eq ?_
  simp only [sliceLimit, wordMax] at *
  omega

theorem add_yields_of_le (hsmall : head.length < sliceLimit) (hin : offset ≤ head.length + 2 ^ 34) {k : ℕ}
    (hk : k ≤ 2 ^ 34) : Yields (add offset k) (· = offset + k) :=
  ⟨_, add_eq_of_le hsmall (by omega), rfl⟩

theorem add_yields_within (hsmall : head.length < sliceLimit) {k : ℕ} (hin : offset + k ≤ head.length) :
    Yields (add offset k) (· = offset + k) :=
  ⟨_, add_eq_of_le hsmall (by omega), rfl⟩

theorem take_drop_succ {i : ℕ} (h : i < head.length) (k : ℕ) :
    (head.drop i).take (k + 1) = head[i] :: (head.drop (i + 1)).take k := by
  rw [List.drop_eq_getElem_cons h, List.take_succ_cons]

theorem pairAt_yields (hsmall : head.length < sliceLimit) (hin : offset + 2 ≤ head.length) (little : Bool) :
    Yields (pairAt little head offset) (· = numberAt little 2 head offset) := by
  refine (index_yields (by omega)).bind fun first hfirst => ?_
  refine (add_yields_of_le hsmall (by omega) (by decide)).bind fun next hnext => ?_
  subst hnext
  refine (index_yields (by omega)).bind fun second hsecond => yields_pure ?_
  rw [numberAt, if_pos hin, take_drop_succ (by omega), take_drop_succ (by omega), List.take_zero, hfirst, hsecond]

theorem pairAt_ne_ok (hout : head.length < offset + 2) (n : ℕ) : pairAt little head offset ≠ .ok n := by
  intro h
  have hsecond : index head (offset + 1) = .error .outside := by rw [index, List.getElem?_eq_none (by omega)]
  rw [pairAt] at h
  cases hfirst : index head offset with
  | error e =>
    rw [hfirst] at h
    cases h
  | ok first =>
    rw [hfirst, ok_bind, add] at h
    split_ifs at h
    · rw [ok_bind, hsecond] at h
      cases h
    · cases h

theorem quad_yields (hsmall : head.length < sliceLimit) (hin : offset + 4 ≤ head.length) :
    Yields (quad head offset) (· = (head.drop offset).take 4) := by
  have hadd : ∀ k ≤ 3, Yields (add offset k) (· = offset + k) := fun k hk =>
    add_yields_of_le hsmall (by omega) (hk.trans (by decide))
  refine (index_yields (by omega)).bind fun first hfirst => ?_
  refine (hadd 1 (by decide)).bind fun i hi => ?_
  subst hi
  refine (index_yields (by omega)).bind fun second hsecond => (hadd 2 (by decide)).bind fun i hi => ?_
  subst hi
  refine (index_yields (by omega)).bind fun third hthird => (hadd 3 (by decide)).bind fun i hi => ?_
  subst hi
  refine (index_yields (by omega)).bind fun fourth hfourth => yields_pure ?_
  rw [take_drop_succ (by omega), take_drop_succ (by omega), take_drop_succ (by omega), take_drop_succ (by omega),
    List.take_zero, hfirst, hsecond, hthird, hfourth]

/-! ### Canvases -/

/-- A width goes with a height, and both are positive. -/
def MediaProbe.IsPaired (p : MediaProbe) : Prop :=
  p.width = none ∧ p.height = none ∨ ∃ w h, p.width = some w ∧ p.height = some h ∧ 0 < w ∧ 0 < h

theorem isPaired_empty : MediaProbe.IsPaired {} := .inl ⟨rfl, rfl⟩

theorem dimensions_eq_some_iff {width height : Option ℤ} {w h : ℤ} :
    (dimensions width height).width = some w ∧ (dimensions width height).height = some h ↔
      width = some w ∧ height = some h ∧ 0 < w ∧ 0 < h := by
  cases width with
  | none => simp [dimensions]
  | some w' =>
    cases height with
    | none => simp [dimensions]
    | some h' =>
      rw [dimensions]
      split_ifs with hpos
      · simp only [Option.some.injEq]
        constructor
        · rintro ⟨rfl, rfl⟩
          exact ⟨rfl, rfl, hpos⟩
        · rintro ⟨rfl, rfl, -⟩
          exact ⟨rfl, rfl⟩
      · simp only [false_and, Option.some.injEq, false_iff]
        rintro ⟨rfl, rfl, hpos'⟩
        exact hpos hpos'

theorem isPaired_dimensions (width height : Option ℤ) : (dimensions width height).IsPaired := by
  unfold dimensions
  split
  · rename_i w h
    split_ifs with hpos
    · exact .inr ⟨w, h, rfl, rfl, hpos⟩
    · exact isPaired_empty
  · exact isPaired_empty

theorem pure_empty_yields : Yields (pure {}) MediaProbe.IsPaired := yields_pure isPaired_empty

theorem pure_dimensions_yields (width height : Option ℤ) :
    Yields (pure (dimensions width height)) MediaProbe.IsPaired :=
  yields_pure (isPaired_dimensions width height)

/-! ### Pictures are read to their end -/

theorem probePng_yields (hsmall : head.length < sliceLimit) : Yields (probePng head) MediaProbe.IsPaired := by
  refine yields_ite (fun _ => pure_empty_yields) fun hlong => ?_
  refine (slice_yields (by decide) (by omega)).bind fun _ _ => yields_ite (fun _ => pure_empty_yields) fun _ => ?_
  refine (slice_yields (by decide) (by omega)).bind fun _ _ => yields_ite (fun _ => pure_empty_yields) fun _ => ?_
  refine (wordOr0_yields hsmall false 4 _).bind fun _ _ => (wordOr0_yields hsmall false 4 _).bind fun _ _ => ?_
  exact pure_dimensions_yields _ _

theorem probeGif_yields (hsmall : head.length < sliceLimit) : Yields (probeGif head) MediaProbe.IsPaired := by
  refine yields_ite (fun _ => pure_empty_yields) fun _ => yields_ite (fun _ => pure_empty_yields) fun _ => ?_
  refine (wordOr0_yields hsmall true 2 _).bind fun _ _ => (wordOr0_yields hsmall true 2 _).bind fun _ _ => ?_
  exact pure_dimensions_yields _ _

theorem probeBmp_yields (hsmall : head.length < sliceLimit) : Yields (probeBmp head) MediaProbe.IsPaired := by
  refine yields_ite (fun _ => pure_empty_yields) fun hlong => ?_
  rw [not_or] at hlong
  refine (pairAt_yields hsmall (by omega) true).bind fun _ _ => ?_
  exact (pairAt_yields hsmall (by omega) true).bind fun _ _ => pure_dimensions_yields _ _

theorem readU16_yields (hsmall : head.length < sliceLimit) (hin : offset ≤ head.length + 2 ^ 34) (little : Bool) :
    Yields (readU16 little head offset)
      (· = if offset + 2 ≤ head.length then some (numberAt little 2 head offset) else none) := by
  refine (add_yields_of_le hsmall hin (by decide)).bind fun stop hstop => ?_
  subst hstop
  refine yields_ite (fun hout => yields_pure ?_) fun hwithin => ?_
  · rw [if_neg (not_le.mpr hout)]
  · refine (pairAt_yields hsmall (not_lt.mp hwithin) little).map fun _ hn => ?_
    rw [if_pos (not_lt.mp hwithin), hn]

theorem readU32_yields (hsmall : head.length < sliceLimit) (hin : offset ≤ head.length + 2 ^ 34) (little : Bool) :
    Yields (readU32 little head offset)
      (· = if offset + 4 ≤ head.length then some (numberAt little 4 head offset) else none) := by
  refine (add_yields_of_le hsmall hin (by decide)).bind fun stop hstop => ?_
  subst hstop
  refine yields_ite (fun hout => yields_pure ?_) fun hwithin => ?_
  · rw [if_neg (not_le.mpr hout)]
  · have hnumber : Yields (fromBytes little <$> quad head offset) (· = numberAt little 4 head offset) := by
      refine (quad_yields hsmall (not_lt.mp hwithin)).map fun raw hraw => ?_
      rw [hraw, numberAt, if_pos (not_lt.mp hwithin)]
    refine hnumber.map fun _ hn => ?_
    rw [if_pos (not_lt.mp hwithin), hn]

section Tiff

variable {ifd left entry : ℕ} {found : Option ℤ × Option ℤ}

/-- Where an entry of a directory begins. -/
def entryAt (ifd entry : ℕ) : ℕ := ifd + 2 + entry * 12

/-- What an entry says about the canvas. -/
def tiffField (tag value : ℕ) (found : Option ℤ × Option ℤ) : Option ℤ × Option ℤ :=
  if tag = 256 then (some value, found.2) else if tag = 257 then (found.1, some value) else found

theorem entryAt_yields (hifd : ifd < 2 ^ 32) (hentry : entry < 64) :
    Yields (do add (← add ifd 2) (← mul entry 12)) (· = entryAt ifd entry) := by
  refine (add_yields ?_).bind fun start hstart => (mul_yields ?_).bind fun skipped hskipped => ?_
  · simp only [wordMax]
    omega
  · simp only [wordMax]
    omega
  subst hstart hskipped
  refine add_yields ?_
  simp only [wordMax]
  omega

/-- One entry: behind the file nothing is read. -/
theorem tiffEntries_succ (hsmall : head.length < sliceLimit) (hifd : ifd < 2 ^ 32) (hentry : entry < 64) :
    tiffEntries little head ifd (left + 1) entry found =
      if head.length < entryAt ifd entry + 12 then .ok found
      else tiffEntries little head ifd left (entry + 1)
        (tiffField (numberAt little 2 head (entryAt ifd entry)) (numberAt little 2 head (entryAt ifd entry + 8))
          found) := by
  obtain ⟨base, hbase, rfl⟩ := entryAt_yields hifd hentry
  have hturn : tiffEntries little head ifd (left + 1) entry found = (do
      let base ← (do add (← add ifd 2) (← mul entry 12))
      if head.length < (← add base 12) then pure found
      else
        let tag := (← readU16 little head base).getD 0
        if tag = 256 then
          let value ← readU16 little head (← add base 8)
          tiffEntries little head ifd left (entry + 1) (value.map Nat.cast, found.2)
        else if tag = 257 then
          let value ← readU16 little head (← add base 8)
          tiffEntries little head ifd left (entry + 1) (found.1, value.map Nat.cast)
        else tiffEntries little head ifd left (entry + 1) found) := by
    simp only [tiffEntries, bind_assoc]
  have hadd : ∀ k ≤ 12, add (entryAt ifd entry) k = .ok (entryAt ifd entry + k) := by
    intro k hk
    refine add_eq ?_
    simp only [entryAt, wordMax]
    omega
  rw [hturn, hbase, ok_bind, hadd 12 le_rfl, ok_bind, hadd 8 (by decide)]
  by_cases hout : head.length < entryAt ifd entry + 12
  · rw [if_pos hout, if_pos hout]
    rfl
  · rw [if_neg hout, if_neg hout]
    have hread : ∀ k ≤ 10, readU16 little head (entryAt ifd entry + k) =
        .ok (some (numberAt little 2 head (entryAt ifd entry + k))) := by
      intro k hk
      have hnear : entryAt ifd entry + k ≤ head.length + 2 ^ 34 := by omega
      obtain ⟨value, hvalue, rfl⟩ := readU16_yields hsmall hnear little
      rw [hvalue, if_pos (by omega)]
    rw [show entryAt ifd entry = entryAt ifd entry + 0 from rfl, hread 0 (by decide)]
    simp only [ok_bind, hread 8 (by decide), Nat.add_zero, Option.getD_some, Option.map_some, tiffField]
    split_ifs <;> rfl

theorem tiffEntries_yields (hsmall : head.length < sliceLimit) (hifd : ifd < 2 ^ 32) (hentries : entry + left ≤ 64) :
    Yields (tiffEntries little head ifd left entry found) fun _ => True := by
  induction left generalizing entry found with
  | zero => exact yields_pure trivial
  | succ left ih =>
    rw [tiffEntries_succ hsmall hifd (by omega)]
    exact yields_ite (fun _ => yields_pure trivial) fun _ => ih (by omega)

theorem tiffIn_yields (hsmall : head.length < sliceLimit) (little : Bool) :
    Yields (tiffIn little head) MediaProbe.IsPaired := by
  refine yields_ite (fun _ => pure_empty_yields) fun hlong => ?_
  refine (readU32_yields hsmall (by omega) little).bind fun ifd hifd => ?_
  rw [if_pos (by omega)] at hifd
  subst hifd
  have hlt := numberAt_lt little 4 head 4
  refine (add_yields ?_).bind fun stop hstop => yields_ite (fun _ => pure_empty_yields) fun hin => ?_
  · simp only [wordMax]
    omega
  refine (readU16_yields hsmall (by omega) little).bind fun entries _ => ?_
  refine (tiffEntries_yields hsmall (by omega) (by omega)).bind fun found _ => ?_
  exact pure_dimensions_yields _ _

theorem probeTiff_yields (hsmall : head.length < sliceLimit) : Yields (probeTiff head) MediaProbe.IsPaired := by
  unfold probeTiff
  split
  · refine yields_ite (fun _ => tiffIn_yields hsmall true) fun _ => ?_
    exact yields_ite (fun _ => tiffIn_yields hsmall false) fun _ => pure_empty_yields
  · exact pure_empty_yields

end Tiff

theorem read24_yields (hsmall : head.length < sliceLimit) (hin : offset ≤ 2 ^ 34) :
    Yields (read24 head offset) fun _ => True := by
  have hadd : ∀ k ≤ 3, Yields (add offset k) (· = offset + k) := fun k hk =>
    add_yields_of_le hsmall (by omega) (hk.trans (by decide))
  refine (hadd 3 le_rfl).bind fun stop hstop => yields_ite (fun _ => yields_pure trivial) fun hlong => ?_
  refine (index_yields (by omega)).bind fun _ _ => ?_
  refine (hadd 1 (by decide)).bind fun _ _ => (index_yields (by omega)).bind fun _ _ => ?_
  refine (hadd 2 (by decide)).bind fun _ _ => (index_yields (by omega)).bind fun _ _ => ?_
  exact yields_pure trivial

theorem probeWebp_yields (hsmall : head.length < sliceLimit) : Yields (probeWebp head) MediaProbe.IsPaired := by
  refine yields_ite (fun _ => pure_empty_yields) fun hlong => ?_
  rw [not_or] at hlong
  refine (slice_yields (by decide) (by omega)).bind fun _ _ => yields_ite (fun _ => pure_empty_yields) fun _ => ?_
  refine (quad_yields hsmall (by omega)).bind fun chunk _ => yields_ite (fun _ => ?_) fun _ => ?_
  · refine (read24_yields hsmall (by decide)).bind fun width _ =>
      (read24_yields hsmall (by decide)).bind fun height _ => ?_
    split
    · exact yields_ite (fun _ => pure_empty_yields) fun _ => pure_dimensions_yields _ _
    · exact pure_empty_yields
  refine yields_ite (fun _ => yields_ite (fun _ => pure_empty_yields) fun _ => ?_) fun _ => ?_
  · refine (wordOr0_yields hsmall true 2 _).bind fun _ _ => (wordOr0_yields hsmall true 2 _).bind fun _ _ => ?_
    exact pure_dimensions_yields _ _
  refine yields_ite (fun _ => yields_ite (fun _ => pure_empty_yields) fun _ => ?_) fun _ => pure_empty_yields
  exact (quad_yields hsmall (by omega)).bind fun _ _ => pure_dimensions_yields _ _

/-! ### Sounds and documents are read to their end -/

/-- What the walk through a WAVE file keeps: it is not far behind the file, and the bytes of the data fit 32 bits. -/
def Wave.IsNear (head : List UInt8) (wave : Wave) : Prop :=
  wave.offset ≤ head.length + 2 ^ 33 ∧ ∀ n ∈ wave.dataBytes, n < 2 ^ 32

theorem byteRateOf_yields (hsmall : head.length < sliceLimit) {body : ℕ} (hin : body ≤ head.length + 2 ^ 33)
    (id : List UInt8) (byteRate : Option ℕ) : Yields (byteRateOf head id body byteRate) fun _ => True := by
  refine yields_ite (fun _ => ?_) fun _ => yields_pure trivial
  refine (add_yields_of_le hsmall (by omega) (by decide)).bind fun stop _ =>
    yields_ite (fun _ => ?_) fun _ => yields_pure trivial
  refine (add_yields_of_le hsmall (by omega) (by decide)).bind fun i _ => ?_
  exact (wordOr0_yields hsmall true 4 i).map fun _ _ => trivial

theorem waveTurn_yields (hsmall : head.length < sliceLimit) (wave : Wave) (hnear : wave.IsNear head) :
    Yields (waveTurn head wave)
      (Turns (Wave.IsNear head) (fun wave => head.length - wave.offset) MediaProbe.IsPaired wave) := by
  obtain ⟨hin, hdata⟩ := hnear
  have hadd : ∀ k ≤ 2 ^ 33, Yields (add wave.offset k) (· = wave.offset + k) := fun k hk =>
    add_yields_of_le hsmall (by omega) (by omega)
  refine (hadd 8 (by decide)).bind fun first hfirst => yields_ite (fun hlong => ?_) fun _ => yields_pure isPaired_empty
  subst hfirst
  refine (quad_yields hsmall (by omega)).bind fun id _ => (hadd 4 (by decide)).bind fun i hi => ?_
  refine (wordOr0_yields hsmall true 4 i).bind fun size hsize => (hadd 8 (by decide)).bind fun body hbody => ?_
  have hsize : size < 2 ^ 32 := hsize ▸ numberAt_lt true 4 head i
  refine (byteRateOf_yields hsmall (by omega) id wave.byteRate).bind fun byteRate _ => ?_
  refine (add_yields_of_le hsmall (by omega) (by omega)).bind fun behind hbehind => ?_
  refine (add_yields_of_le hsmall (by omega) (by omega)).bind fun next hnext => ?_
  have hbytes : ∀ n ∈ (if id = ascii "data" then some size else wave.dataBytes), n < 2 ^ 32 := by
    split_ifs
    · exact fun n hn => Option.mem_some_iff.mp hn ▸ hsize
    · exact hdata
  have hgoes : Turns (Wave.IsNear head) (fun wave => head.length - wave.offset) MediaProbe.IsPaired wave
      (.inl ⟨next, byteRate, if id = ascii "data" then some size else wave.dataBytes⟩) := by
    refine ⟨⟨?_, hbytes⟩, Nat.sub_lt_sub_left (by omega) ?_⟩
    · show next ≤ head.length + 2 ^ 33
      omega
    · show wave.offset < next
      omega
  generalize (if id = ascii "data" then some size else wave.dataBytes) = dataBytes at hbytes hgoes ⊢
  cases byteRate with
  | none => exact yields_pure hgoes
  | some rate =>
    cases dataBytes with
    | none => exact yields_pure hgoes
    | some bytes =>
      have hbound : bytes * 1000 ≤ wordMax := by
        have hlt := hbytes bytes rfl
        simp only [wordMax]
        omega
      refine yields_ite (fun hrate => (mul_yields hbound).bind fun millis _ => ?_) fun _ => yields_pure hgoes
      exact (div_yields hrate.ne').bind fun _ _ => yields_pure (.inl ⟨rfl, rfl⟩)

theorem probeWave_settles (hsmall : head.length < sliceLimit) :
    Settles head.length (fun turns => probeWave turns head) MediaProbe.IsPaired := by
  refine settles_ite (fun _ => settles_of_yields pure_empty_yields _) fun hlong => ?_
  rw [not_or] at hlong
  refine settles_bind (slice_yields (by decide) (by omega)) fun _ _ =>
    settles_ite (fun _ => settles_of_yields pure_empty_yields _) fun _ => ?_
  refine loop_settles (waveTurn_yields hsmall) ⟨?_, fun n hn => nomatch hn⟩ (Nat.sub_le ..)
  show 12 ≤ head.length + 2 ^ 33
  omega

theorem probeMp3_yields (head : List UInt8) : Yields (probeMp3 head) MediaProbe.IsPaired := by
  refine yields_ite (fun _ => pure_empty_yields) fun hlong => ?_
  rw [not_or] at hlong
  refine (index_yields (by omega)).bind fun _ _ => yields_ite (fun _ => pure_empty_yields) fun _ => ?_
  refine (index_yields (by omega)).bind fun second _ => yields_ite (fun _ => pure_empty_yields) fun _ => ?_
  refine (index_yields (by omega)).bind fun third _ => yields_ite (fun _ => pure_empty_yields) fun hfree => ?_
  have hthird := third.toNat_lt
  refine (index_yields (?_ : _ < BITRATES.length)).bind fun _ _ => ?_
  · simp only [BITRATES, List.length_cons, List.length_nil]
    omega
  refine (index_yields (?_ : _ < SAMPLE_RATES.length)).bind fun _ _ => pure_empty_yields
  simp only [SAMPLE_RATES, List.length_cons, List.length_nil]
  omega

theorem pdfTurn_turns (state : List Char × Option ℤ) :
    Turns (fun _ => True) (fun state => state.1.length) (fun _ => True) state (pdfTurn state) := by
  unfold pdfTurn
  cases hsplit : splitOnce "/Count".toList state.1 with
  | none => trivial
  | some parts =>
    have hless : parts.2.length < state.1.length := by
      rw [Text.splitOnce_eq_append hsplit, List.length_append, List.length_append]
      simp only [String.length_toList]
      have hpos : 0 < "/Count".length := by decide
      omega
    dsimp only
    split
    · exact ⟨trivial, hless⟩
    · split
      · exact ⟨trivial, hless⟩
      · exact ⟨trivial, hless⟩

theorem probePdf_settles (head : List UInt8) :
    Settles head.length (fun turns => probePdf turns head) MediaProbe.IsPaired := by
  refine settles_ite (fun _ => ?_) fun _ => settles_of_yields pure_empty_yields _
  refine Settles.bind (loop_settles (fun state _ => yields_pure (pdfTurn_turns state)) trivial
    (Text.length_fromUtf8Lossy_le head)) fun best _ => ?_
  exact settles_of_yields (yields_pure (.inl ⟨rfl, rfl⟩)) _

/-! ### The elements of a stream are read to their end -/

theorem vint_yields (hsmall : bytes.length < sliceLimit) (hin : offset + count ≤ bytes.length) (bits : ℕ) :
    Yields (vint bits bytes offset count) (· = Bytes.ofBe ((bytes.drop offset).take count) % 2 ^ bits) := by
  induction count with
  | zero => exact yields_pure (Nat.zero_mod _).symm
  | succ count ih =>
    refine (ih (by omega)).bind fun value hvalue => ?_
    refine (add_yields_within hsmall (by omega)).bind fun i hi => ?_
    subst hi
    refine (index_yields (by omega)).bind fun byte hbyte => yields_pure ?_
    have hlast : (bytes.drop offset).take (count + 1) = (bytes.drop offset).take count ++ [byte] := by
      rw [List.take_add_one, List.getElem?_drop, List.getElem?_eq_getElem (by omega), hbyte]
      rfl
    rw [hlast, Bytes.ofBe_append_singleton, hvalue]
    rw [Nat.add_mod, Nat.mul_mod, Nat.mod_mod, ← Nat.mul_mod, ← Nat.add_mod]

theorem vintLength_le {first : UInt8} (h : first ≠ 0) : 0 < vintLength first ∧ vintLength first ≤ 8 := by
  have hzero : first.toNat ≠ 0 := fun hzero => h (UInt8.toNat_inj.mp hzero)
  have hlog : first.toNat.log2 < 8 := (Nat.log2_lt hzero).mpr first.toNat_lt
  unfold vintLength
  omega

theorem vintAt_yields (hsmall : bytes.length < sliceLimit) (offset : ℕ) : Yields (vintAt bytes offset) fun found =>
    ∀ length ∈ found, 0 < length ∧ length ≤ 8 ∧ offset + length ≤ bytes.length := by
  unfold vintAt
  split
  · exact yields_pure fun _ hn => nomatch hn
  · rename_i first hfirst
    refine yields_ite (fun _ => yields_pure fun _ hn => nomatch hn) fun hzero => ?_
    have hlength := vintLength_le hzero
    have hin := (List.getElem?_eq_some_iff.mp hfirst).1
    refine (add_yields_of_le hsmall (by omega) (hlength.2.trans (by decide))).bind fun stop hstop => ?_
    refine yields_ite (fun _ => yields_pure fun _ hn => nomatch hn) fun hlong => yields_pure fun n hn => ?_
    obtain rfl := Option.mem_some_iff.mp hn
    omega

theorem readEbmlId_yields (hsmall : bytes.length < sliceLimit) (offset : ℕ) :
    Yields (readEbmlId bytes offset) fun found => ∀ id ∈ found, offset < id.2 ∧ id.2 ≤ bytes.length := by
  refine (vintAt_yields hsmall offset).bind fun found hfound => ?_
  cases found with
  | none => exact yields_pure fun _ hn => nomatch hn
  | some length =>
    obtain ⟨hpos, hle, hin⟩ := hfound length rfl
    refine (vint_yields hsmall hin 32).bind fun value _ => (add_yields_within hsmall hin).bind fun next hnext => ?_
    refine yields_pure fun id hid => ?_
    obtain rfl := Option.mem_some_iff.mp hid
    dsimp only
    omega

theorem readEbmlSize_yields (hsmall : bytes.length < sliceLimit) (offset : ℕ) :
    Yields (readEbmlSize bytes offset) fun found => ∀ size ∈ found, offset < size.2 ∧ size.2 ≤ bytes.length := by
  refine (vintAt_yields hsmall offset).bind fun found hfound => ?_
  cases found with
  | none => exact yields_pure fun _ hn => nomatch hn
  | some length =>
    obtain ⟨hpos, hle, hin⟩ := hfound length rfl
    refine (vint_yields hsmall hin 64).bind fun value _ => (add_yields_within hsmall hin).bind fun next hnext => ?_
    refine yields_ite (fun _ => yields_pure fun size hsize => ?_) fun _ => yields_pure fun size hsize => ?_
    · obtain rfl := Option.mem_some_iff.mp hsize
      dsimp only
      omega
    · obtain rfl := Option.mem_some_iff.mp hsize
      dsimp only
      omega

theorem webmElements_yields (hsmall : head.length < sliceLimit) (guard offset : ℕ) (found : MediaProbe) :
    Yields (webmElements head guard offset found) fun _ => True := by
  induction guard generalizing offset found with
  | zero => exact yields_pure trivial
  | succ guard ih =>
    refine yields_ite (fun _ => ?_) fun _ => yields_pure trivial
    refine (readEbmlId_yields hsmall offset).bind fun id _ => ?_
    cases id with
    | none => exact yields_pure trivial
    | some id =>
      refine (readEbmlSize_yields hsmall id.2).bind fun size hsize => ?_
      cases size with
      | none => exact yields_pure trivial
      | some size =>
        have hin := (hsize size rfl).2
        refine yields_ite (fun _ => yields_pure trivial) fun hle => ?_
        refine (slice_yields (not_lt.mp hle) (Nat.min_le_right ..)).bind fun body _ => ?_
        exact yields_ite (fun _ => ih _ _) fun _ => ih _ _

/-- Every element gets further: more of them than there are bytes behind the offset are never walked through. -/
theorem webmElements_saturated (hsmall : head.length < sliceLimit) {guard more offset : ℕ} (found : MediaProbe)
    (hguard : head.length < offset + guard) (hmore : guard ≤ more) :
    webmElements head more offset found = webmElements head guard offset found := by
  induction guard generalizing more offset found with
  | zero =>
    cases more with
    | zero => rfl
    | succ more => rw [webmElements, webmElements, if_neg (by omega)]
  | succ guard ih =>
    obtain ⟨more, rfl⟩ := Nat.exists_eq_add_of_le' (Nat.le_of_add_left_le hmore)
    rw [webmElements, webmElements]
    by_cases hin : offset < head.length
    · obtain ⟨id, hid, hbehind⟩ := readEbmlId_yields hsmall offset
      rw [if_pos hin, if_pos hin, hid, ok_bind, ok_bind]
      cases id with
      | none => rfl
      | some id =>
        have hafter := hbehind id rfl
        obtain ⟨size, hsize, hbehind⟩ := readEbmlSize_yields hsmall id.2
        dsimp only
        rw [hsize, ok_bind, ok_bind]
        cases size with
        | none => rfl
        | some size =>
          have hbody := hbehind size rfl
          dsimp only
          by_cases hback : min (saturatingAdd size.2 size.1) head.length < size.2
          · rw [if_pos hback, if_pos hback]
          · obtain ⟨body, hslice, -⟩ := slice_yields (not_lt.mp hback) (Nat.min_le_right ..)
            rw [if_neg hback, if_neg hback, hslice, ok_bind, ok_bind]
            split_ifs with hmaster
            · exact ih found (by omega) (by omega)
            · exact ih _ (by omega) (by omega)
    · rw [if_neg hin, if_neg hin]

theorem probeWebm_yields (hsmall : head.length < sliceLimit) : Yields (probeWebm head) fun _ => True :=
  yields_ite (fun _ => webmElements_yields hsmall 512 0 {}) fun _ => yields_pure trivial

end Omnion.Media.HeaderProbe
