import Mathlib.Data.Int.Notation
import Mathlib.Data.Nat.Bitwise
import Omnion.Library.Bytes
import Omnion.Library.Reader

/-!
# The CBOR reader

`crates/identity/src/webauthn/cbor.rs`: the reader of the two blobs a WebAuthn ceremony
hands over. The input is whatever the browser posted, so the lengths, the counts and the
nesting it declares are anybody's.

## The model

A blob is a list of bytes. A slice is no longer than `isize::MAX`, which the theorems ask
of it; `usize` has 64 bits. Slicing past the end is where the code would panic, and stops
the reader with `Stop.outside`. `decode_item` calls itself for the items within an item and
counts no depth, so `decodeItem` is given the number of calls the stack holds; one call
more stops the process, which is `Stop.exhausted`.

The format is given apart from the reader: `Encodes` is which bytes are which items, in an
argument of any width, and `Deeper` how deep the first item of a blob lies.

## What is proved

* `decodes` — an item in canonical encoding is read back, what is read is read again from its
  own bytes, and the reader answers or refuses, just when the blob lies no deeper than that.
* `nested_arrays` — a blob of one array within another, for every stack.
-/

namespace Omnion.Identity.Cbor

/-- `usize::MAX`. -/
def usizeMax : ℕ := 0xffffffffffffffff

/-- `i64::MAX`. -/
def i64Max : ℕ := 0x7fffffffffffffff

/-- One more than the length of the longest slice. -/
def sliceLimit : ℕ := 0x8000000000000000

/-- One CBOR item. -/
inductive Item where
  | unsigned (value : ℕ)
  /-- Major type 1 (the value is the negative integer). -/
  | negative (value : ℤ)
  | bytes (raw : List UInt8)
  | text (s : String)
  | array (items : List Item)
  | map (entries : List (Item × Item))
  /-- Major type 7, `false`/`true`. -/
  | bool (b : Bool)
  /-- Major type 7, `null`/`undefined`. -/
  | null

namespace Item

/-- The item as a byte string. -/
def asBytes : Item → Option (List UInt8)
  | .bytes raw => some raw
  | _ => none

def asText : Item → Option String
  | .text s => some s
  | _ => none

/-- The item as a signed integer (either sign). -/
def asInteger : Item → Option ℤ
  | .unsigned value => if value ≤ i64Max then some value else none
  | .negative value => some value
  | _ => none

/-- The item as a map's entries. -/
def asEntries : Item → Option (List (Item × Item))
  | .map entries => some entries
  | _ => none

/-- Look a key up in a map: the integer labels a COSE key uses. -/
def mapGet (item : Item) (key : ℤ) : Option Item :=
  item.asEntries.bind fun entries =>
    (entries.find? fun entry => entry.1.asInteger = some key).map (·.2)

end Item

/-! ### The reader -/

open Reader (token refuse exhaust many Below.refl)

/-- Take `count` bytes off the front of the remaining input. -/
def take (count : ℕ) : Reader UInt8 String (List UInt8) := fun bytes offset =>
  -- The sum saturates, and the slice `bytes[offset..end]` panics unless it lies within the blob.
  let last := min (offset + count) usizeMax
  if last > bytes.length then .error (.refused "the blob ended mid-item")
  else if offset ≤ last then .ok ((bytes.drop offset).take (last - offset), last)
  else .error .outside

/-- `from_be_bytes` of `raw[0]` to `raw[count - 1]`. -/
def word (count : ℕ) (raw : List UInt8) : Reader UInt8 String ℕ := fun _ offset =>
  if count ≤ raw.length then .ok (Bytes.ofBe (raw.take count), offset) else .error .outside

/-- Read a definite length, or refuse the item. -/
def length (info : ℕ) : Reader UInt8 String ℕ :=
  if info ≤ 23 then pure info
  else if info = 24 then take 1 >>= word 1
  else if info = 25 then take 2 >>= word 2
  else if info = 26 then take 4 >>= word 4
  else if info = 27 then take 8 >>= word 8
  else refuse "an indefinite length is not accepted here"

/-- `usize::try_from`. -/
def toUsize (value : ℕ) (message : String) : Reader UInt8 String ℕ :=
  if value ≤ usizeMax then pure value else refuse message

/-- `std::str::from_utf8`. -/
def fromUtf8 (raw : List UInt8) : Reader UInt8 String String :=
  match String.fromUTF8? ⟨raw.toArray⟩ with
  | some text => pure text
  | none => refuse "a text string was not UTF-8"

/-- An item after its initial byte; `decode` reads the items within it. -/
def decodeBody (decode : Reader UInt8 String Item) (initial : UInt8) : Reader UInt8 String Item :=
  let major := initial.toNat >>> 5
  let info := initial.toNat &&& 0x1f
  match major with
  | 0 => do
    let value ← length info
    pure (.unsigned value)
  | 1 => do
    let value ← length info
    if value ≤ i64Max then pure (.negative (-1 - value)) else refuse "a negative integer overflowed"
  | 2 => do
    let value ← length info
    let count ← toUsize value "a byte string was too long"
    let raw ← take count
    pure (.bytes raw)
  | 3 => do
    let value ← length info
    let count ← toUsize value "a text string was too long"
    let raw ← take count
    let text ← fromUtf8 raw
    pure (.text text)
  | 4 => do
    let value ← length info
    let count ← toUsize value "an array was too long"
    let items ← many decode count
    pure (.array items)
  | 5 => do
    let value ← length info
    let count ← toUsize value "a map was too long"
    let entries ← many (do
      let key ← decode
      let value ← decode
      pure (key, value)) count
    pure (.map entries)
  -- A tag wraps one item; the tagged item answers in its place.
  | 6 => do
    let _ ← length info
    decode
  | 7 =>
    match info with
    | 20 => pure (.bool false)
    | 21 => pure (.bool true)
    | 22 | 23 => pure .null
    | 24 => do
      let _ ← take 1
      refuse "unsupported CBOR simple value"
    | _ => refuse "unsupported CBOR simple value"
  | _ => refuse s!"unsupported CBOR major type {major}"

/-- Decode one item, advancing the cursor past it, with a stack that holds so many calls. -/
def decodeItem : ℕ → Reader UInt8 String Item
  | 0 => exhaust
  | stack + 1 => token "the blob ended mid-item" >>= decodeBody (decodeItem stack)

/-- Decode one item and report how many bytes it used. -/
def decodePrefix (stack : ℕ) (bytes : List UInt8) : Except (Stop String) (Item × ℕ) :=
  decodeItem stack bytes 0

/-- Decode one item that has to cover the whole input. -/
def decode (stack : ℕ) (bytes : List UInt8) : Except (Stop String) Item :=
  match decodePrefix stack bytes with
  | .error stop => .error stop
  | .ok (item, offset) =>
    if offset ≠ bytes.length then
      .error (.refused s!"trailing bytes after the item: {offset} of {bytes.length} read")
    else .ok item

/-! ### The format -/

/-- The bytes of an argument, after an initial byte with this additional information. -/
def Argument (info n : ℕ) (word : List UInt8) : Prop :=
  (info = n ∧ n ≤ 23 ∧ word = []) ∨ ∃ k < 4, info = 24 + k ∧ n < 256 ^ 2 ^ k ∧ word = Bytes.toBe (2 ^ k) n

/-- An initial byte of the major type, and an argument. -/
def Head (major n : ℕ) (word : List UInt8) : Prop :=
  ∃ info argument, Argument info n argument ∧ word = UInt8.ofNat (major * 32 + info) :: argument

/-- The bytes are those of the items, one behind the other. A tag says nothing of its item. -/
inductive Encodes : List UInt8 → List Item → Prop
  | nil : Encodes [] []
  | unsigned {n word rest items} (head : Head 0 n word) (after : Encodes rest items) :
      Encodes (word ++ rest) (.unsigned n :: items)
  | negative {n word rest items} (head : Head 1 n word) (h : n ≤ i64Max) (after : Encodes rest items) :
      Encodes (word ++ rest) (.negative (-1 - n) :: items)
  | bytes {raw word rest items} (head : Head 2 raw.length word) (after : Encodes rest items) :
      Encodes (word ++ (raw ++ rest)) (.bytes raw :: items)
  | text {s word rest items} (head : Head 3 s.toByteArray.size word) (after : Encodes rest items) :
      Encodes (word ++ (s.toByteArray.data.toList ++ rest)) (.text s :: items)
  | array {within word body rest items} (head : Head 4 within.length word) (inside : Encodes body within)
      (after : Encodes rest items) : Encodes (word ++ (body ++ rest)) (.array within :: items)
  | map {entries word body rest items} (head : Head 5 entries.length word)
      (inside : Encodes body (entries.flatMap fun entry => [entry.1, entry.2])) (after : Encodes rest items) :
      Encodes (word ++ (body ++ rest)) (.map entries :: items)
  | tag {n word body rest item items} (head : Head 6 n word) (inside : Encodes body [item])
      (after : Encodes rest items) : Encodes (word ++ (body ++ rest)) (item :: items)
  | bool {b rest items} (after : Encodes rest items) :
      Encodes ((if b then 0xf5 else 0xf4) :: rest) (.bool b :: items)
  | null {initial rest items} (h : initial = 0xf6 ∨ initial = 0xf7) (after : Encodes rest items) :
      Encodes (initial :: rest) (.null :: items)

/-- The head of an item that holds so many others. -/
inductive Opens : List UInt8 → ℕ → Prop
  | array {n word} (head : Head 4 n word) : Opens word n
  | map {n word} (head : Head 5 n word) : Opens word (2 * n)
  | tag {n word} (head : Head 6 n word) : Opens word 1

/-- The first item of the blob takes more than `depth` calls: it holds another, after those that
stand before it, and this one takes more than the calls that are left. -/
inductive Deeper : ℕ → List UInt8 → Prop
  | call {word} : Deeper 0 word
  | within {depth count word before items rest} (opens : Opens word count) (passed : Encodes before items)
      (more : items.length < count) (deeper : Deeper depth rest) : Deeper (depth + 1) (word ++ (before ++ rest))

/-! ### The canonical encoding -/

/-- The initial byte of a major type, and its argument in the fewest bytes. -/
def encodeHead (major n : ℕ) : List UInt8 :=
  if n ≤ 23 then [UInt8.ofNat (major * 32 + n)]
  else if n < 256 then UInt8.ofNat (major * 32 + 24) :: Bytes.toBe 1 n
  else if n < 256 ^ 2 then UInt8.ofNat (major * 32 + 25) :: Bytes.toBe 2 n
  else if n < 256 ^ 4 then UInt8.ofNat (major * 32 + 26) :: Bytes.toBe 4 n
  else UInt8.ofNat (major * 32 + 27) :: Bytes.toBe 8 n

mutual

/-- The canonical encoding of an item: each length and each number in the fewest bytes. -/
def encode : Item → List UInt8
  | .unsigned value => encodeHead 0 value
  | .negative value => encodeHead 1 (-1 - value).toNat
  | .bytes raw => encodeHead 2 raw.length ++ raw
  | .text s => encodeHead 3 s.toByteArray.size ++ s.toByteArray.data.toList
  | .array items => encodeHead 4 items.length ++ encodeItems items
  | .map entries => encodeHead 5 entries.length ++ encodeEntries entries
  | .bool b => if b then [0xf5] else [0xf4]
  | .null => [0xf6]

/-- The items of an array. -/
def encodeItems : List Item → List UInt8
  | [] => []
  | item :: items => encode item ++ encodeItems items

/-- The entries of a map. -/
def encodeEntries : List (Item × Item) → List UInt8
  | [] => []
  | (key, value) :: entries => encode key ++ encode value ++ encodeEntries entries

end

mutual

/-- The supported subset: numbers of the reader's types, lengths of 64 bits. -/
def Supported : Item → Prop
  | .unsigned value => value < 256 ^ 8
  | .negative value => -0x8000000000000000 ≤ value ∧ value < 0
  | .bytes raw => raw.length < 256 ^ 8
  | .text s => s.toByteArray.size < 256 ^ 8
  | .array items => items.length < 256 ^ 8 ∧ AllSupported items
  | .map entries => entries.length < 256 ^ 8 ∧ AllEntriesSupported entries
  | .bool _ | .null => True

/-- The items of an array are supported. -/
def AllSupported : List Item → Prop
  | [] => True
  | item :: items => Supported item ∧ AllSupported items

/-- The entries of a map are supported. -/
def AllEntriesSupported : List (Item × Item) → Prop
  | [] => True
  | (key, value) :: entries => Supported key ∧ Supported value ∧ AllEntriesSupported entries

end

/-- What is asked of the reader, of a blob. -/
structure Sound (stack : ℕ) (bytes : List UInt8) : Prop where
  /-- What is encoded is read back, whatever follows it. -/
  canonical : ∀ item rest, Supported item → bytes = encode item ++ rest →
    decodePrefix stack bytes = .ok (item, (encode item).length)
  /-- What is read lies within the blob, and its own bytes are read as it was. -/
  again : ∀ item n, decodePrefix stack bytes = .ok (item, n) →
    n ≤ bytes.length ∧ decode stack (bytes.take n) = .ok item
  /-- It answers, or refuses the blob. -/
  answers : ∃ r : Except String (Item × ℕ), decodePrefix stack bytes = r.mapError .refused

/-! ### Within the blob -/

section Within

variable {decode decode' : Reader UInt8 String Item} {count stack : ℕ} {raw : List UInt8} {initial : UInt8}

theorem end_of_take {bytes : List UInt8} {offset : ℕ} (hlimit : bytes.length < sliceLimit)
    (hend : ¬ min (offset + count) usizeMax > bytes.length) : min (offset + count) usizeMax = offset + count := by
  rcases Nat.le_total (offset + count) usizeMax with hle | hle
  · exact Nat.min_eq_left hle
  · rw [Nat.min_eq_right hle] at hend
    simp only [usizeMax, sliceLimit] at hend hlimit
    omega

theorem take_eq_ok {bytes : List UInt8} {offset next : ℕ} (hlimit : bytes.length < sliceLimit)
    (h : take count bytes offset = .ok (raw, next)) :
    next = offset + count ∧ next ≤ bytes.length ∧ raw = (bytes.drop offset).take count := by
  simp only [take] at h
  split_ifs at h with hend hslice
  obtain ⟨rfl, rfl⟩ := Prod.mk.inj (Except.ok.inj h)
  have hlast := end_of_take hlimit hend
  exact ⟨hlast, by omega, by rw [hlast, Nat.add_sub_cancel_left]⟩

theorem length_of_take {bytes : List UInt8} {offset next : ℕ} (hlimit : bytes.length < sliceLimit)
    (h : take count bytes offset = .ok (raw, next)) : raw.length = count := by
  obtain ⟨rfl, hle, rfl⟩ := take_eq_ok hlimit h
  rw [List.length_take, List.length_drop]
  omega

theorem below_decodeBody (h : decode.Below decode') :
    (decodeBody decode initial).Below (decodeBody decode' initial) := by
  unfold decodeBody
  simp only
  split
  · exact .refl _
  · exact .refl _
  · exact .refl _
  · exact .refl _
  · exact (Below.refl _).bind fun _ => (Below.refl _).bind fun n => (h.many n).bind fun _ => .refl _
  · exact (Below.refl _).bind fun _ => (Below.refl _).bind fun n =>
      (Reader.Below.many (h.bind fun _ => h.bind fun _ => .refl _) n).bind fun _ => .refl _
  · exact (Below.refl _).bind fun _ => h
  · exact .refl _
  · exact .refl _

theorem below_decodeItem : ∀ stack, (decodeItem stack).Below (decodeItem (stack + 1))
  | 0 => Reader.below_exhaust
  | stack + 1 => (Below.refl _).bind fun _ => below_decodeBody (below_decodeItem stack)

theorem below_of_le {stack' : ℕ} (h : stack ≤ stack') : (decodeItem stack).Below (decodeItem stack') := by
  induction stack', h using Nat.le_induction with
  | base => exact .refl _
  | succ stack' _ ih =>
    intro bytes offset
    rcases ih bytes offset with hnone | hsame
    · exact .inl hnone
    · rw [hsame]
      exact below_decodeItem stack' bytes offset

end Within

/-! ### What is read -/

section Yields

variable {decode : Reader UInt8 String Item} {count value info stack : ℕ} {raw : List UInt8}
  {message : String} {initial : UInt8} {major n : ℕ} {bytes : List UInt8} {items : List Item}

theorem Encodes.append {bytes' : List UInt8} {items' : List Item} (h : Encodes bytes items)
    (h' : Encodes bytes' items') : Encodes (bytes ++ bytes') (items ++ items') := by
  induction h with
  | nil => exact h'
  | unsigned head _ ih => simpa using ih.unsigned head
  | negative head hn _ ih => simpa using ih.negative head hn
  | bytes head _ ih => simpa using ih.bytes head
  | text head _ ih => simpa using ih.text head
  | array head inside _ _ ih => simpa using Encodes.array head inside ih
  | map head inside _ _ ih => simpa using Encodes.map head inside ih
  | tag head inside _ _ ih => simpa using Encodes.tag head inside ih
  | bool _ ih => simpa using ih.bool
  | null h _ ih => simpa using ih.null h

theorem initial_eq (initial : UInt8) : initial =
    UInt8.ofNat ((initial.toNat >>> 5) * 32 + (initial.toNat &&& 0x1f)) := by
  rw [Nat.shiftRight_eq_div_pow, Nat.and_two_pow_sub_one_eq_mod _ 5,
    show initial.toNat / 2 ^ 5 * 32 + initial.toNat % 2 ^ 5 = initial.toNat by omega, UInt8.ofNat_toNat]

theorem Head.of_argument (hmajor : initial.toNat >>> 5 = major) (h : Argument (initial.toNat &&& 0x1f) n bytes) :
    Head major n (initial :: bytes) :=
  ⟨_, bytes, h, by rw [← hmajor, ← initial_eq]⟩

theorem yields_take : (take count).Yields sliceLimit fun bytes raw => bytes = raw ∧ raw.length = count where
  inside {bytes offset} hlimit hoffset h := by
    simp only [take] at h
    split_ifs at h with hend hslice
    · cases h
    · have := end_of_take hlimit hend
      omega
  word {_ _ _ raw} hlimit _ h := by
    have hlength := length_of_take hlimit h
    obtain ⟨rfl, -, hraw⟩ := take_eq_ok hlimit h
    exact ⟨raw, hraw ▸ List.take_prefix _ _, by rw [hlength], rfl, hlength⟩

theorem yields_number :
    (take count >>= word count).Yields sliceLimit fun bytes n => n < 256 ^ count ∧ bytes = Bytes.toBe count n := by
  refine yields_take.bind fun raw _ h => ?_
  obtain ⟨rfl, rfl⟩ := h
  refine ⟨fun _ _ h => by simp [word] at h, fun _ _ h => ?_⟩
  simp only [word, le_refl, if_true, List.take_length] at h
  obtain ⟨rfl, rfl⟩ := Prod.mk.inj (Except.ok.inj h)
  exact ⟨[], List.nil_prefix, rfl, Bytes.ofBe_lt _, by rw [List.append_nil, Bytes.toBe_ofBe]⟩

theorem yields_length : (length info).Yields sliceLimit fun bytes n => Argument info n bytes := by
  have hwide : ∀ k < 4, info = 24 + k →
      (take (2 ^ k) >>= word (2 ^ k)).Yields sliceLimit fun bytes n => Argument info n bytes :=
    fun k hk hinfo => yields_number.mono fun bytes n h => Or.inr ⟨k, hk, hinfo, h⟩
  unfold length
  split_ifs with h h24 h25 h26 h27
  · exact Reader.yields_pure (.inl ⟨rfl, h, rfl⟩)
  · exact hwide 0 (by decide) h24
  · exact hwide 1 (by decide) h25
  · exact hwide 2 (by decide) h26
  · exact hwide 3 (by decide) h27
  · exact Reader.yields_refuse

theorem yields_toUsize : (toUsize value message).Yields sliceLimit fun word n => word = [] ∧ n = value := by
  unfold toUsize
  split_ifs
  · exact Reader.yields_pure ⟨rfl, rfl⟩
  · exact Reader.yields_refuse

theorem yields_fromUtf8 :
    (fromUtf8 raw).Yields sliceLimit fun word s => word = [] ∧ raw = s.toByteArray.data.toList := by
  unfold fromUtf8
  split
  · rename_i s h
    rw [String.fromUTF8?] at h
    split_ifs at h with hvalid
    obtain rfl := Option.some.inj h
    exact Reader.yields_pure ⟨rfl, rfl⟩
  · exact Reader.yields_refuse

theorem yields_decodeBody (h : decode.Yields sliceLimit fun word item => Encodes word [item]) :
    (decodeBody decode initial).Yields sliceLimit fun word item => Encodes (initial :: word) [item] := by
  have hitems := h.many Encodes.nil Encodes.append
  have hentries := Reader.Yields.many (S := fun word entries => Encodes word (entries.flatMap fun e => [e.1, e.2]))
    (h.bind (f := fun key => decode >>= fun value => pure (key, value)) (Q := fun word e => Encodes word [e.1, e.2])
      fun key word hkey => h.bind fun value word' hvalue => Reader.yields_pure
        (by simpa using hkey.append hvalue)) .nil Encodes.append
  unfold decodeBody
  simp only
  split <;> rename_i hmajor
  · exact yields_length.bind fun n word hn => Reader.yields_pure (.unsigned (.of_argument hmajor hn) .nil)
  · refine yields_length.bind fun n word hn => ?_
    split_ifs with hmax
    · exact Reader.yields_pure (.negative (.of_argument hmajor hn) hmax .nil)
    · exact Reader.yields_refuse
  · refine yields_length.bind fun n word hn => yields_toUsize.bind fun count word' hcount => ?_
    obtain ⟨rfl, rfl⟩ := hcount
    refine yields_take.bind fun raw word' hraw => Reader.yields_pure ?_
    obtain ⟨rfl, rfl⟩ := hraw
    exact .bytes (.of_argument hmajor hn) .nil
  · refine yields_length.bind fun n word hn => yields_toUsize.bind fun count word' hcount => ?_
    obtain ⟨rfl, rfl⟩ := hcount
    refine yields_take.bind fun raw word' hraw => yields_fromUtf8.bind fun s word'' hs => Reader.yields_pure ?_
    obtain ⟨rfl, hcount⟩ := hraw
    obtain ⟨rfl, rfl⟩ := hs
    exact .text (.of_argument hmajor (by simpa [← hcount] using hn)) .nil
  · refine yields_length.bind fun n word hn => yields_toUsize.bind fun count word' hcount => ?_
    obtain ⟨rfl, rfl⟩ := hcount
    refine (hitems count).bind fun items body hbody => Reader.yields_pure ?_
    obtain ⟨rfl, hbody⟩ := hbody
    simpa using Encodes.array (.of_argument hmajor hn) hbody .nil
  · refine yields_length.bind fun n word hn => yields_toUsize.bind fun count word' hcount => ?_
    obtain ⟨rfl, rfl⟩ := hcount
    refine (hentries count).bind fun entries body hbody => Reader.yields_pure ?_
    obtain ⟨rfl, hbody⟩ := hbody
    simpa using Encodes.map (.of_argument hmajor hn) hbody .nil
  · refine yields_length.bind fun n word hn => h.mono fun body item hbody => ?_
    simpa using Encodes.tag (.of_argument hmajor hn) hbody .nil
  · have hinitial := initial_eq initial
    rw [hmajor] at hinitial
    split <;> rename_i hinfo
    · rw [hinfo] at hinitial
      subst hinitial
      exact Reader.yields_pure (Encodes.bool (b := false) .nil)
    · rw [hinfo] at hinitial
      subst hinitial
      exact Reader.yields_pure (Encodes.bool (b := true) .nil)
    · rw [hinfo] at hinitial
      exact Reader.yields_pure (.null (.inl hinitial) .nil)
    · rw [hinfo] at hinitial
      exact Reader.yields_pure (.null (.inr hinitial) .nil)
    · exact yields_take.bind fun _ _ _ => Reader.yields_refuse
    · exact Reader.yields_refuse
  · exact Reader.yields_refuse

theorem yields_decodeItem : ∀ stack, (decodeItem stack).Yields sliceLimit fun word item => Encodes word [item]
  | 0 => Reader.yields_exhaust
  | stack + 1 => Reader.yields_token.bind fun initial word h => by
    subst h
    exact yields_decodeBody (yields_decodeItem stack)

end Yields

/-! ### What is encoded -/

section Reads

variable {count info major n stack : ℕ} {bytes body : List UInt8} {message : String}
  {decode : Reader UInt8 String Item} {item : Item} {items : List Item}

theorem reads_take (raw : List UInt8) : (take raw.length).Reads sliceLimit raw raw := by
  intro before after hlimit
  rw [take, Nat.min_eq_left, if_neg, if_pos (Nat.le_add_right _ _)]
  · simp
  · simp
  · simp only [List.length_append, sliceLimit, usizeMax] at hlimit ⊢
    omega

theorem reads_number (h : n < 256 ^ count) :
    (take count >>= word count).Reads sliceLimit (Bytes.toBe count n) n := by
  have htake : (take count).Reads sliceLimit (Bytes.toBe count n) (Bytes.toBe count n) := by
    simpa using reads_take (Bytes.toBe count n)
  have hword : (word count (Bytes.toBe count n)).Reads sliceLimit [] n := by
    intro before after _
    simp [word, List.take_of_length_le, Bytes.ofBe_toBe h]
  simpa using htake.bind hword

theorem reads_toUsize (h : n < 256 ^ 8) : (toUsize n message).Reads sliceLimit [] n := by
  rw [toUsize, if_pos]
  · exact Reader.reads_pure
  · rw [usizeMax]
    omega

theorem reads_fromUtf8 (s : String) : (fromUtf8 s.toByteArray.data.toList).Reads sliceLimit [] s := by
  have h : String.fromUTF8? ⟨s.toByteArray.data.toList.toArray⟩ = some s := by
    rw [Array.toArray_toList, String.fromUTF8?, dif_pos s.isValidUTF8]
    rfl
  rw [fromUtf8, h]
  exact Reader.reads_pure

theorem initial_major (major : ℕ) (hmajor : major < 8) (hinfo : info < 32) :
    (UInt8.ofNat (major * 32 + info)).toNat >>> 5 = major := by
  rw [UInt8.toNat_ofNat', Nat.mod_eq_of_lt (by omega), Nat.shiftRight_eq_div_pow]
  omega

theorem initial_info (major : ℕ) (hmajor : major < 8) (hinfo : info < 32) :
    (UInt8.ofNat (major * 32 + info)).toNat &&& 0x1f = info := by
  rw [UInt8.toNat_ofNat', Nat.mod_eq_of_lt (by omega)]
  exact (Nat.and_two_pow_sub_one_eq_mod _ 5).trans (by omega)

theorem Argument.lt (h : Argument info n bytes) : info < 32 ∧ n < 256 ^ 8 := by
  obtain ⟨rfl, hn, -⟩ | ⟨k, hk, rfl, hn, -⟩ := h
  · omega
  · refine ⟨by omega, hn.trans_le (Nat.pow_le_pow_right (by decide) ?_)⟩
    exact Nat.pow_le_pow_right (by decide) (show k ≤ 3 by omega)

theorem reads_length (h : Argument info n bytes) : (length info).Reads sliceLimit bytes n := by
  obtain ⟨rfl, hn, rfl⟩ | ⟨k, hk, rfl, hn, rfl⟩ := h
  · simpa [length, hn] using Reader.reads_pure
  · have hnumber := reads_number hn
    obtain rfl | rfl | rfl | rfl : k = 0 ∨ k = 1 ∨ k = 2 ∨ k = 3 := by omega
    · exact hnumber
    · exact hnumber
    · exact hnumber
    · exact hnumber

theorem reads_of_body {head : List UInt8} (hmajor : major < 8) (hhead : Head major n head)
    (hstack : (head ++ body).length ≤ stack)
    (h : ∀ stack, body.length ≤ stack → ∀ initial info rest, initial.toNat >>> 5 = major →
      initial.toNat &&& 0x1f = info → n < 256 ^ 8 → (length info).Reads sliceLimit rest n →
      (decodeBody (decodeItem stack) initial).Reads sliceLimit (rest ++ body) item) :
    (decodeItem stack).Reads sliceLimit (head ++ body) item := by
  obtain ⟨info, rest, hargument, rfl⟩ := hhead
  obtain ⟨stack, rfl⟩ : ∃ s, stack = s + 1 := Nat.exists_eq_add_of_le' (by simp at hstack; omega)
  have hbody : body.length ≤ stack := by
    simp only [List.cons_append, List.length_cons, List.length_append] at hstack
    omega
  exact Reader.reads_token.bind (h stack hbody _ info rest (initial_major major hmajor hargument.lt.1)
    (initial_info major hmajor hargument.lt.1) hargument.lt.2 (reads_length hargument))

theorem reads_cons {bytes' : List UInt8} (h : (decodeItem stack).Reads sliceLimit bytes item)
    (hitems : (many (decodeItem stack) items.length).Reads sliceLimit bytes' items) :
    (many (decodeItem stack) (item :: items).length).Reads sliceLimit (bytes ++ bytes') (item :: items) := by
  exact h.bind hitems.bind_pure

theorem reads_first {head rest : List UInt8} (hmajor : major < 8) (hhead : Head major n head)
    (hstack : (head ++ (body ++ rest)).length ≤ stack)
    (ih : ∀ {stack}, rest.length ≤ stack → (many (decodeItem stack) items.length).Reads sliceLimit rest items)
    (h : ∀ stack, body.length ≤ stack → ∀ initial info word, initial.toNat >>> 5 = major →
      initial.toNat &&& 0x1f = info → n < 256 ^ 8 → (length info).Reads sliceLimit word n →
      (decodeBody (decodeItem stack) initial).Reads sliceLimit (word ++ body) item) :
    (many (decodeItem stack) (item :: items).length).Reads sliceLimit (head ++ (body ++ rest)) (item :: items) := by
  rw [← List.append_assoc, List.length_append] at hstack
  rw [← List.append_assoc]
  exact reads_cons (reads_of_body hmajor hhead (by omega) h) (ih (by omega))

theorem reads_single (h : (many (decodeItem stack) [item].length).Reads sliceLimit bytes [item]) :
    (decodeItem stack).Reads sliceLimit bytes item := by
  intro before after hlimit
  obtain ⟨a, next, hread, hrest⟩ := Reader.bind_eq_ok.mp (h before after hlimit)
  cases hrest
  exact hread

/-- **What is encoded is read**, with a stack for its bytes. -/
theorem Encodes.reads (h : Encodes bytes items) : ∀ {stack}, bytes.length ≤ stack →
    (many (decodeItem stack) items.length).Reads sliceLimit bytes items := by
  induction h with
  | nil => exact fun _ => Reader.reads_pure
  | @unsigned n word rest items hhead _ ih =>
    intro stack hstack
    rw [← List.nil_append rest] at hstack ⊢
    refine reads_first (by decide) hhead hstack ih fun s _ initial info word hmajor hinfo _ hlength => ?_
    simp only [decodeBody, hmajor, hinfo]
    exact hlength.bind Reader.reads_pure
  | @negative n word rest items hhead hn _ ih =>
    intro stack hstack
    rw [← List.nil_append rest] at hstack ⊢
    refine reads_first (by decide) hhead hstack ih fun s _ initial info word hmajor hinfo _ hlength => ?_
    simp only [decodeBody, hmajor, hinfo]
    refine hlength.bind ?_
    rw [if_pos hn]
    exact Reader.reads_pure
  | @bytes raw word rest items hhead _ ih =>
    intro stack hstack
    refine reads_first (by decide) hhead hstack ih fun s hbody initial info word hmajor hinfo hn hlength => ?_
    simp only [decodeBody, hmajor, hinfo]
    exact hlength.bind ((reads_toUsize hn).bind (reads_take raw).bind_pure)
  | @text text word rest items hhead _ ih =>
    intro stack hstack
    refine reads_first (by decide) hhead hstack ih fun s hbody initial info word hmajor hinfo hn hlength => ?_
    simp only [decodeBody, hmajor, hinfo]
    have htake : (take text.toByteArray.size).Reads sliceLimit text.toByteArray.data.toList
        text.toByteArray.data.toList := by
      simpa using reads_take text.toByteArray.data.toList
    refine hlength.bind ((reads_toUsize hn).bind ?_)
    simpa using htake.bind (f := fun raw => fromUtf8 raw >>= fun text => pure (Item.text text))
      (reads_fromUtf8 text).bind_pure
  | @array within word body rest items hhead _ _ ihinside ih =>
    intro stack hstack
    refine reads_first (by decide) hhead hstack ih fun s hbody initial info word hmajor hinfo hn hlength => ?_
    simp only [decodeBody, hmajor, hinfo]
    exact hlength.bind ((reads_toUsize hn).bind (ihinside hbody).bind_pure)
  | @map entries word body rest items hhead _ _ ihinside ih =>
    intro stack hstack
    refine reads_first (by decide) hhead hstack ih fun s hbody initial info word hmajor hinfo hn hlength => ?_
    simp only [decodeBody, hmajor, hinfo]
    have hentries : (many (do
        let key ← decodeItem s
        let value ← decodeItem s
        pure (key, value)) entries.length).Reads sliceLimit body entries := fun before after hlimit =>
      Reader.many_pairs_eq_ok (ihinside hbody before after hlimit)
    exact hlength.bind ((reads_toUsize hn).bind hentries.bind_pure)
  | @tag n word body rest item items hhead _ _ ihinside ih =>
    intro stack hstack
    refine reads_first (by decide) hhead hstack ih fun s hbody initial info word hmajor hinfo hn hlength => ?_
    simp only [decodeBody, hmajor, hinfo]
    exact hlength.bind (reads_single (ihinside hbody))
  | @bool b rest items _ ih =>
    intro stack hstack
    obtain ⟨stack, rfl⟩ : ∃ s, stack = s + 1 := Nat.exists_eq_add_of_le' (by simp at hstack; omega)
    have hitems := ih (show rest.length ≤ stack + 1 by simp at hstack; omega)
    change (many (decodeItem (stack + 1)) (items.length + 1)).Reads sliceLimit ([if b then 0xf5 else 0xf4] ++ rest) _
    refine reads_cons ?_ hitems
    cases b
    · exact Reader.reads_token.bind Reader.reads_pure
    · exact Reader.reads_token.bind Reader.reads_pure
  | @null initial rest items hinitial _ ih =>
    intro stack hstack
    obtain ⟨stack, rfl⟩ : ∃ s, stack = s + 1 := Nat.exists_eq_add_of_le' (by simp at hstack; omega)
    have hitems := ih (show rest.length ≤ stack + 1 by simp at hstack; omega)
    change (many (decodeItem (stack + 1)) (items.length + 1)).Reads sliceLimit ([initial] ++ rest) _
    refine reads_cons ?_ hitems
    rcases hinitial with rfl | rfl
    · exact Reader.reads_token.bind Reader.reads_pure
    · exact Reader.reads_token.bind Reader.reads_pure

end Reads

/-! ### The canonical encoding is one -/

theorem encodeHead_head {major n : ℕ} (h : n < 256 ^ 8) : Head major n (encodeHead major n) := by
  unfold encodeHead
  split_ifs with h₀ h₁ h₂ h₃
  · exact ⟨n, [], .inl ⟨rfl, h₀, rfl⟩, rfl⟩
  · exact ⟨24, _, .inr ⟨0, by decide, rfl, h₁, rfl⟩, rfl⟩
  · exact ⟨25, _, .inr ⟨1, by decide, rfl, h₂, rfl⟩, rfl⟩
  · exact ⟨26, _, .inr ⟨2, by decide, rfl, h₃, rfl⟩, rfl⟩
  · exact ⟨27, _, .inr ⟨3, by decide, rfl, h, rfl⟩, rfl⟩

mutual

theorem encodes_encode : ∀ item, Supported item → Encodes (encode item) [item]
  | .unsigned value, h => by simpa [encode] using Encodes.unsigned (encodeHead_head h) .nil
  | .negative value, h => by
    have hvalue : ((-1 - value).toNat : ℤ) = -1 - value := Int.toNat_of_nonneg (by have := h.2; omega)
    have hmax : (-1 - value).toNat ≤ i64Max := by
      have := h.1
      simp only [i64Max]
      omega
    have hitem := Encodes.negative (encodeHead_head (lt_of_le_of_lt hmax (by decide))) hmax .nil
    rw [hvalue, show -1 - (-1 - value) = value by omega] at hitem
    simpa [encode] using hitem
  | .bytes raw, h => by simpa [encode] using Encodes.bytes (encodeHead_head h) .nil
  | .text s, h => by simpa [encode] using Encodes.text (encodeHead_head h) .nil
  | .array items, h => by
    simpa [encode] using Encodes.array (encodeHead_head h.1) (encodes_encodeItems items h.2) .nil
  | .map entries, h => by
    simpa [encode] using Encodes.map (encodeHead_head h.1) (encodes_encodeEntries entries h.2) .nil
  | .bool b, _ => by
    cases b
    · exact .bool (b := false) .nil
    · exact .bool (b := true) .nil
  | .null, _ => .null (.inl rfl) .nil

theorem encodes_encodeItems : ∀ items, AllSupported items → Encodes (encodeItems items) items
  | [], _ => .nil
  | item :: items, h => (encodes_encode item h.1).append (encodes_encodeItems items h.2)

theorem encodes_encodeEntries : ∀ entries, AllEntriesSupported entries →
    Encodes (encodeEntries entries) (entries.flatMap fun entry => [entry.1, entry.2])
  | [], _ => .nil
  | (key, value) :: entries, h =>
    ((encodes_encode key h.1).append (encodes_encode value h.2.1)).append (encodes_encodeEntries entries h.2.2)

end

/-! ### How deep it goes -/

section Deeper

variable {decode : Reader UInt8 String Item} {count value info stack : ℕ} {bytes raw : List UInt8}
  {message : String} {initial : UInt8} {offset : ℕ} {items : List Item}

theorem finishes_take : (take count).Finishes := fun bytes offset h => by
  simp only [take] at h
  split_ifs at h <;> cases h

theorem finishes_number : (take count >>= word count).Finishes := by
  refine finishes_take.bind fun raw bytes offset h => ?_
  simp only [word] at h
  split_ifs at h
  cases h

theorem finishes_length : (length info).Finishes := by
  unfold length
  split_ifs
  · exact Reader.finishes_pure
  · exact finishes_number
  · exact finishes_number
  · exact finishes_number
  · exact finishes_number
  · exact Reader.finishes_refuse

theorem finishes_toUsize : (toUsize value message).Finishes := by
  unfold toUsize
  split_ifs
  · exact Reader.finishes_pure
  · exact Reader.finishes_refuse

theorem finishes_fromUtf8 : (fromUtf8 raw).Finishes := by
  unfold fromUtf8
  split
  · exact Reader.finishes_pure
  · exact Reader.finishes_refuse

/-- An item that holds no others is read without a further call. -/
theorem finishes_decodeBody (harray : initial.toNat >>> 5 ≠ 4) (hmap : initial.toNat >>> 5 ≠ 5)
    (htag : initial.toNat >>> 5 ≠ 6) : (decodeBody decode initial).Finishes := by
  unfold decodeBody
  simp only
  split
  · exact finishes_length.bind fun _ => Reader.finishes_pure
  · refine finishes_length.bind fun _ => ?_
    split_ifs
    · exact Reader.finishes_pure
    · exact Reader.finishes_refuse
  · exact finishes_length.bind fun _ => finishes_toUsize.bind fun _ => finishes_take.bind fun _ => Reader.finishes_pure
  · exact finishes_length.bind fun _ => finishes_toUsize.bind fun _ => finishes_take.bind fun _ =>
      finishes_fromUtf8.bind fun _ => Reader.finishes_pure
  · exact absurd ‹_› harray
  · exact absurd ‹_› hmap
  · exact absurd ‹_› htag
  · split
    · exact Reader.finishes_pure
    · exact Reader.finishes_pure
    · exact Reader.finishes_pure
    · exact Reader.finishes_pure
    · exact finishes_take.bind fun _ => Reader.finishes_refuse
    · exact Reader.finishes_refuse
  · exact Reader.finishes_refuse

theorem exhausted_of_length {α : Type} {f : ℕ → Reader UInt8 String α} (hlimit : bytes.length < sliceLimit)
    (hoffset : offset ≤ bytes.length)
    (h : (length info >>= f) bytes offset = .error .exhausted) : ∃ head n, Argument info n head ∧
      head <+: bytes.drop offset ∧ f n bytes (offset + head.length) = .error .exhausted := by
  obtain ⟨n, next, hread, hf⟩ := (Reader.bind_eq_error.mp h).resolve_left (finishes_length _ _)
  obtain ⟨head, hstart, rfl, hhead⟩ := yields_length.word hlimit hoffset hread
  exact ⟨head, n, hhead, hstart, hf⟩

/-- What exhausts the stack in an item that holds a number of others does so in those. -/
theorem exhausted_of_toUsize {α β : Type} {r : ℕ → Reader UInt8 String α} {f : α → β}
    (h : (toUsize value message >>= fun n => r n >>= fun a => pure (f a)) bytes offset = .error .exhausted) :
    r value bytes offset = .error .exhausted := by
  obtain ⟨n, next, hread, hmany⟩ := (Reader.bind_eq_error.mp h).resolve_left (finishes_toUsize _ _)
  simp only [toUsize] at hread
  split_ifs at hread <;> cases hread
  refine (Reader.bind_eq_error.mp hmany).resolve_right ?_
  rintro ⟨a, next, -, hpure⟩
  cases hpure

theorem opens_of_exhausted (hlimit : bytes.length < sliceLimit) (hoffset : offset ≤ bytes.length)
    (h : decodeBody decode initial bytes offset = .error .exhausted) : ∃ head count, Opens (initial :: head) count ∧
      head <+: bytes.drop offset ∧ many decode count bytes (offset + head.length) = .error .exhausted := by
  by_cases harray : initial.toNat >>> 5 = 4
  · simp only [decodeBody, harray] at h
    obtain ⟨head, n, hhead, hstart, h⟩ := exhausted_of_length hlimit hoffset h
    exact ⟨head, n, .array (.of_argument harray hhead), hstart, exhausted_of_toUsize h⟩
  by_cases hmap : initial.toNat >>> 5 = 5
  · simp only [decodeBody, hmap] at h
    obtain ⟨head, n, hhead, hstart, h⟩ := exhausted_of_length hlimit hoffset h
    exact ⟨head, 2 * n, .map (.of_argument hmap hhead), hstart,
      Reader.many_pairs_eq_error.mp (exhausted_of_toUsize h)⟩
  by_cases htag : initial.toNat >>> 5 = 6
  · simp only [decodeBody, htag] at h
    obtain ⟨head, n, hhead, hstart, h⟩ := exhausted_of_length hlimit hoffset h
    exact ⟨head, 1, .tag (.of_argument htag hhead), hstart, Reader.many_eq_error.mpr ⟨0, by decide, [], _, rfl, h⟩⟩
  · exact absurd h (finishes_decodeBody harray hmap htag _ _)

theorem drop_eq_append {word : List UInt8} (h : word <+: bytes.drop offset) :
    bytes.drop offset = word ++ bytes.drop (offset + word.length) := by
  obtain ⟨rest, hrest⟩ := h
  rw [← List.drop_drop, ← hrest, List.drop_left]

theorem deeper_of_exhausted (hlimit : bytes.length < sliceLimit) :
    ∀ {stack offset}, offset ≤ bytes.length → decodeItem stack bytes offset = .error .exhausted →
      Deeper stack (bytes.drop offset)
  | 0, _, _, _ => .call
  | stack + 1, offset, _, h => by
    obtain ⟨initial, next, htoken, h⟩ := (Reader.bind_eq_error.mp h).resolve_left Reader.token_ne_exhausted
    obtain ⟨hinitial, rfl⟩ := Reader.token_eq_ok.mp htoken
    obtain ⟨hlt, rfl⟩ := List.getElem?_eq_some_iff.mp hinitial
    obtain ⟨head, count, hopens, hstart, h⟩ := opens_of_exhausted hlimit hlt h
    have hhead := Reader.le_of_word hlt hstart
    obtain ⟨j, hj, items, next, hitems, h⟩ := Reader.many_eq_error.mp h
    obtain ⟨before, hbefore, rfl, rfl, hencodes⟩ :=
      ((yields_decodeItem stack).many (S := Encodes) .nil Encodes.append j).word hlimit hhead hitems
    have hdeeper := Deeper.within hopens hencodes hj
      (deeper_of_exhausted hlimit (Reader.le_of_word hhead hbefore) h)
    rw [List.drop_eq_getElem_cons hlt, drop_eq_append hstart, drop_eq_append hbefore]
    exact hdeeper

theorem many_exhausted (before : List UInt8) {passed rest : List UInt8} {count : ℕ} (hencodes : Encodes passed items)
    (hlt : items.length < count) (hlimit : (before ++ (passed ++ rest)).length < sliceLimit)
    (h : decodeItem stack (before ++ (passed ++ rest)) (before.length + passed.length) = .error .exhausted) :
    many (decodeItem stack) count (before ++ (passed ++ rest)) before.length = .error .exhausted := by
  have hreads := hencodes.reads (Nat.le_add_left passed.length stack) before rest (by simpa using hlimit)
  rw [List.append_assoc] at hreads
  rcases (below_of_le (Nat.le_add_right stack passed.length)).many items.length _ _ with hnone | hsame
  · obtain ⟨j, hj, items', next, hitems, hstop⟩ := Reader.many_eq_error.mp hnone
    exact Reader.many_eq_error.mpr ⟨j, hj.trans hlt, items', next, hitems, hstop⟩
  · exact Reader.many_eq_error.mpr ⟨_, hlt, items, _, hsame.trans hreads, h⟩

theorem exhausted_of_head {before head rest : List UInt8} {major n : ℕ} {r : ℕ → Reader UInt8 String Item}
    (hmajor : major < 8) (hhead : Head major n head) (hlimit : (before ++ (head ++ rest)).length < sliceLimit)
    (hbody : ∀ initial : UInt8, initial.toNat >>> 5 = major →
      decodeBody (decodeItem stack) initial = length (initial.toNat &&& 0x1f) >>= r)
    (h : n < 256 ^ 8 → r n (before ++ (head ++ rest)) (before.length + head.length) = .error .exhausted) :
    decodeItem (stack + 1) (before ++ (head ++ rest)) before.length = .error .exhausted := by
  obtain ⟨info, argument, hargument, rfl⟩ := hhead
  have hinitial := hbody _ (initial_major major hmajor hargument.lt.1)
  rw [initial_info major hmajor hargument.lt.1] at hinitial
  generalize UInt8.ofNat (major * 32 + info) = initial at *
  have htoken := Reader.reads_token (e := "the blob ended mid-item") (t := initial) before (argument ++ rest)
    (by simpa using hlimit)
  have hlength := reads_length hargument (before ++ [initial]) rest (by simpa using hlimit)
  rw [decodeItem, Reader.bind_eq_error]
  refine .inr ⟨initial, before.length + 1, by simpa using htoken, ?_⟩
  rw [hinitial, Reader.bind_eq_error]
  refine .inr ⟨n, before.length + (initial :: argument).length, ?_, h hargument.lt.2⟩
  simpa [Nat.add_assoc, Nat.add_comm 1] using hlength

theorem exhausted_of_many {α β : Type} {r : ℕ → Reader UInt8 String α} {f : α → β} (hvalue : value < 256 ^ 8)
    (h : r value bytes offset = .error .exhausted) :
    (toUsize value message >>= fun n => r n >>= fun a => pure (f a)) bytes offset = .error .exhausted := by
  rw [toUsize, if_pos (by rw [usizeMax]; omega), Reader.bind_eq_error]
  exact .inr ⟨value, offset, rfl, Reader.bind_eq_error.mpr (.inl h)⟩

/-- A call overflows the stack where those for the items within do. -/
theorem exhausted_of_opens {before head rest : List UInt8} {count : ℕ} (hopens : Opens head count)
    (hlimit : (before ++ (head ++ rest)).length < sliceLimit)
    (h : many (decodeItem stack) count (before ++ (head ++ rest)) (before.length + head.length) = .error .exhausted) :
    decodeItem (stack + 1) (before ++ (head ++ rest)) before.length = .error .exhausted := by
  cases hopens with
  | array hhead =>
    refine exhausted_of_head (r := fun value => toUsize value "an array was too long" >>= fun n =>
      many (decodeItem stack) n >>= fun items => pure (.array items)) (by decide) hhead hlimit
      (fun initial hmajor => ?_) fun hn => exhausted_of_many hn h
    simp only [decodeBody, hmajor]
  | map hhead =>
    refine exhausted_of_head (r := fun value => toUsize value "a map was too long" >>= fun n =>
      many (decodeItem stack >>= fun key => decodeItem stack >>= fun value => pure (key, value)) n >>=
        fun entries => pure (.map entries)) (by decide) hhead hlimit (fun initial hmajor => ?_)
      fun hn => exhausted_of_many hn (Reader.many_pairs_eq_error.mpr h)
    simp only [decodeBody, hmajor]
  | tag hhead =>
    obtain ⟨j, hj, items, next, hitems, hstop⟩ := Reader.many_eq_error.mp h
    obtain rfl : j = 0 := by omega
    cases hitems
    refine exhausted_of_head (r := fun _ => decodeItem stack) (by decide) hhead hlimit (fun initial hmajor => ?_)
      fun _ => hstop
    simp only [decodeBody, hmajor]

theorem exhausted_of_deeper (h : Deeper stack bytes) : ∀ before, (before ++ bytes).length < sliceLimit →
    decodeItem stack (before ++ bytes) before.length = .error .exhausted := by
  induction h with
  | call => exact fun _ _ => rfl
  | @within stack count head passed items rest hopens hencodes hlt _ ih =>
    intro before hlimit
    have hrest := ih (before ++ head ++ passed) (by simpa using hlimit)
    have hmany := many_exhausted (before ++ head) hencodes hlt (by simpa using hlimit)
      (by simpa [Nat.add_assoc] using hrest)
    exact exhausted_of_opens hopens hlimit (by simpa using hmany)

/-- **Where the stack overflows.** -/
theorem decodePrefix_eq_exhausted (hlimit : bytes.length < sliceLimit) :
    decodePrefix stack bytes = .error .exhausted ↔ Deeper stack bytes :=
  ⟨deeper_of_exhausted hlimit (Nat.zero_le _), fun h => exhausted_of_deeper h [] hlimit⟩

end Deeper

/-! ### The reader as a whole -/

section

variable {stack n : ℕ} {bytes word : List UInt8} {item : Item}

theorem Deeper.append (h : Deeper stack bytes) (rest : List UInt8) : Deeper stack (bytes ++ rest) := by
  induction h with
  | call => exact .call
  | within hopens hencodes hlt _ ih => simpa using Deeper.within hopens hencodes hlt ih

theorem decodePrefix_of_encodes (rest : List UInt8) (hlimit : (word ++ rest).length < sliceLimit)
    (h : Encodes word [item])
    (hdeep : ¬ Deeper stack (word ++ rest)) : decodePrefix stack (word ++ rest) = .ok (item, word.length) := by
  have hread := (reads_single (h.reads (Nat.le_add_left word.length stack))).start hlimit
  rw [← decodePrefix_eq_exhausted hlimit] at hdeep
  exact ((below_of_le (Nat.le_add_right stack word.length)).eq hdeep).symm.trans hread

/-- **What is read** is what the blob begins with, where the stack holds it. -/
theorem decodePrefix_eq_ok (hlimit : bytes.length < sliceLimit) : decodePrefix stack bytes = .ok (item, n) ↔
    ¬ Deeper stack bytes ∧ n ≤ bytes.length ∧ Encodes (bytes.take n) [item] := by
  constructor
  · intro h
    obtain ⟨word, ⟨rest, hword⟩, hn, hencodes⟩ := (yields_decodeItem stack).word hlimit (Nat.zero_le _) h
    rw [List.drop_zero] at hword
    rw [Nat.zero_add] at hn
    subst hword hn
    refine ⟨fun hdeep => ?_, by simp, by simpa using hencodes⟩
    rw [(decodePrefix_eq_exhausted hlimit).mpr hdeep] at h
    cases h
  · rintro ⟨hdeep, hn, hencodes⟩
    have hlength : (bytes.take n).length = n := by rw [List.length_take]; omega
    have hread := decodePrefix_of_encodes (bytes.drop n) (by simpa using hlimit) hencodes (by simpa using hdeep)
    rwa [List.take_append_drop, hlength] at hread

theorem decode_eq_ok : decode stack bytes = .ok item ↔ decodePrefix stack bytes = .ok (item, bytes.length) := by
  unfold decode
  split
  · simp [*]
  · split_ifs with hlength
    · simp [*]
    · simp_all

theorem decodePrefix_answers (hlimit : bytes.length < sliceLimit) (hdeep : ¬ Deeper stack bytes) :
    ∃ r : Except String (Item × ℕ), decodePrefix stack bytes = r.mapError .refused := by
  cases h : decodePrefix stack bytes with
  | ok answer => exact ⟨.ok answer, rfl⟩
  | error stop =>
    cases stop with
    | refused message => exact ⟨.error message, rfl⟩
    | outside => exact absurd h ((yields_decodeItem stack).inside hlimit (Nat.zero_le _))
    | exhausted => exact absurd ((decodePrefix_eq_exhausted hlimit).mp h) hdeep

theorem Sound.shallow (hlimit : bytes.length < sliceLimit) (h : Sound stack bytes) : ¬ Deeper stack bytes := by
  intro hdeep
  obtain ⟨r, hr⟩ := h.answers
  rw [(decodePrefix_eq_exhausted hlimit).mpr hdeep] at hr
  cases r <;> cases hr

/-- **The reader** reads back what was encoded, whatever follows; what it reads lies within the
blob and is read again from its own bytes; and it answers or refuses: just where the stack holds
the calls for the items that lie within one another. -/
theorem decodes (stack : ℕ) (bytes : List UInt8) (hlimit : bytes.length < sliceLimit) :
    Sound stack bytes ↔ ¬ Deeper stack bytes := by
  refine ⟨Sound.shallow hlimit, fun hdeep => ⟨fun item rest hsupported hbytes => ?_, fun item n h => ?_,
    decodePrefix_answers hlimit hdeep⟩⟩
  · subst hbytes
    exact decodePrefix_of_encodes rest hlimit (encodes_encode item hsupported) hdeep
  · obtain ⟨-, hn, hencodes⟩ := (decodePrefix_eq_ok hlimit).mp h
    have hlength : (bytes.take n).length = n := by rw [List.length_take]; omega
    refine ⟨hn, decode_eq_ok.mpr ((decodePrefix_eq_ok (by omega)).mpr ⟨fun hshort => hdeep ?_, le_rfl, ?_⟩)⟩
    · simpa using hshort.append (bytes.drop n)
    · rwa [List.take_length]

end

/-- `{1: 2, 3: -7, -2: h'5a'}`. -/
def coseKey : Item :=
  .map [(.unsigned 1, .unsigned 2), (.unsigned 3, .negative (-7)), (.negative (-2), .bytes [0x5a])]

/-- A key with a byte after it is read with two calls, the second for the items of its map. -/
theorem decodes_coseKey : Sound 2 (encode coseKey ++ [0xff]) ∧ ¬ Sound 1 (encode coseKey ++ [0xff]) := by
  have hlimit : (encode coseKey ++ [0xff]).length < sliceLimit := by decide
  have hread : decodePrefix 2 (encode coseKey ++ [0xff]) = .ok (coseKey, (encode coseKey).length) := by rfl
  have hoverflow : decodePrefix 1 (encode coseKey ++ [0xff]) = .error .exhausted := by rfl
  exact ⟨(decodes 2 _ hlimit).mpr ((decodePrefix_eq_ok hlimit).mp hread).1,
    fun h => (decodes 1 _ hlimit).mp h ((decodePrefix_eq_exhausted hlimit).mp hoverflow)⟩

theorem deeper_arrays : ∀ stack, Deeper stack (List.replicate stack 0x81)
  | 0 => .call
  | stack + 1 => by
    have hopens : Opens [0x81] 1 := .array ⟨1, [], .inl ⟨rfl, by decide, rfl⟩, rfl⟩
    have hwithin : Deeper (stack + 1) ([0x81] ++ ([] ++ List.replicate stack 0x81)) :=
      .within hopens .nil (by decide) (deeper_arrays stack)
    exact hwithin

/-- As many arrays, one within another, as the stack holds calls. -/
theorem nested_arrays : ¬ ∃ stack < sliceLimit, Sound stack (List.replicate stack 0x81) := by
  rintro ⟨stack, hlimit, h⟩
  exact h.shallow (by simpa using hlimit) (deeper_arrays stack)

end Omnion.Identity.Cbor
