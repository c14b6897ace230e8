import Omnion.Core.FlatJson
import Omnion.Media.Exif

/-!
# Storing what a camera wrote

`to_json`, `to_value` and `from_json` of `crates/media/src/exif.rs`: a record is written as a JSON object into a column,
and read back out of it.

What was read out of a picture is read back as it was just when it has no capture time and its texts have no control
characters (`fromJson_toValue_iff`): a capture time is stored as RFC 3339 and read as a camera writes it, and control
characters are dropped.

`serde_json::from_str` is a parameter, which is to read flat objects.
-/

namespace Omnion.Media.ExifReader

open Guarded FlatJson
open Identity.WebAuthn (utf8Bytes)

/-! ### The stored form -/

/-- A character in a JSON string: control characters are dropped. -/
def jsonEscape (c : Char) : List Char :=
  if c = '"' then ['\\', '"'] else if c = '\\' then ['\\', '\\'] else if c.toNat < 0x20 then [] else [c]

/-- A JSON string literal. -/
def jsonString (value : String) : List Char := '"' :: (value.toList.flatMap jsonEscape ++ ['"'])

/-- A key and its value. -/
def part (key : String) (text : List Char) : List Char := '"' :: (key.toList ++ '"' :: ':' :: text)

/-- The texts of a record, by their keys. -/
def textFields (x : Exif) : List (String × Option String) :=
  [("make", x.make), ("model", x.model), ("lens", x.lens), ("software", x.software), ("captured_at", x.capturedAt)]

def numberFields (x : Exif) : List (String × Option ℤ) :=
  [("iso", x.iso), ("exposure_ms", x.exposureMs), ("aperture_x100", x.apertureX100),
    ("focal_length_mm", x.focalLengthMm), ("orientation", x.orientation)]

/-- The record as JSON, with a field written only when the camera actually said it. -/
def toJson (x : Exif) : List Char :=
  let texts := (textFields x).filterMap fun f => f.2.map fun text => part f.1 (jsonString text)
  let numbers := (numberFields x).filterMap fun f => f.2.map fun number => part f.1 (JsonText.int number)
  let parts := texts ++ numbers ++ if x.gps then [part "gps" ['t', 'r', 'u', 'e']] else []
  if parts = [] then ['{', '}'] else '{' :: ([','].intercalate parts ++ ['}'])

/-- The record as the JSON that goes into the column. -/
def toValue (fromStr : List Char → Option Json) (x : Exif) : Json := (fromStr (toJson x)).getD .null

/-- A text of the column, when it is one that may be kept. -/
def textAt (value : Json) (key : String) : Option String :=
  (((value.get key).bind Json.asStr).map Text.trim).filter fun raw => raw ≠ "" ∧ raw.utf8ByteSize ≤ MAX_STRING_BYTES

/-- `i32::try_from`. -/
def fromI64 (n : ℤ) : Option ℤ := if -(i32Max : ℤ) - 1 ≤ n ∧ n ≤ i32Max then some n else none

/-- A number of the column. -/
def numberAt (value : Json) (key : String) : Option ℤ := ((value.get key).bind Json.asI64).bind fromI64

/-- The capture time of the column. -/
def capturedAtOf (value : Json) : Except Trap (Option String) :=
  match textAt value "captured_at" with
  | some raw => datetime raw
  | none => pure none

/-- Read a record back out of the column. -/
def fromJson (value : Json) : Except Trap Exif := do
  return {
    make := textAt value "make"
    model := textAt value "model"
    lens := textAt value "lens"
    software := textAt value "software"
    capturedAt := ← capturedAtOf value
    iso := numberAt value "iso"
    exposureMs := numberAt value "exposure_ms"
    apertureX100 := numberAt value "aperture_x100"
    focalLengthMm := numberAt value "focal_length_mm"
    orientation := numberAt value "orientation"
    gps := ((value.get "gps").bind Json.asBool).getD false }

/-- `serde_json::from_str`, as far as it reads flat objects without a key twice. -/
def ReadsObjects (fromStr : List Char → Option Json) : Prop :=
  ∀ text members, readObject text = some members → (members.map Prod.fst).Nodup →
    ∃ v, fromStr text = some v ∧ ∀ key, v.get key = members.lookup key

/-! ### What is stored -/

variable {s : String} {x : Exif} {fromStr : List Char → Option Json} {key : String}

/-- A text without its control characters. -/
def kept (s : String) : String := String.ofList (s.toList.filter fun c => ¬ c.toNat < 0x20)

theorem kept_plain : ∀ c ∈ (kept s).toList, ¬ c.toNat < 0x20 := by
  intro c hc
  rw [kept, String.toList_ofList] at hc
  simpa using (List.mem_filter.mp hc).2

/-- What is written of a text is written of what is kept of it. -/
theorem jsonString_eq (s : String) : jsonString s = '"' :: ((kept s).toList.flatMap JsonText.escape ++ ['"']) := by
  have hchars : ∀ l : List Char, l.flatMap jsonEscape =
      (l.filter fun c => ¬ c.toNat < 0x20).flatMap JsonText.escape := by
    intro l
    induction l with
    | nil => rfl
    | cons c l ih =>
      by_cases hcontrol : c.toNat < 0x20
      · have hquote : c ≠ '"' := by
          rintro rfl
          exact absurd hcontrol (by decide)
        have hslash : c ≠ '\\' := by
          rintro rfl
          exact absurd hcontrol (by decide)
        simp [jsonEscape, hcontrol, hquote, hslash, ih]
      · rw [List.filter_cons_of_pos (by simpa using hcontrol), List.flatMap_cons, List.flatMap_cons, ih]
        congr 1
        by_cases hquote : c = '"'
        · subst hquote
          rfl
        by_cases hslash : c = '\\'
        · subst hslash
          rfl
        rw [escape_of_plain hcontrol hquote hslash]
        simp [jsonEscape, hcontrol, hquote, hslash]
  rw [jsonString, hchars, kept, String.toList_ofList]

/-- The fields of a record: their keys, their texts, and the values that are read. -/
def slots (x : Exif) : List (String × Option (List Char × Json)) :=
  (textFields x).map (fun f => (f.1, f.2.map fun s => (jsonString s, Json.string (kept s)))) ++
    (numberFields x).map (fun f => (f.1, f.2.map fun n => (JsonText.int n, Json.number (.int n)))) ++
    [("gps", if x.gps then some (['t', 'r', 'u', 'e'], Json.bool true) else none)]

/-- Those that are there. -/
def written (x : Exif) : List Written := (slots x).filterMap fun f => f.2.map fun v => ⟨f.1, v.1, v.2⟩

def slotKeys : List String :=
  ["make", "model", "lens", "software", "captured_at", "iso", "exposure_ms", "aperture_x100", "focal_length_mm",
    "orientation", "gps"]

theorem slots_keys (x : Exif) : (slots x).map Prod.fst = slotKeys := rfl

theorem key_of_mem_written {w : Written} (h : w ∈ written x) : w.key ∈ slotKeys := by
  obtain ⟨f, hf, hw⟩ := List.mem_filterMap.mp h
  obtain ⟨v, -, rfl⟩ := Option.map_eq_some_iff.mp hw
  exact slots_keys x ▸ List.mem_map_of_mem hf

theorem part_eq_member (h : key ∈ slotKeys) (text : List Char) : part key text = member key text := by
  have hplain : ∀ key ∈ slotKeys, key.toList.flatMap JsonText.escape = key.toList := by decide +kernel
  simp [part, member, JsonText.string, hplain key h]

theorem toJson_eq (x : Exif) :
    toJson x = '{' :: ([','].intercalate ((written x).map fun w => member w.key w.text) ++ ['}']) := by
  have hparts : ((textFields x).filterMap fun f => f.2.map fun text => part f.1 (jsonString text)) ++
      ((numberFields x).filterMap fun f => f.2.map fun number => part f.1 (JsonText.int number)) ++
      (if x.gps then [part "gps" ['t', 'r', 'u', 'e']] else []) = (written x).map fun w => part w.key w.text := by
    simp only [written, slots, List.filterMap_append, List.map_append, List.filterMap_map, List.map_filterMap,
      Function.comp_def, Option.map_map]
    congr 1
    cases x.gps <;> rfl
  have hmembers : ((written x).map fun w => part w.key w.text) = (written x).map fun w => member w.key w.text :=
    List.map_congr_left fun w hw => part_eq_member (key_of_mem_written hw) w.text
  unfold toJson
  dsimp only
  rw [hparts, hmembers]
  split_ifs with hnil
  · rw [hnil]
    rfl
  · rfl

theorem Legible.numberFields (h : Legible x) : ∀ f ∈ numberFields x, ∀ n ∈ f.2, IsCount n := by
  simp only [ExifReader.numberFields, List.forall_mem_cons, List.not_mem_nil, IsEmpty.forall_iff,
    implies_true, and_true]
  exact ⟨h.iso, h.exposureMs, h.apertureX100, h.focalLengthMm, h.orientation⟩

theorem isWord_of_isCount {n : ℤ} (h : IsCount n) : IsWord n := by
  simp only [IsCount, IsWord, i32Max] at *
  omega

theorem written_sound (h : Legible x) : ∀ w ∈ written x, w.Sound := by
  intro w hw
  have hkeys : ∀ key ∈ slotKeys, key.toList.Forall fun c => ¬ c.toNat < 0x20 := by decide +kernel
  refine ⟨List.forall_iff_forall_mem.mp (hkeys w.key (key_of_mem_written hw)), ?_⟩
  obtain ⟨f, hf, hw⟩ := List.mem_filterMap.mp hw
  obtain ⟨v, hv, rfl⟩ := Option.map_eq_some_iff.mp hw
  simp only [slots, List.mem_append, List.mem_map, List.mem_singleton] at hf
  rcases hf with (⟨g, -, rfl⟩ | ⟨g, hg, rfl⟩) | rfl
  · obtain ⟨s, -, rfl⟩ := Option.map_eq_some_iff.mp hv
    dsimp only
    rw [jsonString_eq]
    have hstring := writes_string (kept_plain (s := s))
    rwa [String.ofList_toList] at hstring
  · obtain ⟨n, hn, rfl⟩ := Option.map_eq_some_iff.mp hv
    exact writes_int (isWord_of_isCount (h.numberFields _ hg n hn))
  · dsimp only at hv
    split_ifs at hv
    cases hv
    exact writes_true

section Present

variable {α β : Type} (g : α → β)

/-- The fields that are there, as what `g` makes of them. -/
def present (l : List (String × Option α)) : List (String × β) := l.filterMap fun f => f.2.map fun v => (f.1, g v)

theorem present_keys (l : List (String × Option α)) : ((present g l).map Prod.fst).Sublist (l.map Prod.fst) := by
  induction l with
  | nil => exact .slnil
  | cons f l ih =>
    obtain ⟨k, o⟩ := f
    cases o with
    | none => exact ih.cons _
    | some v => exact ih.cons_cons _

/-- A key that is there at most once. -/
theorem lookup_present {l : List (String × Option α)} (hnodup : (l.map Prod.fst).Nodup) (key : String) :
    (present g l).lookup key = (l.lookup key).join.map g := by
  induction l with
  | nil => rfl
  | cons f l ih =>
    obtain ⟨k, o⟩ := f
    rw [List.map_cons, List.nodup_cons] at hnodup
    have hrest := ih hnodup.2
    by_cases hkey : key = k
    · subst hkey
      cases o with
      | none =>
        have hnone : l.lookup key = none := by
          rw [List.lookup_eq_none_iff]
          intro f hf
          simpa using fun heq : key = f.1 => hnodup.1 (List.mem_map.mpr ⟨f, hf, heq.symm⟩)
        rw [hnone] at hrest
        simpa [present] using hrest
      | some v => simp [present]
    · have hbeq : (key == k) = false := by simpa using hkey
      rw [List.lookup_cons, hbeq]
      cases o with
      | none => exact hrest
      | some v =>
        have hcons : present g ((k, some v) :: l) = (k, g v) :: present g l := rfl
        rw [hcons, List.lookup_cons, hbeq]
        exact hrest

end Present

/-- **What is read of the column** is what is kept of each field. -/
theorem get_toValue (hfrom : ReadsObjects fromStr) (h : Legible x) (key : String) :
    (toValue fromStr x).get key = ((slots x).lookup key).join.map Prod.snd := by
  have hmembers : (written x).map (fun w => (w.key, w.value)) = present Prod.snd (slots x) := by
    simp only [written, present, List.map_filterMap, Option.map_map]
    rfl
  have hkeys : ((slots x).map Prod.fst).Nodup := slots_keys x ▸ (by decide : slotKeys.Nodup)
  have hread := readObject_write (written_sound h)
  rw [← toJson_eq, hmembers] at hread
  obtain ⟨v, hv, hget⟩ := hfrom _ _ hread (hkeys.sublist (present_keys Prod.snd (slots x)))
  rw [toValue, hv, Option.getD_some, hget, lookup_present Prod.snd hkeys]

/-! ### Reading it back -/

/-- What is read back of a text. -/
def reload (o : Option String) : Option String :=
  ((o.map kept).map Text.trim).filter fun raw => raw ≠ "" ∧ raw.utf8ByteSize ≤ MAX_STRING_BYTES

/-- A text without control characters. -/
def Plain (s : String) : Prop := ∀ c ∈ s.toList, 0x20 ≤ c.toNat

theorem kept_of_plain (h : Plain s) : kept s = s := by
  rw [kept, List.filter_eq_self.mpr fun c hc => by simpa using h c hc, String.ofList_toList]

theorem length_trim_le (s : String) : (Text.trim s).toList.length ≤ s.toList.length := by
  rw [Text.trim, String.toList_ofList]
  exact ((List.rdropWhile_prefix _ _).length_le).trans (List.dropWhile_suffix _).length_le

/-- **A text is read back as it was** just when it has no control character. -/
theorem reload_eq_self_iff {o : Option String} (h : ∀ s ∈ o, IsText s) : reload o = o ↔ ∀ s ∈ o, Plain s := by
  cases o with
  | none => simp [reload]
  | some s =>
    obtain ⟨htrim, hne, hlength⟩ := h s rfl
    constructor
    · rintro heq s' hs' c hc
      obtain rfl := Option.mem_some_iff.mp hs'
      have hread : Text.trim (kept s) = s := by
        rw [reload, Option.map_some, Option.map_some, Option.filter_eq_some_iff] at heq
        exact Option.some.inj heq.1
      by_contra hcontrol
      -- a character was dropped, so what was read back is shorter
      have hshort : (kept s).toList.length < s.toList.length := by
        rw [kept, String.toList_ofList]
        refine List.length_filter_lt_length_iff_exists.mpr ⟨c, hc, ?_⟩
        simpa using hcontrol
      have hle := length_trim_le (kept s)
      rw [hread] at hle
      omega
    · intro hplain
      rw [reload, Option.map_some, Option.map_some, kept_of_plain (hplain s rfl), htrim]
      exact Option.filter_eq_some_iff.mpr ⟨rfl, by simpa using ⟨hne, hlength⟩⟩

theorem isWhitespace_of_printed {c : Char} (h : 0x20 < c.toNat ∧ c.toNat < 0x80) : Text.isWhitespace c = false := by
  simp only [Text.isWhitespace, Bool.or_eq_false_iff, Bool.and_eq_false_iff, beq_eq_false_iff_ne,
    decide_eq_false_iff_not]
  omega

theorem IsPrinted.plain (h : IsPrinted s) : Plain s := fun c hc => (h c hc).1.le

theorem IsPrinted.trim (h : IsPrinted s) : Text.trim s = s := by
  have hblank : ∀ c ∈ s.toList, ¬ Text.isWhitespace c = true := fun c hc => by
    simp [isWhitespace_of_printed (h c hc)]
  rw [← String.ofList_toList (s := s), Text.trim_eq_self_iff]
  constructor
  · rw [List.dropWhile_eq_self_iff]
    exact fun hlength => hblank _ (List.getElem_mem hlength)
  · rw [List.rdropWhile_eq_self_iff]
    exact fun hne => hblank _ (List.getLast_mem hne)

/-- **A capture time is not read back**: where a camera writes a colon, there is a hyphen. -/
theorem datetime_of_stamp (h : IsStamp s) : datetime s = .ok none := by
  obtain ⟨-, year, rest, rfl, hyear⟩ := h
  unfold datetime
  dsimp only
  by_cases hlength : (utf8Bytes (year ++ "-" ++ rest)).length = 19
  · rw [if_neg (not_not.mpr hlength)]
    have hwithin : ∀ check ∈ dateShape, check.Within (utf8Bytes (year ++ "-" ++ rest)).length := by
      rw [hlength]
      simp [dateShape, DateCheck.Within]
    obtain ⟨passed, hpass, hpassed⟩ := passAll_yields hwithin
    have hhyphen : (utf8Bytes (year ++ "-" ++ rest))[4]? = some 45 := by
      rw [Identity.WebAuthn.utf8Bytes_append, Identity.WebAuthn.utf8Bytes_append, List.append_assoc,
        List.getElem?_append_right hyear.le, hyear]
      rfl
    have hfails : passed = false := by
      by_contra hpasses
      have hcolon : (utf8Bytes (year ++ "-" ++ rest))[4]? = some 58 :=
        hpassed.mp (by simpa using hpasses) (.byte 4 58) (by decide)
      rw [hhyphen] at hcolon
      exact absurd hcolon (by decide)
    rw [hpass, hfails]
    rfl
  · rw [if_pos hlength]
    rfl

theorem textAt_toValue (hfrom : ReadsObjects fromStr) (hlegible : Legible x) {o : Option String}
    (h : (key, o) ∈ textFields x) :
    textAt (toValue fromStr x) key = reload o := by
  have hlookup : (slots x).lookup key = some (o.map fun s => (jsonString s, Json.string (kept s))) := by
    simp only [textFields, List.mem_cons, List.not_mem_nil, or_false, Prod.mk.injEq] at h
    rcases h with ⟨rfl, rfl⟩ | ⟨rfl, rfl⟩ | ⟨rfl, rfl⟩ | ⟨rfl, rfl⟩ | ⟨rfl, rfl⟩ <;> rfl
  rw [textAt, get_toValue hfrom hlegible, hlookup, reload]
  cases o <;> rfl

theorem fromI64_of_isCount {n : ℤ} (h : IsCount n) : (Json.asI64 (.number (.int n))).bind fromI64 = some n := by
  obtain ⟨hlow, hhigh⟩ := h
  simp only [i32Max] at hhigh
  have hwide : Json.asI64 (.number (.int n)) = some n := if_pos ⟨by omega, by omega⟩
  rw [hwide, Option.bind_some, fromI64, i32Max, if_pos ⟨by omega, by omega⟩]

theorem numberAt_toValue (hfrom : ReadsObjects fromStr) (hlegible : Legible x) {o : Option ℤ}
    (h : (key, o) ∈ numberFields x) : numberAt (toValue fromStr x) key = o := by
  have hcount : ∀ n ∈ o, IsCount n := hlegible.numberFields _ h
  have hlookup : (slots x).lookup key = some (o.map fun n => (JsonText.int n, Json.number (.int n))) := by
    simp only [numberFields, List.mem_cons, List.not_mem_nil, or_false, Prod.mk.injEq] at h
    rcases h with ⟨rfl, rfl⟩ | ⟨rfl, rfl⟩ | ⟨rfl, rfl⟩ | ⟨rfl, rfl⟩ | ⟨rfl, rfl⟩ <;> rfl
  rw [numberAt, get_toValue hfrom hlegible, hlookup]
  cases o with
  | none => rfl
  | some n => exact fromI64_of_isCount (hcount n rfl)

theorem gpsAt_toValue (hfrom : ReadsObjects fromStr) (h : Legible x) :
    (((toValue fromStr x).get "gps").bind Json.asBool).getD false = x.gps := by
  have hlookup : (slots x).lookup "gps" = some (if x.gps then some (['t', 'r', 'u', 'e'], Json.bool true) else none) :=
    rfl
  rw [get_toValue hfrom h, hlookup]
  cases x.gps <;> rfl

theorem reload_of_printed {o : Option String} (h : ∀ s ∈ o, IsPrinted s) : ∀ s ∈ reload o, s ∈ o := by
  intro s hs
  cases o with
  | none => cases hs
  | some stored =>
    have hprinted := h stored rfl
    rw [reload, Option.map_some, Option.map_some, kept_of_plain hprinted.plain, hprinted.trim] at hs
    exact (Option.mem_filter_iff.mp hs).1

/-- **What is read back of a record**: its texts as far as they are kept, its numbers, and no capture time. -/
theorem fromJson_toValue (hfrom : ReadsObjects fromStr) (h : Legible x) : fromJson (toValue fromStr x) = .ok { x with
    make := reload x.make
    model := reload x.model
    lens := reload x.lens
    software := reload x.software
    capturedAt := none } := by
  have hstamp : capturedAtOf (toValue fromStr x) = .ok none := by
    rw [capturedAtOf, textAt_toValue hfrom h (o := x.capturedAt) (by simp [textFields])]
    cases hreload : reload x.capturedAt with
    | none => rfl
    | some s =>
      have hs := reload_of_printed (fun s hs => (h.capturedAt s hs).1) s hreload
      exact datetime_of_stamp (h.capturedAt s hs)
  rw [fromJson, hstamp, textAt_toValue hfrom h (o := x.make) (by simp [textFields]),
    textAt_toValue hfrom h (o := x.model) (by simp [textFields]),
    textAt_toValue hfrom h (o := x.lens) (by simp [textFields]),
    textAt_toValue hfrom h (o := x.software) (by simp [textFields]),
    numberAt_toValue hfrom h (o := x.iso) (by simp [numberFields]),
    numberAt_toValue hfrom h (o := x.exposureMs) (by simp [numberFields]),
    numberAt_toValue hfrom h (o := x.apertureX100) (by simp [numberFields]),
    numberAt_toValue hfrom h (o := x.focalLengthMm) (by simp [numberFields]),
    numberAt_toValue hfrom h (o := x.orientation) (by simp [numberFields]),
      gpsAt_toValue hfrom h]
  rfl

/-- **What was read out of a picture is read back as it was** just when it has no capture time, and no control
character in a text. -/
theorem fromJson_toValue_iff (fromStr : List Char → Option Json) (hfrom : ReadsObjects fromStr) (contentType : String)
    (head : List UInt8) (h : head.length < sliceLimit) (x : Exif) (hread : read contentType head = .ok x) :
    fromJson (toValue fromStr x) = .ok x ↔
      x.capturedAt = none ∧ ∀ text ∈ [x.make, x.model, x.lens, x.software], ∀ s ∈ text, Plain s := by
  obtain ⟨x', hlegible, hwithin⟩ := readWithin_legible h contentType
  obtain rfl : x' = x := Except.ok.inj ((hwithin 2 _ le_rfl (Nat.lt_succ_self _)).symm.trans hread)
  rw [fromJson_toValue hfrom hlegible, Except.ok.injEq, Exif.ext_iff]
  simp only [List.forall_mem_cons, List.not_mem_nil, IsEmpty.forall_iff, implies_true, and_true, true_and]
  rw [reload_eq_self_iff hlegible.make, reload_eq_self_iff hlegible.model, reload_eq_self_iff hlegible.lens,
    reload_eq_self_iff hlegible.software, eq_comm (b := x'.capturedAt)]
  tauto

theorem readsObjects_readObject : ReadsObjects fun text => (readObject text).map Json.object := by
  intro text members hread hnodup
  exact ⟨.object members, by simp [hread], fun key => rfl⟩

/-- A camera that wrote its maker, and how it was held. -/
def upright : List UInt8 :=
  [73, 73, 42, 0, 8, 0, 0, 0, 2, 0,
    0x0f, 0x01, 2, 0, 6, 0, 0, 0, 38, 0, 0, 0, 0x12, 0x01, 3, 0, 1, 0, 0, 0, 6, 0, 0, 0,
    0, 0, 0, 0, 67, 97, 110, 111, 110, 0]

/-- A picture without a capture time. -/
theorem fromJson_toValue_upright :
    fromJson (toValue (fun text => (readObject text).map Json.object) { make := some "Canon", orientation := some 6 }) =
      .ok { make := some "Canon", orientation := some 6 } ↔ (none : Option String) = none ∧
        ∀ text ∈ [some "Canon", none, none, none], ∀ s ∈ text, Plain s :=
  fromJson_toValue_iff _ readsObjects_readObject "image/png" (pngOf upright) (by decide)
    { make := some "Canon", orientation := some 6 } (by decide +kernel)

/-- A camera that wrote `2019:07:04 12:34:56`. -/
def dated : List UInt8 :=
  [73, 73, 42, 0, 8, 0, 0, 0, 1, 0, 0x32, 0x01, 2, 0, 20, 0, 0, 0, 26, 0, 0, 0, 0, 0, 0, 0] ++
    [50, 48, 49, 57, 58, 48, 55, 58, 48, 52, 32, 49, 50, 58, 51, 52, 58, 53, 54, 0]

/-- **A capture time is stored, and lost** when it is read back. -/
theorem capturedAt_lost : ¬ ∀ fromStr, ReadsObjects fromStr → ∀ contentType head, head.length < sliceLimit →
    ∀ x, read contentType head = .ok x → fromJson (toValue fromStr x) = .ok x := by
  intro h
  have hread : read "image/png" (pngOf dated) = .ok { capturedAt := some "2019-07-04T12:34:56" } := by decide +kernel
  have hback := h _ readsObjects_readObject "image/png" (pngOf dated) (by decide) _ hread
  revert hback
  decide +kernel

end Omnion.Media.ExifReader
