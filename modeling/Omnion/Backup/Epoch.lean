import Mathlib.Tactic.IntervalCases
import Omnion.Backup.Preview
import Omnion.Core.NetText
import Omnion.Identity.WebAuthn
import Omnion.Library.Calendar

/-!
# The age of an archive

`parse_epoch` and `days_from_civil` of `crates/backup/src/restore.rs`, which the preview of a restore
takes its age from, next to the timestamps of RFC 3339.

## What is proved

* `parseEpoch_exact_iff` — a timestamp is read as its number of seconds, and nothing else is read, just
  when the text is a timestamp in UTC, or fails the few checks there are.
* `offset_ignored` — a timestamp with an offset, read as if it had none.

## Honest scope

A leap second is none of a timestamp's, as it has no number of its own. Years are integers; those that
`parse_epoch` can read have four characters, and overflow nothing.
-/

namespace Omnion.Backup

open Calendar

/-! ### Days -/

theorem era_eq (y : ℤ) : (if 0 ≤ y then y else y - 399).tdiv 400 = y / 400 := by
  rw [Int.tdiv_eq_ediv, show Int.sign 400 = 1 from rfl]
  split_ifs <;> omega

theorem daysOfEra_eq (y : ℤ) :
    y / 400 * 146097 + ((y - y / 400 * 400) * 365 + (y - y / 400 * 400).tdiv 4 - (y - y / 400 * 400).tdiv 100) =
      365 * y + leapsThrough y := by
  rw [Int.tdiv_eq_ediv_of_nonneg (by omega), Int.tdiv_eq_ediv_of_nonneg (by omega), leapsThrough]
  omega

theorem daysFromCivil_eq (year : ℤ) {month : ℕ} (hmonth : 1 ≤ month ∧ month ≤ 12) (day : ℕ) :
    daysFromCivil year month day = daysFromEpoch year month day := by
  have hleaps := leapsThrough_sub_one year
  have hthis := daysOfEra_eq year
  have hlast := daysOfEra_eq (year - 1)
  obtain ⟨hlow, hhigh⟩ := hmonth
  simp only [daysFromCivil, daysFromEpoch, era_eq]
  by_cases hleap : IsLeap year
  · rw [if_pos hleap] at hleaps
    interval_cases month <;> simp [daysBefore, daysInMonth, List.range', hleap] <;> omega
  · rw [if_neg hleap] at hleaps
    interval_cases month <;> simp [daysBefore, daysInMonth, List.range', hleap] <;> omega

/-! ### Timestamps -/

/-- What a timestamp says. -/
structure Timestamp where
  year : ℕ
  month : ℕ
  day : ℕ
  hour : ℕ
  minute : ℕ
  second : ℕ
  /-- How far the clock is ahead of UTC, in minutes. -/
  offset : ℤ

/-- A date and a time of day that there are. -/
structure Timestamp.Valid (t : Timestamp) : Prop where
  date : IsDate t.year t.month t.day
  hour : t.hour < 24
  minute : t.minute < 60
  second : t.second < 60

/-- The seconds since the epoch that the clock shows. -/
def Timestamp.shown (t : Timestamp) : ℤ :=
  daysFromEpoch t.year t.month t.day * 86400 + t.hour * 3600 + t.minute * 60 + t.second

/-- The seconds since the epoch. -/
def Timestamp.epoch (t : Timestamp) : ℤ := t.shown - t.offset * 60

/-- A number of so many digits. -/
structure Field (length : ℕ) (text : List Char) (n : ℕ) : Prop where
  digits : Text.Digits text
  length_eq : text.length = length
  decimal : Text.decimal text = n

/-- `time-secfrac`, if there is any. -/
inductive Fraction : List Char → Prop where
  | none : Fraction []
  | some {digits : List Char} (h : Text.Digits digits) : Fraction ('.' :: digits)

/-- `time-offset`, and the minutes it stands for. -/
inductive Offset : List Char → ℤ → Prop where
  | utc {c : Char} (h : c = 'Z' ∨ c = 'z') : Offset [c] 0
  | ahead {hour minute : List Char} {h m : ℕ} (hhour : Field 2 hour h) (hlt : h < 24) (hminute : Field 2 minute m)
    (hlt' : m < 60) : Offset ('+' :: (hour ++ ':' :: minute)) (h * 60 + m)
  | behind {hour minute : List Char} {h m : ℕ} (hhour : Field 2 hour h) (hlt : h < 24) (hminute : Field 2 minute m)
    (hlt' : m < 60) : Offset ('-' :: (hour ++ ':' :: minute)) (-(h * 60 + m))

/-- **A text of RFC 3339** (`date-time`) and what it says. -/
inductive Rfc3339 : List Char → Timestamp → Prop where
  | intro {t : Timestamp} {year month day hour minute second fraction offset : List Char} {mark : Char}
    (hvalid : t.Valid) (hyear : Field 4 year t.year) (hmonth : Field 2 month t.month) (hday : Field 2 day t.day)
    (hmark : mark = 'T' ∨ mark = 't') (hhour : Field 2 hour t.hour) (hminute : Field 2 minute t.minute)
    (hsecond : Field 2 second t.second) (hfraction : Fraction fraction) (hoffset : Offset offset t.offset) :
    Rfc3339 (year ++ '-' :: (month ++ '-' :: (day ++ mark :: (hour ++ ':' :: (minute ++ ':' :: (second ++
      (fraction ++ offset))))))) t

/-- **What reading a text is to give**: the seconds of a timestamp, and nothing for any other text. -/
structure ReadExactly (text : String) : Prop where
  timestamp : ∀ t, Rfc3339 text.toList t → parseEpoch text = some t.epoch
  other : (∀ t, ¬ Rfc3339 text.toList t) → parseEpoch text = none

/-- The checks there are: hyphens and a colon at three places, numbers around these (a sign is one of their
characters), and a month and a day that some month has. -/
structure Legible (bytes : List UInt8) : Prop where
  length_le : 19 ≤ bytes.length
  hyphen : bytes[4]? = some 45
  hyphen' : bytes[7]? = some 45
  colon : bytes[13]? = some 58
  year : (parseI64 (bytes.take 4)).isSome
  month : ∃ month, parseI64 ((bytes.drop 5).take 2) = some month ∧ 1 ≤ month ∧ month ≤ 12
  day : ∃ day, parseI64 ((bytes.drop 8).take 2) = some day ∧ 1 ≤ day ∧ day ≤ 31
  hour : (parseI64 ((bytes.drop 11).take 2)).isSome
  minute : (parseI64 ((bytes.drop 14).take 2)).isSome
  second : (parseI64 ((bytes.drop 17).take 2)).isSome

/-! ### Bytes of a text -/

theorem toList_loop (bs : ByteArray) (i : ℕ) (r : List UInt8) :
    ByteArray.toList.loop bs i r = r.reverse ++ bs.data.toList.drop i := by
  fun_induction ByteArray.toList.loop bs i r with
  | case1 i r hlt ih =>
    have hi : i < bs.data.toList.length := by simpa using hlt
    have hbyte : bs.get! i = bs.data.toList[i] := by
      rw [ByteArray.get!, getElem!_pos bs.data i (by simpa using hlt), Array.getElem_toList]
    rw [ih, List.drop_eq_getElem_cons hi, List.reverse_cons, List.append_assoc, hbyte]
    rfl
  | case2 i r hge => rw [List.drop_eq_nil_of_le (by simpa using hge), List.append_nil]

theorem toUTF8_toList (text : String) : text.toUTF8.toList = text.toList.flatMap String.utf8EncodeChar := by
  rw [← Identity.WebAuthn.utf8Bytes_ofList, String.ofList_toList]
  exact toList_loop _ _ _

section

variable {text : List Char} {length n : ℕ} {Y M D H Mi S rest : List UInt8} {b b' : UInt8}
  {year month day hour minute second : ℤ}

theorem utf8EncodeChar_digit {c : Char} (h : Text.isAsciiDigit c = true) :
    String.utf8EncodeChar c = [UInt8.ofNat c.toNat] := by
  have hc := Text.isAsciiDigit_toNat h
  refine String.utf8EncodeChar_eq_singleton (Char.utf8Size_eq_one_iff.mpr (UInt32.le_iff_toNat_le.mpr ?_))
  exact hc.2.trans (by decide)

theorem flatMap_digits (h : Text.Digits text) :
    text.flatMap String.utf8EncodeChar = text.map fun c => UInt8.ofNat c.toNat := by
  have hall := h.2
  clear h
  induction text with
  | nil => rfl
  | cons c text ih =>
    rw [List.forall_mem_cons] at hall
    rw [List.flatMap_cons, utf8EncodeChar_digit hall.1, ih hall.2]
    rfl

theorem foldl_digits (hall : ∀ c ∈ text, Text.isAsciiDigit c = true) (n : ℕ) :
    (text.map fun c => UInt8.ofNat c.toNat).foldl (fun n byte => n * 10 + (byte.toNat - 48 : ℤ)) n =
      (text.foldl (fun n c => n * 10 + (c.toNat - '0'.toNat)) n : ℕ) := by
  induction text generalizing n with
  | nil => rfl
  | cons c text ih =>
    rw [List.forall_mem_cons] at hall
    have hc := Text.isAsciiDigit_toNat hall.1
    have hstep : (n : ℤ) * 10 + ((UInt8.ofNat c.toNat).toNat - 48 : ℤ) = (n * 10 + (c.toNat - '0'.toNat) : ℕ) := by
      rw [UInt8.toNat_ofNat_of_lt' (show c.toNat < UInt8.size from by have : UInt8.size = 256 := rfl; omega),
        show '0'.toNat = 48 from rfl]
      omega
    rw [List.map_cons, List.foldl_cons, List.foldl_cons, hstep]
    exact ih hall.2 _

theorem parseI64_of_digits {raw : List UInt8} (hne : raw ≠ []) (hall : ∀ byte ∈ raw, 48 ≤ byte ∧ byte ≤ 57) :
    parseI64 raw = some (raw.foldl (fun n byte => n * 10 + (byte.toNat - 48 : ℤ)) 0) := by
  have hsign : ∀ sign : UInt8, sign < 48 → ∀ rest, raw ≠ sign :: rest := by
    rintro sign hsign rest rfl
    exact UInt8.not_le.mpr hsign (hall sign List.mem_cons_self).1
  have hdigits : raw ≠ [] ∧ (raw.all fun byte => 48 ≤ byte && byte ≤ 57) = true :=
    ⟨hne, by simpa using hall⟩
  unfold parseI64
  split
  rename_i negative number hsplit
  split at hsplit
  · exact (hsign 43 (by decide) _ rfl).elim
  · exact (hsign 45 (by decide) _ rfl).elim
  · cases hsplit
    rw [if_pos hdigits]
    rfl

theorem Field.parseI64 (h : Field length text n) : parseI64 (text.flatMap String.utf8EncodeChar) = some (n : ℤ) := by
  obtain ⟨hdigits, -, rfl⟩ := h
  rw [flatMap_digits hdigits, parseI64_of_digits (by simpa using hdigits.1)]
  · exact congrArg some (foldl_digits hdigits.2 0)
  · intro byte hbyte
    obtain ⟨c, hc, rfl⟩ := List.mem_map.mp hbyte
    have hrange := Text.isAsciiDigit_toNat (hdigits.2 c hc)
    rw [UInt8.le_iff_toNat_le, UInt8.le_iff_toNat_le,
      UInt8.toNat_ofNat_of_lt' (show c.toNat < UInt8.size from by have : UInt8.size = 256 := rfl; omega)]
    exact hrange

theorem Field.length_bytes (h : Field length text n) : (text.flatMap String.utf8EncodeChar).length = length := by
  rw [flatMap_digits h.digits, List.length_map, h.length_eq]

/-- **What is read.** -/
theorem parseEpoch_eq_some {text : String} {v : ℤ} : parseEpoch text = some v ↔
    (19 ≤ text.toUTF8.toList.length ∧ text.toUTF8.toList[4]? = some 45 ∧ text.toUTF8.toList[7]? = some 45 ∧
      text.toUTF8.toList[13]? = some 58) ∧
    ∃ year, Backup.parseI64 (text.toUTF8.toList.take 4) = some year ∧
    ∃ month, Backup.parseI64 ((text.toUTF8.toList.drop 5).take 2) = some month ∧
    ∃ day, Backup.parseI64 ((text.toUTF8.toList.drop 8).take 2) = some day ∧
    ∃ hour, Backup.parseI64 ((text.toUTF8.toList.drop 11).take 2) = some hour ∧
    ∃ minute, Backup.parseI64 ((text.toUTF8.toList.drop 14).take 2) = some minute ∧
    ∃ second, Backup.parseI64 ((text.toUTF8.toList.drop 17).take 2) = some second ∧
    (1 ≤ month ∧ month ≤ 12 ∧ 1 ≤ day ∧ day ≤ 31) ∧
      daysFromCivil year month.toNat day.toNat * 86400 + hour * 3600 + minute * 60 + second = v := by
  have hguard : ∀ (p : Prop) [Decidable p] (u : Unit), (guard p : Option Unit) = some u ↔ p := by
    intro p _ u
    by_cases hp : p <;> simp [guard, hp]
  simp only [parseEpoch, Option.bind_eq_bind, Option.bind_eq_some_iff, hguard, exists_const, Option.pure_def,
    Option.some.injEq]

theorem legible_iff {text : String} : Legible text.toUTF8.toList ↔ ∃ v, parseEpoch text = some v := by
  constructor
  · intro h
    obtain ⟨year, hyear⟩ := Option.isSome_iff_exists.mp h.year
    obtain ⟨month, hmonth, hlow, hhigh⟩ := h.month
    obtain ⟨day, hday, hlow', hhigh'⟩ := h.day
    obtain ⟨hour, hhour⟩ := Option.isSome_iff_exists.mp h.hour
    obtain ⟨minute, hminute⟩ := Option.isSome_iff_exists.mp h.minute
    obtain ⟨second, hsecond⟩ := Option.isSome_iff_exists.mp h.second
    exact ⟨_, parseEpoch_eq_some.mpr ⟨⟨h.length_le, h.hyphen, h.hyphen', h.colon⟩, year, hyear, month, hmonth, day,
      hday, hour, hhour, minute, hminute, second, hsecond, ⟨hlow, hhigh, hlow', hhigh'⟩, rfl⟩⟩
  · rintro ⟨v, hv⟩
    obtain ⟨⟨hlength, hhyphen, hhyphen', hcolon⟩, year, hyear, month, hmonth, day, hday, hour, hhour, minute, hminute,
      second, hsecond, ⟨hlow, hhigh, hlow', hhigh'⟩, -⟩ := parseEpoch_eq_some.mp hv
    exact ⟨hlength, hhyphen, hhyphen', hcolon, Option.isSome_of_eq_some hyear, ⟨month, hmonth, hlow, hhigh⟩,
      ⟨day, hday, hlow', hhigh'⟩,
      Option.isSome_of_eq_some hhour, Option.isSome_of_eq_some hminute, Option.isSome_of_eq_some hsecond⟩

/-- **What is read** of bytes in which the fields stand. -/
theorem parseEpoch_of_bytes {text : String}
    (hbytes : text.toUTF8.toList = Y ++ 45 :: (M ++ 45 :: (D ++ b :: (H ++ 58 :: (Mi ++ b' :: (S ++ rest))))))
    (hlengths : Y.length = 4 ∧ M.length = 2 ∧ D.length = 2 ∧ H.length = 2 ∧ Mi.length = 2 ∧ S.length = 2)
    (hyear : Backup.parseI64 Y = some year) (hmonth : Backup.parseI64 M = some month)
    (hday : Backup.parseI64 D = some day) (hhour : Backup.parseI64 H = some hour)
    (hminute : Backup.parseI64 Mi = some minute) (hsecond : Backup.parseI64 S = some second)
    (hrange : 1 ≤ month ∧ month ≤ 12 ∧ 1 ≤ day ∧ day ≤ 31) :
    parseEpoch text =
      some (daysFromCivil year month.toNat day.toNat * 86400 + hour * 3600 + minute * 60 + second) := by
  obtain ⟨hY, hM, hD, hH, hMi, hS⟩ := hlengths
  match Y, hY, M, hM, D, hD, H, hH, Mi, hMi, S, hS with
  | [y₁, y₂, y₃, y₄], _, [m₁, m₂], _, [d₁, d₂], _, [h₁, h₂], _, [i₁, i₂], _, [s₁, s₂], _ =>
    rw [parseEpoch_eq_some, hbytes]
    exact ⟨⟨by simp, rfl, rfl, rfl⟩, year, hyear, month, hmonth, day, hday, hour, hhour, minute,
      hminute, second, hsecond,
      hrange, rfl⟩

theorem daysInMonth_le (year : ℤ) (month : ℕ) : daysInMonth year month ≤ 31 := by
  unfold daysInMonth
  split_ifs <;> omega

/-- **Of a timestamp**, what its clock shows is read. -/
theorem parseEpoch_of_rfc3339 {text : String} {t : Timestamp} (h : Rfc3339 text.toList t) :
    parseEpoch text = some t.shown := by
  generalize hchars : text.toList = chars at h
  obtain @⟨_, _, _, _, _, _, _, fraction, offset, mark, hvalid, hyear, hmonth, hday, hmark, hhour, hminute, hsecond,
    -, -⟩ := h
  obtain ⟨hlow, hhigh, hlow', hhigh'⟩ := hvalid.date
  have hday31 := hhigh'.trans (daysInMonth_le _ _)
  obtain ⟨b, hb⟩ : ∃ b, String.utf8EncodeChar mark = [b] := by
    rcases hmark with rfl | rfl
    · exact ⟨84, by decide⟩
    · exact ⟨116, by decide⟩
  have hhyphen : String.utf8EncodeChar '-' = [45] := by decide
  have hcolon : String.utf8EncodeChar ':' = [58] := by decide
  have hbytes := toUTF8_toList text
  rw [hchars] at hbytes
  simp only [List.flatMap_append, List.flatMap_cons, hb, hhyphen, hcolon, List.singleton_append] at hbytes
  rw [parseEpoch_of_bytes hbytes
    ⟨hyear.length_bytes, hmonth.length_bytes, hday.length_bytes, hhour.length_bytes, hminute.length_bytes,
      hsecond.length_bytes⟩
    hyear.parseI64 hmonth.parseI64 hday.parseI64 hhour.parseI64 hminute.parseI64 hsecond.parseI64
    (by omega), Int.toNat_natCast, Int.toNat_natCast, daysFromCivil_eq _ ⟨hlow, hhigh⟩]
  rfl

theorem readExactly_iff {text : String} : ReadExactly text ↔
    (Legible text.toUTF8.toList → ∃ t, Rfc3339 text.toList t) ∧ ∀ t, Rfc3339 text.toList t → t.offset = 0 := by
  constructor
  · rintro ⟨htimestamp, hother⟩
    refine ⟨fun hlegible => ?_, fun t ht => ?_⟩
    · by_contra hnone
      obtain ⟨v, hv⟩ := legible_iff.mp hlegible
      rw [hother (not_exists.mp hnone)] at hv
      cases hv
    · have hshown := (parseEpoch_of_rfc3339 ht).symm.trans (htimestamp t ht)
      rw [Option.some.injEq, Timestamp.epoch] at hshown
      omega
  · rintro ⟨hlegible, hutc⟩
    refine ⟨fun t ht => ?_, fun hnone => ?_⟩
    · rw [parseEpoch_of_rfc3339 ht, Timestamp.epoch, hutc t ht, zero_mul, sub_zero]
    · by_contra hread
      obtain ⟨v, hv⟩ := Option.ne_none_iff_exists'.mp hread
      obtain ⟨t, ht⟩ := hlegible (legible_iff.mpr ⟨v, hv⟩)
      exact hnone t ht

/-- **Days are counted right, and a text is read exactly**, just when it is a timestamp of UTC, or is no
timestamp and does not even pass the checks. -/
theorem parseEpoch_exact_iff (text : String) :
    (ReadExactly text ∧ ∀ date : CivilDate, daysFromCivil date.year date.month date.day = date.days) ↔
      (Legible text.toUTF8.toList → ∃ t, Rfc3339 text.toList t) ∧ ∀ t, Rfc3339 text.toList t → t.offset = 0 := by
  rw [readExactly_iff]
  exact and_iff_left fun date => daysFromCivil_eq _ ⟨date.isDate.1, date.isDate.2.1⟩ _

end

/-! ### A timestamp with an offset -/

/-- Nine in the evening, two hours ahead of UTC. -/
def evening : Timestamp := ⟨2026, 9, 29, 21, 0, 0, 120⟩

theorem rfc3339_evening : Rfc3339 "2026-09-29T21:00:00+02:00".toList evening := by
  have htext : "2026-09-29T21:00:00+02:00".toList = "2026".toList ++ '-' :: ("09".toList ++ '-' :: ("29".toList ++
      'T' :: ("21".toList ++ ':' :: ("00".toList ++ ':' :: ("00".toList ++
        ([] ++ '+' :: ("02".toList ++ ':' :: "00".toList))))))) := by decide +kernel
  have hfield : ∀ (text : List Char) (length n : ℕ),
      Text.Digits text ∧ text.length = length ∧ Text.decimal text = n → Field length text n :=
    fun _ _ _ h => ⟨h.1, h.2.1, h.2.2⟩
  rw [htext]
  exact .intro ⟨by decide, by decide, by decide, by decide⟩ (hfield _ _ _ (by decide)) (hfield _ _ _ (by decide))
    (hfield _ _ _ (by decide)) (.inl rfl) (hfield _ _ _ (by decide)) (hfield _ _ _ (by decide))
    (hfield _ _ _ (by decide)) .none
    (.ahead (hfield _ _ 2 (by decide)) (by decide) (hfield _ _ 0 (by decide)) (by decide))

/-- It is read as nine in the evening of UTC. -/
theorem offset_ignored : ¬ (ReadExactly "2026-09-29T21:00:00+02:00" ∧
    ∀ date : CivilDate, daysFromCivil date.year date.month date.day = date.days) := by
  rintro ⟨h, -⟩
  have hshown := (parseEpoch_of_rfc3339 rfc3339_evening).symm.trans (h.timestamp evening rfc3339_evening)
  rw [Option.some.injEq, Timestamp.epoch] at hshown
  exact absurd hshown (by decide)

end Omnion.Backup
