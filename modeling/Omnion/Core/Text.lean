import Mathlib.Data.List.DropRight
import Omnion.Library.Search

/-!
# Identifiers, instants and text

The values every crate of the platform shares: row identifiers, instants and
durations, and the few text functions of the standard library the modelled code
calls.
-/

namespace Omnion

/-- A row identifier (`uuid::Uuid`). The code only stores and compares them. -/
abbrev Uuid := ℕ

/-- The texts of identifiers: what `Uuid::parse_str` reads and `to_string` prints. -/
structure UuidText where
  parse : String → Option Uuid
  print : Uuid → String

/-- An instant, in microseconds since the Unix epoch, as a `timestamptz` column
keeps it. -/
abbrev Instant := ℤ

/-- A `time::Duration`, in nanoseconds. -/
abbrev Duration := ℤ

namespace Time

/-- `Duration::seconds`. -/
def seconds (n : ℤ) : Duration := n * 1000000000

/-- `Duration::milliseconds`. -/
def milliseconds (n : ℤ) : Duration := n * 1000000

/-- `Duration::whole_seconds`. -/
def wholeSeconds (d : Duration) : ℤ := Int.tdiv d 1000000000

/-- `Duration::whole_milliseconds`. -/
def wholeMilliseconds (d : Duration) : ℤ := Int.tdiv d 1000000

/-- The instant a duration after another. -/
def after (t : Instant) (d : Duration) : Instant := t + Int.tdiv d 1000

theorem after_seconds (t : Instant) (n : ℤ) : after t (seconds n) = t + n * 1000000 := by
  have h : Int.tdiv (n * 1000000000) 1000 = n * 1000000 := by
    rw [show n * 1000000000 = n * 1000000 * 1000 by omega]
    exact Int.mul_tdiv_cancel _ (by decide)
  rw [after, seconds, h]

end Time

namespace Text

/-- The characters with the Unicode property `White_Space`, which `str::trim`
removes. -/
def isWhitespace (c : Char) : Bool :=
  let n := c.toNat
  (9 ≤ n && n ≤ 13) || n == 0x20 || n == 0x85 || n == 0xA0 || n == 0x1680 ||
    (0x2000 ≤ n && n ≤ 0x200A) || n == 0x2028 || n == 0x2029 || n == 0x202F || n == 0x205F ||
    n == 0x3000

/-- `str::trim`. -/
def trim (s : String) : String :=
  String.ofList ((s.toList.dropWhile isWhitespace).rdropWhile isWhitespace)

theorem trim_trim (s : String) : trim (trim s) = trim s := by
  -- What is trimmed on the left still is after trimming on the right: it begins with the same character.
  have hleft : ∀ l : List Char, l.dropWhile isWhitespace = l →
      (l.rdropWhile isWhitespace).dropWhile isWhitespace = l.rdropWhile isWhitespace := by
    intro l hl
    rw [List.dropWhile_eq_self_iff] at hl ⊢
    intro hne
    have hbegins := List.rdropWhile_prefix isWhitespace l
    rw [hbegins.getElem hne]
    exact hl (hne.trans_le hbegins.length_le)
  simp only [trim, String.toList_ofList]
  rw [hleft _ (List.dropWhile_idempotent _ _), List.rdropWhile_idempotent]

theorem ofList_ne {l l' : List Char} (h : l ≠ l') : String.ofList l ≠ String.ofList l' := String.ofList_inj.not.mpr h

theorem trim_eq_empty {l : List Char} :
    trim (String.ofList l) = "" ↔ ∀ c ∈ l, isWhitespace c = true := by
  have hhead : ∀ l : List Char,
      (∀ c ∈ l.dropWhile isWhitespace, isWhitespace c = true) ↔ l.dropWhile isWhitespace = [] := by
    intro l
    constructor
    · intro h
      by_contra hne
      exact absurd (h _ (List.head_mem hne)) (by simp [List.head_dropWhile_not])
    · intro h c hc
      rw [h] at hc
      cases hc
  have hempty : ∀ l : List Char, String.ofList l = "" ↔ l = [] := fun l => by
    rw [show ("" : String) = String.ofList [] from rfl, String.ofList_inj]
  rw [trim, String.toList_ofList, hempty, List.rdropWhile_eq_nil_iff, hhead, List.dropWhile_eq_nil_iff]

theorem trim_eq_self_iff {l : List Char} :
    trim (String.ofList l) = String.ofList l ↔ l.dropWhile isWhitespace = l ∧ l.rdropWhile isWhitespace = l := by
  rw [trim, String.ofList_inj, String.toList_ofList]
  constructor
  · intro h
    have hlength : l.length ≤ (l.dropWhile isWhitespace).length := by
      conv_lhs => rw [← h]
      exact (List.rdropWhile_prefix isWhitespace _).length_le
    have hleft := (List.dropWhile_suffix isWhitespace).eq_of_length_le hlength
    rw [hleft] at h
    exact ⟨hleft, h⟩
  · rintro ⟨hleft, hright⟩
    rw [hleft, hright]

/-- `str::split_once`: what is before and after the first occurrence of a pattern. -/
def splitOnce (pat : List Char) : List Char → Option (List Char × List Char)
  | [] => if pat = [] then some ([], []) else none
  | c :: rest =>
    if pat.isPrefixOf (c :: rest) then some ([], (c :: rest).drop pat.length)
    else (splitOnce pat rest).map fun (before, after) => (c :: before, after)

theorem splitOnce_eq_append {pat text before after : List Char}
    (h : splitOnce pat text = some (before, after)) :
    text = before ++ pat ++ after := by
  induction text generalizing before with
  | nil =>
    simp only [splitOnce, Option.ite_none_right_eq_some, Option.some.injEq, Prod.mk.injEq] at h
    obtain ⟨rfl, rfl, rfl⟩ := h
    rfl
  | cons c rest ih =>
    rw [splitOnce] at h
    split_ifs at h with hpre
    · cases h
      rw [List.nil_append]
      exact (List.prefix_iff_eq_append.mp (List.isPrefixOf_iff_prefix.mp hpre)).symm
    · obtain ⟨⟨before', after'⟩, hsplit, heq⟩ := Option.map_eq_some_iff.mp h
      cases heq
      rw [ih hsplit]
      rfl

theorem splitOnce_eq_find {pat : List Char} (hpat : pat ≠ []) (text : List Char) :
    splitOnce pat text = (Search.find pat text).map fun n => (text.take n, text.drop (n + pat.length)) := by
  induction text with
  | nil => simp [splitOnce, Search.find, hpat]
  | cons c rest ih =>
    rw [splitOnce, Search.find]
    split_ifs with hpre
    · simp
    · rw [ih, Option.map_map, Option.map_map]
      refine congrArg (Option.map · _) (funext fun n => ?_)
      simp [Nat.add_right_comm]

theorem splitOnce_append {pat before : List Char} (hpat : pat ≠ []) (hfirst : Search.First pat before)
    (after : List Char) :
    splitOnce pat (before ++ (pat ++ after)) = some (before, after) := by
  rw [splitOnce_eq_find hpat, Search.find_append hpat hfirst]
  simp

theorem splitOnce_eq_none_iff {pat text : List Char} (hpat : pat ≠ []) : splitOnce pat text = none ↔
    ¬ pat <:+: text := by
  rw [splitOnce_eq_find hpat, Option.map_eq_none_iff, Search.find_eq_none_iff]

theorem first_of_splitOnce {pat text before after : List Char} (hpat : pat ≠ [])
    (h : splitOnce pat text = some (before, after)) : Search.First pat before := by
  rw [splitOnce_eq_find hpat] at h
  obtain ⟨n, hn, heq⟩ := Option.map_eq_some_iff.mp h
  cases heq
  obtain ⟨before, after, rfl, rfl, hfirst⟩ := Search.exists_of_find hpat hn
  simpa using hfirst

theorem splitOnce_singleton_eq_some_iff {mark : Char} {text before after : List Char} :
    splitOnce [mark] text = some (before, after) ↔ text = before ++ mark :: after ∧ mark ∉ before := by
  have hfirst : ∀ before, Search.First [mark] before ↔ mark ∉ before := by
    intro before
    rw [Search.First, List.dropLast_concat, List.singleton_infix_iff]
  constructor
  · intro h
    refine ⟨?_, (hfirst _).mp (first_of_splitOnce (by simp) h)⟩
    simpa using splitOnce_eq_append h
  · rintro ⟨rfl, hnot⟩
    exact splitOnce_append (by simp) ((hfirst _).mpr hnot) after

theorem splitOnce_singleton_eq_none_iff {mark : Char} {text : List Char} :
    splitOnce [mark] text = none ↔ mark ∉ text := by
  rw [splitOnce_eq_none_iff (by simp), List.singleton_infix_iff]

/-- `str::rsplit_once`: what is before and after the last occurrence of a character. -/
def rsplitOnce (mark : Char) (text : List Char) : Option (List Char × List Char) :=
  (splitOnce [mark] text.reverse).map fun (after, before) => (before.reverse, after.reverse)

theorem rsplitOnce_append {mark : Char} {after : List Char} (hafter : mark ∉ after) (before : List Char) :
    rsplitOnce mark (before ++ mark :: after) = some (before, after) := by
  have hsplit : splitOnce [mark] (before ++ mark :: after).reverse = some (after.reverse, before.reverse) := by
    refine splitOnce_singleton_eq_some_iff.mpr ⟨by simp, by simpa using hafter⟩
  rw [rsplitOnce, hsplit]
  simp

/-- `str::eq_ignore_ascii_case`. -/
def eqIgnoreAsciiCase (text other : List Char) : Bool := text.map Char.toLower == other.map Char.toLower

/-- The hexadecimal digits of a number, in lower case. -/
def hex (n : ℕ) : String := String.ofList (Nat.toDigits 16 n)

/-- A number with zeros before it, to a width. -/
def pad (width n : ℕ) : String :=
  let digits := Nat.toDigits 10 n
  String.ofList (List.replicate (width - digits.length) '0' ++ digits)

theorem digit_of_mem_pad {width n : ℕ} {c : Char} (h : c ∈ (pad width n).toList) : c.isDigit = true := by
  rw [pad, String.toList_ofList] at h
  rcases List.mem_append.mp h with h | h
  · rw [List.eq_of_mem_replicate h]
    decide
  · exact Nat.isDigit_of_mem_toDigits (by decide) (by decide) h

/-- A string as `{:?}` shows it, in quotes. Beside the characters escaped here, Rust also
escapes combining marks and characters it knows no glyph of; these are left as they are. -/
def debug (s : String) : String :=
  let escaped := s.toList.flatMap fun c =>
    if c.toNat = 0 then ['\\', '0']
    else if c = '\t' then ['\\', 't']
    else if c = '\r' then ['\\', 'r']
    else if c = '\n' then ['\\', 'n']
    else if c = '"' then ['\\', '"']
    else if c = '\\' then ['\\', '\\']
    else if c.toNat < 0x20 ∨ (0x7f ≤ c.toNat ∧ c.toNat < 0xa0) then
      ['\\', 'u', '\x7b'] ++ (hex c.toNat).toList ++ ['\x7d']
    else [c]
  String.ofList ('"' :: (escaped ++ ['"']))

/-- `char::is_ascii_lowercase`. -/
def isAsciiLowercase (c : Char) : Bool := 'a' ≤ c && c ≤ 'z'

/-- `char::is_ascii_digit`. -/
def isAsciiDigit (c : Char) : Bool := '0' ≤ c && c ≤ '9'

/-- The lower case of a character, as far as it can be ASCII: of all characters
only `A`–`Z` and U+212A (the Kelvin sign) have an ASCII lower case. Others are
left as they are, and stay outside ASCII as their lower case does. -/
def lower (c : Char) : Char :=
  if 'A' ≤ c && c ≤ 'Z' then Char.ofNat (c.toNat + 32)
  else if c.toNat == 0x212A then 'k'
  else c

/-- `str::to_lowercase`, up to the non-ASCII characters `lower` leaves alone. -/
def toLowercase (s : String) : String := String.ofList (s.toList.map lower)

end Text

end Omnion
